import Mathlib
import PostfixSheet.Proofs.Table.EncodedRecords
import PostfixSheet.Proofs.Table.Placement
import PostfixSheet.Proofs.Text.TextBytes

/-! Without an escape byte, the line breaks that lie inside a record are those inside its fields. So the
line of a record is determined by the fields and the blank lines in front of it. -/

namespace PostfixSheet

def RawRecord.fieldBreaks (raw : RawRecord) : Nat :=
  (raw.fields.map lineBreaks).sum

def Record.fieldBreaks (record : Record) : Nat :=
  (record.fields.map fun text => lineBreaks (encodeText text)).sum

theorem isLineBreak_utf8EncodeChar (character : Char) (notFeed : character ≠ '\n')
    (notReturn : character ≠ '\r') :
    ∀ byte ∈ String.utf8EncodeChar character, isLineBreak byte = false := by
  intro byte member
  rcases utf8EncodeChar_cases character with ⟨only, code, _, single⟩ | high
  · rw [single, List.mem_singleton] at member
    rw [← Bool.not_eq_true, isLineBreak_iff, member]
    rintro (rfl | rfl)
    · exact notReturn (Char.toNat_inj.mp code.symm)
    · exact notFeed (Char.toNat_inj.mp code.symm)
  · exact isLineBreak_of_high byte (high byte member)

theorem lineBreaks_encodeText_eq_zero (text : String)
    (single : ∀ character ∈ text.toList, character ≠ '\n' ∧ character ≠ '\r') :
    lineBreaks (encodeText text) = 0 := by
  apply lineBreaks_eq_zero
  intro byte member
  obtain ⟨character, inside, belongs⟩ := List.mem_flatMap.mp member
  exact isLineBreak_utf8EncodeChar character (single character inside).1 (single character inside).2
    byte belongs

theorem encodeChars_feeds (count : Nat) :
    encodeChars (List.replicate count '\n') = List.replicate count lineFeed := by
  induction count with
  | zero => rfl
  | succ count ih =>
      rw [List.replicate_succ, List.replicate_succ, ← ih]
      rfl

theorem dropWhile_concat (bytes : List UInt8) (byte : UInt8)
    (begun : bytes.dropWhile isLineBreak = [] → isLineBreak byte = false) :
    (bytes ++ [byte]).dropWhile isLineBreak = bytes.dropWhile isLineBreak ++ [byte] := by
  rw [List.dropWhile_append]
  split
  · rename_i blank
    have nothing := List.isEmpty_iff.mp blank
    simp [nothing, begun nothing]
  · rfl

namespace OpenRecord

def body (record : OpenRecord) : List UInt8 :=
  record.source.reverse.dropWhile isLineBreak

def fieldBreaks (record : OpenRecord) : Nat :=
  (record.fields.map lineBreaks).sum + lineBreaks record.field.reverse

structure Balanced (marked : Prop) (record : OpenRecord) : Prop where
  lower : record.fieldBreaks ≤ lineBreaks record.body
  upper : ¬marked → lineBreaks record.body ≤ record.fieldBreaks
  skipped : ¬marked → record.state = .recordStart → record.body = []
  begun : record.state ≠ .recordStart → record.body ≠ []
  fresh : record.state = .recordStart ∨ record.state = .fieldStart → record.field = []
  unescaped : record.state ≠ .escaped
  quoted : record.state = .quoted →
    (record.body.getLast? = some carriageReturn ↔ record.field.head? = some carriageReturn)
  unquoted : record.state ≠ .recordStart → record.state ≠ .quoted →
    ∃ last, record.body.getLast? = some last ∧ isLineBreak last = false

theorem balanced_start (mark : List UInt8) (inside : ∀ byte ∈ mark, isLineBreak byte = false) :
    Balanced (mark ≠ []) { source := mark.reverse } := by
  have noBreaks := lineBreaks_eq_zero mark inside
  have whole : mark.dropWhile isLineBreak = mark := by
    cases mark with
    | nil => rfl
    | cons byte rest => simp [inside byte (by simp)]
  constructor
  · simp [fieldBreaks, lineBreaks_nil]
  · simp [body, whole, noBreaks]
  · simp [body, whole]
  · simp
  · simp
  · simp
  · simp
  · simp

theorem close_fieldBreaks (record : OpenRecord) :
    record.close.fieldBreaks = record.fieldBreaks := by
  simp [RawRecord.fieldBreaks, fieldBreaks, close, List.sum_reverse]

theorem close_body (record : OpenRecord) : record.close.body = record.body := rfl

section Absorb

variable (record : OpenRecord) (byte : UInt8) (step : ScanState × ScanEffect)

theorem absorb_body (begun : record.body = [] → isLineBreak byte = false) :
    (record.absorb byte step).body = record.body ++ [byte] := by
  simp only [body, absorb, List.reverse_cons]
  exact dropWhile_concat _ byte begun

theorem absorb_fieldBreaks (inside : isLineBreak byte = false) :
    (record.absorb byte step).fieldBreaks = record.fieldBreaks := by
  simp only [fieldBreaks, absorb]
  cases step.2 with
  | drop => rfl
  | keep => rw [List.reverse_cons, lineBreaks_concat_inside _ byte inside]
  | endField =>
      simp only [List.map_cons, List.sum_cons, List.reverse_nil, lineBreaks_nil]
      omega
  | endRecord => rfl

variable {record} {marked : Prop} (balanced : record.Balanced marked)

include balanced

theorem Balanced.absorb_inside (inside : isLineBreak byte = false) (started : step.1 ≠ .recordStart)
    (unescaped : step.1 ≠ .escaped)
    (fresh : step.1 = .fieldStart → (record.absorb byte step).field = [])
    (quoted : step.1 = .quoted → (record.absorb byte step).field.head? ≠ some carriageReturn) :
    (record.absorb byte step).Balanced marked := by
  have grown := absorb_body record byte step fun _ => inside
  have breaks := lineBreaks_concat_inside record.body byte inside
  have kept := absorb_fieldBreaks record byte step inside
  constructor
  · rw [grown, breaks, kept]
    exact balanced.lower
  · rw [grown, breaks, kept]
    exact balanced.upper
  · exact fun _ atStart => (started atStart).elim
  · simp [grown]
  · exact fun atStart => fresh (atStart.resolve_left started)
  · exact unescaped
  · intro within
    have notReturn := ne_carriageReturn byte inside
    simp [grown, notReturn, quoted within]
  · exact fun _ _ => ⟨byte, by simp [grown], inside⟩

theorem Balanced.absorb_quoted (inside : record.state = .quoted) :
    (record.absorb byte (.quoted, .keep)).Balanced marked := by
  have started : record.state ≠ .recordStart := by simp [inside]
  have grown := absorb_body record byte (.quoted, .keep)
    fun blank => (balanced.begun started blank).elim
  have ends := balanced.quoted inside
  rw [← List.getLast?_reverse] at ends
  have kept : lineBreaks (record.absorb byte (.quoted, .keep)).body + record.fieldBreaks =
      lineBreaks record.body + (record.absorb byte (.quoted, .keep)).fieldBreaks := by
    rw [grown]
    simp only [fieldBreaks, absorb, List.reverse_cons, lineBreaks_concat, ne_eq, ends]
    omega
  have lower := balanced.lower
  have upper := balanced.upper
  constructor
  · omega
  · intro unmarked
    have := upper unmarked
    omega
  · simp [absorb]
  · simp [grown]
  · simp [absorb]
  · simp [absorb]
  · rw [grown]
    simp [absorb]
  · simp [absorb]

theorem Balanced.sip (atStart : record.state = .recordStart) (isBreak : isLineBreak byte = true) :
    (record.sip byte).Balanced marked := by
  have split : (record.sip byte).body =
      if record.body.isEmpty then [] else record.body ++ [byte] := by
    simp only [body, OpenRecord.sip, List.reverse_cons, List.dropWhile_append]
    simp [isBreak]
  have grows : lineBreaks record.body ≤ lineBreaks (record.sip byte).body := by
    rw [split]
    split
    · rename_i blank
      rw [List.isEmpty_iff.mp blank]
    · exact lineBreaks_le_append _ _
  have blank : ¬marked → (record.sip byte).body = [] := by
    intro unmarked
    simp [split, balanced.skipped unmarked atStart]
  constructor
  · exact Nat.le_trans balanced.lower grows
  · intro unmarked
    simp [blank unmarked, lineBreaks_nil]
  · exact fun unmarked _ => blank unmarked
  · exact fun started => (started atStart).elim
  · exact balanced.fresh
  · exact balanced.unescaped
  · simp [OpenRecord.sip, atStart]
  · exact fun started => (started atStart).elim

theorem Balanced.sip_lineBreaks (started : record.state ≠ .recordStart)
    (isBreak : isLineBreak byte = true) (outside : record.state ≠ .quoted) :
    lineBreaks (record.sip byte).body = lineBreaks record.body + 1 := by
  obtain ⟨last, ends, inside⟩ := balanced.unquoted started outside
  have grown := absorb_body record byte (.recordStart, .drop)
    fun blank => (balanced.begun started blank).elim
  rw [← lineBreaks_concat_break record.body byte last isBreak ends inside, ← grown]
  rfl

end Absorb

end OpenRecord

section Scanning

variable {dialect : Dialect} (doubling : dialect.Doubling)

include doubling

theorem scan_read_cases (state : ScanState) (byte : UInt8) (unescaped : state ≠ .escaped)
    (content : state = .recordStart → isLineBreak byte = false)
    (read : (dialect.scan state byte).2 ≠ .endRecord) :
    (state = .quoted ∧ dialect.scan state byte = (.quoted, .keep)) ∨
      isLineBreak byte = false ∧
        (dialect.scan state byte = (.afterQuote, .drop) ∨
          ((state = .recordStart ∨ state = .fieldStart) ∧
            dialect.scan state byte = (.quoted, .drop)) ∨
          dialect.scan state byte = (.quoted, .keep) ∨
          dialect.scan state byte = (.unquoted, .keep) ∨
          dialect.scan state byte = (.fieldStart, .endField)) := by
  have unquoted : (dialect.scanUnquoted byte).2 ≠ .endRecord → isLineBreak byte = false ∧
      (dialect.scanUnquoted byte = (.unquoted, .keep) ∨
        dialect.scanUnquoted byte = (.fieldStart, .endField)) := by
    simp only [Dialect.scanUnquoted]
    split
    · rename_i isDelimiter
      simp [isDelimiter, doubling.delimiterInside]
    · split
      · simp
      · simp_all
  have fieldStart : (dialect.scanFieldStart byte).2 ≠ .endRecord → isLineBreak byte = false ∧
      (dialect.scanFieldStart byte = (.quoted, .drop) ∨
        dialect.scanFieldStart byte = (.unquoted, .keep) ∨
        dialect.scanFieldStart byte = (.fieldStart, .endField)) := by
    simp only [Dialect.scanFieldStart]
    split
    · rename_i isQuote
      simp [isQuote, doubling.quoteInside]
    · intro ended
      exact ⟨(unquoted ended).1, Or.inr (unquoted ended).2⟩
  cases state with
  | recordStart =>
      have step : dialect.scan .recordStart byte = dialect.scanFieldStart byte := by
        simp [Dialect.scan, content rfl]
      rw [step] at read ⊢
      obtain ⟨inside, next⟩ := fieldStart read
      rcases next with next | next | next <;> simp [inside, next]
  | fieldStart =>
      obtain ⟨inside, next⟩ := fieldStart read
      rcases next with next | next | next <;> simp [Dialect.scan, inside, next]
  | unquoted =>
      obtain ⟨inside, next⟩ := unquoted read
      rcases next with next | next <;> simp [Dialect.scan, inside, next]
  | quoted =>
      by_cases isQuote : byte = dialect.quote
      · simp [Dialect.scan, isQuote, doubling.quoteInside]
      · simp [Dialect.scan, isQuote, doubling.unescaped]
  | escaped => exact (unescaped rfl).elim
  | afterQuote =>
      by_cases isQuote : byte = dialect.quote
      · simp [Dialect.scan, isQuote, doubling.quoteInside, doubling.unescaped]
      · have step : dialect.scan .afterQuote byte = dialect.scanUnquoted byte := by
          simp [Dialect.scan, isQuote]
        rw [step] at read ⊢
        obtain ⟨inside, next⟩ := unquoted read
        rcases next with next | next <;> simp [inside, next]

theorem ne_quoted_of_endRecord (state : ScanState) (byte : UInt8)
    (ended : dialect.scan state byte = (.recordStart, .endRecord)) : state ≠ .quoted := by
  intro inside
  rw [inside] at ended
  by_cases isQuote : byte = dialect.quote
  · simp [Dialect.scan, isQuote] at ended
  · simp [Dialect.scan, isQuote, doubling.unescaped] at ended

theorem OpenRecord.Balanced.absorb {marked : Prop} {record : OpenRecord}
    (balanced : record.Balanced marked) (byte : UInt8)
    (content : record.state = .recordStart → isLineBreak byte = false)
    (read : (dialect.scan record.state byte).2 ≠ .endRecord) :
    (record.absorb byte (dialect.scan record.state byte)).Balanced marked := by
  rcases scan_read_cases doubling record.state byte balanced.unescaped content read with
    ⟨inside, step⟩ | ⟨inside, step⟩
  · rw [step]
    exact balanced.absorb_quoted byte inside
  · have notReturn := ne_carriageReturn byte inside
    rcases step with closed | ⟨opened, step⟩ | doubled | plain | ended
    · rw [closed]
      exact balanced.absorb_inside byte _ inside (by simp) (by simp) (by simp) (by simp)
    · rw [step]
      have empty := balanced.fresh opened
      exact balanced.absorb_inside byte _ inside (by simp) (by simp) (by simp)
        (by simp [OpenRecord.absorb, empty])
    · rw [doubled]
      exact balanced.absorb_inside byte _ inside (by simp) (by simp) (by simp)
        (by simp [OpenRecord.absorb, notReturn])
    · rw [plain]
      exact balanced.absorb_inside byte _ inside (by simp) (by simp) (by simp) (by simp)
    · rw [ended]
      exact balanced.absorb_inside byte _ inside (by simp) (by simp) (by simp [OpenRecord.absorb])
        (by simp)

theorem scanRecords_fieldBreaks (marked : Prop) (record : OpenRecord)
    (balanced : record.Balanced marked) (bytes : List UInt8) (before after : List RawRecord)
    (raw : RawRecord) (found : (scanRecords dialect record bytes).1 = before ++ raw :: after) :
    (after ≠ [] → raw.fieldBreaks + 1 ≤ lineBreaks raw.body) ∧
      (¬marked → lineBreaks raw.body ≤ raw.fieldBreaks + 1) := by
  induction bytes generalizing marked record before with
  | nil =>
      simp only [scanRecords] at found
      split at found
      · simp at found
      · have ended : before = [] ∧ record.close = raw ∧ after = [] := by
          cases before <;> simp_all
        obtain ⟨_, rfl, rfl⟩ := ended
        refine ⟨fun more => (more rfl).elim, fun unmarked => ?_⟩
        have upper := balanced.upper unmarked
        rw [record.close_body, record.close_fieldBreaks]
        omega
  | cons byte rest ih =>
      rcases scan_cases dialect record.state byte with
        ⟨atStart, isBreak, step⟩ | ⟨started, isBreak, step⟩ | ⟨content, _, read⟩
      · rw [scanRecords_skip dialect record byte rest step atStart] at found
        exact ih _ _ (balanced.sip byte atStart isBreak) before found
      · rw [scanRecords_finish dialect record byte rest step] at found
        cases before with
        | nil =>
            obtain ⟨rfl, _⟩ := List.cons.inj found
            rw [(record.sip byte).close_body, (record.sip byte).close_fieldBreaks,
              balanced.sip_lineBreaks byte started isBreak
                (ne_quoted_of_endRecord doubling _ _ step)]
            exact ⟨fun _ => Nat.add_le_add_right balanced.lower 1,
              fun unmarked => Nat.add_le_add_right (balanced.upper unmarked) 1⟩
        | cons first more =>
            obtain ⟨_, later⟩ := List.cons.inj found
            have next := ih _ {} (OpenRecord.balanced_start [] (by simp)) more later
            exact ⟨next.1, fun _ => next.2 (by simp)⟩
      · rw [scanRecords_absorb dialect record byte rest read] at found
        exact ih _ _ (balanced.absorb doubling byte content read) before found

end Scanning

theorem decodeFields_eq (index : Nat) (fields : List (List UInt8)) (texts : List String)
    (decoded : decodeFields index fields = .ok texts) : fields = texts.map encodeText := by
  induction fields generalizing index texts with
  | nil =>
      simp only [decodeFields, Except.ok.injEq] at decoded
      rw [← decoded, List.map_nil]
  | cons field rest ih =>
      simp only [decodeFields] at decoded
      split at decoded
      · simp at decoded
      · rename_i text first
        split at decoded
        · simp at decoded
        · rename_i more later
          simp only [Except.ok.injEq] at decoded
          rw [← decoded, List.map_cons, encodeText_of_decodeText field text first,
            ih (index + 1) more later]

section Document

variable {dialect : Dialect} (doubling : dialect.Doubling) (bytes : List UInt8)

theorem splitMark_fst :
    (splitMark bytes).1 = if byteOrderMark <+: bytes then byteOrderMark else [] := by
  split
  · rename_i marked
    obtain ⟨rest, same⟩ := marked
    rw [← same]
    rfl
  · rename_i noMark
    rw [splitMark_of_no_mark bytes noMark]

theorem document_line_zero (record : Record)
    (found : (readDocument dialect bytes).records[0]? = some record) :
    record.line = 1 + record.blankBefore := by
  obtain ⟨raw, _, _, line, blank⟩ := record_placed dialect bytes 0 record found
  rw [readBefore_zero] at line blank
  rw [lineBreaks_nil] at blank
  omega

include doubling

theorem rawRecords_fieldBreaks (index : Nat) (raw : RawRecord)
    (found : (rawRecords dialect bytes).1[index]? = some raw) :
    (index + 1 < (rawRecords dialect bytes).1.length →
        raw.fieldBreaks + 1 ≤ lineBreaks raw.body) ∧
      (¬byteOrderMark <+: bytes → lineBreaks raw.body ≤ raw.fieldBreaks + 1) := by
  have inside : ∀ byte ∈ (splitMark bytes).1, isLineBreak byte = false := by
    rw [splitMark_fst]
    split <;> simp [byteOrderMark, isLineBreak, carriageReturn, lineFeed]
  obtain ⟨bound, same⟩ := List.getElem?_eq_some_iff.mp found
  have split : (rawRecords dialect bytes).1 = (rawRecords dialect bytes).1.take index ++
      raw :: (rawRecords dialect bytes).1.drop (index + 1) := by
    rw [← same, ← List.drop_eq_getElem_cons bound, List.take_append_drop]
  obtain ⟨lower, upper⟩ := scanRecords_fieldBreaks doubling _ _
    (OpenRecord.balanced_start _ inside) (splitMark bytes).2 _ _ raw split
  refine ⟨fun more => lower ?_, fun noMark => upper ?_⟩
  · simp only [ne_eq, List.drop_eq_nil_iff]
    omega
  · simp [splitMark_fst, noMark]

theorem document_line_succ (index : Nat) (record next : Record)
    (found : (readDocument dialect bytes).records[index]? = some record)
    (foundNext : (readDocument dialect bytes).records[index + 1]? = some next) :
    record.line + record.fieldBreaks + 1 + next.blankBefore ≤ next.line ∧
      (¬byteOrderMark <+: bytes →
        next.line = record.line + record.fieldBreaks + 1 + next.blankBefore) := by
  obtain ⟨raw, rawFound, decoded, line, blank⟩ := record_placed dialect bytes index record found
  obtain ⟨later, laterFound, _, nextLine, nextBlank⟩ :=
    record_placed dialect bytes (index + 1) next foundNext
  have step := lineBreaks_readBefore_succ dialect bytes index raw rawFound
  obtain ⟨lower, upper⟩ := rawRecords_fieldBreaks doubling bytes index raw rawFound
  have same : raw.fieldBreaks = record.fieldBreaks := by
    rw [RawRecord.fieldBreaks, decodeFields_eq 0 raw.fields record.fields decoded, List.map_map]
    rfl
  have bound := lower (List.getElem?_eq_some_iff.mp laterFound).1
  refine ⟨by omega, fun noMark => ?_⟩
  have := upper noMark
  omega

theorem document_line_le (second : List UInt8) (noMark : ¬byteOrderMark <+: second)
    (shrunk : ∀ (index : Nat) (record later : Record),
      (readDocument dialect bytes).records[index]? = some record →
      (readDocument dialect second).records[index]? = some later →
        later.blankBefore = record.blankBefore ∧ later.fieldBreaks ≤ record.fieldBreaks)
    (index : Nat) (record later : Record)
    (found : (readDocument dialect bytes).records[index]? = some record)
    (foundLater : (readDocument dialect second).records[index]? = some later) :
    later.line ≤ record.line := by
  have blanks := (shrunk index record later found foundLater).1
  induction index generalizing record later with
  | zero =>
      have upper := document_line_zero bytes record found
      have lower := document_line_zero second later foundLater
      omega
  | succ index ih =>
      obtain ⟨bound, _⟩ := List.getElem?_eq_some_iff.mp found
      obtain ⟨laterBound, _⟩ := List.getElem?_eq_some_iff.mp foundLater
      have before := List.getElem?_eq_getElem (Nat.lt_of_succ_lt bound)
      have laterBefore := List.getElem?_eq_getElem (Nat.lt_of_succ_lt laterBound)
      obtain ⟨sameBlanks, fewer⟩ := shrunk index _ _ before laterBefore
      have above := ih _ _ before laterBefore sameBlanks
      have upper := (document_line_succ doubling bytes index _ _ before found).1
      have lower := (document_line_succ doubling second index _ _ laterBefore foundLater).2 noMark
      omega

end Document

end PostfixSheet
