import Mathlib.Data.List.TakeWhile
import PostfixSheet.Proofs.Table.LineBreaks
import PostfixSheet.Proofs.Table.ScannedRecords
import PostfixSheet.Table.Document

/-! The lines on which the records of a document are placed, in terms of the line breaks among the bytes
that were read before them. -/

namespace PostfixSheet

def RawRecord.leading (raw : RawRecord) : List UInt8 :=
  raw.source.takeWhile isLineBreak

def RawRecord.body (raw : RawRecord) : List UInt8 :=
  raw.source.dropWhile isLineBreak

def byteOrderMark : List UInt8 :=
  [0xEF, 0xBB, 0xBF]

theorem RawRecord.leading_append_body (raw : RawRecord) : raw.leading ++ raw.body = raw.source :=
  List.takeWhile_append_dropWhile

def readBefore (raws : List RawRecord) (index : Nat) : List UInt8 :=
  (raws.take index).flatMap RawRecord.source

theorem readBefore_zero (raws : List RawRecord) : readBefore raws 0 = [] := by
  simp [readBefore]

theorem readBefore_succ (raws : List RawRecord) (index : Nat) (raw : RawRecord)
    (found : raws[index]? = some raw) :
    readBefore raws (index + 1) = readBefore raws index ++ raw.source := by
  rw [readBefore, List.take_add_one, found]
  simp [readBefore]

theorem readBefore_cons_succ (raw : RawRecord) (rest : List RawRecord) (index : Nat) :
    readBefore (raw :: rest) (index + 1) = raw.source ++ readBefore rest index := by
  simp [readBefore]

theorem readBefore_length (raws : List RawRecord) :
    readBefore raws raws.length = raws.flatMap RawRecord.source := by
  simp [readBefore]

theorem readBefore_extends (raws : List RawRecord) (first second : Nat) (ordered : first ≤ second) :
    readBefore raws first <+: readBefore raws second := by
  have taken : raws.take first <+: raws.take second := List.take_prefix_take_left ordered
  obtain ⟨between, split⟩ := taken
  exact ⟨between.flatMap RawRecord.source, by simp [readBefore, ← split]⟩

theorem place_eq (count : LineCount) (source : List UInt8) :
    count.place source =
      (⟨(count.pass (source.takeWhile isLineBreak)).line,
        (count.pass (source.takeWhile isLineBreak)).blanksSince count⟩, count.pass source) := by
  have whole : source.takeWhile isLineBreak ++ source.dropWhile isLineBreak = source :=
    List.takeWhile_append_dropWhile
  have passed := LineCount.pass_append count (source.takeWhile isLineBreak)
    (source.dropWhile isLineBreak)
  rw [whole] at passed
  rw [LineCount.place, passed]

theorem readFrom_record (tail : List UInt8) (point : ReadingPoint) (raws : List RawRecord)
    (index : Nat) (record : Record)
    (found : (readFrom tail point raws).records[index]? = some record) :
    ∃ raw, raws[index]? = some raw ∧ decodeFields 0 raw.fields = .ok record.fields ∧
      (⟨record.line, record.blankBefore⟩ : Placement) =
        ((point.lines.pass (readBefore raws index)).place raw.source).1 := by
  induction raws generalizing point index with
  | nil => simp [readFrom] at found
  | cons raw rest ih =>
      simp only [readFrom] at found
      split at found
      · simp at found
      · rename_i fields decoded
        cases index with
        | zero =>
            simp only [List.getElem?_cons_zero, Option.some.injEq] at found
            subst record
            exact ⟨raw, rfl, decoded, rfl⟩
        | succ index =>
            simp only [List.getElem?_cons_succ] at found
            obtain ⟨later, laterFound, laterDecoded, placed⟩ := ih _ _ found
            refine ⟨later, by simpa using laterFound, laterDecoded, ?_⟩
            rw [readBefore_cons_succ, ← LineCount.pass_append, placed]
            simp only [ReadingPoint.next, place_eq]

theorem readFrom_ending (tail : List UInt8) (point : ReadingPoint) (raws : List RawRecord)
    (trailing : Nat) (complete : (readFrom tail point raws).ending = .ok trailing) :
    (readFrom tail point raws).records.length = raws.length ∧
      trailing = ((point.lines.pass (raws.flatMap RawRecord.source)).pass tail).blanksSince
        (point.lines.pass (raws.flatMap RawRecord.source)) := by
  induction raws generalizing point with
  | nil =>
      simp only [readFrom, Except.ok.injEq] at complete
      exact ⟨rfl, complete.symm⟩
  | cons raw rest ih =>
      simp only [readFrom] at complete ⊢
      split at complete
      · simp at complete
      · obtain ⟨lengths, counted⟩ := ih _ complete
        refine ⟨by simpa using lengths, ?_⟩
        rw [List.flatMap_cons, ← LineCount.pass_append]
        simpa only [ReadingPoint.next, place_eq] using counted

theorem splitMark_of_no_mark (bytes : List UInt8) (noMark : ¬byteOrderMark <+: bytes) :
    splitMark bytes = ([], bytes) := by
  fun_cases splitMark bytes with
  | case1 rest => exact (noMark ⟨rest, rfl⟩).elim
  | case2 => rfl

theorem splitMark_append (bytes : List UInt8) :
    (splitMark bytes).1 ++ (splitMark bytes).2 = bytes := by
  fun_cases splitMark bytes <;> rfl

section Document

variable (dialect : Dialect) (bytes : List UInt8)

theorem rawRecords_sources :
    (rawRecords dialect bytes).1.flatMap RawRecord.source ++ (rawRecords dialect bytes).2 =
      bytes := by
  have sources := scanRecords_sources dialect { source := (splitMark bytes).1.reverse }
    (splitMark bytes).2
  rw [List.reverse_reverse, splitMark_append] at sources
  exact sources

theorem rawRecords_content :
    ∀ raw ∈ (rawRecords dialect bytes).1, ∃ byte ∈ raw.source, isLineBreak byte = false :=
  scanRecords_content dialect _ (fun inside => (inside rfl).elim) _

theorem rawRecords_ends (index : Nat) (raw : RawRecord)
    (found : (rawRecords dialect bytes).1[index]? = some raw) :
    (∃ last, raw.source.getLast? = some last ∧ isLineBreak last = true) ∨
      index + 1 = (rawRecords dialect bytes).1.length ∧ (rawRecords dialect bytes).2 = [] := by
  obtain ⟨bound, same⟩ := List.getElem?_eq_some_iff.mp found
  generalize rawsEq : (rawRecords dialect bytes).1 = raws at bound same ⊢
  have split : raws = raws.take index ++ raw :: raws.drop (index + 1) := by
    rw [← same, ← List.drop_eq_getElem_cons bound, List.take_append_drop]
  rcases scanRecords_ends dialect { source := (splitMark bytes).1.reverse } (splitMark bytes).2
    (raws.take index) (raws.drop (index + 1)) raw (rawsEq.trans split) with ended | ⟨final, noTail⟩
  · exact Or.inl ended
  · have behind := List.drop_eq_nil_iff.mp final
    exact Or.inr ⟨by omega, noTail⟩

theorem readBefore_lineStarts (index : Nat)
    (more : index < (rawRecords dialect bytes).1.length ∨
      index = (rawRecords dialect bytes).1.length ∧ (rawRecords dialect bytes).2 ≠ []) :
    lineStarts true (readBefore (rawRecords dialect bytes).1 index) = true := by
  cases index with
  | zero => rw [readBefore_zero]; rfl
  | succ index =>
      have bound : index < (rawRecords dialect bytes).1.length := by omega
      have found := List.getElem?_eq_getElem bound
      rw [readBefore_succ _ index _ found]
      rcases rawRecords_ends dialect bytes index _ found with
        ⟨last, isLast, isBreak⟩ | ⟨final, noTail⟩
      · rw [lineStarts_append, lineStarts, isLast]
        simpa using isBreak
      · rcases more with inside | ⟨_, tail⟩
        · omega
        · exact (tail noTail).elim

theorem record_placed (index : Nat) (record : Record)
    (found : (readDocument dialect bytes).records[index]? = some record) :
    ∃ raw, (rawRecords dialect bytes).1[index]? = some raw ∧
      decodeFields 0 raw.fields = .ok record.fields ∧
      record.line = 1 + lineBreaks (readBefore (rawRecords dialect bytes).1 index ++ raw.leading) ∧
      record.blankBefore + lineBreaks (readBefore (rawRecords dialect bytes).1 index) =
        lineBreaks (readBefore (rawRecords dialect bytes).1 index ++ raw.leading) := by
  obtain ⟨raw, rawFound, decoded, placed⟩ := readFrom_record (rawRecords dialect bytes).2 {}
    (rawRecords dialect bytes).1 index record found
  refine ⟨raw, rawFound, decoded, ?_⟩
  have inside : index < (rawRecords dialect bytes).1.length :=
    (List.getElem?_eq_some_iff.mp rawFound).1
  have starts := readBefore_lineStarts dialect bytes index (Or.inl inside)
  have grows := lineBreaks_le_append (readBefore (rawRecords dialect bytes).1 index) raw.leading
  rw [place_eq, LineCount.pass_append] at placed
  simp only [Placement.mk.injEq, LineCount.blanksSince, LineCount.pass_start_line,
    LineCount.pass_atLineStart, starts, if_true] at placed
  rw [← RawRecord.leading] at placed
  omega

theorem trailing_placed (trailing : Nat)
    (complete : (readDocument dialect bytes).ending = .ok trailing) :
    (readDocument dialect bytes).records.length = (rawRecords dialect bytes).1.length ∧
      trailing + lineBreaks
          (readBefore (rawRecords dialect bytes).1 (rawRecords dialect bytes).1.length) =
        lineBreaks bytes := by
  obtain ⟨lengths, counted⟩ := readFrom_ending (rawRecords dialect bytes).2 {}
    (rawRecords dialect bytes).1 trailing complete
  refine ⟨lengths, ?_⟩
  have sources := rawRecords_sources dialect bytes
  rw [LineCount.pass_append, sources] at counted
  simp only [LineCount.blanksSince, LineCount.pass_start_line, LineCount.pass_atLineStart] at counted
  rw [readBefore_length]
  by_cases noTail : (rawRecords dialect bytes).2 = []
  · rw [noTail, List.append_nil] at sources
    rw [sources] at counted ⊢
    omega
  · have starts := readBefore_lineStarts dialect bytes (rawRecords dialect bytes).1.length
      (Or.inr ⟨rfl, noTail⟩)
    have grows := lineBreaks_le_append ((rawRecords dialect bytes).1.flatMap RawRecord.source)
      (rawRecords dialect bytes).2
    rw [sources] at grows
    rw [readBefore_length] at starts
    simp only [starts, if_true] at counted
    omega

theorem body_eq_cons (index : Nat) (raw : RawRecord)
    (found : (rawRecords dialect bytes).1[index]? = some raw) :
    ∃ first rest, raw.body = first :: rest ∧ isLineBreak first = false := by
  obtain ⟨byte, member, inside⟩ :=
    rawRecords_content dialect bytes raw (List.mem_of_getElem? found)
  cases same : raw.body with
  | nil =>
      have blank := List.dropWhile_eq_nil_iff.mp same byte member
      rw [inside] at blank
      contradiction
  | cons first rest =>
      have head := List.head?_dropWhile_not isLineBreak raw.source
      rw [← RawRecord.body, same] at head
      exact ⟨first, rest, rfl, by simpa using head⟩

theorem body_getLast? (index : Nat) (raw : RawRecord)
    (found : (rawRecords dialect bytes).1[index]? = some raw) :
    raw.source.getLast? = raw.body.getLast? := by
  obtain ⟨first, rest, same, _⟩ := body_eq_cons dialect bytes index raw found
  rw [← raw.leading_append_body, List.getLast?_append, same]
  simp [List.getLast?_cons]

theorem lineBreaks_readBefore_succ (index : Nat) (raw : RawRecord)
    (found : (rawRecords dialect bytes).1[index]? = some raw) :
    lineBreaks (readBefore (rawRecords dialect bytes).1 (index + 1)) =
      lineBreaks (readBefore (rawRecords dialect bytes).1 index ++ raw.leading) +
        lineBreaks raw.body := by
  obtain ⟨first, rest, same, inside⟩ := body_eq_cons dialect bytes index raw found
  rw [readBefore_succ _ index raw found, ← raw.leading_append_body, ← List.append_assoc, same,
    lineBreaks_append_of_head _ first rest inside]

theorem lineBreaks_mono (first second : List UInt8) (ordered : first <+: second) :
    lineBreaks first ≤ lineBreaks second := by
  obtain ⟨rest, same⟩ := ordered
  rw [← same]
  exact lineBreaks_le_append first rest

theorem record_line_lt (first second : Nat) (ordered : first < second) (earlier later : Record)
    (foundEarlier : (readDocument dialect bytes).records[first]? = some earlier)
    (foundLater : (readDocument dialect bytes).records[second]? = some later) :
    earlier.line < later.line := by
  obtain ⟨raw, found, _, line, _⟩ := record_placed dialect bytes first earlier foundEarlier
  obtain ⟨laterRaw, laterFound, _, laterLine, _⟩ :=
    record_placed dialect bytes second later foundLater
  have bound := (List.getElem?_eq_some_iff.mp laterFound).1
  have inner : 0 < lineBreaks raw.body := by
    rcases rawRecords_ends dialect bytes first raw found with ⟨last, isLast, isBreak⟩ | ⟨final, _⟩
    · rw [body_getLast? dialect bytes first raw found] at isLast
      exact lineBreaks_pos raw.body last isLast isBreak
    · omega
  have step := lineBreaks_readBefore_succ dialect bytes first raw found
  have grows := lineBreaks_mono _ _
    (readBefore_extends (rawRecords dialect bytes).1 (first + 1) second ordered)
  have skipped := lineBreaks_le_append (readBefore (rawRecords dialect bytes).1 second)
    laterRaw.leading
  omega

theorem record_line_le (index : Nat) (record : Record)
    (found : (readDocument dialect bytes).records[index]? = some record) :
    record.line ≤ 1 + lineBreaks bytes := by
  obtain ⟨raw, rawFound, _, line, _⟩ := record_placed dialect bytes index record found
  have step := lineBreaks_readBefore_succ dialect bytes index raw rawFound
  have bound := (List.getElem?_eq_some_iff.mp rawFound).1
  have grows := lineBreaks_mono _ _ (readBefore_extends (rawRecords dialect bytes).1 (index + 1) _ bound)
  have whole := lineBreaks_le_append (readBefore (rawRecords dialect bytes).1
    (rawRecords dialect bytes).1.length) (rawRecords dialect bytes).2
  rw [readBefore_length, rawRecords_sources] at whole
  rw [readBefore_length] at grows
  omega

theorem records_line_increasing :
    (readDocument dialect bytes).records.Pairwise fun earlier later =>
      earlier.line < later.line := by
  rw [List.pairwise_iff_getElem]
  intro first second firstBound secondBound ordered
  exact record_line_lt dialect bytes first second ordered _ _
    (List.getElem?_eq_getElem firstBound) (List.getElem?_eq_getElem secondBound)

end Document

end PostfixSheet
