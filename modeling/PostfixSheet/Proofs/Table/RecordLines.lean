import PostfixSheet.Proofs.Table.DocumentOrder

/-! The line of a record is the line on which its first byte stands. Records are followed here through the
states of the scanner alone, as spans of offsets into the document. -/

namespace PostfixSheet

/-- Where a record lies: the offset of its first byte, and the offset behind the byte that ended it. -/
structure Span where
  start : Nat
  stop : Nat
  deriving DecidableEq, Repr

def spansFrom (dialect : Dialect) : ScanState → Nat → Nat → List UInt8 → List Span
  | state, start, offset, [] => if state = .recordStart then [] else [⟨start, offset⟩]
  | state, start, offset, byte :: rest =>
      match dialect.scan state byte with
      | (_, .endRecord) =>
          ⟨start, offset + 1⟩ :: spansFrom dialect .recordStart (offset + 1) (offset + 1) rest
      | (.recordStart, _) => spansFrom dialect .recordStart (offset + 1) (offset + 1) rest
      | (next, _) => spansFrom dialect next start (offset + 1) rest

def recordSpans (dialect : Dialect) (bytes : List UInt8) : List Span :=
  spansFrom dialect .recordStart 0 0 bytes

def stopBefore (spans : List Span) : Nat → Nat
  | 0 => 0
  | index + 1 => (spans[index]?.map Span.stop).getD 0

def Span.OnOneLine (span : Span) (bytes : List UInt8) : Prop :=
  ∀ byte ∈ (bytes.take (span.stop - 1)).drop span.start, isLineBreak byte = false

instance (span : Span) (bytes : List UInt8) : Decidable (span.OnOneLine bytes) :=
  List.decidableBAll _ _

def spansOfSources : Nat → List RawRecord → List Span
  | _, [] => []
  | offset, raw :: rest =>
      ⟨offset + raw.leading.length, offset + raw.source.length⟩ ::
        spansOfSources (offset + raw.source.length) rest

theorem takeWhile_concat (bytes : List UInt8) (last : UInt8)
    (stops : (∀ byte ∈ bytes, isLineBreak byte = true) → isLineBreak last = false) :
    (bytes ++ [last]).takeWhile isLineBreak = bytes.takeWhile isLineBreak := by
  by_cases blank : ∀ byte ∈ bytes, isLineBreak byte = true
  · rw [List.takeWhile_append_of_pos blank, List.takeWhile_eq_self_iff.mpr blank]
    simp [stops blank]
  · rw [List.takeWhile_append, if_neg]
    intro whole
    exact blank (List.takeWhile_eq_self_iff.mp (List.takeWhile_prefix _ |>.eq_of_length whole))

theorem OpenRecord.Begun.not_blank {record : OpenRecord} (begun : record.Begun)
    (inside : record.state ≠ .recordStart) :
    ¬∀ byte ∈ record.source.reverse, isLineBreak byte = true := by
  intro blank
  obtain ⟨byte, member, notBreak⟩ := begun inside
  have isBreak := blank byte (by simpa using member)
  rw [notBreak] at isBreak
  contradiction

theorem spansFrom_absorb (dialect : Dialect) (state : ScanState) (start offset : Nat) (byte : UInt8)
    (rest : List UInt8) (inside : (dialect.scan state byte).1 ≠ .recordStart)
    (read : (dialect.scan state byte).2 ≠ .endRecord) :
    spansFrom dialect state start offset (byte :: rest) =
      spansFrom dialect (dialect.scan state byte).1 start (offset + 1) rest := by
  rw [spansFrom]
  split
  · rename_i step
    simp [step] at read
  · rename_i step
    simp [step] at inside
  · rename_i step
    rw [step]

theorem spansFrom_eq (dialect : Dialect) (record : OpenRecord) (bytes : List UInt8) (offset : Nat)
    (skipped : record.state = .recordStart → ∀ byte ∈ record.source, isLineBreak byte = true)
    (begun : record.Begun) :
    spansFrom dialect record.state
        (offset + (record.source.reverse.takeWhile isLineBreak).length)
        (offset + record.source.length) bytes =
      spansOfSources offset (scanRecords dialect record bytes).1 := by
  induction bytes generalizing record offset with
  | nil =>
      simp only [spansFrom, scanRecords]
      split
      · rfl
      · simp [spansOfSources, OpenRecord.close, RawRecord.leading]
  | cons byte rest ih =>
      rcases scan_cases dialect record.state byte with
        ⟨atStart, isBreak, step⟩ | ⟨inside, isBreak, step⟩ | ⟨content, inside, read⟩
      · have blank : ∀ member ∈ (record.sip byte).source, isLineBreak member = true := by
          intro member belongs
          rcases List.mem_cons.mp belongs with same | older
          · rw [same]
            exact isBreak
          · exact skipped atStart member older
        have all : (record.sip byte).source.reverse.takeWhile isLineBreak =
            (record.sip byte).source.reverse := by
          rw [List.takeWhile_eq_self_iff]
          simpa using blank
        have later := ih (record.sip byte) offset (fun _ => blank)
          (fun started => (started atStart).elim)
        rw [scanRecords_skip dialect record byte rest step atStart, ← later, all]
        simp only [spansFrom, step]
        simp [OpenRecord.sip, atStart, Nat.add_assoc]
      · have leading : ((record.sip byte).close).leading =
            record.source.reverse.takeWhile isLineBreak := by
          rw [RawRecord.leading]
          simp only [OpenRecord.close, OpenRecord.sip, List.reverse_cons]
          exact takeWhile_concat _ _ fun blank => (begun.not_blank inside blank).elim
        have later := ih {} (offset + (record.source.length + 1)) (fun _ => by simp) start_begun
        rw [scanRecords_finish dialect record byte rest step, spansOfSources, leading]
        simp only [spansFrom, step]
        simpa [OpenRecord.close, OpenRecord.sip, Nat.add_assoc] using later
      · have leading : (record.absorb byte (dialect.scan record.state byte)).source.reverse.takeWhile
            isLineBreak = record.source.reverse.takeWhile isLineBreak := by
          simp only [OpenRecord.absorb, List.reverse_cons]
          apply takeWhile_concat
          intro blank
          by_cases atStart : record.state = .recordStart
          · exact content atStart
          · exact (begun.not_blank atStart blank).elim
        have later := ih (record.absorb byte (dialect.scan record.state byte)) offset
          (fun atStart => (inside atStart).elim)
          (fun _ => record.absorb_begun byte _ begun content)
        rw [scanRecords_absorb dialect record byte rest read, ← later, leading,
          spansFrom_absorb dialect _ _ _ byte rest inside read]
        rfl

theorem spansOfSources_getElem? (offset : Nat) (raws : List RawRecord) (index : Nat) :
    (spansOfSources offset raws)[index]? = raws[index]?.map fun raw =>
      ⟨offset + (readBefore raws index).length + raw.leading.length,
        offset + (readBefore raws index).length + raw.source.length⟩ := by
  induction raws generalizing offset index with
  | nil => rfl
  | cons raw rest ih =>
      cases index with
      | zero => simp [spansOfSources, readBefore_zero]
      | succ index =>
          simp [spansOfSources, ih, readBefore_cons_succ, Nat.add_assoc]

theorem spansOfSources_length (offset : Nat) (raws : List RawRecord) :
    (spansOfSources offset raws).length = raws.length := by
  induction raws generalizing offset with
  | nil => rfl
  | cons raw rest ih => rw [spansOfSources, List.length_cons, ih, List.length_cons]

section Document

variable {dialect : Dialect} {bytes : List UInt8}

theorem recordSpans_eq (noMark : ¬byteOrderMark <+: bytes) :
    recordSpans dialect bytes = spansOfSources 0 (rawRecords dialect bytes).1 := by
  have spans := spansFrom_eq dialect {} bytes 0 (fun _ => by simp) start_begun
  simpa [recordSpans, rawRecords, splitMark_of_no_mark bytes noMark] using spans

theorem readBefore_prefix_bytes (index : Nat) :
    readBefore (rawRecords dialect bytes).1 index <+: bytes := by
  have sources := rawRecords_sources dialect bytes
  have earlier : (rawRecords dialect bytes).1.take index <+: (rawRecords dialect bytes).1 :=
    List.take_prefix index _
  obtain ⟨rest, split⟩ := earlier
  refine ⟨rest.flatMap RawRecord.source ++ (rawRecords dialect bytes).2, ?_⟩
  rw [readBefore, ← List.append_assoc, ← List.flatMap_append, split, sources]

theorem take_readBefore (index : Nat) :
    bytes.take (readBefore (rawRecords dialect bytes).1 index).length =
      readBefore (rawRecords dialect bytes).1 index :=
  (List.prefix_iff_eq_take.mp (readBefore_prefix_bytes index)).symm

theorem stopBefore_eq (noMark : ¬byteOrderMark <+: bytes) (index : Nat)
    (bound : index ≤ (rawRecords dialect bytes).1.length) :
    stopBefore (recordSpans dialect bytes) index =
      (readBefore (rawRecords dialect bytes).1 index).length := by
  cases index with
  | zero => rw [readBefore_zero]; rfl
  | succ index =>
      have found := List.getElem?_eq_getElem (l := (rawRecords dialect bytes).1) (i := index)
        (by omega)
      rw [recordSpans_eq noMark, stopBefore, spansOfSources_getElem?, found,
        readBefore_succ _ index _ found]
      simp

theorem bytes_around (index : Nat) (raw : RawRecord)
    (found : (rawRecords dialect bytes).1[index]? = some raw) :
    ∃ rest, bytes = readBefore (rawRecords dialect bytes).1 index ++ raw.leading ++
      (raw.body ++ rest) := by
  have front : readBefore (rawRecords dialect bytes).1 (index + 1) <+: bytes :=
    readBefore_prefix_bytes (index + 1)
  obtain ⟨rest, whole⟩ := front
  refine ⟨rest, ?_⟩
  rw [readBefore_succ _ index raw found, ← raw.leading_append_body] at whole
  simp only [List.append_assoc] at whole ⊢
  exact whole.symm

theorem recordSpans_getElem? (noMark : ¬byteOrderMark <+: bytes) (index : Nat) (raw : RawRecord)
    (found : (rawRecords dialect bytes).1[index]? = some raw) :
    ∃ span, (recordSpans dialect bytes)[index]? = some span ∧
      bytes.take span.start = readBefore (rawRecords dialect bytes).1 index ++ raw.leading ∧
      (bytes.take (span.stop - 1)).drop span.start = raw.body.dropLast := by
  obtain ⟨rest, whole⟩ := bytes_around index raw found
  generalize frontEq : readBefore (rawRecords dialect bytes).1 index ++ raw.leading = front
    at whole ⊢
  have source := congrArg List.length raw.leading_append_body
  have lengths := congrArg List.length frontEq
  simp only [List.length_append] at source lengths
  rw [recordSpans_eq noMark, spansOfSources_getElem?, found]
  refine ⟨_, rfl, ?_, ?_⟩
  · simp only [Nat.zero_add, lengths]
    rw [whole, List.take_left]
  · have stop : (readBefore (rawRecords dialect bytes).1 index).length + raw.source.length - 1 -
        front.length = raw.body.length - 1 := by omega
    simp only [Nat.zero_add, lengths, List.drop_take, stop]
    obtain ⟨first, more, same, _⟩ := body_eq_cons dialect bytes index raw found
    have inside : raw.body.length - 1 ≤ raw.body.length := by omega
    rw [whole, List.drop_left, List.take_append_of_le_length inside, ← List.dropLast_eq_take]

theorem sourceLines_readBefore (count : Nat)
    (read : count ≤ (readDocument dialect bytes).records.length)
    (inside : ∀ index raw, index < count → (rawRecords dialect bytes).1[index]? = some raw →
      ∀ byte ∈ raw.body.dropLast, isLineBreak byte = false) :
    (sourceLines (readBefore (rawRecords dialect bytes).1 count)).length =
      count + (((readDocument dialect bytes).records.take count).map Record.blankBefore).sum := by
  induction count with
  | zero =>
      rw [readBefore_zero]
      rfl
  | succ count ih =>
      have found := List.getElem?_eq_getElem read
      obtain ⟨raw, rawFound, _, _, blank⟩ := record_placed dialect bytes count _ found
      obtain ⟨first, rest, begins, _⟩ := body_eq_cons dialect bytes count raw rawFound
      have earlier := ih (by omega) fun index raw bound => inside index raw (by omega)
      have single := sourceLines_single raw.body (by simp [begins])
        (inside count raw (by omega) rawFound)
      have breaks := lineBreaks_readBefore_succ dialect bytes count raw rawFound
      have starts := readBefore_lineStarts dialect bytes count
        (Or.inl (List.getElem?_eq_some_iff.mp rawFound).1)
      have ends : lineStarts true (readBefore (rawRecords dialect bytes).1 (count + 1)) =
          lineStarts true raw.body := by
        rw [readBefore_succ _ count raw rawFound, lineStarts, lineStarts, List.getLast?_append,
          body_getLast? dialect bytes count raw rawFound, begins]
        simp [List.getLast?_cons]
      rw [sourceLines_length, starts] at earlier
      rw [sourceLines_length] at single
      rw [sourceLines_length, ends, List.take_add_one, found]
      simp only [if_true, Option.toList_some, List.map_append, List.map_cons, List.map_nil,
        List.sum_append, List.sum_cons, List.sum_nil] at earlier ⊢
      omega

theorem sourceLines_document (trailing : Nat)
    (complete : (readDocument dialect bytes).ending = .ok trailing)
    (noMark : ¬byteOrderMark <+: bytes) :
    (sourceLines bytes).length =
      (sourceLines (readBefore (rawRecords dialect bytes).1
        (rawRecords dialect bytes).1.length)).length + trailing := by
  obtain ⟨_, counted⟩ := trailing_placed dialect bytes trailing complete
  have sources := rawRecords_sources dialect bytes
  rw [← readBefore_length] at sources
  rw [sourceLines_length, sourceLines_length]
  by_cases noTail : (rawRecords dialect bytes).2 = []
  · rw [noTail, List.append_nil] at sources
    rw [sources] at counted ⊢
    omega
  · have starts := readBefore_lineStarts dialect bytes (rawRecords dialect bytes).1.length
      (Or.inr ⟨rfl, noTail⟩)
    have blank : ∀ byte ∈ (rawRecords dialect bytes).2, isLineBreak byte = true := by
      rw [rawRecords, splitMark_of_no_mark bytes noMark]
      exact scanRecords_tail dialect {} bytes (by simp)
    have ends : lineStarts true bytes = true := by
      rw [← sources, lineStarts_append, starts, lineStarts]
      cases last : (rawRecords dialect bytes).2.getLast? with
      | none => rfl
      | some byte => exact blank byte (List.mem_of_getLast? last)
    rw [starts, ends]
    simp only [if_true]
    omega

theorem record_at_span (noMark : ¬byteOrderMark <+: bytes) (index : Nat) (record : Record)
    (found : (readDocument dialect bytes).records[index]? = some record) :
    ∃ span, (recordSpans dialect bytes)[index]? = some span ∧
      record.line = 1 + lineBreaks (bytes.take span.start) ∧
      record.blankBefore + lineBreaks (bytes.take (stopBefore (recordSpans dialect bytes) index)) =
        lineBreaks (bytes.take span.start) := by
  obtain ⟨raw, rawFound, _, line, blank⟩ := record_placed dialect bytes index record found
  obtain ⟨span, spanFound, front, _⟩ := recordSpans_getElem? noMark index raw rawFound
  have bound := (List.getElem?_eq_some_iff.mp rawFound).1
  refine ⟨span, spanFound, ?_, ?_⟩
  · rw [front, line]
  · rw [stopBefore_eq noMark index (by omega), take_readBefore, front, blank]

theorem trailing_at_end (noMark : ¬byteOrderMark <+: bytes) (trailing : Nat)
    (complete : (readDocument dialect bytes).ending = .ok trailing) :
    (readDocument dialect bytes).records.length = (recordSpans dialect bytes).length ∧
      trailing + lineBreaks (bytes.take
          (stopBefore (recordSpans dialect bytes) (recordSpans dialect bytes).length)) =
        lineBreaks bytes := by
  obtain ⟨lengths, counted⟩ := trailing_placed dialect bytes trailing complete
  have spans : (recordSpans dialect bytes).length = (rawRecords dialect bytes).1.length := by
    rw [recordSpans_eq noMark, spansOfSources_length]
  refine ⟨lengths.trans spans.symm, ?_⟩
  rw [spans, stopBefore_eq noMark _ (Nat.le_refl _), take_readBefore, counted]

theorem body_inside (noMark : ¬byteOrderMark <+: bytes) (count : Nat)
    (single : ∀ span ∈ (recordSpans dialect bytes).take count, span.OnOneLine bytes)
    (index : Nat) (raw : RawRecord) (bound : index < count)
    (found : (rawRecords dialect bytes).1[index]? = some raw) :
    ∀ byte ∈ raw.body.dropLast, isLineBreak byte = false := by
  obtain ⟨span, spanFound, _, interior⟩ := recordSpans_getElem? noMark index raw found
  have member : span ∈ (recordSpans dialect bytes).take count := by
    rw [List.mem_iff_getElem?]
    exact ⟨index, by rw [List.getElem?_take_of_lt bound, spanFound]⟩
  have inside := single span member
  rw [Span.OnOneLine, interior] at inside
  exact inside

theorem record_line_eq (noMark : ¬byteOrderMark <+: bytes) (index : Nat) (record : Record)
    (found : (readDocument dialect bytes).records[index]? = some record)
    (single : ∀ span ∈ (recordSpans dialect bytes).take index, span.OnOneLine bytes) :
    record.line = 1 + index +
      (((readDocument dialect bytes).records.take (index + 1)).map Record.blankBefore).sum := by
  obtain ⟨raw, rawFound, _, line, blank⟩ := record_placed dialect bytes index record found
  have bound := (List.getElem?_eq_some_iff.mp found).1
  have earlier := sourceLines_readBefore index (by omega) (body_inside noMark index single)
  have starts := readBefore_lineStarts dialect bytes index
    (Or.inl (List.getElem?_eq_some_iff.mp rawFound).1)
  rw [sourceLines_length, starts] at earlier
  rw [List.take_add_one, found]
  simp only [if_true, Option.toList_some, List.map_append, List.map_cons, List.map_nil,
    List.sum_append, List.sum_cons, List.sum_nil] at earlier ⊢
  omega

theorem rows_eq_sourceLines (noMark : ¬byteOrderMark <+: bytes) (trailing : Nat)
    (complete : (readDocument dialect bytes).ending = .ok trailing)
    (single : ∀ span ∈ recordSpans dialect bytes, span.OnOneLine bytes) :
    (readDocument dialect bytes).records.length +
        ((readDocument dialect bytes).records.map Record.blankBefore).sum + trailing =
      (sourceLines bytes).length := by
  have lengths := (trailing_placed dialect bytes trailing complete).1
  have counted := sourceLines_readBefore (rawRecords dialect bytes).1.length (by omega)
    (body_inside noMark _ fun span member => single span (List.mem_of_mem_take member))
  rw [sourceLines_document trailing complete noMark, counted, List.take_of_length_le (by omega),
    lengths]

end Document

/-- The row of a record is the line of the document on which its first byte stands, and the blank lines
around records are the breaks between them. So lines increase, and where every record is on one line of
its own, rows are lines. -/
theorem record_lines (evaluator : Evaluator) (bytes : List UInt8) (noMark : ¬byteOrderMark <+: bytes) :
    let dialect := evaluator.settings.toDialect
    let document := readDocument dialect bytes
    let spans := recordSpans dialect bytes
    (∀ index record, document.records[index]? = some record →
      ∃ span, spans[index]? = some span ∧
        record.line = 1 + lineBreaks (bytes.take span.start) ∧
        record.blankBefore + lineBreaks (bytes.take (stopBefore spans index)) =
          lineBreaks (bytes.take span.start)) ∧
    (∀ trailing, document.ending = .ok trailing →
      document.records.length = spans.length ∧
        trailing + lineBreaks (bytes.take (stopBefore spans spans.length)) = lineBreaks bytes) ∧
    (document.records.Pairwise fun earlier later => earlier.line < later.line) ∧
    (∀ index record, document.records[index]? = some record →
      (∀ span ∈ spans.take index, span.OnOneLine bytes) →
        record.line = 1 + index + ((document.records.take (index + 1)).map Record.blankBefore).sum) ∧
    ((∀ span ∈ spans, span.OnOneLine bytes) →
      (∀ trailing, document.ending = .ok trailing →
        document.records.length + (document.records.map Record.blankBefore).sum + trailing =
          (sourceLines bytes).length) ∧
      ∀ sink statistics, (evaluator.evaluate (.ok bytes) sink).result = .ok statistics →
        statistics.rows = (sourceLines bytes).length) := by
  refine ⟨?_, ?_, records_line_increasing _ bytes, ?_, ?_⟩
  · intro index record found
    exact record_at_span noMark index record found
  · intro trailing complete
    exact trailing_at_end noMark trailing complete
  · intro index record found single
    exact record_line_eq noMark index record found single
  · intro single
    refine ⟨fun trailing complete => rows_eq_sourceLines noMark trailing complete single, ?_⟩
    intro sink statistics succeeded
    obtain ⟨read, same, finished, _⟩ := evaluate_ok evaluator _ sink statistics succeeded
    simp only [Except.ok.injEq] at same
    subst read
    obtain ⟨trailing, cells, rows, complete, _, _, counted⟩ :=
      run_evaluated evaluator bytes statistics finished
    rw [counted, ← rows_eq_sourceLines noMark trailing complete single]
    rfl

def spacedSheet : List UInt8 :=
  encodeText "\r\na,b\r\n\r\nc\r\n\n"

theorem record_lines_spacedSheet :
    (¬byteOrderMark <+: spacedSheet) ∧
      (readDocument {} spacedSheet).records = [⟨2, 1, ["a", "b"]⟩, ⟨4, 1, ["c"]⟩] ∧
      (∃ span, (recordSpans {} spacedSheet)[1]? = some span ∧
        4 = 1 + lineBreaks (spacedSheet.take span.start) ∧
        1 + lineBreaks (spacedSheet.take (stopBefore (recordSpans {} spacedSheet) 1)) =
          lineBreaks (spacedSheet.take span.start)) ∧
      (∀ span ∈ recordSpans {} spacedSheet, span.OnOneLine spacedSheet) ∧
      4 = 1 + 1 + ([1, 1] : List Nat).sum ∧
      ((Evaluator.mk {} .empty).evaluate (.ok spacedSheet) {}).result = .ok ⟨5, 3, 0, 0, 0⟩ ∧
      5 = (sourceLines spacedSheet).length := by
  have noMark : ¬byteOrderMark <+: spacedSheet := by decide +kernel
  have read : (readDocument {} spacedSheet).records = [⟨2, 1, ["a", "b"]⟩, ⟨4, 1, ["c"]⟩] := by
    decide +kernel
  have single : ∀ span ∈ recordSpans {} spacedSheet, span.OnOneLine spacedSheet := by
    decide +kernel
  have succeeded : ((Evaluator.mk {} .empty).evaluate (.ok spacedSheet) {}).result =
      .ok ⟨5, 3, 0, 0, 0⟩ := eq_ok_of_toOption _ _ (by decide +kernel)
  obtain ⟨placed, _, _, lines, rows⟩ := record_lines (.mk {} .empty) spacedSheet noMark
  have second : (readDocument {} spacedSheet).records[1]? = some ⟨4, 1, ["c"]⟩ := by rw [read]; rfl
  have line := lines 1 ⟨4, 1, ["c"]⟩ second fun span member =>
    single span (List.mem_of_mem_take member)
  have summed : (((readDocument {} spacedSheet).records.take 2).map Record.blankBefore).sum =
      ([1, 1] : List Nat).sum := by rw [read]; rfl
  exact ⟨noMark, read, placed 1 _ second, single, line.trans (congrArg (1 + 1 + ·) summed), succeeded,
    (rows single).2 {} _ succeeded⟩

end PostfixSheet
