import PostfixSheet.Proofs.Table.AddressRange
import PostfixSheet.Proofs.Table.RecordLines

/-! A byte-order mark in front of a document. It is no part of any field, but it hides the line breaks behind
it: the first record is placed on the first line, and the blank lines in front of it are lost. -/

namespace PostfixSheet

def Record.atTop (record : Record) : Record :=
  { record with line := 1, blankBefore := 0 }

theorem pass_mark (source : List UInt8) (nonempty : source ≠ []) :
    LineCount.pass {} (byteOrderMark ++ source) = LineCount.pass {} source := by
  have last := List.getLast?_eq_some_getLast nonempty
  rw [LineCount.pass_eq, LineCount.pass_eq, List.foldl_append, lineStarts_append]
  simp only [lineStarts, last]
  rfl

theorem lineBreaks_mark (bytes : List UInt8) :
    lineBreaks (byteOrderMark ++ bytes) = lineBreaks bytes := by
  simp only [byteOrderMark, List.cons_append, List.nil_append]
  rw [lineBreaks_inside _ _ (by decide), lineBreaks_inside _ _ (by decide),
    lineBreaks_inside _ _ (by decide)]

theorem readFrom_lines (tail : List UInt8) (first second : ReadingPoint) (raws : List RawRecord)
    (same : first.lines = second.lines) :
    (readFrom tail first raws).records = (readFrom tail second raws).records ∧
      ∀ trailing, (readFrom tail first raws).ending = .ok trailing ↔
        (readFrom tail second raws).ending = .ok trailing := by
  induction raws generalizing first second with
  | nil => exact ⟨rfl, by simp [readFrom, same]⟩
  | cons raw rest ih =>
      simp only [readFrom]
      split
      · simp
      · obtain ⟨records, complete⟩ := ih (first.next (first.lines.place raw.source).2 raw.source)
          (second.next (second.lines.place raw.source).2 raw.source) (by simp [ReadingPoint.next, same])
        exact ⟨by rw [records, same], complete⟩

section Document

variable (dialect : Dialect) (bytes : List UInt8) (noMark : ¬byteOrderMark <+: bytes)

include noMark

theorem readDocument_mark :
    (readDocument dialect (byteOrderMark ++ bytes)).records =
        (readDocument dialect bytes).records.modifyHead Record.atTop ∧
      ∀ trailing, (readDocument dialect bytes).ending = .ok trailing →
        (readDocument dialect (byteOrderMark ++ bytes)).ending = .ok trailing := by
  have content := rawRecords_content dialect bytes
  have marked : rawRecords dialect (byteOrderMark ++ bytes) =
      scanRecords dialect { source := byteOrderMark.reverse } bytes := rfl
  have plain : rawRecords dialect bytes = scanRecords dialect {} bytes := by
    rw [rawRecords, splitMark_of_no_mark bytes noMark]
    rfl
  have behind := scanRecords_behind dialect {} byteOrderMark bytes
  rw [List.nil_append, ← marked, ← plain] at behind
  simp only [readDocument, behind]
  generalize rawRecords dialect bytes = scanned at content ⊢
  obtain ⟨raws, tail⟩ := scanned
  cases raws with
  | nil =>
      simp [readFrom, LineCount.blanksSince, LineCount.pass_start_line, lineBreaks_mark]
  | cons raw rest =>
      simp only [List.modifyHead_cons, reduceCtorEq, if_false, readFrom, RawRecord.behind]
      split
      · simp
      · rename_i texts decoded
        obtain ⟨byte, member, _⟩ := content raw (by simp)
        have passed := pass_mark raw.source (List.ne_nil_of_mem member)
        have noBreaks : (byteOrderMark ++ raw.source).takeWhile isLineBreak = [] := rfl
        simp only [place_eq, passed, noBreaks]
        obtain ⟨records, complete⟩ := readFrom_lines tail
          (ReadingPoint.next {} (LineCount.pass {} raw.source) (byteOrderMark ++ raw.source))
          (ReadingPoint.next {} (LineCount.pass {} raw.source) raw.source) rest rfl
        rw [records]
        exact ⟨rfl, fun trailing => (complete trailing).mpr⟩

omit noMark

theorem blankBefore_first (record : Record)
    (found : (readDocument dialect bytes).records[0]? = some record) :
    record.blankBefore = 0 ↔ ∀ first, bytes.head? = some first → isLineBreak first = false := by
  obtain ⟨raw, rawFound, _, _, blank⟩ := record_placed dialect bytes 0 record found
  obtain ⟨rest, whole⟩ := bytes_around 0 raw rawFound
  obtain ⟨first, more, begins, inside⟩ := body_eq_cons dialect bytes 0 raw rawFound
  rw [readBefore_zero, List.nil_append] at whole blank
  rw [lineBreaks_nil, Nat.add_zero] at blank
  rw [whole, blank]
  cases skipped : raw.leading with
  | nil => simp [begins, lineBreaks_nil, inside]
  | cons byte others =>
      have breaks : ∀ other ∈ raw.leading, isLineBreak other = true :=
        fun other member => List.mem_takeWhile_imp member
      rw [skipped] at breaks
      have counted := lineBreaks_pos (byte :: others) _ (List.getLast?_eq_some_getLast (by simp))
        (breaks _ (List.getLast_mem _))
      simp [breaks byte]
      omega

theorem head_blankBefore_iff :
    ((readDocument dialect bytes).records.head?.map Record.blankBefore).getD 0 = 0 ↔
      (readDocument dialect bytes).records = [] ∨
        ∀ first, bytes.head? = some first → isLineBreak first = false := by
  have begins := blankBefore_first dialect bytes
  cases same : (readDocument dialect bytes).records with
  | nil => simp
  | cons record rest =>
      rw [same] at begins
      simpa using begins record rfl

end Document

theorem run_rows (evaluator : Evaluator) (bytes : List UInt8) (statistics : Statistics)
    (trailing : Nat) (finished : (evaluator.run bytes).result = .ok statistics)
    (complete : (readDocument evaluator.settings.toDialect bytes).ending = .ok trailing) :
    let records := (readDocument evaluator.settings.toDialect bytes).records
    statistics.rows = records.length + (records.map Record.blankBefore).sum + trailing := by
  obtain ⟨counted, _, _, ended, _, _, same⟩ := run_evaluated evaluator bytes statistics finished
  obtain rfl : counted = trailing := by simpa [complete] using ended.symm
  rw [same]
  rfl

theorem rows_atTop (records : List Record) :
    let top := records.modifyHead Record.atTop
    top.length + (top.map Record.blankBefore).sum +
        (records.head?.map Record.blankBefore).getD 0 =
      records.length + (records.map Record.blankBefore).sum := by
  cases records with
  | nil => rfl
  | cons record rest =>
      simp only [List.modifyHead_cons, List.length_cons, List.map_cons, List.sum_cons,
        List.head?_cons, Option.map_some, Option.getD_some, Record.atTop]
      omega

theorem modifyHead_atTop (records : List Record)
    (line : ∀ record, records[0]? = some record → record.line = 1 + record.blankBefore)
    (nothing : (records.head?.map Record.blankBefore).getD 0 = 0) :
    records.modifyHead Record.atTop = records := by
  cases records with
  | nil => rfl
  | cons record rest =>
      obtain ⟨place, blanks, fields⟩ := record
      have top : place = 1 + blanks := line _ rfl
      obtain rfl : blanks = 0 := nothing
      rw [top]
      rfl

theorem indexed_atTop (records : List Record)
    (indexed : ∀ record ∈ records,
      record.line ≤ maxIndex + 1 ∧ record.fields.length ≤ maxIndex + 1) :
    ∀ record ∈ records.modifyHead Record.atTop,
      record.line ≤ maxIndex + 1 ∧ record.fields.length ≤ maxIndex + 1 := by
  cases records with
  | nil => simp
  | cons first rest =>
      simp only [List.modifyHead_cons, List.forall_mem_cons] at indexed ⊢
      exact ⟨⟨Nat.le_add_left 1 _, indexed.1.2⟩, indexed.2⟩

/-- A byte-order mark in front of a document takes the first record to the first line, and loses the blank
lines in front of it. So evaluating is the same with and without the mark just when the document does not
begin with a line break, or has no record. -/
theorem run_mark (evaluator : Evaluator) (bytes : List UInt8) (statistics : Statistics)
    (noMark : ¬byteOrderMark <+: bytes)
    (finished : (evaluator.run bytes).result = .ok statistics) :
    let document := readDocument evaluator.settings.toDialect bytes
    let marked := readDocument evaluator.settings.toDialect (byteOrderMark ++ bytes)
    let lost := (document.records.head?.map Record.blankBefore).getD 0
    marked.records = document.records.modifyHead Record.atTop ∧
      marked.ending = document.ending ∧
      (∃ shown, (evaluator.run (byteOrderMark ++ bytes)).result = .ok shown ∧
        shown.rows + lost = statistics.rows) ∧
      (evaluator.run (byteOrderMark ++ bytes) = evaluator.run bytes ↔
        document.records = [] ∨ ∀ first, bytes.head? = some first → isLineBreak first = false) := by
  obtain ⟨trailing, _, _, complete, ordered, _⟩ := run_evaluated evaluator bytes statistics finished
  obtain ⟨records, completed⟩ := readDocument_mark evaluator.settings.toDialect bytes noMark
  have ending := completed trailing complete
  have started : evaluator.run (byteOrderMark ++ bytes) = evaluator.runFrom (.ok trailing) .empty {}
      ((readDocument evaluator.settings.toDialect bytes).records.modifyHead Record.atTop) := by
    rw [Evaluator.run, ending, records]
  obtain ⟨shown, succeeded⟩ :
      ∃ shown, (evaluator.run (byteOrderMark ++ bytes)).result = .ok shown := by
    rw [started]
    exact evaluator.runFrom_indexed trailing .empty {} _ (indexed_atTop _ ordered.indexed)
  have rows := run_rows evaluator bytes statistics trailing finished complete
  have shownRows := run_rows evaluator _ shown trailing succeeded ending
  have plain : evaluator.run bytes = evaluator.runFrom (.ok trailing) .empty {}
      (readDocument evaluator.settings.toDialect bytes).records := by
    rw [Evaluator.run, complete]
  have blanks := rows_atTop (readDocument evaluator.settings.toDialect bytes).records
  have lost : shown.rows +
      ((readDocument evaluator.settings.toDialect bytes).records.head?.map
        Record.blankBefore).getD 0 = statistics.rows := by
    rw [records] at shownRows
    simp only at blanks rows shownRows
    omega
  refine ⟨records, ending.trans complete.symm, ⟨shown, succeeded, lost⟩, ?_⟩
  rw [← head_blankBefore_iff]
  constructor
  · intro same
    rw [same, finished, Except.ok.injEq] at succeeded
    subst succeeded
    omega
  · intro nothing
    rw [started, plain, modifyHead_atTop _ (document_line_zero bytes) nothing]

def laterSheet : List UInt8 :=
  encodeText "\n1,=A2\n"

theorem run_mark_laterSheet :
    (¬byteOrderMark <+: laterSheet) ∧
      ((Evaluator.mk {} .empty).run laterSheet).result = .ok ⟨2, 2, 1, 1, 0⟩ ∧
      (readDocument {} laterSheet).records = [⟨2, 1, ["1", "=A2"]⟩] ∧
      (readDocument {} (byteOrderMark ++ laterSheet)).records = [⟨1, 0, ["1", "=A2"]⟩] ∧
      (∃ shown, ((Evaluator.mk {} .empty).run (byteOrderMark ++ laterSheet)).result = .ok shown ∧
        shown.rows + 1 = 2) ∧
      (Evaluator.mk {} .empty).run (byteOrderMark ++ laterSheet) ≠
        (Evaluator.mk {} .empty).run laterSheet := by
  have noMark : ¬byteOrderMark <+: laterSheet := by decide +kernel
  have finished : ((Evaluator.mk {} .empty).run laterSheet).result = .ok ⟨2, 2, 1, 1, 0⟩ :=
    eq_ok_of_toOption _ _ (by decide +kernel)
  have read : (readDocument {} laterSheet).records = [⟨2, 1, ["1", "=A2"]⟩] := by decide +kernel
  obtain ⟨records, _, shown, same⟩ := run_mark (.mk {} .empty) laterSheet _ noMark finished
  rw [read] at records shown same
  refine ⟨noMark, finished, read, records, shown, ?_⟩
  rw [ne_eq, same]
  rintro (empty | inside)
  · simp at empty
  · have := inside 10 rfl
    simp [isLineBreak, lineFeed] at this

theorem mark_not_transparent :
    ¬∀ (evaluator : Evaluator) (bytes : List UInt8) (statistics : Statistics),
      (¬byteOrderMark <+: bytes) → (evaluator.run bytes).result = .ok statistics →
        (evaluator.run (byteOrderMark ++ bytes)).output = (evaluator.run bytes).output ∧
          (evaluator.run (byteOrderMark ++ bytes)).result = .ok statistics := by
  intro transparent
  have plain : ((Evaluator.mk {} .empty).run laterSheet).result = .ok ⟨2, 2, 1, 1, 0⟩ :=
    eq_ok_of_toOption _ _ (by decide +kernel)
  have marked : ((Evaluator.mk {} .empty).run (byteOrderMark ++ laterSheet)).result =
      .ok ⟨1, 2, 1, 0, 1⟩ := eq_ok_of_toOption _ _ (by decide +kernel)
  have same := (transparent _ _ _ (by decide +kernel) plain).2
  rw [marked] at same
  simp at same

end PostfixSheet
