import PostfixSheet.Proofs.Table.AddressRange
import PostfixSheet.Proofs.Table.CutDocuments
import PostfixSheet.Proofs.Table.WrittenRows

/-! Documents that are continued. If the scanner is between records where a document is cut, the records in
front of the cut are read and evaluated without regard to what follows. -/

namespace PostfixSheet

def Dialect.scanAll (dialect : Dialect) (state : ScanState) (bytes : List UInt8) : ScanState :=
  bytes.foldl (fun state byte => (dialect.scan state byte).1) state

structure Statistics.AtMost (fewer more : Statistics) : Prop where
  rows : fewer.rows ≤ more.rows
  cells : fewer.cells ≤ more.cells
  formulas : fewer.formulas ≤ more.formulas
  evaluated : fewer.evaluated ≤ more.evaluated
  errors : fewer.errors ≤ more.errors

theorem scanRecords_append (dialect : Dialect) (record : OpenRecord) (front behind : List UInt8)
    (fresh : record.state = .recordStart → record = { source := record.source })
    (between : dialect.scanAll record.state front = .recordStart) :
    let first := scanRecords dialect record front
    let later := scanRecords dialect { source := first.2.reverse } behind
    scanRecords dialect record (front ++ behind) = (first.1 ++ later.1, later.2) := by
  induction front generalizing record with
  | nil =>
      have atStart : record.state = .recordStart := between
      simp only [scanRecords, atStart, if_true, List.reverse_reverse, List.nil_append]
      rw [← fresh atStart]
  | cons byte rest ih =>
      simp only [Dialect.scanAll, List.foldl_cons, List.cons_append] at between ih ⊢
      rcases scan_cases dialect record.state byte with
        ⟨atStart, _, skipped⟩ | ⟨_, _, ended⟩ | ⟨_, inside, read⟩
      · rw [scanRecords_skip dialect record byte _ skipped atStart,
          scanRecords_skip dialect record byte _ skipped atStart]
        apply ih (record.sip byte)
        · intro _
          rw [fresh atStart]
          rfl
        · rw [skipped] at between
          simpa [OpenRecord.sip, atStart] using between
      · rw [scanRecords_finish dialect record byte _ ended,
          scanRecords_finish dialect record byte _ ended]
        rw [ended] at between
        have later := ih {} (fun _ => rfl) between
        rw [later]
        rfl
      · rw [scanRecords_absorb dialect record byte _ read,
          scanRecords_absorb dialect record byte _ read]
        apply ih
        · intro atStart
          exact (inside atStart).elim
        · exact between

theorem readFrom_decodable (tail : List UInt8) (point : ReadingPoint) (raws : List RawRecord)
    (trailing : Nat) (complete : (readFrom tail point raws).ending = .ok trailing) :
    ∀ raw ∈ raws, raw.Decodable := by
  induction raws generalizing point with
  | nil => simp
  | cons raw rest ih =>
      simp only [readFrom] at complete
      split at complete
      · simp at complete
      · rename_i fields decoded
        rw [List.forall_mem_cons]
        exact ⟨(decodeFields_ok_iff 0 raw.fields).mp ⟨fields, decoded⟩, ih _ complete⟩

theorem blanksSince_le (count : LineCount) (first second : List UInt8) (ordered : first <+: second) :
    (count.pass first).blanksSince count ≤ (count.pass second).blanksSince count := by
  obtain ⟨more, rfl⟩ := ordered
  rw [LineCount.blanksSince, LineCount.blanksSince, ← LineCount.pass_append,
    LineCount.pass_line (count.pass first)]
  omega

def nextBlanks (records : List Record) (trailing : Nat) : Nat :=
  (records.head?.map Record.blankBefore).getD trailing

theorem readFrom_behind (skipped tail : List UInt8) (point : ReadingPoint) (raws : List RawRecord)
    (trailing : Nat) (breaks : ∀ byte ∈ skipped, isLineBreak byte = true)
    (complete : (readFrom (if raws = [] then skipped ++ tail else tail) point
      (raws.modifyHead (.behind skipped))).ending = .ok trailing) :
    (point.lines.pass skipped).blanksSince point.lines ≤
      nextBlanks (readFrom (if raws = [] then skipped ++ tail else tail) point
        (raws.modifyHead (.behind skipped))).records trailing := by
  cases raws with
  | nil =>
      simp only [if_true, List.modifyHead_nil, readFrom, Except.ok.injEq] at complete ⊢
      rw [nextBlanks, ← complete]
      exact blanksSince_le _ _ _ (List.prefix_append _ _)
  | cons raw rest =>
      simp only [List.modifyHead_cons, readFrom, reduceCtorEq, if_false] at complete ⊢
      split
      · rename_i failed
        simp [failed] at complete
      · simp only [nextBlanks, List.head?_cons, Option.map_some, Option.getD_some, place_eq,
          RawRecord.behind]
        apply blanksSince_le
        rw [List.takeWhile_append_of_pos breaks]
        exact List.prefix_append _ _

section Document

variable (dialect : Dialect) (front behind : List UInt8)
  (noMark : ¬byteOrderMark <+: front ++ behind)
  (between : dialect.scanAll .recordStart front = .recordStart)

include noMark between

/-- A document that is cut between records has the records in front of the cut. The line breaks that were
skipped at its end count towards the next record, or towards the end of the document. -/
theorem readDocument_continued (trailing : Nat)
    (complete : (readDocument dialect (front ++ behind)).ending = .ok trailing) :
    ∃ blanks later, (readDocument dialect front).ending = .ok blanks ∧
      (readDocument dialect (front ++ behind)).records =
        (readDocument dialect front).records ++ later ∧
      blanks ≤ nextBlanks later trailing := by
  have noMarkFront : ¬byteOrderMark <+: front := by
    intro marked
    exact noMark (marked.trans (List.prefix_append _ _))
  have whole := scanRecords_append dialect {} front behind (fun _ => rfl) between
  have resumed := scanRecords_behind dialect {} (scanRecords dialect {} front).2 behind
  have breaks := scanRecords_tail dialect {} front (by simp)
  simp only [readDocument, rawRecords, splitMark_of_no_mark _ noMark,
    splitMark_of_no_mark _ noMarkFront, List.reverse_nil] at complete ⊢
  generalize scanRecords dialect {} front = first at whole resumed breaks ⊢
  obtain ⟨raws, skipped⟩ := first
  simp only [List.nil_append] at whole resumed breaks
  rw [resumed] at whole
  rw [whole] at complete ⊢
  have decodable := readFrom_decodable _ _ _ _ complete
  obtain ⟨_, cut⟩ := readFrom_append skipped {} raws []
    fun raw member => decodable raw (by simp [member])
  obtain ⟨_, split⟩ := readFrom_append
    (if (scanRecords dialect {} behind).1 = [] then skipped ++ (scanRecords dialect {} behind).2
      else (scanRecords dialect {} behind).2) {} raws
    ((scanRecords dialect {} behind).1.modifyHead (.behind skipped))
    fun raw member => decodable raw (by simp [member])
  rw [List.append_nil] at cut
  rw [split] at complete ⊢
  rw [cut]
  refine ⟨_, _, rfl, ?_, readFrom_behind skipped _ _ _ trailing breaks complete⟩
  simp [readFrom]

end Document

theorem encodeTable_append (dialect : Dialect) (front later : List Record)
    (rows more : List (List String)) (lengths : front.length = rows.length) :
    dialect.encodeTable (front ++ later) (rows ++ more) =
      dialect.encodeTable front rows ++ dialect.encodeTable later more := by
  rw [Dialect.encodeTable, List.zip_append lengths, List.flatMap_append]
  rfl

theorem replicate_prefix_encodeTable (dialect : Dialect) (later : List Record)
    (rows : List (List String)) (lengths : later.length = rows.length) (blanks trailing : Nat)
    (fewer : blanks ≤ nextBlanks later trailing) :
    List.replicate blanks dialect.terminator.bytes <+:
      dialect.encodeTable later rows ++ List.replicate trailing dialect.terminator.bytes := by
  have grows (more : Nat) (bound : blanks ≤ more) :
      List.replicate blanks dialect.terminator.bytes <+:
        List.replicate more dialect.terminator.bytes := by
    rw [List.prefix_replicate_iff]
    simpa using bound
  cases later with
  | nil =>
      rw [Dialect.encodeTable, List.zip_nil_left, List.flatMap_nil, List.nil_append]
      exact grows trailing fewer
  | cons record rest =>
      cases rows with
      | nil => simp at lengths
      | cons row more =>
          rw [Dialect.encodeTable, List.zip_cons_cons, List.flatMap_cons, List.append_assoc,
            List.append_assoc]
          exact (grows record.blankBefore fewer).trans (List.prefix_append _ _)

namespace Evaluator

variable (evaluator : Evaluator)

theorem cellRows_append (bindings : Bindings) (front later : List Record) :
    evaluator.cellRows bindings (front ++ later) =
      ((evaluator.cellRows bindings front).1 ++
          (evaluator.cellRows (evaluator.cellRows bindings front).2 later).1,
        (evaluator.cellRows (evaluator.cellRows bindings front).2 later).2) := by
  induction front generalizing bindings with
  | nil => rfl
  | cons record rest ih => simp only [List.cons_append, cellRows, ih]

theorem tally_atMost (cells later : List ValuedCell) (rows more : Nat) (fewer : rows ≤ more) :
    (evaluator.tally cells rows).AtMost (evaluator.tally (cells ++ later) more) := by
  constructor
  · exact fewer
  · simp [tally]
  · simp [tally, List.countP_append]
  · simp [tally, List.countP_append]
  · simp [tally, List.countP_append]

theorem shownRows_append (bindings : Bindings) (front later : List Record) :
    evaluator.shownRows bindings (front ++ later) = evaluator.shownRows bindings front ++
      evaluator.shownRows (evaluator.cellRows bindings front).2 later := by
  simp only [shownRows, cellRows_append, List.map_append]

theorem cellRows_length (bindings : Bindings) (records : List Record) :
    (evaluator.cellRows bindings records).1.length = records.length := by
  induction records generalizing bindings with
  | nil => rfl
  | cons record rest ih => simp only [cellRows, List.length_cons, ih]

theorem shownRows_length (bindings : Bindings) (records : List Record) :
    (evaluator.shownRows bindings records).length = records.length := by
  rw [shownRows, List.length_map, cellRows_length]

theorem run_continued (front behind : List UInt8) (statistics : Statistics)
    (noMark : ¬byteOrderMark <+: front ++ behind)
    (between : evaluator.settings.toDialect.scanAll .recordStart front = .recordStart)
    (finished : (evaluator.run (front ++ behind)).result = .ok statistics) :
    ∃ earlier, (evaluator.run front).result = .ok earlier ∧
      (evaluator.run front).writes <+: (evaluator.run (front ++ behind)).writes ∧
      earlier.AtMost statistics := by
  obtain ⟨trailing, complete, ordered, written, counted⟩ :=
    run_cells evaluator _ statistics finished
  obtain ⟨blanks, later, ended, split, fewer⟩ :=
    readDocument_continued _ front behind noMark between trailing complete
  have indexed := ordered.indexed
  rw [split] at indexed
  obtain ⟨earlier, succeeded⟩ := evaluator.runFrom_indexed blanks .empty {} _
    fun record member => indexed record (List.mem_append_left later member)
  have started : (evaluator.run front).result = .ok earlier := by
    rw [Evaluator.run, ended]
    exact succeeded
  obtain ⟨shown, completed, _, shortWritten, shortCounted⟩ :=
    run_cells evaluator front earlier started
  obtain rfl : shown = blanks := by simpa [ended] using completed.symm
  refine ⟨earlier, started, ?_, ?_⟩
  · rw [written, shortWritten, split, shownRows_append, encodeTable_append _ _ _ _ _
      (evaluator.shownRows_length _ _).symm, List.append_assoc, List.prefix_append_right_inj]
    exact replicate_prefix_encodeTable _ _ _ (evaluator.shownRows_length _ _).symm _ _ fewer
  · rw [counted, shortCounted, documentCells, documentCells, split, cellRows_append,
      List.flatten_append, List.map_append]
    apply tally_atMost
    have next : shown ≤ (later.map Record.blankBefore).sum + trailing := by
      cases later with
      | nil => simpa [nextBlanks] using fewer
      | cons record rest =>
          have bound : shown ≤ record.blankBefore := fewer
          rw [List.map_cons, List.sum_cons]
          omega
    rw [List.map_append, List.sum_append, List.length_append]
    omega

end Evaluator

/-- Evaluation is causal: what is appended to a document behind a line break between records changes nothing
that was written before, and counts are only added to. -/
theorem evaluate_causal (evaluator : Evaluator) (front behind : List UInt8) (statistics : Statistics)
    (noMark : ¬byteOrderMark <+: front ++ behind)
    (between : evaluator.settings.toDialect.scanAll .recordStart front = .recordStart)
    (succeeded : (evaluator.evaluate (.ok (front ++ behind)) {}).result = .ok statistics) :
    let short := evaluator.evaluate (.ok front) {}
    let whole := evaluator.evaluate (.ok (front ++ behind)) {}
    ∃ earlier, short.result = .ok earlier ∧ short.written <+: whole.written ∧
      short.written.flatten <+: whole.written.flatten ∧ earlier.AtMost statistics := by
  obtain ⟨wholeWritten, wholeEnded⟩ := evaluator.evaluate_unlimited (front ++ behind)
  obtain ⟨shortWritten, shortEnded⟩ := evaluator.evaluate_unlimited front
  rw [wholeEnded] at succeeded
  obtain ⟨earlier, finished, rows, fewer⟩ :=
    evaluator.run_continued front behind statistics noMark between succeeded
  rw [← shortWritten, ← wholeWritten] at rows
  refine ⟨earlier, shortEnded.trans finished, rows, ?_, fewer⟩
  obtain ⟨more, same⟩ := rows
  rw [← same, List.flatten_append]
  exact List.prefix_append _ _

def forwardFront : List UInt8 :=
  encodeText "=A5,\"\n\"\r\n\r"

def forwardBehind : List UInt8 :=
  encodeText "\n\n7,=A5"

theorem evaluate_causal_forward :
    let whole := (Evaluator.mk {} .empty).evaluate (.ok (forwardFront ++ forwardBehind)) {}
    let short := (Evaluator.mk {} .empty).evaluate (.ok forwardFront) {}
    (¬byteOrderMark <+: forwardFront ++ forwardBehind) ∧
      ({} : Dialect).scanAll .recordStart forwardFront = .recordStart ∧
      whole.result = .ok ⟨4, 4, 2, 1, 1⟩ ∧
      short.written = [encodeText "#N/A,\\n\n", [lineFeed]] ∧
      ∃ earlier, short.result = .ok earlier ∧ short.written <+: whole.written ∧
        earlier.AtMost ⟨4, 4, 2, 1, 1⟩ := by
  have noMark : ¬byteOrderMark <+: forwardFront ++ forwardBehind := by decide +kernel
  have between : ({} : Dialect).scanAll .recordStart forwardFront = .recordStart := by decide +kernel
  have succeeded : ((Evaluator.mk {} .empty).evaluate
      (.ok (forwardFront ++ forwardBehind)) {}).result = .ok ⟨4, 4, 2, 1, 1⟩ :=
    eq_ok_of_toOption _ _ (by decide +kernel)
  have written : ((Evaluator.mk {} .empty).evaluate (.ok forwardFront) {}).written =
      [encodeText "#N/A,\\n\n", [lineFeed]] := by decide +kernel
  obtain ⟨earlier, finished, rows, _, fewer⟩ :=
    evaluate_causal (.mk {} .empty) forwardFront forwardBehind _ noMark between succeeded
  exact ⟨noMark, between, succeeded, written, earlier, finished, rows, fewer⟩

end PostfixSheet
