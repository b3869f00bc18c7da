import PostfixSheet.Proofs.Number.NumberText
import PostfixSheet.Proofs.Table.AddressRange
import PostfixSheet.Proofs.Table.ReplacedFields

/-! Evaluating a table that was written by an evaluation. It has no formula left, so it is written again
as it is. -/

namespace PostfixSheet

namespace Evaluator

variable {evaluator : Evaluator}

def Settled (evaluator : Evaluator) (records : List Record) : Prop :=
  ∀ record ∈ records, ∀ text ∈ record.fields, evaluator.isFormula text = false

theorem isFormula_of_head_ne (text : String) (first : Char) (rest : List Char)
    (begins : text.toList = first :: rest) (other : first ≠ evaluator.settings.formulaPrefix) :
    evaluator.isFormula text = false := by
  simp [isFormula, Settings.formula?, begins, other]

theorem isFormula_showNumber (value : Float)
    (digit : evaluator.settings.formulaPrefix.isDigit = false)
    (others : evaluator.settings.formulaPrefix ∉ ['-', 'i', 'N']) :
    evaluator.isFormula (showNumber value) = false := by
  obtain ⟨first, rest, begins, shape⟩ := showNumber_begins value
  apply isFormula_of_head_ne _ first rest begins
  rintro rfl
  rcases shape with isDigit | isSign | isWord | isWord
  · rw [digit] at isDigit
    contradiction
  · exact others (by simp [isSign])
  · exact others (by simp [isWord])
  · exact others (by simp [isWord])

theorem isFormula_fieldText (cell : ValuedCell)
    (digit : evaluator.settings.formulaPrefix.isDigit = false)
    (others : evaluator.settings.formulaPrefix ∉ ['-', 'i', 'N'])
    (errorText : evaluator.isFormula evaluator.settings.errorText = false) :
    evaluator.isFormula (evaluator.fieldText cell) = false := by
  simp only [fieldText]
  split
  · cases cell.value with
    | none => exact errorText
    | some value => exact isFormula_showNumber value digit others
  · rename_i plain
    simpa using plain

theorem lineBreaks_fieldText (cell : ValuedCell)
    (single : ∀ character ∈ evaluator.settings.errorText.toList,
      character ≠ '\n' ∧ character ≠ '\r') :
    lineBreaks (encodeText (evaluator.fieldText cell)) ≤ lineBreaks (encodeText cell.text) := by
  simp only [fieldText]
  split
  · cases cell.value with
    | none =>
        rw [lineBreaks_encodeText_eq_zero _ single]
        exact Nat.zero_le _
    | some value =>
        rw [lineBreaks_encodeText_eq_zero]
        · exact Nat.zero_le _
        · intro character member
          have shown := showNumber_characters value character member
          constructor <;> rintro rfl <;> simp [isNumberChar] at shown
  · exact Nat.le_refl _

theorem cells_of_rows (first second : ValuedCell → String) (rows sources : List (List String))
    (cells : List ValuedCell) (index : Nat) (row source : List String)
    (written : rows[index]? = some row) (found : sources[index]? = some source)
    (rowTexts : rows.flatten = cells.map first) (sourceTexts : sources.flatten = cells.map second)
    (lengths : rows.map List.length = sources.map List.length) :
    ∃ own : List ValuedCell, row = own.map first ∧ source = own.map second := by
  induction rows generalizing sources cells index with
  | nil => simp at written
  | cons top more ih =>
      cases sources with
      | nil => simp at found
      | cons base rest =>
          simp only [List.map_cons, List.cons.injEq] at lengths
          rw [List.flatten_cons] at rowTexts sourceTexts
          obtain ⟨own, others, rfl, top', rowTexts'⟩ := List.append_eq_map_iff.mp rowTexts
          rw [List.map_append] at sourceTexts
          have size : base.length = (own.map second).length := by
            rw [← lengths.1, ← top', List.length_map, List.length_map]
          obtain ⟨base', sourceTexts'⟩ := List.append_inj sourceTexts size
          cases index with
          | zero =>
              simp only [List.getElem?_cons_zero, Option.some.injEq] at written found
              exact ⟨own, by rw [← written, top'], by rw [← found, base']⟩
          | succ index =>
              exact ih rest others index written found rowTexts'.symm sourceTexts' lengths.2

section Ordered

variable {records : List Record} {cells : List ValuedCell} {rows : List (List String)}
  (ordered : evaluator.InDocumentOrder [] records cells rows)

include ordered

theorem InDocumentOrder.cellTexts :
    cells.map ValuedCell.text = records.flatMap Record.fields := by
  have texts := congrArg (List.map Prod.snd) ordered.sites
  have same (record : Record) : record.sites.map Prod.snd = record.fields := by
    apply List.ext_getElem <;> simp [Record.sites]
  rw [List.map_map, List.map_flatMap] at texts
  simp only [same] at texts
  exact texts

theorem InDocumentOrder.plain (settled : evaluator.Settled records) :
    ∀ cell ∈ cells, evaluator.isFormula cell.text = false := by
  intro cell member
  have text : cell.text ∈ records.flatMap Record.fields := by
    rw [← ordered.cellTexts]
    exact List.mem_map_of_mem member
  obtain ⟨record, belongs, inside⟩ := List.mem_flatMap.mp text
  exact settled record belongs cell.text inside

theorem InDocumentOrder.rows_settled (settled : evaluator.Settled records) :
    rows = records.map Record.fields := by
  have unchanged : cells.map evaluator.fieldText = cells.map ValuedCell.text := by
    apply List.map_congr_left
    intro cell member
    simp [fieldText, ordered.plain settled cell member]
  rw [List.eq_iff_flatten_eq, ordered.texts, unchanged, ordered.cellTexts, ordered.lengths]
  simp [List.flatMap_def]

theorem InDocumentOrder.tally_settled (settled : evaluator.Settled records) (count : Nat) :
    evaluator.tally cells count = { rows := count, cells := rows.flatten.length } := by
  have plain := ordered.plain settled
  rw [ordered.texts, List.length_map, tally]
  simp only [Statistics.mk.injEq, true_and, List.countP_eq_zero]
  refine ⟨?_, ?_, ?_⟩ <;> intro cell member <;> simp [plain cell member]

theorem InDocumentOrder.visible (shown : ∀ record ∈ records, record.fields ≠ []) :
    ∀ row ∈ rows, row ≠ [] := by
  intro row member empty
  have length : row.length ∈ records.map fun record => record.fields.length := by
    rw [← ordered.lengths]
    exact List.mem_map_of_mem member
  obtain ⟨record, belongs, same⟩ := List.mem_map.mp length
  rw [empty] at same
  exact shown record belongs (List.length_eq_zero_iff.mp same)

theorem InDocumentOrder.row_cells (index : Nat) (record : Record) (row : List String)
    (found : records[index]? = some record) (written : rows[index]? = some row) :
    ∃ own : List ValuedCell, row = own.map evaluator.fieldText ∧
      record.fields = own.map ValuedCell.text := by
  apply cells_of_rows _ _ rows (records.map Record.fields) cells index row record.fields written
  · simp [found]
  · exact ordered.texts
  · rw [ordered.cellTexts, List.flatMap_def]
  · rw [ordered.lengths, List.map_map]
    rfl

theorem InDocumentOrder.fieldBreaks_le
    (single : ∀ character ∈ evaluator.settings.errorText.toList,
      character ≠ '\n' ∧ character ≠ '\r')
    (index : Nat) (record later : Record) (found : records[index]? = some record)
    (written : rows[index]? = some later.fields) : later.fieldBreaks ≤ record.fieldBreaks := by
  obtain ⟨own, rowTexts, sourceTexts⟩ := ordered.row_cells index record later.fields found written
  rw [Record.fieldBreaks, Record.fieldBreaks, rowTexts, sourceTexts, List.map_map, List.map_map]
  exact List.sum_le_sum fun cell _ => lineBreaks_fieldText cell single

theorem InDocumentOrder.narrow (later : List Record) (same : later.map Record.fields = rows) :
    ∀ record ∈ later, record.fields.length ≤ maxIndex + 1 := by
  intro record member
  have length : record.fields.length ∈ rows.map List.length := by
    rw [← same, List.map_map]
    exact List.mem_map.mpr ⟨record, member, rfl⟩
  rw [ordered.lengths] at length
  obtain ⟨other, belongs, equal⟩ := List.mem_map.mp length
  rw [← equal]
  exact (ordered.indexed other belongs).2

theorem InDocumentOrder.settled (digit : evaluator.settings.formulaPrefix.isDigit = false)
    (others : evaluator.settings.formulaPrefix ∉ ['-', 'i', 'N'])
    (errorText : evaluator.isFormula evaluator.settings.errorText = false)
    (later : List Record) (same : later.map Record.fields = rows) : evaluator.Settled later := by
  intro record member text inside
  have written : text ∈ rows.flatten := by
    rw [← same]
    exact List.mem_flatten.mpr ⟨record.fields, List.mem_map_of_mem member, inside⟩
  rw [ordered.texts] at written
  obtain ⟨cell, _, rfl⟩ := List.mem_map.mp written
  exact isFormula_fieldText cell digit others errorText

end Ordered

theorem runFrom_far (evaluator : Evaluator) (trailing : Nat) (bindings : Bindings)
    (statistics : Statistics) (records : List Record)
    (narrow : ∀ record ∈ records, record.fields.length ≤ maxIndex + 1)
    (beyond : ¬∀ record ∈ records, record.line ≤ maxIndex + 1) :
    ∃ record ∈ records, maxIndex + 1 < record.line ∧
      (evaluator.runFrom (.ok trailing) bindings statistics records).result =
        .error (.address (.lineOutOfRange record.line)) := by
  obtain ⟨error, failed⟩ := evaluator.runFrom_beyond (.ok trailing) bindings statistics records
    fun inRange => beyond fun record member => (inRange record member).1
  rcases evaluator.runFrom_ends trailing bindings statistics records with
    ⟨final, finished⟩ | ⟨record, member, far | ⟨wide, _⟩⟩
  · simp [failed] at finished
  · exact ⟨record, member, far⟩
  · have := narrow record member
    omega

theorem run_output (evaluator : Evaluator) (bytes : List UInt8) (statistics : Statistics)
    (finished : (evaluator.run bytes).result = .ok statistics) :
    ∃ trailing cells rows,
      let document := readDocument evaluator.settings.toDialect bytes
      document.ending = .ok trailing ∧
      evaluator.InDocumentOrder [] document.records cells rows ∧
      (∀ row ∈ rows, row ≠ []) ∧
      (evaluator.run bytes).output = evaluator.settings.encodeRows
        ((replaceFields document.records rows).flatMap Record.rows ++ List.replicate trailing []) ∧
      statistics = evaluator.tally cells
        (document.records.length + (document.records.map Record.blankBefore).sum + trailing) := by
  obtain ⟨trailing, cells, rows, complete, ordered, written, counted⟩ :=
    run_evaluated evaluator bytes statistics finished
  have visible := ordered.visible (document_visible evaluator.settings.toDialect bytes)
  refine ⟨trailing, cells, rows, complete, ordered, visible, ?_, counted⟩
  rw [Run.output, written, encodeTable_flatten _ _ _ _ visible]

theorem read_back (evaluator : Evaluator) (doubling : evaluator.settings.toDialect.Doubling)
    (bytes written : List UInt8) (statistics : Statistics)
    (finished : (evaluator.run bytes).result = .ok statistics)
    (same : (evaluator.run bytes).output = written) (noMark : ¬byteOrderMark <+: written) :
    ∃ trailing cells rows,
      let first := readDocument evaluator.settings.toDialect bytes
      let second := readDocument evaluator.settings.toDialect written
      evaluator.InDocumentOrder [] first.records cells rows ∧
      statistics = evaluator.tally cells
        (first.records.length + (first.records.map Record.blankBefore).sum + trailing) ∧
      second.ending = .ok trailing ∧
      second.records.map Record.blankBefore = first.records.map Record.blankBefore ∧
      second.records.map Record.fields = rows ∧
      written = evaluator.settings.encodeRows
        (second.records.flatMap Record.rows ++ List.replicate trailing []) := by
  obtain ⟨trailing, cells, rows, _, ordered, visible, output, counted⟩ :=
    evaluator.run_output bytes statistics finished
  rw [same] at output
  have lengths := congrArg List.length ordered.lengths
  simp only [List.length_map] at lengths
  obtain ⟨complete, contents⟩ := readDocument_rows _ doubling _ trailing
    (replaceFields_visible _ rows visible) written output noMark
  have blanks := congrArg (List.map Prod.fst) contents
  have fields := congrArg (List.map Prod.snd) contents
  rw [replaceFields_content, List.map_map] at blanks fields
  rw [List.map_fst_zip (by simp [lengths])] at blanks
  rw [List.map_snd_zip (by simp [lengths])] at fields
  refine ⟨trailing, cells, rows, ordered, counted, complete, blanks, fields, ?_⟩
  rw [flatMap_rows_congr _ _ contents]
  exact output

theorem line_le_of_single (doubling : evaluator.settings.toDialect.Doubling)
    {bytes written : List UInt8} {cells : List ValuedCell} {rows : List (List String)}
    (ordered : evaluator.InDocumentOrder []
      (readDocument evaluator.settings.toDialect bytes).records cells rows)
    (noMark : ¬byteOrderMark <+: written)
    (blanks : (readDocument evaluator.settings.toDialect written).records.map Record.blankBefore =
      (readDocument evaluator.settings.toDialect bytes).records.map Record.blankBefore)
    (fields : (readDocument evaluator.settings.toDialect written).records.map Record.fields = rows)
    (single : ∀ character ∈ evaluator.settings.errorText.toList,
      character ≠ '\n' ∧ character ≠ '\r') :
    ∀ record ∈ (readDocument evaluator.settings.toDialect written).records,
      record.line ≤ maxIndex + 1 := by
  intro later member
  obtain ⟨index, foundLater⟩ := List.mem_iff_getElem?.mp member
  have blank := congrArg (·[index]?) blanks
  simp only [List.getElem?_map, foundLater, Option.map_some] at blank
  obtain ⟨record, found, _⟩ := Option.map_eq_some_iff.mp blank.symm
  have above : later.line ≤ record.line := by
    apply document_line_le doubling bytes written noMark ?_ index record later found foundLater
    intro index record later found foundLater
    have blank := congrArg (·[index]?) blanks
    simp only [List.getElem?_map, found, foundLater, Option.map_some, Option.some.injEq] at blank
    exact ⟨blank, ordered.fieldBreaks_le single index record later found
      (by rw [← fields, List.getElem?_map, foundLater, Option.map_some])⟩
  exact Nat.le_trans above (ordered.indexed record (List.mem_of_getElem? found)).1

theorem run_settled (evaluator : Evaluator) (bytes : List UInt8) (statistics : Statistics)
    (finished : (evaluator.run bytes).result = .ok statistics)
    (settled : evaluator.Settled (readDocument evaluator.settings.toDialect bytes).records) :
    ∃ trailing,
      let document := readDocument evaluator.settings.toDialect bytes
      document.ending = .ok trailing ∧
      (evaluator.run bytes).output = evaluator.settings.encodeRows
        (document.records.flatMap Record.rows ++ List.replicate trailing []) ∧
      statistics = {
        rows := document.records.length + (document.records.map Record.blankBefore).sum + trailing
        cells := (document.records.map Record.fields).flatten.length } := by
  obtain ⟨trailing, cells, rows, complete, ordered, _, output, counted⟩ :=
    evaluator.run_output bytes statistics finished
  have unchanged := ordered.rows_settled settled
  refine ⟨trailing, complete, ?_, ?_⟩
  · rw [output, unchanged]
    congr 2
    apply flatMap_rows_congr
    rw [replaceFields_content, List.zip_map']
    rfl
  · rw [counted, ordered.tally_settled settled, unchanged]

end Evaluator

theorem noMark_encodeText (text : String) (noMark : ¬['\uFEFF'] <+: text.toList) :
    ¬byteOrderMark <+: encodeText text :=
  fun begins => noMark (begins_of_encodeText_begins '\uFEFF' text begins)

/-- Evaluating is idempotent where quotes are doubled: what an evaluation wrote is written again byte for
byte, and no formula is found in it. Only an error text with line breaks can get in the way, when it moves
a record below the last row. -/
theorem evaluateText_idempotent (evaluator : Evaluator) (text output : String)
    (doubling : evaluator.settings.toDialect.Doubling)
    (digit : evaluator.settings.formulaPrefix.isDigit = false)
    (others : evaluator.settings.formulaPrefix ∉ ['-', 'i', 'N'])
    (errorText : evaluator.isFormula evaluator.settings.errorText = false)
    (evaluated : evaluator.evaluateText text = .ok output)
    (noMark : ¬['\uFEFF'] <+: output.toList) :
    let records := (readDocument evaluator.settings.toDialect (encodeText output)).records
    ∃ first, (evaluator.run (encodeText text)).result = .ok first ∧
      ((∀ record ∈ records, record.line ≤ maxIndex + 1) →
        evaluator.evaluateText output = .ok output ∧
          (evaluator.run (encodeText output)).result =
            .ok { rows := first.rows, cells := first.cells }) ∧
      ((¬∀ record ∈ records, record.line ≤ maxIndex + 1) →
        (∃ character ∈ evaluator.settings.errorText.toList, character = '\n' ∨ character = '\r') ∧
          ∃ line, maxIndex + 1 < line ∧ line ≤ 1 + lineBreaks (encodeText output) ∧
            evaluator.evaluateText output = .error (.address (.lineOutOfRange line))) := by
  obtain ⟨⟨first, finished⟩, written⟩ :=
    (evaluator.evaluateText_eq_ok_iff text output).mp evaluated
  have unmarked := noMark_encodeText output noMark
  obtain ⟨trailing, cells, rows, ordered, counted, complete, blanks, fields, encoded⟩ :=
    evaluator.read_back doubling _ _ first finished written unmarked
  have started : evaluator.run (encodeText output) = evaluator.runFrom (.ok trailing) .empty {}
      (readDocument evaluator.settings.toDialect (encodeText output)).records := by
    rw [Evaluator.run, complete]
  have narrow := ordered.narrow _ fields
  intro records
  refine ⟨first, finished, fun near => ?_, fun beyond => ?_⟩
  · obtain ⟨again, succeeded⟩ := evaluator.runFrom_indexed trailing .empty {} records
      fun record member => ⟨near record member, narrow record member⟩
    rw [← started] at succeeded
    obtain ⟨trailing', complete', rewritten, recounted⟩ := evaluator.run_settled _ again succeeded
      (ordered.settled digit others errorText _ fields)
    obtain rfl : trailing' = trailing := by simpa [complete] using complete'.symm
    have same : again = { rows := first.rows, cells := first.cells } := by
      have lengths := congrArg List.length blanks
      simp only [List.length_map] at lengths
      rw [recounted, counted, blanks, fields, lengths, ordered.texts]
      simp [Evaluator.tally]
    refine ⟨?_, by rw [succeeded, same]⟩
    rw [Evaluator.evaluateText_eq_ok_iff]
    exact ⟨⟨again, succeeded⟩, rewritten.trans encoded.symm⟩
  · obtain ⟨record, member, far, stopped⟩ :=
      evaluator.runFrom_far trailing .empty {} records narrow beyond
    rw [← started] at stopped
    obtain ⟨index, foundLater⟩ := List.mem_iff_getElem?.mp member
    refine ⟨?_, record.line, far, record_line_le _ _ index record foundLater,
      by simp only [Evaluator.evaluateText, stopped]⟩
    by_contra single
    simp only [not_exists, not_and, not_or] at single
    exact beyond
      (Evaluator.line_le_of_single doubling ordered unmarked blanks fields single)

def doublingEvaluator : Evaluator where
  settings := { escape := none }

def brokenSheet : String :=
  "=A9,\"say \"\"hi\"\"\"\r\n\r\"two\nlines\",\n=B1 +"

def settledSheet : String :=
  "#N/A,\"say \"\"hi\"\"\"\n\n\"two\nlines\",\n#N/A\n"

theorem evaluateText_idempotent_brokenSheet :
    doublingEvaluator.evaluateText brokenSheet = .ok settledSheet ∧
      (¬['\uFEFF'] <+: settledSheet.toList) ∧
      (doublingEvaluator.run (encodeText brokenSheet)).result = .ok ⟨4, 5, 2, 0, 2⟩ ∧
      doublingEvaluator.evaluateText settledSheet = .ok settledSheet ∧
      (doublingEvaluator.run (encodeText settledSheet)).result = .ok ⟨4, 5, 0, 0, 0⟩ := by
  have evaluated : doublingEvaluator.evaluateText brokenSheet = .ok settledSheet :=
    eq_ok_of_toOption _ _ (by decide +kernel)
  have noMark : ¬['\uFEFF'] <+: settledSheet.toList := by decide +kernel
  have counted : (doublingEvaluator.run (encodeText brokenSheet)).result = .ok ⟨4, 5, 2, 0, 2⟩ :=
    eq_ok_of_toOption _ _ (by decide +kernel)
  obtain ⟨first, finished, again, _⟩ := evaluateText_idempotent doublingEvaluator brokenSheet
    settledSheet ⟨rfl, by decide, by decide, by decide⟩ (by decide) (by decide) (by decide) evaluated
    noMark
  obtain rfl : first = ⟨4, 5, 2, 0, 2⟩ := by simpa [counted] using finished.symm
  obtain ⟨rewritten, recounted⟩ := again (by decide +kernel)
  exact ⟨evaluated, noMark, counted, rewritten, recounted⟩

def feedsEvaluator (count : Nat) : Evaluator where
  settings := { escape := none, errorText := String.ofList (List.replicate count '\n') }

def feedsOutput (count : Nat) : String :=
  String.ofList ('"' :: (List.replicate count '\n' ++ ['"', '\n', 'x', '\n']))

section Feeds

variable (count : Nat)

theorem doubling_feedsEvaluator : (feedsEvaluator count).settings.toDialect.Doubling :=
  show Dialect.Doubling { escape := none } from ⟨rfl, by decide, by decide, by decide⟩

theorem encodeText_feedsOutput : encodeText (feedsOutput count) =
    34 :: (List.replicate count lineFeed ++ [34, lineFeed, 120, lineFeed]) := by
  rw [encodeText, feedsOutput, String.toList_ofList, ← List.singleton_append, encodeChars_append,
    encodeChars_append, encodeChars_feeds]
  rfl

theorem encodeText_feedsError :
    encodeText (feedsEvaluator count).settings.errorText = List.replicate count lineFeed := by
  rw [encodeText, feedsEvaluator, String.toList_ofList, encodeChars_feeds]

theorem encodeRecord_feeds (positive : 0 < count) :
    (feedsEvaluator count).settings.encodeRecord [(feedsEvaluator count).settings.errorText] =
      34 :: (List.replicate count lineFeed ++ [34, lineFeed]) := by
  have kept : (List.replicate count lineFeed).flatMap (fun byte =>
      if byte = 34 then [byte, byte] else [byte]) = List.replicate count lineFeed := by
    simp [List.flatMap_replicate, lineFeed]
  have quotes : (feedsEvaluator count).settings.needsQuotes (List.replicate count lineFeed) = true := by
    rw [Dialect.needsQuotes, List.any_replicate]
    simp [positive.ne', isLineBreak]
  have encoded : (feedsEvaluator count).settings.encodeField (List.replicate count lineFeed) =
      34 :: (List.replicate count lineFeed ++ [34]) := by
    have plain : (feedsEvaluator count).settings.escape = none := rfl
    simp only [Dialect.encodeField, plain, quotes, if_true, Dialect.quoteField]
    exact congrArg (fun bytes => 34 :: (bytes ++ [34])) kept
  rw [Dialect.encodeRecord, Dialect.recordBody, List.map_singleton, List.intercalate_singleton,
    encodeText_feedsError, encoded]
  have terminator : (feedsEvaluator count).settings.terminator.bytes = [lineFeed] := rfl
  simp [terminator]

theorem encodeRecord_last :
    (feedsEvaluator count).settings.encodeRecord ["x"] = [120, lineFeed] := rfl

theorem run_feeds (positive : 0 < count) :
    let run := (feedsEvaluator count).run (encodeText "=\nx")
    run.result = .ok ⟨2, 2, 1, 0, 1⟩ ∧ run.output = encodeText (feedsOutput count) := by
  intro run
  have read : readDocument (feedsEvaluator count).settings.toDialect (encodeText "=\nx") =
      ⟨[⟨1, 0, ["="]⟩, ⟨2, 0, ["x"]⟩], .ok 0⟩ := rfl
  obtain ⟨error, failed⟩ : ∃ error,
    (feedsEvaluator count).result Bindings.empty.get? "=" = .failed error := ⟨_, rfl⟩
  have plain : plainValue? "x" = none := by decide +kernel
  have kept (lookup : Lookup) : (feedsEvaluator count).result lookup "x" = .plain none := by
    rw [← plain]
    rfl
  simp [run, Evaluator.run, read, Evaluator.runFrom, maxIndex, Evaluator.cells, failed, kept,
    Run.after, Run.output, Run.writes, Cell.output, blankLines, filterMap_reports, Action.write?,
    encodeRecord_feeds count positive, encodeRecord_last, encodeText_feedsOutput,
    Statistics.addCell, Statistics.addRows]

theorem evaluateText_feedsOutput (far : maxIndex < count) :
    (feedsEvaluator count).evaluateText (feedsOutput count) =
      .error (.address (.lineOutOfRange (count + 2))) := by
  have positive : 0 < count := by omega
  have doubling := doubling_feedsEvaluator count
  have noMark : ¬byteOrderMark <+: encodeText (feedsOutput count) := by
    simp [encodeText_feedsOutput, byteOrderMark]
  have written : encodeText (feedsOutput count) =
      (feedsEvaluator count).settings.encodeRows ([⟨1, 0, [(feedsEvaluator count).settings.errorText]⟩,
        ⟨2, 0, ["x"]⟩].flatMap Record.rows ++ List.replicate 0 []) := by
    simp [Dialect.encodeRows, Record.rows, Dialect.encodeRow_visible, encodeRecord_feeds count positive,
      encodeRecord_last, encodeText_feedsOutput]
  obtain ⟨complete, contents⟩ := readDocument_rows _ doubling _ 0 (by simp) _ written noMark
  obtain ⟨first, later, split, firstContent, rest⟩ := List.map_eq_cons_iff.mp contents
  obtain ⟨second, others, rfl, secondContent, none⟩ := List.map_eq_cons_iff.mp rest
  obtain rfl := List.map_eq_nil_iff.mp none
  simp only [Record.content, Prod.mk.injEq] at firstContent secondContent
  have firstLine := document_line_zero _ first (by rw [split]; rfl)
  have secondLine := (document_line_succ doubling _ 0 first second (by rw [split]; rfl)
    (by rw [split]; rfl)).2 noMark
  have breaks : first.fieldBreaks = count := by
    simp [Record.fieldBreaks, firstContent.2, encodeText_feedsError, lineBreaks_feeds]
  obtain ⟨record, member, beyond, stopped⟩ :=
    (feedsEvaluator count).runFrom_far 0 .empty {} [first, second]
      (by simp [firstContent.2, secondContent.2])
      fun near => by
        have := near second (by simp)
        omega
  obtain rfl : record = second := by
    rcases List.mem_pair.mp member with rfl | rfl
    · omega
    · rfl
  have line : record.line = count + 2 := by omega
  rw [line] at stopped
  simp only [Evaluator.evaluateText, Evaluator.run, complete, split, stopped]

end Feeds

/-- An error text of many lines moves the record behind it below the last row. -/
theorem evaluateText_notIdempotent :
    let evaluator := feedsEvaluator UInt32.size
    let output := feedsOutput UInt32.size
    evaluator.settings.toDialect.Doubling ∧ evaluator.settings.formulaPrefix = '=' ∧
      evaluator.isFormula evaluator.settings.errorText = false ∧
      evaluator.evaluateText "=\nx" = .ok output ∧ (¬['\uFEFF'] <+: output.toList) ∧
      evaluator.evaluateText output = .error (.address (.lineOutOfRange (UInt32.size + 2))) := by
  have far : maxIndex < UInt32.size := by decide
  generalize UInt32.size = count at far
  intro evaluator output
  obtain ⟨finished, written⟩ := run_feeds count (by omega)
  refine ⟨doubling_feedsEvaluator count, rfl, ?_, ?_, ?_, evaluateText_feedsOutput count far⟩
  · obtain ⟨more, rfl⟩ := Nat.exists_eq_succ_of_ne_zero (n := count) (by omega)
    exact Evaluator.isFormula_of_head_ne _ '\n' (List.replicate more '\n')
      (by simp [evaluator, feedsEvaluator, List.replicate_succ]) (show '\n' ≠ '=' by decide)
  · exact (Evaluator.evaluateText_eq_ok_iff _ _ _).mpr ⟨⟨_, finished⟩, written⟩
  · simp [output, feedsOutput]

end PostfixSheet
