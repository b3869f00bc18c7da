import PostfixSheet.Proofs.Cell.AddressText
import PostfixSheet.Proofs.Table.Delivery
import PostfixSheet.Proofs.Table.Placement

/-! Evaluation in document order. The value of a cell is defined from the values of the cells before it,
and evaluating a document writes and counts exactly these values. -/

namespace PostfixSheet

/-- A cell together with the value that formulas behind it see. -/
structure ValuedCell where
  address : Address
  text : String
  value : Option Float

/-- The values of some cells by the names of the cells. Of cells that share a name the last one with a
value counts. -/
def tableOf (cells : List ValuedCell) : Lookup :=
  fun name => cells.reverse.findSome? fun cell => if cell.address.text = name then cell.value else none

namespace Evaluator

def isFormula (evaluator : Evaluator) (text : String) : Bool :=
  (evaluator.settings.formula? text).isSome

def valueOf (evaluator : Evaluator) (lookup : Lookup) (text : String) : Option Float :=
  match evaluator.settings.formula? text with
  | none => plainValue? text
  | some formula =>
      match parseFormula evaluator.functions formula with
      | .error _ => none
      | .ok tree => (tree.eval lookup).toOption

def Valued (evaluator : Evaluator) (cells : List ValuedCell) : Prop :=
  ∀ index cell, cells[index]? = some cell →
    cell.value = evaluator.valueOf (tableOf (cells.take index)) cell.text

def fieldText (evaluator : Evaluator) (cell : ValuedCell) : String :=
  if evaluator.isFormula cell.text then
    match cell.value with
    | some value => showNumber value
    | none => evaluator.settings.errorText
  else cell.text

def tally (evaluator : Evaluator) (cells : List ValuedCell) (rows : Nat) : Statistics where
  rows := rows
  cells := cells.length
  formulas := cells.countP fun cell => evaluator.isFormula cell.text
  evaluated := cells.countP fun cell => evaluator.isFormula cell.text && cell.value.isSome
  errors := cells.countP fun cell => evaluator.isFormula cell.text && cell.value.isNone

end Evaluator

def Record.sites (record : Record) : List (Address × String) :=
  record.fields.mapIdx fun column text =>
    (⟨UInt32.ofNat (record.line - 1), UInt32.ofNat column⟩, text)

def ValuedCell.site (cell : ValuedCell) : Address × String :=
  (cell.address, cell.text)

def Dialect.encodeTable (dialect : Dialect) (records : List Record) (rows : List (List String)) :
    List (List UInt8) :=
  (records.zip rows).flatMap fun entry =>
    List.replicate entry.1.blankBefore dialect.terminator.bytes ++ [dialect.encodeRecord entry.2]

def Cell.valued (cell : Cell) : ValuedCell :=
  ⟨cell.address, cell.text, cell.result.value?⟩

theorem tableOf_append (cells : List ValuedCell) (cell : ValuedCell) (name : String) :
    tableOf (cells ++ [cell]) name =
      (if cell.address.text = name then cell.value else none).or (tableOf cells name) := by
  simp only [tableOf, List.reverse_append, List.reverse_singleton, List.singleton_append,
    List.findSome?_cons]
  cases if cell.address.text = name then cell.value else none <;> rfl

theorem get?_bindCell (bindings : Bindings) (cells : List ValuedCell)
    (bound : bindings.get? = tableOf cells) (cell : Cell) :
    (bindings.bindCell cell).get? = tableOf (cells ++ [cell.valued]) := by
  funext name
  rw [tableOf_append, Bindings.bindCell, Cell.valued]
  cases cell.result.value? with
  | none => simp [bound]
  | some value =>
      simp only [Bindings.get?_set, bound]
      split <;> simp

namespace Evaluator

theorem Valued.append {evaluator : Evaluator} {cells : List ValuedCell}
    (valued : evaluator.Valued cells) (cell : ValuedCell)
    (value : cell.value = evaluator.valueOf (tableOf cells) cell.text) :
    evaluator.Valued (cells ++ [cell]) := by
  intro index found member
  by_cases inside : index < cells.length
  · rw [List.getElem?_append_left inside] at member
    rw [List.take_append_of_le_length (by omega)]
    exact valued index found member
  · rw [List.getElem?_append_right (by omega)] at member
    have last : index = cells.length := by
      have bound := (List.getElem?_eq_some_iff.mp member).1
      simp only [List.length_singleton] at bound
      omega
    subst index
    simp only [Nat.sub_self, List.getElem?_cons_zero, Option.some.injEq] at member
    subst found
    rw [List.take_left]
    exact value

section Cell

variable (evaluator : Evaluator) (lookup : Lookup) (address : Address) (text : String)

theorem result_value? :
    (evaluator.result lookup text).value? = evaluator.valueOf lookup text := by
  simp only [result, valueOf, formulaValue]
  cases evaluator.settings.formula? text with
  | none => rfl
  | some formula =>
      simp only
      cases parseFormula evaluator.functions formula with
      | error error => rfl
      | ok tree =>
          simp only
          cases tree.eval lookup <;> rfl

theorem result_cases :
    (evaluator.isFormula text = false ∧
        evaluator.result lookup text = .plain (plainValue? text)) ∨
      (evaluator.isFormula text = true ∧
        ∃ value, evaluator.result lookup text = .computed value) ∨
      (evaluator.isFormula text = true ∧
        ∃ error, evaluator.result lookup text = .failed error) := by
  cases prefixed : evaluator.settings.formula? text with
  | none => exact Or.inl ⟨by simp [isFormula, prefixed], by simp [result, prefixed]⟩
  | some formula =>
      have marked : evaluator.isFormula text = true := by simp [isFormula, prefixed]
      cases outcome : formulaValue evaluator.functions lookup formula with
      | ok value => exact Or.inr (Or.inl ⟨marked, value, by simp [result, prefixed, outcome]⟩)
      | error error => exact Or.inr (Or.inr ⟨marked, error, by simp [result, prefixed, outcome]⟩)

theorem output_eq_fieldText :
    (Cell.mk address text (evaluator.result lookup text)).output evaluator.settings =
      evaluator.fieldText (Cell.mk address text (evaluator.result lookup text)).valued := by
  rcases evaluator.result_cases lookup text with
    ⟨plain, shown⟩ | ⟨marked, value, shown⟩ | ⟨marked, error, shown⟩
  · simp [Cell.output, fieldText, Cell.valued, plain, shown]
  · simp [Cell.output, fieldText, Cell.valued, marked, shown, CellResult.value?]
  · simp [Cell.output, fieldText, Cell.valued, marked, shown, CellResult.value?]

theorem addCell_tally (cells : List ValuedCell) (rows : Nat) :
    (evaluator.tally cells rows).addCell ⟨address, text, evaluator.result lookup text⟩ =
      evaluator.tally
        (cells ++ [(Cell.mk address text (evaluator.result lookup text)).valued]) rows := by
  rcases evaluator.result_cases lookup text with
    ⟨plain, shown⟩ | ⟨marked, value, shown⟩ | ⟨marked, error, shown⟩
  · simp [Statistics.addCell, tally, Cell.valued, plain, shown]
  · simp [Statistics.addCell, tally, Cell.valued, marked, shown, CellResult.value?]
  · simp [Statistics.addCell, tally, Cell.valued, marked, shown, CellResult.value?]

end Cell

structure RowEvaluated (evaluator : Evaluator) (earlier : List ValuedCell)
    (sites : List (Address × String)) (cells : List Cell) (final : Bindings) : Prop where
  bound : final.get? = tableOf (earlier ++ cells.map Cell.valued)
  valued : evaluator.Valued (earlier ++ cells.map Cell.valued)
  sites : (cells.map Cell.valued).map ValuedCell.site = sites
  outputs : cells.map (Cell.output evaluator.settings) =
    (cells.map Cell.valued).map evaluator.fieldText
  tallied : ∀ rows, cells.foldl Statistics.addCell (evaluator.tally earlier rows) =
    evaluator.tally (earlier ++ cells.map Cell.valued) rows

theorem cells_evaluated (evaluator : Evaluator) (row : UInt32) (column : Nat) (bindings : Bindings)
    (texts : List String) (earlier : List ValuedCell) (bound : bindings.get? = tableOf earlier)
    (valued : evaluator.Valued earlier) :
    evaluator.RowEvaluated earlier
      (texts.mapIdx fun index text => (⟨row, UInt32.ofNat (column + index)⟩, text))
      (evaluator.cells row column bindings texts).1 (evaluator.cells row column bindings texts).2 := by
  induction texts generalizing column bindings earlier with
  | nil =>
      exact ⟨by simpa [cells] using bound, by simpa [cells] using valued, rfl, rfl, by simp [cells]⟩
  | cons text rest ih =>
      have value := evaluator.result_value? bindings.get? text
      have output := evaluator.output_eq_fieldText bindings.get? ⟨row, UInt32.ofNat column⟩ text
      have tallied := evaluator.addCell_tally bindings.get? ⟨row, UInt32.ofNat column⟩ text earlier
      simp only [cells]
      generalize cellEq :
        Cell.mk ⟨row, UInt32.ofNat column⟩ text (evaluator.result bindings.get? text) = cell
        at output tallied ⊢
      have site : cell.valued.site = (⟨row, UInt32.ofNat column⟩, text) := by rw [← cellEq]; rfl
      have next : evaluator.Valued (earlier ++ [cell.valued]) := by
        apply valued.append
        rw [← bound, ← cellEq]
        exact value
      have later := ih (column + 1) (bindings.bindCell cell) (earlier ++ [cell.valued])
        (get?_bindCell bindings earlier bound cell) next
      have order : ∀ cells : List Cell, earlier ++ (cell :: cells).map Cell.valued =
          earlier ++ [cell.valued] ++ cells.map Cell.valued := by simp
      constructor
      · rw [order]
        exact later.bound
      · rw [order]
        exact later.valued
      · simp only [List.map_cons, List.mapIdx_cons, later.sites, site, Nat.add_zero, List.cons.injEq,
          true_and]
        congr 1
        funext index text
        rw [Nat.add_right_comm, Nat.add_assoc]
      · simp only [List.map_cons, later.outputs, output]
      · intro rows
        rw [List.foldl_cons, tallied, later.tallied, order]

def cellRows (evaluator : Evaluator) : Bindings → List Record → List (List Cell) × Bindings
  | bindings, [] => ([], bindings)
  | bindings, record :: rest =>
      let (cells, next) :=
        evaluator.cells (UInt32.ofNat (record.line - 1)) 0 bindings record.fields
      let (rows, final) := evaluator.cellRows next rest
      (cells :: rows, final)

def documentCells (evaluator : Evaluator) (document : Document) : List Cell :=
  (evaluator.cellRows .empty document.records).1.flatten

def shownRows (evaluator : Evaluator) (bindings : Bindings) (records : List Record) :
    List (List String) :=
  (evaluator.cellRows bindings records).1.map (List.map (Cell.output evaluator.settings))

/-- Cells of records in document order, each with its value, and the rows of texts written for them. -/
structure InDocumentOrder (evaluator : Evaluator) (earlier : List ValuedCell)
    (records : List Record) (cells : List ValuedCell) (rows : List (List String)) : Prop where
  sites : cells.map ValuedCell.site = records.flatMap Record.sites
  valued : evaluator.Valued (earlier ++ cells)
  lengths : rows.map List.length = records.map fun record => record.fields.length
  texts : rows.flatten = cells.map evaluator.fieldText
  indexed : ∀ record ∈ records, record.line ≤ maxIndex + 1 ∧ record.fields.length ≤ maxIndex + 1

end Evaluator

theorem filterMap_blankLines (dialect : Dialect) (count : Nat) :
    (blankLines dialect count).filterMap Action.write? =
      List.replicate count dialect.terminator.bytes := by
  induction count with
  | zero => rfl
  | succ count ih =>
      simp only [blankLines, List.replicate_succ, List.filterMap_cons, Action.write?] at ih ⊢
      rw [ih]

theorem filterMap_reports (cells : List Cell) :
    (reports cells).filterMap Action.write? = [] := by
  simp [reports, Action.write?, Function.comp_def]

theorem addRows_tally (evaluator : Evaluator) (cells : List ValuedCell) (rows more : Nat) :
    (evaluator.tally cells rows).addRows more = evaluator.tally cells (rows + more) := rfl

namespace Evaluator

/-- What evaluating one record does: it stops behind the blank lines or within the record if there is no
address left, or writes the record and goes on behind it. -/
theorem runFrom_cons (evaluator : Evaluator) (ending : Except UndecodableField Nat)
    (bindings : Bindings) (statistics : Statistics) (record : Record) (rest : List Record) :
    let run := evaluator.runFrom ending bindings statistics (record :: rest)
    let blanks := blankLines evaluator.settings.toDialect record.blankBefore
    let row := UInt32.ofNat (record.line - 1)
    (maxIndex + 1 < record.line ∧
        run = ⟨blanks, .error (.address (.lineOutOfRange record.line))⟩) ∨
      (maxIndex + 1 < record.fields.length ∧
        run = ⟨blanks ++ reports
            (evaluator.cells row 0 bindings (record.fields.take (maxIndex + 1))).1,
          .error (.address (.fieldOutOfRange (maxIndex + 2)))⟩) ∨
      (record.line ≤ maxIndex + 1 ∧ record.fields.length ≤ maxIndex + 1 ∧
        ∃ cells next, evaluator.cells row 0 bindings record.fields = (cells, next) ∧
          run = (evaluator.runFrom ending next ((cells.foldl Statistics.addCell statistics).addRows
            (record.blankBefore + 1)) rest).after (blanks ++ reports cells ++
              [.write (evaluator.settings.encodeRecord
                (cells.map (Cell.output evaluator.settings)))])) := by
  simp only [runFrom]
  split
  · exact Or.inl ⟨by omega, rfl⟩
  · split
    · rename_i wide
      exact Or.inr (Or.inl ⟨wide, rfl⟩)
    · rename_i narrow
      have all : record.fields.take (maxIndex + 1) = record.fields :=
        List.take_of_length_le (by omega)
      refine Or.inr (Or.inr ⟨by omega, by omega, _, _, rfl, ?_⟩)
      rw [all]

theorem runFrom_cons_ok (evaluator : Evaluator) (ending : Except UndecodableField Nat)
    (bindings : Bindings) (statistics final : Statistics) (record : Record) (rest : List Record)
    (finished : (evaluator.runFrom ending bindings statistics (record :: rest)).result = .ok final) :
    record.line ≤ maxIndex + 1 ∧ record.fields.length ≤ maxIndex + 1 ∧
      ∃ cells next, evaluator.cells (UInt32.ofNat (record.line - 1)) 0 bindings record.fields =
          (cells, next) ∧
        (evaluator.runFrom ending next ((cells.foldl Statistics.addCell statistics).addRows
          (record.blankBefore + 1)) rest).result = .ok final ∧
        (evaluator.runFrom ending bindings statistics (record :: rest)).writes =
          List.replicate record.blankBefore evaluator.settings.terminator.bytes ++
            evaluator.settings.encodeRecord (cells.map (Cell.output evaluator.settings)) ::
              (evaluator.runFrom ending next ((cells.foldl Statistics.addCell statistics).addRows
                (record.blankBefore + 1)) rest).writes := by
  rcases evaluator.runFrom_cons ending bindings statistics record rest with
    ⟨_, stopped⟩ | ⟨_, stopped⟩ | ⟨line, fields, cells, next, computed, continued⟩
  · simp [stopped] at finished
  · simp [stopped] at finished
  · rw [continued] at finished ⊢
    refine ⟨line, fields, cells, next, computed, finished, ?_⟩
    simp only [Run.writes, Run.after, List.filterMap_append, filterMap_blankLines,
      filterMap_reports, List.append_assoc]
    rfl

theorem runFrom_ends (evaluator : Evaluator) (trailing : Nat) (bindings : Bindings)
    (statistics : Statistics) (records : List Record) :
    (∃ final, (evaluator.runFrom (.ok trailing) bindings statistics records).result = .ok final) ∨
      ∃ record ∈ records,
        (maxIndex + 1 < record.line ∧
            (evaluator.runFrom (.ok trailing) bindings statistics records).result =
              .error (.address (.lineOutOfRange record.line))) ∨
          (maxIndex + 1 < record.fields.length ∧
            (evaluator.runFrom (.ok trailing) bindings statistics records).result =
              .error (.address (.fieldOutOfRange (maxIndex + 2)))) := by
  induction records generalizing bindings statistics with
  | nil => exact Or.inl ⟨_, rfl⟩
  | cons record rest ih =>
      rcases evaluator.runFrom_cons (.ok trailing) bindings statistics record rest with
        ⟨far, stopped⟩ | ⟨wide, stopped⟩ | ⟨_, _, cells, next, _, continued⟩
      · exact Or.inr ⟨record, by simp, Or.inl ⟨far, by rw [stopped]⟩⟩
      · exact Or.inr ⟨record, by simp, Or.inr ⟨wide, by rw [stopped]⟩⟩
      · rw [continued]
        rcases ih next _ with finished | ⟨other, member, beyond⟩
        · exact Or.inl finished
        · exact Or.inr ⟨other, by simp [member], beyond⟩

theorem runFrom_evaluated (evaluator : Evaluator) (ending : Except UndecodableField Nat)
    (bindings : Bindings) (earlier : List ValuedCell) (before : Nat) (records : List Record)
    (final : Statistics) (bound : bindings.get? = tableOf earlier) (valued : evaluator.Valued earlier)
    (finished : (evaluator.runFrom ending bindings (evaluator.tally earlier before) records).result =
      .ok final) :
    let cells := (evaluator.cellRows bindings records).1.flatten.map Cell.valued
    let rows := evaluator.shownRows bindings records
    ∃ trailing, ending = .ok trailing ∧
      evaluator.InDocumentOrder earlier records cells rows ∧
      (evaluator.runFrom ending bindings (evaluator.tally earlier before) records).writes =
        evaluator.settings.encodeTable records rows ++
          List.replicate trailing evaluator.settings.terminator.bytes ∧
      final = evaluator.tally (earlier ++ cells)
        (before + (records.length + (records.map Record.blankBefore).sum + trailing)) := by
  induction records generalizing bindings earlier before with
  | nil =>
      cases ending with
      | error field => simp [runFrom] at finished
      | ok trailing =>
          simp only [runFrom, Except.ok.injEq] at finished
          refine ⟨trailing, rfl, ⟨rfl, by simpa [cellRows] using valued, rfl, rfl, by simp⟩, ?_, ?_⟩
          · simp [runFrom, Run.writes, filterMap_blankLines, Dialect.encodeTable]
          · rw [← finished, addRows_tally]
            simp [cellRows]
  | cons record rest ih =>
      obtain ⟨lineBound, columnBound, cells, next, computed, continued, written⟩ :=
        evaluator.runFrom_cons_ok ending bindings _ final record rest finished
      have row := evaluator.cells_evaluated (UInt32.ofNat (record.line - 1)) 0 bindings
        record.fields earlier bound valued
      rw [computed] at row
      rw [row.tallied, addRows_tally] at continued written
      obtain ⟨trailing, complete, ordered, laterWritten, counted⟩ :=
        ih next (earlier ++ cells.map Cell.valued) _ row.bound row.valued continued
      simp only [shownRows, cellRows, computed, List.map_cons, List.flatten_cons, List.map_append]
        at ordered laterWritten ⊢
      refine ⟨trailing, complete, ?_, ?_, ?_⟩
      · constructor
        · rw [List.map_append, row.sites, ordered.sites]
          simp [Record.sites]
        · simpa using ordered.valued
        · have lengths := congrArg List.length row.sites
          simp only [List.length_map, List.length_mapIdx] at lengths
          simp [ordered.lengths, lengths]
        · rw [List.flatten_cons, row.outputs, ordered.texts, List.map_append]
        · intro member belongs
          rcases List.mem_cons.mp belongs with same | further
          · subst member
            exact ⟨lineBound, columnBound⟩
          · exact ordered.indexed member further
      · rw [written, laterWritten]
        simp [Dialect.encodeTable]
      · rw [counted, List.append_assoc]
        congr 1
        simp only [List.length_cons, List.sum_cons]
        omega

end Evaluator

theorem run_cells (evaluator : Evaluator) (bytes : List UInt8) (statistics : Statistics)
    (finished : (evaluator.run bytes).result = .ok statistics) :
    let document := readDocument evaluator.settings.toDialect bytes
    let cells := (evaluator.documentCells document).map Cell.valued
    let rows := evaluator.shownRows .empty document.records
    ∃ trailing, document.ending = .ok trailing ∧
      evaluator.InDocumentOrder [] document.records cells rows ∧
      (evaluator.run bytes).writes = evaluator.settings.encodeTable document.records rows ++
        List.replicate trailing evaluator.settings.terminator.bytes ∧
      statistics = evaluator.tally cells
        (document.records.length + (document.records.map Record.blankBefore).sum + trailing) := by
  have start : Bindings.empty.get? = tableOf [] := funext Bindings.get?_empty
  have noCells : evaluator.Valued [] := by
    intro index cell found
    simp at found
  obtain ⟨trailing, complete, ordered, written, counted⟩ :=
    evaluator.runFrom_evaluated (readDocument evaluator.settings.toDialect bytes).ending .empty [] 0
      (readDocument evaluator.settings.toDialect bytes).records statistics start noCells finished
  refine ⟨trailing, complete, ordered, written, ?_⟩
  rw [counted, List.nil_append, Nat.zero_add]
  rfl

theorem run_evaluated (evaluator : Evaluator) (bytes : List UInt8) (statistics : Statistics)
    (finished : (evaluator.run bytes).result = .ok statistics) :
    ∃ trailing cells rows,
      let document := readDocument evaluator.settings.toDialect bytes
      document.ending = .ok trailing ∧
      evaluator.InDocumentOrder [] document.records cells rows ∧
      (evaluator.run bytes).writes = evaluator.settings.encodeTable document.records rows ++
        List.replicate trailing evaluator.settings.terminator.bytes ∧
      statistics = evaluator.tally cells
        (document.records.length + (document.records.map Record.blankBefore).sum + trailing) := by
  obtain ⟨trailing, evaluated⟩ := run_cells evaluator bytes statistics finished
  exact ⟨trailing, _, _, evaluated⟩

/-- Two cells that share a name are the last two that a row can have. -/
def OnlyLastShareNames (cells : List ValuedCell) : Prop :=
  cells.Pairwise fun first second => first.address.text = second.address.text →
    first.address.row = second.address.row ∧ first.address.column.toNat + 1 = maxIndex ∧
      second.address.column.toNat = maxIndex

theorem mem_sites (record : Record) (site : Address × String) (member : site ∈ record.sites) :
    site.1.row = UInt32.ofNat (record.line - 1) ∧
      ∃ column, column < record.fields.length ∧ site.1.column = UInt32.ofNat column := by
  obtain ⟨column, bound, same⟩ := List.mem_mapIdx.mp member
  subst site
  exact ⟨rfl, column, bound, rfl⟩

theorem sites_pairwise (record : Record) (bound : record.fields.length ≤ maxIndex + 1) :
    record.sites.Pairwise fun first second => first.1.text = second.1.text →
      first.1.row = second.1.row ∧ first.1.column.toNat + 1 = maxIndex ∧
        second.1.column.toNat = maxIndex := by
  rw [List.pairwise_iff_getElem]
  intro first second firstBound secondBound ordered same
  simp only [Record.sites, List.length_mapIdx] at firstBound secondBound
  have columns := (Address.eq_of_text_eq _ _ same).2
  simp only [Record.sites, List.getElem_mapIdx] at columns ⊢
  rw [toNat_ofNat_of_le_maxIndex first (by omega), toNat_ofNat_of_le_maxIndex second (by omega)] at *
  exact ⟨trivial, by omega, by omega⟩

theorem document_names (records : List Record)
    (increasing : records.Pairwise fun earlier later => earlier.line < later.line)
    (positive : ∀ record ∈ records, 1 ≤ record.line)
    (indexed : ∀ record ∈ records,
      record.line ≤ maxIndex + 1 ∧ record.fields.length ≤ maxIndex + 1) :
    (records.flatMap Record.sites).Pairwise fun first second => first.1.text = second.1.text →
      first.1.row = second.1.row ∧ first.1.column.toNat + 1 = maxIndex ∧
        second.1.column.toNat = maxIndex := by
  rw [List.pairwise_flatMap]
  refine ⟨fun record member => sites_pairwise record (indexed record member).2, ?_⟩
  rw [List.pairwise_iff_getElem] at increasing ⊢
  intro first second firstBound secondBound ordered left leftMember right rightMember same
  have rows := (Address.eq_of_text_eq _ _ same).1
  rw [(mem_sites _ left leftMember).1, (mem_sites _ right rightMember).1] at rows
  have lines := increasing first second firstBound secondBound ordered
  have firstLine := positive _ (List.getElem_mem firstBound)
  have firstIndex := (indexed _ (List.getElem_mem firstBound)).1
  have secondIndex := (indexed _ (List.getElem_mem secondBound)).1
  have numbers := congrArg UInt32.toNat rows
  rw [toNat_ofNat_of_le_maxIndex _ (by omega), toNat_ofNat_of_le_maxIndex _ (by omega)] at numbers
  omega

theorem tableOf_eq_some_iff (cells : List ValuedCell)
    (distinct : cells.Pairwise fun first second => first.address.text ≠ second.address.text)
    (name : String) (value : Float) :
    tableOf cells name = some value ↔
      ∃ cell ∈ cells, cell.address.text = name ∧ cell.value = some value := by
  rw [tableOf, List.findSome?_eq_some_iff]
  constructor
  · rintro ⟨later, cell, earlier, split, found, _⟩
    have member : cell ∈ cells := by
      rw [← List.mem_reverse, split]
      simp
    split at found
    · rename_i named
      exact ⟨cell, member, named, found⟩
    · simp at found
  · rintro ⟨cell, member, named, found⟩
    obtain ⟨later, earlier, split⟩ := List.append_of_mem (List.mem_reverse.mpr member)
    refine ⟨later, cell, earlier, split, by simp [named, found], ?_⟩
    intro other belongs
    rw [← List.pairwise_reverse, split] at distinct
    have different := (List.pairwise_append.mp distinct).2.2 other belongs cell (by simp)
    rw [named] at different
    simp [Ne.symm different]

theorem record_line_pos (dialect : Dialect) (bytes : List UInt8) :
    ∀ record ∈ (readDocument dialect bytes).records, 1 ≤ record.line := by
  intro record member
  obtain ⟨index, found⟩ := List.mem_iff_getElem?.mp member
  obtain ⟨raw, _, _, line, _⟩ := record_placed dialect bytes index record found
  omega

namespace Evaluator

theorem InDocumentOrder.names {evaluator : Evaluator} {bytes : List UInt8} {cells : List ValuedCell}
    {rows : List (List String)}
    (ordered : evaluator.InDocumentOrder []
      (readDocument evaluator.settings.toDialect bytes).records cells rows) :
    OnlyLastShareNames cells := by
  have names := document_names _ (records_line_increasing evaluator.settings.toDialect bytes)
    (record_line_pos _ _) ordered.indexed
  rw [← ordered.sites, List.pairwise_map] at names
  exact names

theorem InDocumentOrder.distinct {evaluator : Evaluator} {bytes : List UInt8}
    {cells : List ValuedCell} {rows : List (List String)}
    (ordered : evaluator.InDocumentOrder []
      (readDocument evaluator.settings.toDialect bytes).records cells rows)
    (narrow : ∀ record ∈ (readDocument evaluator.settings.toDialect bytes).records,
      record.fields.length ≤ maxIndex) :
    cells.Pairwise fun first second => first.address.text ≠ second.address.text := by
  have below : ∀ cell ∈ cells, cell.address.column.toNat < maxIndex := by
    intro cell member
    have site : cell.site ∈ cells.map ValuedCell.site := List.mem_map_of_mem member
    rw [ordered.sites, List.mem_flatMap] at site
    obtain ⟨record, belongs, inside⟩ := site
    obtain ⟨_, column, bound, same⟩ := mem_sites record cell.site inside
    have width := narrow record belongs
    change cell.address.column = UInt32.ofNat column at same
    rw [same, toNat_ofNat_of_le_maxIndex column (by omega)]
    omega
  apply List.Pairwise.imp_of_mem ?_ ordered.names
  intro first second _ secondMember collide same
  have last := (collide same).2.2
  have bound := below second secondMember
  omega

end Evaluator

theorem eq_ok_of_toOption {ε α : Type} (result : Except ε α) (value : α)
    (same : result.toOption = some value) : result = .ok value := by
  cases result with
  | error error => simp [Except.toOption] at same
  | ok found => simpa [Except.toOption] using same

/-- An evaluation that succeeds goes through the cells in document order, line by line and from left to
right. It gives each cell its value against the table of the values before it, writes the values of
formulas in their place and all other texts as they were, and counts what it has done. Unless a record
has as many fields as there are columns, no two cells share a name, so that the table holds just the
value of each earlier cell under the name of that cell. -/
theorem evaluate_documentOrder (evaluator : Evaluator) (source : Except String (List UInt8))
    (sink : Sink) (statistics : Statistics)
    (succeeded : (evaluator.evaluate source sink).result = .ok statistics) :
    ∃ bytes trailing cells rows, source = .ok bytes ∧
      let document := readDocument evaluator.settings.toDialect bytes
      document.ending = .ok trailing ∧
      evaluator.InDocumentOrder [] document.records cells rows ∧
      (evaluator.evaluate source sink).written =
        evaluator.settings.encodeTable document.records rows ++
          List.replicate trailing evaluator.settings.terminator.bytes ∧
      statistics = evaluator.tally cells
        (document.records.length + (document.records.map Record.blankBefore).sum + trailing) ∧
      OnlyLastShareNames cells ∧
      ((∀ record ∈ document.records, record.fields.length ≤ maxIndex) →
        ∀ index name value, tableOf (cells.take index) name = some value ↔
          ∃ cell ∈ cells.take index, cell.address.text = name ∧ cell.value = some value) := by
  obtain ⟨bytes, same, result, kept⟩ := evaluate_ok evaluator source sink statistics succeeded
  obtain ⟨trailing, cells, rows, complete, ordered, written, counted⟩ :=
    run_evaluated evaluator bytes statistics result
  refine ⟨bytes, trailing, cells, rows, same, complete, ordered, kept.trans written, counted,
    ordered.names, ?_⟩
  intro narrow index name value
  exact tableOf_eq_some_iff _ (ordered.distinct narrow).take name value

def quotientSheet : List UInt8 :=
  encodeText "6,\"4\"\r\n\r\n=A1 B1 /,=B2\r"

theorem evaluate_documentOrder_quotient :
    ((Evaluator.mk {} .empty).evaluate (.ok quotientSheet) {}).result = .ok ⟨3, 4, 2, 1, 1⟩ ∧
      ∃ trailing cells rows,
        let document := readDocument {} quotientSheet
        document.ending = .ok trailing ∧
        (Evaluator.mk {} .empty).InDocumentOrder [] document.records cells rows ∧
        ((Evaluator.mk {} .empty).evaluate (.ok quotientSheet) {}).written =
          Dialect.encodeTable {} document.records rows ++ List.replicate trailing [lineFeed] ∧
        (⟨3, 4, 2, 1, 1⟩ : Statistics) = (Evaluator.mk {} .empty).tally cells
          (document.records.length + (document.records.map Record.blankBefore).sum + trailing) := by
  have succeeded : ((Evaluator.mk {} .empty).evaluate (.ok quotientSheet) {}).result =
      .ok ⟨3, 4, 2, 1, 1⟩ := eq_ok_of_toOption _ _ (by decide +kernel)
  obtain ⟨bytes, trailing, cells, rows, same, complete, ordered, written, counted, _⟩ :=
    evaluate_documentOrder _ _ _ _ succeeded
  simp only [Except.ok.injEq] at same
  subst bytes
  exact ⟨succeeded, trailing, cells, rows, complete, ordered, written, counted⟩

end PostfixSheet
