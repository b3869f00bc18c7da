import PostfixSheet.Proofs.Formula.PostfixOrder
import PostfixSheet.Proofs.Table.StandIns

/-! Numbers as formulas. A text reads as a number exactly when it is a formula for that number alone, so a
plain cell that holds a number may be marked as a formula: nothing but the text of that cell changes. -/

namespace PostfixSheet

theorem formulaTokens_eq_number (text : String) (value : Float) :
    formulaTokens text = [.number value] ↔ plainValue? text = some value := by
  rw [formulaTokens, words, List.map_map, List.map_eq_singleton_iff]
  simp only [Function.comp_apply, ofWord_eq_number]
  constructor
  · rintro ⟨word, only, number⟩
    obtain ⟨trimmed, _, _⟩ := (wordsFrom_eq_singleton text.toList word).mp only
    rwa [readNumber?, String.toList_ofList, ← trimmed] at number
  · intro read
    obtain ⟨nonempty, unbroken⟩ := unbroken_of_readNumberChars? _ value read
    have only := (wordsFrom_eq_singleton text.toList _).mpr ⟨rfl, nonempty, unbroken⟩
    refine ⟨_, only, ?_⟩
    rwa [readNumber?, String.toList_ofList]

theorem parseFormula_eq_constant (functions : Registry) (text : String) (value : Float) :
    parseFormula functions text = .ok (.constant value) ↔ formulaTokens text = [.number value] := by
  rw [parseFormula, parseTokens_eq_ok]
  simp [Formula.tokens, Formula.ResolvedBy]

def Settings.asFormula (settings : Settings) (text : String) : String :=
  String.ofList (settings.formulaPrefix :: text.toList)

theorem formula?_asFormula (settings : Settings) (text : String) :
    settings.formula? (settings.asFormula text) = some text := by
  simp [Settings.formula?, Settings.asFormula]

def Record.withField (record : Record) (column : Nat) (text : String) : Record :=
  { record with fields := record.fields.set column text }

theorem foldl_addCell_withComputed (cells : List Cell) (statistics : Statistics) (count : Nat) :
    cells.foldl Statistics.addCell (statistics.withComputed count) =
      (cells.foldl Statistics.addCell statistics).withComputed count := by
  induction cells generalizing statistics with
  | nil => rfl
  | cons cell rest ih => rw [List.foldl_cons, List.foldl_cons, addCell_withComputed, ih]

section Marked

variable {cells : List Cell} {column : Nat} {address : Address} {text : String} {value : Float}
  (found : cells[column]? = some ⟨address, text, .plain (some value)⟩) (marked : String)

include found

theorem split_marked : ∃ front back, cells = front ++ ⟨address, text, .plain (some value)⟩ :: back ∧
    cells.set column ⟨address, marked, .computed value⟩ =
      front ++ ⟨address, marked, .computed value⟩ :: back := by
  obtain ⟨bound, cell⟩ := List.getElem?_eq_some_iff.mp found
  obtain ⟨front, back, split, _, changed⟩ :=
    @List.exists_of_set _ column ⟨address, marked, .computed value⟩ cells bound
  rw [cell] at split
  exact ⟨front, back, split, changed⟩

theorem events_marked :
    (cells.set column ⟨address, marked, .computed value⟩).map Cell.event? = cells.map Cell.event? := by
  obtain ⟨front, back, split, changed⟩ := split_marked found marked
  rw [changed, split, List.map_append, List.map_append]
  rfl

theorem counted_marked (statistics : Statistics) :
    (cells.set column ⟨address, marked, .computed value⟩).foldl Statistics.addCell statistics =
      (cells.foldl Statistics.addCell statistics).withComputed 1 := by
  obtain ⟨front, back, split, changed⟩ := split_marked found marked
  have first : (front.foldl Statistics.addCell statistics).addCell ⟨address, marked, .computed value⟩ =
      ((front.foldl Statistics.addCell statistics).addCell
        ⟨address, text, .plain (some value)⟩).withComputed 1 := rfl
  rw [changed, split, List.foldl_append, List.foldl_append, List.foldl_cons, List.foldl_cons, first,
    foldl_addCell_withComputed]

theorem report_mem : .report (.bound address.text value) ∈ reports cells := by
  refine List.mem_map_of_mem (List.mem_filterMap.mpr ⟨_, List.mem_of_getElem? found, ?_⟩)
  rfl

end Marked

structure Run.LineApart (reached : Prop) (lines : Nat) (event : Event) (line otherLine : List UInt8)
    (run other : Run) : Prop where
  result : other.result.toOption = run.result.toOption.map fun statistics => statistics.withComputed 1
  written : reached → ∃ front back, run.actions = front ++ .write line :: back ∧
    other.actions = front ++ .write otherLine :: back ∧
    (front.filterMap Action.write?).length = lines ∧ .report event ∈ front
  stopped : ¬reached → run.actions = other.actions ∧ run.result.toOption = none

theorem Run.LineApart.of_stopped {reached : Prop} (beyond : ¬reached) (lines : Nat) (event : Event)
    (line otherLine : List UInt8) (actions : List Action) (fault : Fault) :
    (Run.mk actions (.error fault)).LineApart reached lines event line otherLine
      ⟨actions, .error fault⟩ := by
  constructor
  · rfl
  · intro inRange
    exact absurd inRange beyond
  · intro _
    exact ⟨rfl, rfl⟩

theorem Run.LineApart.after {reached : Prop} {lines : Nat} {event : Event} {line otherLine : List UInt8}
    {run other : Run} (apart : run.LineApart reached lines event line otherLine other) {more : Nat}
    {actions : List Action} (counted : (actions.filterMap Action.write?).length = more) :
    (run.after actions).LineApart reached (more + lines) event line otherLine (other.after actions) := by
  constructor
  · exact apart.result
  · intro inRange
    obtain ⟨front, back, first, second, count, reported⟩ := apart.written inRange
    refine ⟨actions ++ front, back, ?_, ?_, ?_, List.mem_append_right _ reported⟩
    · rw [Run.after, first, List.append_assoc]
    · rw [Run.after, second, List.append_assoc]
    · rw [List.filterMap_append, List.length_append, counted, count]
  · intro beyond
    obtain ⟨same, failed⟩ := apart.stopped beyond
    exact ⟨congrArg (actions ++ ·) same, failed⟩

theorem Run.AlikeBut.lineApart {reached : Prop} {event : Event} {run other : Run} {front : List Action}
    (alike : other.AlikeBut 1 run) (inRange : reached) (reported : .report event ∈ front)
    (line otherLine : List UInt8) :
    (run.after (front ++ [.write line])).LineApart reached (front.filterMap Action.write?).length event
      line otherLine (other.after (front ++ [.write otherLine])) := by
  refine ⟨alike.result, ?_, fun beyond => absurd inRange beyond⟩
  intro _
  refine ⟨front, run.actions, ?_, ?_, rfl, reported⟩
  · rw [Run.after, List.append_assoc, List.singleton_append]
  · rw [Run.after, alike.actions, List.append_assoc, List.singleton_append]

theorem writes_before_row (dialect : Dialect) (count : Nat) (cells : List Cell) :
    ((blankLines dialect count ++ reports cells).filterMap Action.write?).length = count := by
  rw [List.filterMap_append, filterMap_blankLines, filterMap_reports, List.append_nil,
    List.length_replicate]

theorem writes_of_record (dialect : Dialect) (record : Record) (cells : List Cell) (line : List UInt8) :
    ((blankLines dialect record.blankBefore ++ reports cells ++ [Action.write line]).filterMap
      Action.write?).length = record.rows.length := by
  rw [List.filterMap_append, List.length_append, writes_before_row, Record.rows, List.length_append,
    List.length_replicate]
  rfl

namespace Evaluator

variable {ending otherEnding : Except UndecodableField Nat}
  (endings : ending.toOption = otherEnding.toOption)

include endings in
theorem runFrom_withComputed (evaluator : Evaluator) (bindings : Bindings) (statistics : Statistics)
    (records : List Record) (count : Nat) :
    (evaluator.runFrom ending bindings (statistics.withComputed count) records).AlikeBut count
      (evaluator.runFrom otherEnding bindings statistics records) := by
  induction records generalizing bindings statistics with
  | nil => exact evaluator.runFrom_nil_alike ending otherEnding endings bindings statistics count
  | cons record rest ih =>
      apply evaluator.runFrom_cons_lockstep rfl rfl rfl rfl
      · intro _ actions fault
        exact ⟨rfl, rfl⟩
      · intro _
        simp only [foldl_addCell_withComputed, addRows_withComputed]
        exact (ih _ _).after _

variable {evaluator : Evaluator}

theorem runFrom_cons_lineApart {reached : Prop} {lines : Nat} {event : Event}
    {line otherLine : List UInt8} (bindings : Bindings) (statistics : Statistics) (record : Record)
    (rest others : List Record)
    (later : ∀ counted,
      let next := (evaluator.cells (UInt32.ofNat (record.line - 1)) 0 bindings record.fields).2
      (evaluator.runFrom ending next counted rest).LineApart reached lines event line otherLine
        (evaluator.runFrom otherEnding next counted others)) :
    (evaluator.runFrom ending bindings statistics (record :: rest)).LineApart
      (record.InRange ∧ reached) (record.rows.length + lines) event line otherLine
      (evaluator.runFrom otherEnding bindings statistics (record :: others)) := by
  apply evaluator.runFrom_cons_lockstep rfl rfl rfl rfl
  · intro beyond
    exact Run.LineApart.of_stopped (fun both => beyond both.1) _ _ _ _
  · intro inRange
    rw [and_iff_right inRange]
    exact (later _).after (writes_of_record _ record _ _)

section Numbers

variable {column : Nat} {text : String} {value : Float} (plain : evaluator.isFormula text = false)
  (read : plainValue? text = some value)

include read in
theorem result_asFormula (lookup : Lookup) :
    evaluator.result lookup (evaluator.settings.asFormula text) = .computed value := by
  have parsed : parseFormula evaluator.functions text = .ok (.constant value) :=
    (parseFormula_eq_constant _ _ _).mpr ((formulaTokens_eq_number _ _).mpr read)
  simp only [result, formula?_asFormula, formulaValue, parsed]
  rfl

include plain read in
theorem result_plain (lookup : Lookup) : evaluator.result lookup text = .plain (some value) := by
  rw [isFormula, Option.isSome_eq_false_iff, Option.isNone_iff_eq_none] at plain
  rw [result, plain, read]

include plain read

theorem cells_asFormula (row : UInt32) (start : Nat) (bindings : Bindings) (texts : List String)
    (found : texts[column]? = some text) :
    (evaluator.cells row start bindings texts).1[column]? =
        some ⟨⟨row, UInt32.ofNat (start + column)⟩, text, .plain (some value)⟩ ∧
      evaluator.cells row start bindings (texts.set column (evaluator.settings.asFormula text)) =
        ((evaluator.cells row start bindings texts).1.set column
          ⟨⟨row, UInt32.ofNat (start + column)⟩, evaluator.settings.asFormula text, .computed value⟩,
        (evaluator.cells row start bindings texts).2) := by
  induction texts generalizing start bindings column with
  | nil => simp at found
  | cons first rest ih =>
      cases column with
      | zero =>
          obtain rfl := Option.some.inj found
          simp only [List.set_cons_zero, cells, result_asFormula read, result_plain plain read,
            List.getElem?_cons_zero, Nat.add_zero, true_and]
          rfl
      | succ column =>
          obtain ⟨kept, changed⟩ := ih (start + 1) (bindings.bindCell
            ⟨⟨row, UInt32.ofNat start⟩, first, evaluator.result bindings.get? first⟩) found
          rw [Nat.add_right_comm, Nat.add_assoc] at kept changed
          simp only [List.set_cons_succ, cells, changed, List.getElem?_cons_succ]
          exact ⟨kept, trivial⟩

theorem cellRows_asFormula (bindings : Bindings) (records : List Record) (row : Nat) (record : Record)
    (here : records[row]? = some record) (found : record.fields[column]? = some text) :
    let address : Address := ⟨UInt32.ofNat (record.line - 1), UInt32.ofNat column⟩
    let marked := evaluator.settings.asFormula text
    ∃ cells, (evaluator.cellRows bindings records).1[row]? = some cells ∧
      cells[column]? = some ⟨address, text, .plain (some value)⟩ ∧
      evaluator.cellRows bindings (records.set row (record.withField column marked)) =
        ((evaluator.cellRows bindings records).1.set row
          (cells.set column ⟨address, marked, .computed value⟩),
        (evaluator.cellRows bindings records).2) := by
  induction records generalizing bindings row with
  | nil => simp at here
  | cons first rest ih =>
      cases row with
      | zero =>
          obtain rfl := Option.some.inj here
          obtain ⟨kept, changed⟩ :=
            cells_asFormula plain read (UInt32.ofNat (first.line - 1)) 0 bindings first.fields found
          rw [Nat.zero_add] at kept changed
          refine ⟨_, rfl, kept, ?_⟩
          simp only [List.set_cons_zero, cellRows, Record.withField, changed]
      | succ row =>
          obtain ⟨cells, placed, kept, changed⟩ :=
            ih (evaluator.cells (UInt32.ofNat (first.line - 1)) 0 bindings first.fields).2 row here
          refine ⟨cells, placed, kept, ?_⟩
          simp only [List.set_cons_succ, cellRows, changed]

include endings

theorem runFrom_head_asFormula (bindings : Bindings) (statistics : Statistics) (record : Record)
    (rest : List Record) (found : record.fields[column]? = some text) :
    let row := UInt32.ofNat (record.line - 1)
    let shown := (evaluator.cells row 0 bindings record.fields).1.map (Cell.output evaluator.settings)
    (evaluator.runFrom otherEnding bindings statistics (record :: rest)).LineApart record.InRange
      record.blankBefore (.bound (Address.mk row (UInt32.ofNat column)).text value)
      (evaluator.settings.encodeRecord shown)
      (evaluator.settings.encodeRecord (shown.set column (showNumber value)))
      (evaluator.runFrom ending bindings statistics
        (record.withField column (evaluator.settings.asFormula text) :: rest)) := by
  obtain ⟨kept, changed⟩ :=
    cells_asFormula plain read (UInt32.ofNat (record.line - 1)) 0 bindings record.fields found
  rw [Nat.zero_add] at kept changed
  have same : record.shape = (record.withField column (evaluator.settings.asFormula text)).shape := by
    simp only [Record.shape, Record.withField, List.length_set]
  apply evaluator.runFrom_cons_lockstep same rfl changed (events_marked kept _).symm
  · intro beyond
    exact Run.LineApart.of_stopped beyond _ _ _ _
  · intro inRange
    have alike := evaluator.runFrom_withComputed endings
      (evaluator.cells (UInt32.ofNat (record.line - 1)) 0 bindings record.fields).2
      (((evaluator.cells (UInt32.ofNat (record.line - 1)) 0 bindings record.fields).1.foldl
        Statistics.addCell statistics).addRows (record.blankBefore + 1)) rest 1
    have apart := alike.lineApart inRange (List.mem_append_right
      (blankLines evaluator.settings.toDialect record.blankBefore) (report_mem kept))
    rw [writes_before_row] at apart
    simp only [List.map_set, counted_marked kept, addRows_withComputed]
    exact apart _ _

theorem runFrom_asFormula (bindings : Bindings) (statistics : Statistics) (records : List Record)
    (row : Nat) (record : Record) (shown : List String) (here : records[row]? = some record)
    (found : record.fields[column]? = some text)
    (visible : (evaluator.shownRows bindings records)[row]? = some shown) :
    let address : Address := ⟨UInt32.ofNat (record.line - 1), UInt32.ofNat column⟩
    (evaluator.runFrom otherEnding bindings statistics records).LineApart
      (∀ earlier ∈ records.take (row + 1), earlier.InRange)
      (((records.take row).flatMap Record.rows).length + record.blankBefore)
      (.bound address.text value) (evaluator.settings.encodeRecord shown)
      (evaluator.settings.encodeRecord (shown.set column (showNumber value)))
      (evaluator.runFrom ending bindings statistics
        (records.set row (record.withField column (evaluator.settings.asFormula text)))) := by
  induction records generalizing bindings statistics row with
  | nil => simp at here
  | cons first rest ih =>
      cases row with
      | zero =>
          obtain rfl := Option.some.inj here
          obtain rfl := Option.some.inj visible
          have apart := runFrom_head_asFormula endings plain read bindings statistics first rest found
          simpa using apart
      | succ row =>
          simp only [List.set_cons_succ, List.take_succ_cons, List.flatMap_cons, List.length_append,
            List.forall_mem_cons, Nat.add_assoc]
          apply runFrom_cons_lineApart
          intro counted
          exact ih _ counted row here visible

end Numbers

end Evaluator

/-- A number may be written as a formula. A text reads as a number exactly when its only token is that
number, and when it parses to that constant. With a plain cell marked as a formula, the same value is bound
to the same name, and the lines written are the same but for that one cell, which shows the number anew.
A run that stops before the line of the cell does the very same. -/
theorem numbers_as_formulas :
    (∀ (functions : Registry) (text : String) (value : Float),
      (plainValue? text = some value ↔ formulaTokens text = [.number value]) ∧
        (formulaTokens text = [.number value] ↔
          parseFormula functions text = .ok (.constant value))) ∧
    ∀ (evaluator : Evaluator) (bytes otherBytes : List UInt8) (first second : Document)
      (row column : Nat) (record : Record) (text : String) (value : Float),
      readDocument evaluator.settings.toDialect bytes = first →
      readDocument evaluator.settings.toDialect otherBytes = second →
      first.records[row]? = some record → record.fields[column]? = some text →
      evaluator.isFormula text = false → plainValue? text = some value →
      second.records =
        first.records.set row (record.withField column (evaluator.settings.asFormula text)) →
      second.ending.toOption = first.ending.toOption →
      let address : Address := ⟨UInt32.ofNat (record.line - 1), UInt32.ofNat column⟩
      ∃ shown, (evaluator.shownRows .empty first.records)[row]? = some shown ∧
        shown[column]? = some text ∧
        evaluator.shownRows .empty second.records =
          (evaluator.shownRows .empty first.records).set row (shown.set column (showNumber value)) ∧
        (evaluator.cellRows .empty second.records).2 = (evaluator.cellRows .empty first.records).2 ∧
        (evaluator.run bytes).LineApart (∀ earlier ∈ first.records.take (row + 1), earlier.InRange)
          (((first.records.take row).flatMap Record.rows).length + record.blankBefore)
          (.bound address.text value) (evaluator.settings.encodeRecord shown)
          (evaluator.settings.encodeRecord (shown.set column (showNumber value)))
          (evaluator.run otherBytes) := by
  constructor
  · intro functions text value
    exact ⟨(formulaTokens_eq_number text value).symm,
      (parseFormula_eq_constant functions text value).symm⟩
  · rintro evaluator bytes otherBytes _ _ row column record text value rfl rfl here found plain read
      replaced endings
    obtain ⟨cells, placed, kept, changed⟩ :=
      Evaluator.cellRows_asFormula plain read .empty _ row record here found
    have visible : (evaluator.shownRows .empty
        (readDocument evaluator.settings.toDialect bytes).records)[row]? =
          some (cells.map (Cell.output evaluator.settings)) := by
      rw [Evaluator.shownRows, List.getElem?_map, placed, Option.map_some]
    refine ⟨_, visible, ?_, ?_, ?_, ?_⟩
    · rw [List.getElem?_map, kept]
      rfl
    · rw [replaced, Evaluator.shownRows, changed, List.map_set, List.map_set]
      rfl
    · rw [replaced, changed]
    · have apart := Evaluator.runFrom_asFormula endings plain read .empty {} _ row record _ here found
        visible
      rw [← replaced] at apart
      exact apart

def paddedSheet (field : String) : List UInt8 :=
  encodeText ("=1 2 /\r\n\r" ++ field ++ ",=A3 A1 *")

theorem numbers_as_formulas_paddedSheet :
    let evaluator : Evaluator := .mk {} .empty
    let plain := paddedSheet "\u00A007 "
    let marked := paddedSheet "=\u00A007 "
    ∃ value, plainValue? "\u00A007 " = some value ∧ showNumber value = "7.0" ∧
      (evaluator.run plain).result.toOption = some ⟨3, 3, 2, 2, 0⟩ ∧
      (evaluator.run marked).result.toOption = some ⟨3, 3, 3, 3, 0⟩ ∧
      ∃ front back, (front.filterMap Action.write?).length = 2 ∧
        .report (.bound "A3" value) ∈ front ∧
        (evaluator.run plain).actions = front ++ .write (encodeText "\u00A007 ,3.5\n") :: back ∧
        (evaluator.run marked).actions = front ++ .write (encodeText "7.0,3.5\n") :: back := by
  intro evaluator plain marked
  have numeric : (plainValue? "\u00A007 ").map showNumber = some "7.0" := by decide +kernel
  obtain ⟨value, read, shows⟩ := Option.map_eq_some_iff.mp numeric
  have records : (readDocument {} plain).records =
      [⟨1, 0, ["=1 2 /"]⟩, ⟨3, 1, ["\u00A007 ", "=A3 A1 *"]⟩] := by decide +kernel
  have markedRecords : (readDocument {} marked).records =
      [⟨1, 0, ["=1 2 /"]⟩, ⟨3, 1, ["=\u00A007 ", "=A3 A1 *"]⟩] := by decide +kernel
  have endings : (readDocument {} marked).ending.toOption = (readDocument {} plain).ending.toOption := by
    decide +kernel
  have rows : evaluator.shownRows .empty [⟨1, 0, ["=1 2 /"]⟩, ⟨3, 1, ["\u00A007 ", "=A3 A1 *"]⟩] =
      [["0.5"], ["\u00A007 ", "3.5"]] := by decide +kernel
  have counted : (evaluator.run plain).result.toOption = some ⟨3, 3, 2, 2, 0⟩ := by decide +kernel
  obtain ⟨shown, placed, _, _, _, apart⟩ := numbers_as_formulas.2 evaluator plain marked _ _ 1 0
    ⟨3, 1, ["\u00A007 ", "=A3 A1 *"]⟩ "\u00A007 " value rfl rfl (by rw [records]; rfl) rfl (by decide)
    read (by rw [records]; exact markedRecords) endings
  rw [records, rows] at placed
  obtain rfl := Option.some.inj placed
  have inRange : ∀ earlier ∈ (readDocument {} plain).records.take 2, earlier.InRange := by
    rw [records]
    decide +kernel
  obtain ⟨front, back, first, second, lines, reported⟩ := apart.written inRange
  have results := apart.result
  rw [counted] at results
  have line : evaluator.settings.encodeRecord ["\u00A007 ", "3.5"] = encodeText "\u00A007 ,3.5\n" := by
    decide +kernel
  have otherLine : evaluator.settings.encodeRecord ["7.0", "3.5"] = encodeText "7.0,3.5\n" := by
    decide +kernel
  rw [line] at first
  rw [shows, List.set_cons_zero, otherLine] at second
  have name : (Address.mk 2 0).text = "A3" := by decide +kernel
  refine ⟨value, read, shows, counted, results, front, back, ?_, ?_, first, second⟩
  · rw [lines, records]
    rfl
  · rw [← name]
    exact reported

end PostfixSheet
