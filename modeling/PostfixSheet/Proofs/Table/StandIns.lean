import PostfixSheet.Proofs.Formula.WordTokens
import PostfixSheet.Proofs.Table.Lockstep
import PostfixSheet.Proofs.Table.Reevaluation

/-! Printed results in place of formulas. A table in which results were written over the formulas that gave
them is evaluated to the same text, with the same values bound on the way. -/

namespace PostfixSheet

def Cell.ReplacedBy (chosen : Finset Nat) (position : Nat) (cell : Cell) (text : String) : Prop :=
  if position ∈ chosen then
    ∃ value, cell.result = .computed value ∧ value.isNaN = false ∧ text = showNumber value
  else text = cell.text

instance (chosen : Finset Nat) (position : Nat) (cell : Cell) (text : String) :
    Decidable (cell.ReplacedBy chosen position text) :=
  match computed : cell.result with
  | .computed value =>
      decidable_of_iff (if position ∈ chosen then value.isNaN = false ∧ text = showNumber value
        else text = cell.text) (by simp [Cell.ReplacedBy, computed])
  | .plain value =>
      decidable_of_iff (position ∉ chosen ∧ text = cell.text) (by simp [Cell.ReplacedBy, computed])
  | .failed error =>
      decidable_of_iff (position ∉ chosen ∧ text = cell.text) (by simp [Cell.ReplacedBy, computed])

def AllReplacedBy (chosen : Finset Nat) (position : Nat) (cells : List Cell) (texts : List String) :
    Prop :=
  ∀ (index : Nat) (cell : Cell) (text : String), cells[index]? = some cell →
    texts[index]? = some text → cell.ReplacedBy chosen (position + index) text

theorem AllReplacedBy.head {chosen : Finset Nat} {position : Nat} {cell : Cell} {cells : List Cell}
    {text : String} {texts : List String}
    (agree : AllReplacedBy chosen position (cell :: cells) (text :: texts)) :
    cell.ReplacedBy chosen position text ∧ AllReplacedBy chosen (position + 1) cells texts := by
  constructor
  · exact agree 0 cell text rfl rfl
  · intro index other replacement found shown
    have next := agree (index + 1) other replacement found shown
    rwa [← Nat.add_assoc, Nat.add_right_comm] at next

theorem AllReplacedBy.split {chosen : Finset Nat} {position : Nat} {cells later : List Cell}
    {texts more : List String} (lengths : cells.length = texts.length)
    (agree : AllReplacedBy chosen position (cells ++ later) (texts ++ more)) :
    AllReplacedBy chosen position cells texts ∧
      AllReplacedBy chosen (position + cells.length) later more := by
  constructor
  · intro index cell text found shown
    apply agree index cell text
    · rw [List.getElem?_append_left (List.getElem?_eq_some_iff.mp found).1, found]
    · rw [List.getElem?_append_left (List.getElem?_eq_some_iff.mp shown).1, shown]
  · intro index cell text found shown
    rw [Nat.add_assoc]
    apply agree _ cell text
    · rw [List.getElem?_append_right (by omega), Nat.add_sub_cancel_left, found]
    · rw [lengths, List.getElem?_append_right (by omega), Nat.add_sub_cancel_left, shown]

def Statistics.withComputed (statistics : Statistics) (count : Nat) : Statistics :=
  { statistics with
    formulas := statistics.formulas + count
    evaluated := statistics.evaluated + count }

structure Run.AlikeBut (computed : Nat) (run other : Run) : Prop where
  actions : run.actions = other.actions
  result : run.result.toOption =
    other.result.toOption.map fun statistics => statistics.withComputed computed

theorem Run.AlikeBut.after {computed : Nat} {run other : Run} (alike : run.AlikeBut computed other)
    (actions : List Action) : (run.after actions).AlikeBut computed (other.after actions) :=
  ⟨congrArg (actions ++ ·) alike.actions, alike.result⟩

/-- Cells from some position on, and the same cells with results in place of the chosen formulas. -/
inductive StandIns (chosen : Finset Nat) : Nat → List Cell → List Cell → Prop
  | nil (position : Nat) : StandIns chosen position [] []
  | kept {position : Nat} {cells others : List Cell} (cell : Cell) (outside : position ∉ chosen)
      (later : StandIns chosen (position + 1) cells others) :
      StandIns chosen position (cell :: cells) (cell :: others)
  | printed {position : Nat} {cells others : List Cell} (address : Address) (text : String)
      (value : Float) (inside : position ∈ chosen)
      (later : StandIns chosen (position + 1) cells others) :
      StandIns chosen position (⟨address, text, .computed value⟩ :: cells)
        (⟨address, showNumber value, .plain (some value)⟩ :: others)

namespace StandIns

variable {chosen : Finset Nat} {position : Nat} {cells others : List Cell}

theorem append {later otherLater : List Cell} (front : StandIns chosen position cells others)
    (behind : StandIns chosen (position + cells.length) later otherLater) :
    StandIns chosen position (cells ++ later) (others ++ otherLater) := by
  induction front with
  | nil position => exact behind
  | kept cell outside _ ih =>
      rw [List.length_cons, ← Nat.add_assoc, Nat.add_right_comm] at behind
      exact .kept cell outside (ih behind)
  | printed address text value inside _ ih =>
      rw [List.length_cons, ← Nat.add_assoc, Nat.add_right_comm] at behind
      exact .printed address text value inside (ih behind)

theorem events_eq (same : StandIns chosen position cells others) :
    cells.map Cell.event? = others.map Cell.event? := by
  induction same with
  | nil => rfl
  | kept cell _ _ ih => rw [List.map_cons, List.map_cons, ih]
  | printed address text value _ _ ih => rw [List.map_cons, List.map_cons, ih, Cell.event?, Cell.event?]

theorem outputs_eq (settings : Settings) (same : StandIns chosen position cells others) :
    cells.map (Cell.output settings) = others.map (Cell.output settings) := by
  induction same with
  | nil => rfl
  | kept cell _ _ ih => rw [List.map_cons, List.map_cons, ih]
  | printed address text value _ _ ih => rw [List.map_cons, List.map_cons, ih, Cell.output, Cell.output]

end StandIns

section Statistics

variable (statistics : Statistics) (count : Nat)

theorem withComputed_withComputed (more : Nat) :
    (statistics.withComputed count).withComputed more = statistics.withComputed (count + more) := by
  simp only [Statistics.withComputed, Nat.add_assoc]

theorem addCell_withComputed (cell : Cell) :
    (statistics.withComputed count).addCell cell = (statistics.addCell cell).withComputed count := by
  simp only [Statistics.addCell, Statistics.withComputed]
  cases cell.result <;> simp only [Nat.add_right_comm]

theorem addRows_withComputed (rows : Nat) :
    (statistics.withComputed count).addRows rows = (statistics.addRows rows).withComputed count := rfl

end Statistics

def chosenFrom (chosen : Finset Nat) (position count : Nat) : Nat :=
  (List.range' position count).countP fun index => index ∈ chosen

theorem chosenFrom_succ (chosen : Finset Nat) (position count : Nat) :
    chosenFrom chosen position (count + 1) =
      chosenFrom chosen (position + 1) count + if position ∈ chosen then 1 else 0 := by
  simp only [chosenFrom, List.range'_succ, List.countP_cons, decide_eq_true_eq]

theorem chosenFrom_append (chosen : Finset Nat) (position count more : Nat) :
    chosenFrom chosen position (count + more) =
      chosenFrom chosen position count + chosenFrom chosen (position + count) more := by
  rw [chosenFrom, ← List.range'_append_1, List.countP_append]
  rfl

theorem chosenFrom_all (chosen : Finset Nat) (count : Nat) (inside : ∀ index ∈ chosen, index < count) :
    chosenFrom chosen 0 count = chosen.card := by
  have distinct : ((List.range' 0 count).filter fun index => index ∈ chosen).Nodup :=
    List.Nodup.filter _ (List.nodup_range')
  rw [chosenFrom, List.countP_eq_length_filter, ← List.toFinset_card_of_nodup distinct]
  congr 1
  ext index
  simp only [List.mem_toFinset, List.mem_filter, List.mem_range'_1, decide_eq_true_eq]
  constructor
  · intro found
    exact found.2
  · intro member
    exact ⟨⟨Nat.zero_le _, by simpa using inside index member⟩, member⟩

theorem StandIns.counted {chosen : Finset Nat} {position : Nat} {cells others : List Cell}
    (same : StandIns chosen position cells others) (statistics : Statistics) (computed : Nat) :
    cells.foldl Statistics.addCell (statistics.withComputed computed) =
      (others.foldl Statistics.addCell statistics).withComputed
        (computed + chosenFrom chosen position cells.length) := by
  induction same generalizing statistics computed with
  | nil => rfl
  | kept cell outside _ ih =>
      rw [List.foldl_cons, List.foldl_cons, addCell_withComputed, ih, List.length_cons,
        chosenFrom_succ, if_neg outside]
      rfl
  | printed address text value inside _ ih =>
      have first : statistics.addCell ⟨address, text, .computed value⟩ =
          (statistics.addCell ⟨address, showNumber value, .plain (some value)⟩).withComputed 1 := rfl
      rw [List.foldl_cons, List.foldl_cons, addCell_withComputed, first, withComputed_withComputed, ih,
        List.length_cons, chosenFrom_succ, if_pos inside]
      congr 1
      omega

theorem plainValue?_showNumber (value : Float) : plainValue? (showNumber value) = some value := by
  have nonempty : (showNumber value).toList ≠ [] := by simpa using showNumber_ne_empty value
  have nothing : ∀ character ∈ ([] : List Char), isBlank character = true := by simp
  have trimmed := trimBlanks_surrounded nothing nothing (unbroken_showNumber value) nonempty
  rw [List.nil_append, List.append_nil] at trimmed
  rw [plainValue?, trimmed]
  exact readNumber?_showNumber value

namespace Evaluator

variable (evaluator : Evaluator)

theorem runFrom_nil_alike (ending otherEnding : Except UndecodableField Nat)
    (endings : ending.toOption = otherEnding.toOption) (bindings : Bindings) (statistics : Statistics)
    (computed : Nat) :
    (evaluator.runFrom ending bindings (statistics.withComputed computed) []).AlikeBut computed
      (evaluator.runFrom otherEnding bindings statistics []) := by
  cases ending with
  | error field =>
      cases otherEnding with
      | error other => exact ⟨rfl, rfl⟩
      | ok trailing => simp [Except.toOption] at endings
  | ok trailing =>
      obtain rfl := eq_ok_of_toOption otherEnding trailing endings.symm
      exact ⟨rfl, rfl⟩

theorem runFrom_cons_standIns {chosen : Finset Nat} {position computed total : Nat}
    {ending otherEnding : Except UndecodableField Nat} {bindings : Bindings}
    {statistics : Statistics} {record other : Record} {rest more : List Record}
    (same : record.shape = other.shape)
    (row : StandIns chosen position
      (evaluator.cells (UInt32.ofNat (record.line - 1)) 0 bindings record.fields).1
      (evaluator.cells (UInt32.ofNat (record.line - 1)) 0 bindings other.fields).1)
    (bound : (evaluator.cells (UInt32.ofNat (record.line - 1)) 0 bindings record.fields).2 =
      (evaluator.cells (UInt32.ofNat (record.line - 1)) 0 bindings other.fields).2)
    (alike :
      let (cells, next) := evaluator.cells (UInt32.ofNat (record.line - 1)) 0 bindings other.fields
      let counted := (cells.foldl Statistics.addCell statistics).addRows (record.blankBefore + 1)
      (evaluator.runFrom ending next
          (counted.withComputed (computed + chosenFrom chosen position record.fields.length))
          rest).AlikeBut total (evaluator.runFrom otherEnding next counted more)) :
    (evaluator.runFrom ending bindings (statistics.withComputed computed)
      (record :: rest)).AlikeBut total
        (evaluator.runFrom otherEnding bindings statistics (other :: more)) := by
  have size := evaluator.cells_length (UInt32.ofNat (record.line - 1)) 0 bindings record.fields
  apply evaluator.runFrom_cons_lockstep same rfl rfl row.events_eq
  · intro _ actions fault
    exact ⟨rfl, rfl⟩
  · intro _
    simp only [row.outputs_eq, bound, row.counted, size]
    exact alike.after _

section Lockstep

variable {evaluator} (digit : evaluator.settings.formulaPrefix.isDigit = false)
  (others : evaluator.settings.formulaPrefix ∉ ['-', 'i', 'N'])

include digit others

theorem result_showNumber (lookup : Lookup) (value : Float) :
    evaluator.result lookup (showNumber value) = .plain (some value) := by
  have plain := isFormula_showNumber value digit others
  rw [isFormula, Option.isSome_eq_false_iff, Option.isNone_iff_eq_none] at plain
  rw [result, plain, plainValue?_showNumber]

theorem cells_standIns {chosen : Finset Nat} (row : UInt32) (column position : Nat)
    (bindings : Bindings) (texts replaced : List String) (lengths : texts.length = replaced.length)
    (agree : AllReplacedBy chosen position (evaluator.cells row column bindings texts).1 replaced) :
    StandIns chosen position (evaluator.cells row column bindings texts).1
        (evaluator.cells row column bindings replaced).1 ∧
      (evaluator.cells row column bindings texts).2 =
        (evaluator.cells row column bindings replaced).2 := by
  induction texts generalizing column position bindings replaced with
  | nil =>
      obtain rfl := List.length_eq_zero_iff.mp lengths.symm
      exact ⟨.nil position, rfl⟩
  | cons text rest ih =>
      cases replaced with
      | nil => simp at lengths
      | cons other more =>
          simp only [List.length_cons, Nat.add_right_cancel_iff] at lengths
          simp only [cells] at agree ⊢
          obtain ⟨first, later⟩ := agree.head
          obtain ⟨same, bound⟩ := ih _ _ _ more lengths later
          by_cases inside : position ∈ chosen
          · rw [Cell.ReplacedBy, if_pos inside] at first
            obtain ⟨value, computed, _, rfl⟩ := first
            simp only at computed
            rw [computed] at same bound ⊢
            rw [result_showNumber digit others]
            exact ⟨.printed _ _ _ inside same, bound⟩
          · rw [Cell.ReplacedBy, if_neg inside] at first
            obtain rfl := first
            exact ⟨.kept _ inside same, bound⟩

theorem runFrom_standIns {chosen : Finset Nat} (ending otherEnding : Except UndecodableField Nat)
    (endings : ending.toOption = otherEnding.toOption) (position computed : Nat)
    (bindings : Bindings) (statistics : Statistics) (records replaced : List Record)
    (shapes : records.map Record.shape = replaced.map Record.shape)
    (agree : AllReplacedBy chosen position (evaluator.cellRows bindings records).1.flatten
      (replaced.flatMap Record.fields)) :
    (evaluator.runFrom ending bindings (statistics.withComputed computed) records).AlikeBut
        (computed + chosenFrom chosen position
          (evaluator.cellRows bindings records).1.flatten.length)
        (evaluator.runFrom otherEnding bindings statistics replaced) ∧
      (evaluator.cellRows bindings records).2 = (evaluator.cellRows bindings replaced).2 := by
  induction records generalizing replaced position computed bindings statistics with
  | nil =>
      obtain rfl := List.map_eq_nil_iff.mp shapes.symm
      exact ⟨evaluator.runFrom_nil_alike ending otherEnding endings bindings statistics computed, rfl⟩
  | cons record rest ih =>
      cases replaced with
      | nil => simp at shapes
      | cons other more =>
          simp only [List.map_cons, List.cons.injEq] at shapes
          obtain ⟨same, shapes⟩ := shapes
          have lengths : record.fields.length = other.fields.length :=
            congrArg (fun shape => shape.2.2) same
          have line : record.line = other.line := congrArg Prod.fst same
          have size := evaluator.cells_length (UInt32.ofNat (record.line - 1)) 0 bindings record.fields
          simp only [cellRows, ← line, List.flatten_cons, List.flatMap_cons, List.length_append, size,
            chosenFrom_append, ← Nat.add_assoc] at agree ⊢
          obtain ⟨first, later⟩ := agree.split (size.trans lengths)
          obtain ⟨row, bound⟩ := cells_standIns digit others _ 0 position bindings _ _ lengths first
          rw [bound, size] at later
          obtain ⟨alike, final⟩ := ih _ (computed + chosenFrom chosen position record.fields.length) _
            (((evaluator.cells (UInt32.ofNat (record.line - 1)) 0 bindings other.fields).1.foldl
              Statistics.addCell statistics).addRows (record.blankBefore + 1)) more shapes later
          rw [bound]
          exact ⟨evaluator.runFrom_cons_standIns same row bound alike, final⟩

end Lockstep

/-- Printed results can stand in for formulas. With results written over any formulas that gave numbers, a
table is evaluated to the same text, and the same values are bound to the same names on the way. Only the
formulas that were written over are no longer counted as such. -/
theorem evaluate_standIns (bytes otherBytes : List UInt8) (first second : Document)
    (chosen : Finset Nat) (sink : Sink) (digit : evaluator.settings.formulaPrefix.isDigit = false)
    (others : evaluator.settings.formulaPrefix ∉ ['-', 'i', 'N'])
    (read : readDocument evaluator.settings.toDialect bytes = first)
    (otherRead : readDocument evaluator.settings.toDialect otherBytes = second)
    (endings : first.ending.toOption = second.ending.toOption)
    (shapes : first.records.map Record.shape = second.records.map Record.shape)
    (inside : ∀ index ∈ chosen, index < (evaluator.documentCells first).length)
    (agree : AllReplacedBy chosen 0 (evaluator.documentCells first)
      (second.records.flatMap Record.fields)) :
    let delivered := evaluator.evaluate (.ok bytes) sink
    let other := evaluator.evaluate (.ok otherBytes) sink
    delivered.written = other.written ∧ delivered.events = other.events ∧
      delivered.result.toOption =
        other.result.toOption.map (fun statistics => statistics.withComputed chosen.card) ∧
      (evaluator.cellRows .empty first.records).2 = (evaluator.cellRows .empty second.records).2 := by
  subst read otherRead
  obtain ⟨alike, final⟩ := runFrom_standIns digit others _ _ endings 0 0 .empty {} _ _ shapes agree
  rw [Nat.zero_add, ← documentCells, chosenFrom_all chosen _ inside] at alike
  have runs : (evaluator.run bytes).AlikeBut chosen.card (evaluator.run otherBytes) := alike
  obtain ⟨written, events, ended⟩ := deliverFrom_congr sink
    (fun statistics => statistics.withComputed chosen.card) _ _ runs.result 0
    (evaluator.run otherBytes).actions
  rw [evaluate, evaluate, Sink.deliver, Sink.deliver, runs.actions]
  exact ⟨written, events, ended, final⟩

end Evaluator

def overflowSheet (first second : String) : List UInt8 :=
  encodeText (first ++ "," ++ second ++ ",x\r\n\r=B1 A1 /,=A9")

theorem evaluate_standIns_overflow :
    let evaluator : Evaluator := .mk {} .empty
    let formulas := overflowSheet "=1e308 10 *" "=0 -1 *"
    let printed := overflowSheet "inf" "-0.0"
    let first := readDocument {} formulas
    let second := readDocument {} printed
    first.records.map Record.shape = second.records.map Record.shape ∧
      AllReplacedBy {0, 1} 0 (evaluator.documentCells first)
        (second.records.flatMap Record.fields) ∧
      (evaluator.evaluate (.ok formulas) {}).written =
        (evaluator.evaluate (.ok printed) {}).written ∧
      (evaluator.evaluate (.ok formulas) {}).written =
        [encodeText "inf,-0.0,x\n", [lineFeed], encodeText "-0.0,#N/A\n"] ∧
      (evaluator.evaluate (.ok printed) {}).result = .ok ⟨3, 5, 2, 1, 1⟩ ∧
      (evaluator.evaluate (.ok formulas) {}).result = .ok ⟨3, 5, 4, 3, 1⟩ := by
  intro evaluator formulas printed first second
  have shapes : first.records.map Record.shape = second.records.map Record.shape := by decide +kernel
  have endings : first.ending.toOption = second.ending.toOption := by decide +kernel
  have size : (evaluator.documentCells first).length = 5 := by decide +kernel
  have replaced : ∀ index < 5, ∀ cell ∈ (evaluator.documentCells first)[index]?,
      ∀ text ∈ (second.records.flatMap Record.fields)[index]?, cell.ReplacedBy {0, 1} index text := by
    decide +kernel
  have agree : AllReplacedBy {0, 1} 0 (evaluator.documentCells first)
      (second.records.flatMap Record.fields) := by
    intro index cell text found shown
    have bound := (List.getElem?_eq_some_iff.mp found).1
    rw [Nat.zero_add]
    exact replaced index (by omega) cell found text shown
  have inside : ∀ index ∈ ({0, 1} : Finset Nat), index < (evaluator.documentCells first).length := by
    rw [size]
    decide
  have counted : (evaluator.evaluate (.ok printed) {}).result = .ok ⟨3, 5, 2, 1, 1⟩ :=
    eq_ok_of_toOption _ _ (by decide +kernel)
  obtain ⟨written, _, results, _⟩ := evaluator.evaluate_standIns formulas printed first second {0, 1} {}
    (by decide) (by decide) rfl rfl endings shapes inside agree
  rw [counted] at results
  exact ⟨shapes, agree, written, by decide +kernel, counted, eq_ok_of_toOption _ _ results⟩

end PostfixSheet
