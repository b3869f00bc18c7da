import PostfixSheet.Proofs.Formula.Folding
import PostfixSheet.Proofs.Table.WrittenRows

/-! What a cell depends on. Its text in the output is determined by the texts of the cells that it reaches
by following the names in formulas, whatever the other cells hold. -/

namespace PostfixSheet

def Record.shape (record : Record) : Nat × Nat × Nat :=
  (record.line, record.blankBefore, record.fields.length)

def Document.sites (document : Document) : List (Address × String) :=
  document.records.flatMap Record.sites

namespace Evaluator

def RefersTo (evaluator : Evaluator) (text name : String) : Prop :=
  ∃ formula tree, evaluator.settings.formula? text = some formula ∧
    parseFormula evaluator.functions formula = .ok tree ∧ name ∈ tree.dependencies

def cellReferences (evaluator : Evaluator) (text : String) : List String :=
  match evaluator.settings.formula? text with
  | none => []
  | some formula =>
      match parseFormula evaluator.functions formula with
      | .ok tree => tree.references
      | .error _ => []

theorem refersTo_iff (evaluator : Evaluator) (text name : String) :
    evaluator.RefersTo text name ↔ name ∈ evaluator.cellReferences text := by
  constructor
  · rintro ⟨formula, tree, found, parsed, member⟩
    simpa only [cellReferences, found, parsed, tree.mem_dependencies] using member
  · intro member
    simp only [cellReferences] at member
    split at member
    · simp at member
    · rename_i formula found
      split at member
      · rename_i tree parsed
        exact ⟨formula, tree, found, parsed, (tree.mem_dependencies name).mpr member⟩
      · simp at member

instance (evaluator : Evaluator) (text name : String) : Decidable (evaluator.RefersTo text name) :=
  decidable_of_iff _ (evaluator.refersTo_iff text name).symm

/-- The places of the cells that a cell needs: its own, and with the place of any cell the places of the
cells in front of it that it refers to. -/
inductive Needs (evaluator : Evaluator) (sites : List (Address × String)) (target : Nat) : Nat → Prop
  | itself : Needs evaluator sites target target
  | referred {later earlier : Nat} {cell other : Address × String}
      (needed : Needs evaluator sites target later) (found : sites[later]? = some cell)
      (foundOther : sites[earlier]? = some other) (before : earlier < later)
      (refers : evaluator.RefersTo cell.2 other.1.text) : Needs evaluator sites target earlier

theorem valueOf_congr (evaluator : Evaluator) (first second : Lookup) (text : String)
    (same : ∀ name, evaluator.RefersTo text name → first name = second name) :
    evaluator.valueOf first text = evaluator.valueOf second text := by
  cases found : evaluator.settings.formula? text with
  | none => simp only [valueOf, found]
  | some formula =>
      cases parsed : parseFormula evaluator.functions formula with
      | error error => simp only [valueOf, found, parsed]
      | ok tree =>
          simp only [valueOf, found, parsed]
          rw [tree.eval_congr]
          intro name member
          exact same name ⟨formula, tree, found, parsed, (tree.mem_dependencies name).mpr member⟩

end Evaluator

def ValuedCell.answer (name : String) (cell : ValuedCell) : Option Float :=
  if cell.address.text = name then cell.value else none

theorem tableOf_eq_answers (cells : List ValuedCell) (name : String) :
    tableOf cells name = (cells.map (ValuedCell.answer name)).reverse.findSome? id := by
  rw [tableOf, ← List.map_reverse, List.findSome?_map]
  rfl

theorem tableOf_congr (first second : List ValuedCell) (name : String)
    (addresses : first.map ValuedCell.address = second.map ValuedCell.address)
    (values : ∀ (index : Nat) (cell other : ValuedCell), first[index]? = some cell →
      second[index]? = some other → cell.address.text = name → cell.value = other.value) :
    tableOf first name = tableOf second name := by
  rw [tableOf_eq_answers, tableOf_eq_answers]
  congr 2
  have lengths : first.length = second.length := by simpa using congrArg List.length addresses
  apply List.ext_getElem
  · simpa using lengths
  · intro index bound otherBound
    simp only [List.length_map] at bound otherBound
    have address : first[index].address = second[index].address := by
      have same := congrArg (·[index]?) addresses
      simpa [bound, otherBound] using same
    simp only [List.getElem_map, ValuedCell.answer, ← address]
    by_cases named : first[index].address.text = name
    · rw [if_pos named, if_pos named]
      exact values index _ _ (List.getElem?_eq_getElem bound) (List.getElem?_eq_getElem otherBound)
        named
    · rw [if_neg named, if_neg named]

section Agreement

variable {evaluator : Evaluator} {first second : List ValuedCell} {target : Nat}

theorem valued_agree (firstValued : evaluator.Valued first) (secondValued : evaluator.Valued second)
    (addresses : first.map ValuedCell.address = second.map ValuedCell.address)
    (texts : ∀ index, evaluator.Needs (first.map ValuedCell.site) target index →
      first[index]?.map ValuedCell.text = second[index]?.map ValuedCell.text)
    (index : Nat) (needed : evaluator.Needs (first.map ValuedCell.site) target index) :
    first[index]?.map ValuedCell.value = second[index]?.map ValuedCell.value := by
  induction index using Nat.strongRecOn with
  | ind index ih =>
      have text := texts index needed
      cases found : first[index]? with
      | none =>
          rw [found, Option.map_none] at text
          rw [Option.map_none, Option.map_eq_none_iff.mp text.symm, Option.map_none]
      | some cell =>
          rw [found, Option.map_some] at text
          obtain ⟨other, foundOther, same⟩ := Option.map_eq_some_iff.mp text.symm
          rw [foundOther, Option.map_some, Option.map_some, firstValued index cell found,
            secondValued index other foundOther, same]
          congr 1
          apply evaluator.valueOf_congr
          intro name refers
          apply tableOf_congr
          · rw [List.map_take, List.map_take, addresses]
          · intro place earlier other taken takenOther named
            rw [List.getElem?_take] at taken takenOther
            split at taken
            · rename_i before
              rw [if_pos before] at takenOther
              subst named
              have site : (first.map ValuedCell.site)[index]? = some cell.site := by simp [found]
              have earlierSite : (first.map ValuedCell.site)[place]? = some earlier.site := by
                simp [taken]
              have reached := needed.referred site earlierSite before refers
              have values := ih place before reached
              simpa [taken, takenOther] using values
            · simp at taken

end Agreement

theorem sites_addresses (document : Document) :
    document.sites.map Prod.fst = (document.records.map Record.shape).flatMap fun shape =>
      (List.range shape.2.2).map fun column =>
        ⟨UInt32.ofNat (shape.1 - 1), UInt32.ofNat column⟩ := by
  rw [Document.sites, List.map_flatMap, List.flatMap_map]
  congr 1
  funext record
  apply List.ext_getElem
  · simp [Record.sites, Record.shape]
  · intro column bound otherBound
    simp [Record.sites, Record.shape]

namespace Evaluator

theorem fieldText_agree (evaluator : Evaluator) (cell other : Option ValuedCell)
    (text : cell.map ValuedCell.text = other.map ValuedCell.text)
    (value : cell.map ValuedCell.value = other.map ValuedCell.value) :
    cell.map evaluator.fieldText = other.map evaluator.fieldText := by
  cases cell <;> cases other <;> simp_all [fieldText]

/-- The text written for a cell depends on the cells that it needs, and on no other cell. -/
theorem evaluate_dependence (evaluator : Evaluator) (bytes otherBytes : List UInt8)
    (first second : Document) (statistics otherStatistics : Statistics) (target : Nat)
    (read : readDocument evaluator.settings.toDialect bytes = first)
    (otherRead : readDocument evaluator.settings.toDialect otherBytes = second)
    (succeeded : (evaluator.evaluate (.ok bytes) {}).result = .ok statistics)
    (otherSucceeded : (evaluator.evaluate (.ok otherBytes) {}).result = .ok otherStatistics)
    (shapes : first.records.map Record.shape = second.records.map Record.shape)
    (texts : ∀ index, evaluator.Needs first.sites target index →
      first.sites[index]?.map Prod.snd = second.sites[index]?.map Prod.snd) :
    let rows := evaluator.shownRows .empty first.records
    let otherRows := evaluator.shownRows .empty second.records
    (∃ trailing, (evaluator.evaluate (.ok bytes) {}).written =
      evaluator.settings.encodeTable first.records rows ++
        List.replicate trailing evaluator.settings.terminator.bytes) ∧
    (∃ trailing, (evaluator.evaluate (.ok otherBytes) {}).written =
      evaluator.settings.encodeTable second.records otherRows ++
        List.replicate trailing evaluator.settings.terminator.bytes) ∧
    rows.map List.length = first.records.map (fun record => record.fields.length) ∧
    otherRows.map List.length = second.records.map (fun record => record.fields.length) ∧
    rows.flatten[target]? = otherRows.flatten[target]? := by
  subst read otherRead
  obtain ⟨written, ended⟩ := evaluator.evaluate_unlimited bytes
  obtain ⟨otherWritten, otherEnded⟩ := evaluator.evaluate_unlimited otherBytes
  rw [ended] at succeeded
  rw [otherEnded] at otherSucceeded
  obtain ⟨trailing, _, ordered, rowsWritten, _⟩ := run_cells evaluator bytes statistics succeeded
  obtain ⟨otherTrailing, _, otherOrdered, otherRowsWritten, _⟩ :=
    run_cells evaluator otherBytes otherStatistics otherSucceeded
  refine ⟨⟨trailing, written.trans rowsWritten⟩, ⟨otherTrailing, otherWritten.trans otherRowsWritten⟩,
    ordered.lengths, otherOrdered.lengths, ?_⟩
  have addresses := sites_addresses (readDocument evaluator.settings.toDialect bytes)
  rw [shapes, ← sites_addresses] at addresses
  generalize (evaluator.documentCells _).map Cell.valued = cells at ordered
  generalize (evaluator.documentCells _).map Cell.valued = others at otherOrdered
  rw [Document.sites, Document.sites, ← ordered.sites, ← otherOrdered.sites] at addresses texts
  simp only [List.map_map, List.getElem?_map, Option.map_map] at addresses texts
  rw [ordered.texts, otherOrdered.texts]
  simp only [List.getElem?_map]
  apply evaluator.fieldText_agree
  · exact texts target .itself
  · exact valued_agree ordered.valued otherOrdered.valued addresses texts target .itself

end Evaluator

def chainSheet (between : String) : List UInt8 :=
  encodeText ("1," ++ between ++ "\r\n=A1 2 *,\n=A2 A1 +,=A3")

theorem evaluate_dependence_chainSheet :
    let evaluator : Evaluator := .mk {} .empty
    let first := readDocument {} (chainSheet "7")
    let second := readDocument {} (chainSheet "=B1 2")
    first.records.map Record.fields = [["1", "7"], ["=A1 2 *", ""], ["=A2 A1 +", "=A3"]] ∧
      (evaluator.evaluate (.ok (chainSheet "7")) {}).result = .ok ⟨3, 6, 3, 3, 0⟩ ∧
      (evaluator.evaluate (.ok (chainSheet "=B1 2")) {}).result = .ok ⟨3, 6, 4, 3, 1⟩ ∧
      first.records.map Record.shape = second.records.map Record.shape ∧
      (∀ index, evaluator.Needs first.sites 5 index → index ∈ [5, 4, 2, 0]) ∧
      first.sites[1]?.map Prod.snd ≠ second.sites[1]?.map Prod.snd ∧
      (evaluator.shownRows .empty first.records).flatten[5]? =
        (evaluator.shownRows .empty second.records).flatten[5]? := by
  intro evaluator first second
  have read : first.sites = [(⟨0, 0⟩, "1"), (⟨0, 1⟩, "7"), (⟨1, 0⟩, "=A1 2 *"), (⟨1, 1⟩, ""),
      (⟨2, 0⟩, "=A2 A1 +"), (⟨2, 1⟩, "=A3")] := by decide +kernel
  have otherRead : second.sites = [(⟨0, 0⟩, "1"), (⟨0, 1⟩, "=B1 2"), (⟨1, 0⟩, "=A1 2 *"),
      (⟨1, 1⟩, ""), (⟨2, 0⟩, "=A2 A1 +"), (⟨2, 1⟩, "=A3")] := by decide +kernel
  have succeeded : (evaluator.evaluate (.ok (chainSheet "7")) {}).result = .ok ⟨3, 6, 3, 3, 0⟩ :=
    eq_ok_of_toOption _ _ (by decide +kernel)
  have otherSucceeded : (evaluator.evaluate (.ok (chainSheet "=B1 2")) {}).result =
      .ok ⟨3, 6, 4, 3, 1⟩ := eq_ok_of_toOption _ _ (by decide +kernel)
  have shapes : first.records.map Record.shape = second.records.map Record.shape := by
    decide +kernel
  have closed : ∀ later ∈ [5, 4, 2, 0], ∀ earlier < later, ∀ cell ∈ first.sites[later]?,
      ∀ other ∈ first.sites[earlier]?, evaluator.RefersTo cell.2 other.1.text →
        earlier ∈ [5, 4, 2, 0] := by
    rw [read]
    decide +kernel
  have needed : ∀ index, evaluator.Needs first.sites 5 index → index ∈ [5, 4, 2, 0] := by
    intro index reached
    induction reached with
    | itself => simp
    | referred _ found foundOther before refers ih =>
        exact closed _ ih _ before _ found _ foundOther refers
  have texts : ∀ index ∈ [5, 4, 2, 0],
      first.sites[index]?.map Prod.snd = second.sites[index]?.map Prod.snd := by
    rw [read, otherRead]
    decide +kernel
  obtain ⟨_, _, _, _, same⟩ := evaluator.evaluate_dependence (chainSheet "7") (chainSheet "=B1 2")
    first second _ _ 5 rfl rfl succeeded otherSucceeded shapes
    fun index reached => texts index (needed index reached)
  refine ⟨by decide +kernel, succeeded, otherSucceeded, shapes, needed, ?_, same⟩
  rw [read, otherRead]
  simp

end PostfixSheet
