import PostfixSheet.Proofs.Formula.MaximalFolding

/-! What evaluation reads. A tree asks a lookup for the names that it depends on, from left to right, and stops at
the first one without a value; no other name has any say in its value. -/

namespace PostfixSheet

/-- Two lookups answer alike for some names: both with the same bits, or neither of them at all. -/
def Lookup.AgreeOn (first second : Lookup) (names : NameSet) : Prop :=
  ∀ name ∈ names, (first name).map Float.toBits = (second name).map Float.toBits

def Lookup.zeroBut (missing : String) : Lookup :=
  fun name => if name = missing then none else some 0

theorem eq_of_map_toBits_eq (left right : Option Float)
    (same : left.map Float.toBits = right.map Float.toBits) : left = right :=
  Option.map_injective (fun first second => eq_of_toBits_eq first second) same

namespace Formula

def leaves : Formula → List Formula
  | constant value => [constant value]
  | reference name => [reference name]
  | operation _ left right => left.leaves ++ right.leaves
  | application _ argument => argument.leaves

def isUnbound (lookup : Lookup) : Formula → Bool
  | constant _ => false
  | reference name => (lookup name).isNone
  | operation _ _ _ => false
  | application _ _ => false

theorem find?_leaves (lookup : Lookup) (formula : Formula) :
    formula.leaves.find? (isUnbound lookup) =
      (lookup.firstUnbound? formula.references).map reference := by
  induction formula with
  | constant value => rfl
  | reference name =>
      cases answer : lookup name <;> simp [leaves, isUnbound, references, Lookup.firstUnbound?, answer]
  | operation operator left right ihLeft ihRight =>
      rw [leaves, references, List.find?_append, ihLeft, ihRight, firstUnbound?_append, Option.map_or]
  | application function argument ih => exact ih

theorem eval_error_iff (lookup : Lookup) (formula : Formula) (error : FormulaError) :
    formula.eval lookup = .error error ↔
      ∃ name, formula.leaves.find? (isUnbound lookup) = some (reference name) ∧
        error = .unbound name := by
  have outcome := formula.eval_unbound lookup
  rw [find?_leaves]
  cases unbound : lookup.firstUnbound? formula.references with
  | some name =>
      simp only [unbound] at outcome
      simp [outcome, eq_comm]
  | none =>
      simp only [unbound] at outcome
      obtain ⟨value, evaluated⟩ := outcome
      simp [evaluated]

theorem mem_dependencies_of_decisive (formula : Formula) (names : NameSet)
    (decisive : ∀ first second : Lookup, first.AgreeOn second names →
      formula.eval first = formula.eval second) :
    ∀ name ∈ formula.dependencies, name ∈ names := by
  intro name member
  by_contra outside
  have agree : Lookup.AgreeOn (fun _ => some 0) (.zeroBut name) names := by
    intro other inside
    have distinct : other ≠ name := by
      rintro rfl
      exact outside inside
    simp [Lookup.zeroBut, distinct]
  have bound : formula.Bound (fun _ => some 0) := fun _ _ => rfl
  rw [bound_iff_value, decisive _ _ agree, ← bound_iff_value] at bound
  have present := bound name ((formula.mem_dependencies name).mp member)
  simp [Lookup.zeroBut] at present

end Formula

/-- A tree has a value exactly when every name that it depends on has one, and otherwise stops at the first
reference from the left to a name without a value. Lookups that answer alike for the names it depends on give the
same result whatever else they answer, and no smaller set of names is enough for that. -/
theorem eval_dependencies (formula : Formula) :
    (∀ lookup : Lookup,
      ((∃ value, formula.eval lookup = .ok value) ↔
        ∀ name ∈ formula.dependencies, (lookup name).isSome = true) ∧
      ∀ error, formula.eval lookup = .error error ↔
        ∃ name, formula.leaves.find? (Formula.isUnbound lookup) = some (.reference name) ∧
          error = .unbound name) ∧
    (∀ first second : Lookup, first.AgreeOn second formula.dependencies →
      formula.eval first = formula.eval second) ∧
    ∀ names : NameSet,
      (∀ first second : Lookup, first.AgreeOn second names →
        formula.eval first = formula.eval second) →
      ∀ name ∈ formula.dependencies, name ∈ names := by
  refine ⟨fun lookup => ⟨?_, formula.eval_error_iff lookup⟩, ?_, formula.mem_dependencies_of_decisive⟩
  · rw [← Formula.bound_iff_value]
    simp only [Formula.Bound, Formula.mem_dependencies]
  · intro first second agree
    apply formula.eval_congr
    intro name member
    exact eq_of_map_toBits_eq _ _ (agree name ((formula.mem_dependencies name).mpr member))

theorem eval_dependencies_otherName :
    let formula : Formula := .operation .add (.reference "b") (.reference "a")
    let first : Lookup := fun name => if name = "a" then some 2 else none
    let second : Lookup := fun name => if name = "a" then some 2 else if name = "c" then some 5 else none
    first.AgreeOn second formula.dependencies ∧ formula.eval first = formula.eval second ∧
      formula.eval first = .error (.unbound "b") := by
  intro formula first second
  have agree : first.AgreeOn second formula.dependencies := by
    intro name member
    have known : name = "b" ∨ name = "a" := by
      simpa [formula, Formula.references] using (formula.mem_dependencies name).mp member
    rcases known with rfl | rfl <;> rfl
  obtain ⟨outcomes, congruent, _⟩ := eval_dependencies formula
  exact ⟨agree, congruent first second agree, ((outcomes first).2 _).mpr ⟨"b", rfl, rfl⟩⟩

end PostfixSheet
