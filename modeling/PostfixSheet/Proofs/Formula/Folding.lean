import PostfixSheet.Formula.Evaluation
import PostfixSheet.Proofs.Number.Bits

/-! Folding keeps the value of a tree, also against bindings other than those it was folded with. -/

namespace PostfixSheet

/-- What the first lookup answers for some names, the second one answers with the same bits. -/
def Lookup.CarriesTo (first second : Lookup) (names : NameSet) : Prop :=
  ∀ name ∈ names, ∀ value, first name = some value →
    ∃ kept, second name = some kept ∧ kept.toBits = value.toBits

namespace Formula

def Carries (formula : Formula) (first second : Lookup) : Prop :=
  ∀ name ∈ formula.references, ∀ value, first name = some value → second name = some value

variable {first second : Lookup}

theorem eval_carried (formula : Formula) (carries : formula.Carries first second) (value : Float)
    (evaluated : formula.eval first = .ok value) : formula.eval second = .ok value := by
  induction formula generalizing value with
  | constant bits => exact evaluated
  | reference name =>
      simp only [eval] at evaluated ⊢
      split at evaluated
      · rename_i found answer
        rw [carries name (by simp [references]) found answer]
        exact evaluated
      · simp at evaluated
  | operation operator left right ihLeft ihRight =>
      simp only [eval] at evaluated
      split at evaluated
      · simp at evaluated
      · rename_i leftValue leftEvaluated
        split at evaluated
        · simp at evaluated
        · rename_i rightValue rightEvaluated
          have leftKept := ihLeft (fun name member => carries name (by simp [references, member]))
            leftValue leftEvaluated
          have rightKept := ihRight (fun name member => carries name (by simp [references, member]))
            rightValue rightEvaluated
          simp only [eval, leftKept, rightKept]
          exact evaluated
  | application function argument ih =>
      simp only [eval] at evaluated
      split at evaluated
      · simp at evaluated
      · rename_i argumentValue argumentEvaluated
        have kept := ih (fun name member => carries name (by simpa [references] using member))
          argumentValue argumentEvaluated
        simp only [eval, kept]
        exact evaluated

theorem eval_congr (formula : Formula)
    (same : ∀ name ∈ formula.references, first name = second name) :
    formula.eval first = formula.eval second := by
  induction formula with
  | constant value => rfl
  | reference name => simp only [eval, same name (by simp [references])]
  | operation operator left right ihLeft ihRight =>
      have leftSame := ihLeft fun name member => same name (by simp [references, member])
      have rightSame := ihRight fun name member => same name (by simp [references, member])
      simp only [eval, leftSame, rightSame]
  | application function argument ih =>
      have argumentSame := ih fun name member => same name (by simpa [references] using member)
      simp only [eval, argumentSame]

theorem eval_settle (formula : Formula) (carries : formula.Carries first second) :
    (formula.settle first).eval second = formula.eval second := by
  rw [settle]
  split
  · rename_i value evaluated
    rw [eval_carried formula carries value evaluated]
    rfl
  · rfl

theorem references_settle (formula : Formula) (lookup : Lookup) :
    (formula.settle lookup).references ⊆ formula.references := by
  rw [settle]
  split
  · simp [references]
  · exact List.Subset.refl _

theorem references_fold (formula : Formula) (lookup : Lookup) :
    (formula.fold lookup).references ⊆ formula.references := by
  induction formula with
  | constant value => exact List.Subset.refl _
  | reference name =>
      simp only [fold]
      split
      · simp [references]
      · exact List.Subset.refl _
  | operation operator left right ihLeft ihRight =>
      intro name member
      have inside := references_settle _ lookup member
      simp only [references, List.mem_append] at inside ⊢
      rcases inside with earlier | later
      · exact Or.inl (ihLeft earlier)
      · exact Or.inr (ihRight later)
  | application function argument ih =>
      intro name member
      exact ih (references_settle (application function (argument.fold lookup)) lookup member)

theorem Carries.mono {formula other : Formula} (carries : formula.Carries first second)
    (inside : other.references ⊆ formula.references) : other.Carries first second := by
  intro name member
  exact carries name (inside member)

theorem eval_fold_carried (formula : Formula) (carries : formula.Carries first second) :
    (formula.fold first).eval second = formula.eval second := by
  induction formula with
  | constant value => rfl
  | reference name =>
      simp only [fold]
      split
      · rename_i value answer
        have kept := carries name (by simp [references]) value answer
        simp [eval, kept]
      · rfl
  | operation operator left right ihLeft ihRight =>
      have settled := eval_settle (operation operator (left.fold first) (right.fold first))
        (carries.mono (by
          intro name member
          simp only [references, List.mem_append] at member ⊢
          rcases member with earlier | later
          · exact Or.inl (references_fold left first earlier)
          · exact Or.inr (references_fold right first later)))
      have leftKept := ihLeft fun name member => carries name (by simp [references, member])
      have rightKept := ihRight fun name member => carries name (by simp [references, member])
      simp only [fold, settled, eval, leftKept, rightKept]
  | application function argument ih =>
      have settled := eval_settle (application function (argument.fold first))
        (carries.mono (references_fold argument first))
      have kept := ih carries
      simp only [fold, settled, eval, kept]

end Formula

/-- A folded tree has the value of the tree itself, or stops at the same unbound name, against all
bindings that keep what it was folded with. -/
theorem eval_fold (formula : Formula) (first second : Lookup)
    (kept : first.CarriesTo second formula.dependencies) :
    (formula.fold first).eval second = formula.eval second := by
  apply formula.eval_fold_carried
  intro name member value answer
  obtain ⟨bound, found, bits⟩ := kept name ((formula.mem_dependencies name).mpr member) value answer
  rw [found, eq_of_toBits_eq bound value bits]

def halfBound : Formula :=
  .operation .divide (.operation .add (.reference "x") (.constant 1)) (.reference "y")

theorem eval_fold_halfBound :
    let first : Lookup := fun name => if name = "x" then some 2 else none
    let second : Lookup := fun name => if name = "x" then some 2 else if name = "z" then some 5 else none
    first.CarriesTo second halfBound.dependencies ∧
      (halfBound.fold first).operationCount = 1 ∧
      (halfBound.fold first).eval second = halfBound.eval second ∧
      halfBound.eval second = .error (.unbound "y") := by
  intro first second
  have kept : first.CarriesTo second halfBound.dependencies := by
    intro name _ value answer
    by_cases isX : name = "x"
    · exact ⟨value, by simpa [first, second, isX] using answer, rfl⟩
    · simp [first, isX] at answer
  exact ⟨kept, by decide, eval_fold halfBound first second kept, rfl⟩

end PostfixSheet
