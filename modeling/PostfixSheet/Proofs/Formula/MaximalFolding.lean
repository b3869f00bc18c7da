import PostfixSheet.Proofs.Formula.Folding
import PostfixSheet.Proofs.Formula.SameTrees
import PostfixSheet.Proofs.Formula.StackMachine

/-! What folding does to a tree: every largest part whose names are all bound becomes its value, and every
other node stays. So the bindings can also be handed over in two steps. -/

namespace PostfixSheet

def Lookup.orElse (first second : Lookup) : Lookup :=
  fun name => (first name).or (second name)

namespace Formula

def Bound (lookup : Lookup) (formula : Formula) : Prop :=
  ∀ name ∈ formula.references, (lookup name).isSome = true

def isOpen (lookup : Lookup) (formula : Formula) : Bool :=
  formula.references.any fun name => (lookup name).isNone

def IsValueOf (lookup : Lookup) (formula other : Formula) : Prop :=
  ∃ value, formula.eval lookup = .ok value ∧ other = constant value

def isCompound : Formula → Bool
  | constant _ => false
  | reference _ => false
  | operation _ _ _ => true
  | application _ _ => true

def parts : Formula → List Formula
  | constant value => [constant value]
  | reference name => [reference name]
  | operation operator left right => operation operator left right :: (left.parts ++ right.parts)
  | application function argument => application function argument :: argument.parts

/-- One tree becomes another when parts of some kind are replaced. A part is only reached through nodes that
are not of that kind themselves, so that the parts replaced are the largest ones; those nodes stay. -/
inductive LargestReplaced (chosen : Formula → Prop) (replacement : Formula → Formula → Prop) :
    Formula → Formula → Prop
  | replaced {part other : Formula} (isChosen : chosen part) (put : replacement part other) :
      LargestReplaced chosen replacement part other
  | keptConstant {value : Float} (stays : ¬chosen (constant value)) :
      LargestReplaced chosen replacement (constant value) (constant value)
  | keptReference {name : String} (stays : ¬chosen (reference name)) :
      LargestReplaced chosen replacement (reference name) (reference name)
  | keptOperation {operator : Operator} {left right newLeft newRight : Formula}
      (stays : ¬chosen (.operation operator left right))
      (leftReplaced : LargestReplaced chosen replacement left newLeft)
      (rightReplaced : LargestReplaced chosen replacement right newRight) :
      LargestReplaced chosen replacement (.operation operator left right)
        (.operation operator newLeft newRight)
  | keptApplication {function : NamedFunction} {argument newArgument : Formula}
      (stays : ¬chosen (.application function argument))
      (argumentReplaced : LargestReplaced chosen replacement argument newArgument) :
      LargestReplaced chosen replacement (.application function argument)
        (.application function newArgument)

variable {lookup : Lookup}

theorem not_bound_iff_isOpen (formula : Formula) :
    ¬formula.Bound lookup ↔ formula.isOpen lookup = true := by
  simp [Bound, isOpen]

theorem bound_iff_value (formula : Formula) :
    formula.Bound lookup ↔ ∃ value, formula.eval lookup = .ok value := by
  have outcome := formula.eval_unbound lookup
  cases unbound : lookup.firstUnbound? formula.references with
  | some name =>
      simp only [unbound] at outcome
      have missing : lookup name = none := by simpa using List.find?_some unbound
      have occurs := List.mem_of_find?_eq_some unbound
      simp only [outcome, reduceCtorEq, exists_const, iff_false]
      intro bound
      have present := bound name occurs
      rw [missing] at present
      contradiction
  | none =>
      simp only [unbound] at outcome
      simp only [outcome, iff_true]
      intro name member
      have present := List.find?_eq_none.mp unbound name member
      simpa [Option.isSome_iff_ne_none] using present

theorem eval_fold_self (formula : Formula) : (formula.fold lookup).eval lookup = formula.eval lookup :=
  formula.eval_fold_carried fun _ _ _ answer => answer

theorem settle_of_value (formula : Formula) (value : Float) (evaluated : formula.eval lookup = .ok value) :
    formula.settle lookup = constant value := by
  simp [settle, evaluated]

theorem settle_of_open (formula : Formula) (noValue : ¬∃ value, formula.eval lookup = .ok value) :
    formula.settle lookup = formula := by
  rw [settle]
  split
  · rename_i value evaluated
    exact absurd ⟨value, evaluated⟩ noValue
  · rfl

section Nodes

variable {operator : Operator} {left right : Formula} {function : NamedFunction} {argument : Formula}

theorem eval_operation_folded :
    (operation operator (left.fold lookup) (right.fold lookup)).eval lookup =
      (operation operator left right).eval lookup := by
  simp only [eval, eval_fold_self]

theorem eval_application_folded :
    (application function (argument.fold lookup)).eval lookup =
      (application function argument).eval lookup := by
  simp only [eval, eval_fold_self]

theorem fold_operation (unbound : ¬(operation operator left right).Bound lookup) :
    (operation operator left right).fold lookup =
      operation operator (left.fold lookup) (right.fold lookup) := by
  rw [fold, settle_of_open]
  rwa [eval_operation_folded, ← bound_iff_value]

theorem fold_application (unbound : ¬(application function argument).Bound lookup) :
    (application function argument).fold lookup = application function (argument.fold lookup) := by
  rw [fold, settle_of_open]
  rwa [eval_application_folded, ← bound_iff_value]

end Nodes

theorem fold_of_value (formula : Formula) (value : Float) (evaluated : formula.eval lookup = .ok value) :
    formula.fold lookup = constant value := by
  cases formula with
  | constant bits =>
      simp only [eval, Except.ok.injEq] at evaluated
      rw [fold, evaluated]
  | reference name =>
      cases answer : lookup name with
      | some found =>
          simp only [eval, answer, Except.ok.injEq] at evaluated
          simp [fold, answer, evaluated]
      | none => simp [eval, answer] at evaluated
  | operation operator left right =>
      exact settle_of_value _ value (eval_operation_folded.trans evaluated)
  | application function argument =>
      exact settle_of_value _ value (eval_application_folded.trans evaluated)

theorem fold_eq_constant_iff (formula : Formula) (value : Float) :
    formula.fold lookup = constant value ↔ formula.eval lookup = .ok value := by
  constructor
  · intro folded
    rw [← eval_fold_self, folded]
    rfl
  · exact formula.fold_of_value value

theorem fold_of_bound (formula : Formula) (bound : formula.Bound lookup) :
    formula.IsValueOf lookup (formula.fold lookup) := by
  obtain ⟨value, evaluated⟩ := formula.bound_iff_value.mp bound
  exact ⟨value, evaluated, formula.fold_of_value value evaluated⟩

theorem fold_reference (name : String) (unbound : ¬(reference name).Bound lookup) :
    (reference name).fold lookup = reference name := by
  have missing : lookup name = none := by simpa [Bound, references] using unbound
  simp [fold, missing]

theorem fold_largestReplaced (formula : Formula) :
    LargestReplaced (Bound lookup) (IsValueOf lookup) formula (formula.fold lookup) := by
  induction formula with
  | constant value => exact .replaced (by simp [Bound, references]) ⟨value, rfl, rfl⟩
  | reference name =>
      by_cases bound : (reference name).Bound lookup
      · exact .replaced bound (fold_of_bound _ bound)
      · rw [fold_reference name bound]
        exact .keptReference bound
  | operation operator left right ihLeft ihRight =>
      by_cases bound : (operation operator left right).Bound lookup
      · exact .replaced bound (fold_of_bound _ bound)
      · rw [fold_operation bound]
        exact .keptOperation bound ihLeft ihRight
  | application function argument ih =>
      by_cases bound : (application function argument).Bound lookup
      · exact .replaced bound (fold_of_bound _ bound)
      · rw [fold_application bound]
        exact .keptApplication bound ih

theorem references_of_mem_parts (formula part : Formula) (member : part ∈ formula.parts) :
    part.references ⊆ formula.references := by
  induction formula with
  | constant value =>
      rw [List.mem_singleton.mp member]
      exact List.Subset.refl _
  | reference name =>
      rw [List.mem_singleton.mp member]
      exact List.Subset.refl _
  | operation operator left right ihLeft ihRight =>
      rcases List.mem_cons.mp member with whole | below
      · rw [whole]
        exact List.Subset.refl _
      · intro name inside
        rcases List.mem_append.mp below with isLeft | isRight
        · exact List.mem_append_left _ (ihLeft isLeft inside)
        · exact List.mem_append_right _ (ihRight isRight inside)
  | application function argument ih =>
      rcases List.mem_cons.mp member with whole | below
      · rw [whole]
        exact List.Subset.refl _
      · exact ih below

theorem Bound.references_eq_nil {formula : Formula} (bound : formula.Bound lookup)
    (unbound : ∀ name ∈ formula.references, lookup name = none) : formula.references = [] := by
  rw [List.eq_nil_iff_forall_not_mem]
  intro name member
  have present := bound name member
  rw [unbound name member] at present
  contradiction

section Consequences

variable {formula folded : Formula}
  (replaced : LargestReplaced (Bound lookup) (IsValueOf lookup) formula folded)

include replaced

theorem fold_eq_of_replaced : formula.fold lookup = folded := by
  induction replaced with
  | replaced bound put =>
      obtain ⟨value, evaluated, rfl⟩ := put
      exact fold_of_value _ value evaluated
  | keptConstant stays => rfl
  | keptReference stays => exact fold_reference _ stays
  | keptOperation stays _ _ ihLeft ihRight => rw [fold_operation stays, ihLeft, ihRight]
  | keptApplication stays _ ih => rw [fold_application stays, ih]

theorem references_of_replaced :
    folded.references = formula.references.filter fun name => (lookup name).isNone := by
  induction replaced with
  | replaced bound put =>
      obtain ⟨value, _, rfl⟩ := put
      symm
      rw [references, List.filter_eq_nil_iff]
      intro name member
      simpa [Option.isSome_iff_ne_none] using bound name member
  | keptConstant stays => rfl
  | keptReference stays =>
      have missing := (not_bound_iff_isOpen _).mp stays
      simp only [isOpen, references, List.any_cons, List.any_nil, Bool.or_false] at missing
      simp [references, missing]
  | keptOperation stays _ _ ihLeft ihRight =>
      rw [references, references, List.filter_append, ihLeft, ihRight]
  | keptApplication stays _ ih => exact ih

theorem operationCount_of_replaced :
    folded.operationCount =
      formula.parts.countP fun part => part.isCompound && part.isOpen lookup := by
  induction replaced with
  | @replaced part other bound put =>
      obtain ⟨value, _, rfl⟩ := put
      symm
      rw [operationCount, List.countP_eq_zero]
      intro inner member
      have closed : inner.isOpen lookup = false := by
        rw [← Bool.not_eq_true, ← not_bound_iff_isOpen, not_not]
        exact fun name inside => bound name (references_of_mem_parts part inner member inside)
      simp [closed]
  | keptConstant stays => rfl
  | keptReference stays => rfl
  | keptOperation stays _ _ ihLeft ihRight =>
      rw [parts, List.countP_cons_of_pos, List.countP_append, ← ihLeft, ← ihRight,
        operationCount]
      simpa [isCompound] using (not_bound_iff_isOpen _).mp stays
  | keptApplication stays _ ih =>
      rw [parts, List.countP_cons_of_pos, ← ih, operationCount]
      simpa [isCompound] using (not_bound_iff_isOpen _).mp stays

theorem same_of_replaced_iff :
    folded.same formula = true ↔
      (∀ name ∈ formula.references, lookup name = none) ∧
        ∀ part ∈ formula.parts, part.isCompound = true → part.references ≠ [] := by
  induction replaced with
  | @replaced part other bound put =>
      obtain ⟨value, evaluated, rfl⟩ := put
      have compound (isCompound : part.isCompound = true) (whole : part ∈ part.parts) :
          ¬((∀ name ∈ part.references, lookup name = none) ∧
            ∀ inner ∈ part.parts, inner.isCompound = true → inner.references ≠ []) := by
        rintro ⟨unbound, named⟩
        exact named part whole isCompound (bound.references_eq_nil unbound)
      cases part with
      | constant bits =>
          simp only [eval, Except.ok.injEq] at evaluated
          simp [same, evaluated, references, parts, isCompound]
      | reference name =>
          have present := bound name (by simp [references])
          simp only [same, Bool.false_eq_true, false_iff]
          rintro ⟨unbound, _⟩
          rw [unbound name (by simp [references])] at present
          contradiction
      | operation operator left right =>
          simpa only [same, Bool.false_eq_true, false_iff] using compound rfl (by simp [parts])
      | application function argument =>
          simpa only [same, Bool.false_eq_true, false_iff] using compound rfl (by simp [parts])
  | keptConstant stays => simp [same, references, parts, isCompound]
  | @keptReference name stays =>
      have missing : lookup name = none := by simpa [Bound, references] using stays
      simp [same, references, parts, isCompound, missing]
  | @keptOperation operator left right _ _ stays _ _ ihLeft ihRight =>
      have named : (operation operator left right).references ≠ [] := by
        intro empty
        exact stays (by simp [Bound, empty])
      simp only [same, beq_self_eq_true, Bool.true_and, Bool.and_eq_true, ihLeft, ihRight, parts,
        List.forall_mem_cons, List.forall_mem_append]
      rw [references, List.forall_mem_append]
      constructor
      · rintro ⟨⟨leftUnbound, leftNamed⟩, rightUnbound, rightNamed⟩
        exact ⟨⟨leftUnbound, rightUnbound⟩, fun _ => named, leftNamed, rightNamed⟩
      · rintro ⟨⟨leftUnbound, rightUnbound⟩, _, leftNamed, rightNamed⟩
        exact ⟨⟨leftUnbound, leftNamed⟩, rightUnbound, rightNamed⟩
  | @keptApplication function argument _ stays _ ih =>
      have named : (application function argument).references ≠ [] := by
        intro empty
        exact stays (by simp [Bound, empty])
      simp only [same, NamedFunction.sameName, beq_self_eq_true, Bool.true_and, ih, parts,
        List.forall_mem_cons]
      constructor
      · rintro ⟨unbound, inside⟩
        exact ⟨unbound, fun _ => named, inside⟩
      · rintro ⟨unbound, _, inside⟩
        exact ⟨unbound, inside⟩

end Consequences

theorem references_fold_eq (formula : Formula) :
    (formula.fold lookup).references = formula.references.filter fun name => (lookup name).isNone :=
  references_of_replaced formula.fold_largestReplaced

section Stages

variable {first second : Lookup} (formula : Formula)

theorem Bound.orElse {formula : Formula} (bound : formula.Bound first) :
    formula.Bound (first.orElse second) := by
  intro name member
  simp [Lookup.orElse, bound name member]

theorem eval_fold_orElse :
    (formula.fold first).eval second = formula.eval (first.orElse second) := by
  have kept : formula.Carries first (first.orElse second) := by
    intro name _ value answer
    simp [Lookup.orElse, answer]
  rw [← formula.eval_fold_carried kept]
  apply eval_congr
  intro name member
  rw [references_fold_eq, List.mem_filter, Option.isNone_iff_eq_none] at member
  simp [Lookup.orElse, member.2]

theorem bound_fold_iff :
    (formula.fold first).Bound second ↔ formula.Bound (first.orElse second) := by
  rw [bound_iff_value, bound_iff_value, eval_fold_orElse]

theorem fold_fold_eq : (formula.fold first).fold second = formula.fold (first.orElse second) := by
  induction formula with
  | constant value => rfl
  | reference name =>
      cases answer : first name <;> simp [fold, Lookup.orElse, answer]
  | operation operator left right ihLeft ihRight =>
      by_cases bound : (operation operator left right).Bound (first.orElse second)
      · obtain ⟨value, evaluated, folded⟩ := fold_of_bound _ bound
        rw [folded, fold_of_value _ value]
        rwa [eval_fold_orElse]
      · have firstUnbound := mt Bound.orElse bound
        have secondUnbound := mt (bound_fold_iff _).mp bound
        rw [fold_operation firstUnbound] at secondUnbound ⊢
        rw [fold_operation secondUnbound, fold_operation bound, ihLeft, ihRight]
  | application function argument ih =>
      by_cases bound : (application function argument).Bound (first.orElse second)
      · obtain ⟨value, evaluated, folded⟩ := fold_of_bound _ bound
        rw [folded, fold_of_value _ value]
        rwa [eval_fold_orElse]
      · have firstUnbound := mt Bound.orElse bound
        have secondUnbound := mt (bound_fold_iff _).mp bound
        rw [fold_application firstUnbound] at secondUnbound ⊢
        rw [fold_application secondUnbound, fold_application bound, ih]

end Stages

end Formula

/-- Folding replaces the largest parts whose names are all bound by their values and keeps every other node. A
tree becomes a constant exactly when it has that value; the names that stay are the unbound ones, the nodes
that stay those above one of them; and nothing changes exactly when no name is bound and no node is free of
names. -/
theorem fold_maximal (formula : Formula) (lookup : Lookup) :
    (∀ folded, formula.fold lookup = folded ↔
      Formula.LargestReplaced (Formula.Bound lookup) (Formula.IsValueOf lookup) formula folded) ∧
    (∀ value, formula.fold lookup = .constant value ↔ formula.eval lookup = .ok value) ∧
    (formula.fold lookup).dependencies =
      formula.dependencies.filter (fun name => (lookup name).isNone) ∧
    (formula.fold lookup).operationCount =
      formula.parts.countP (fun part => part.isCompound && part.isOpen lookup) ∧
    ((formula.fold lookup).same formula = true ↔
      (∀ name ∈ formula.dependencies, lookup name = none) ∧
        ∀ part ∈ formula.parts, part.isCompound = true → part.references ≠ []) := by
  have replaced : Formula.LargestReplaced (Formula.Bound lookup) (Formula.IsValueOf lookup) formula
      (formula.fold lookup) := formula.fold_largestReplaced
  refine ⟨fun folded => ⟨?_, Formula.fold_eq_of_replaced⟩, formula.fold_eq_constant_iff, ?_,
    Formula.operationCount_of_replaced replaced, ?_⟩
  · rintro rfl
    exact replaced
  · apply Std.ExtTreeSet.ext_mem
    intro name
    simp [Formula.mem_dependencies, Formula.references_fold_eq]
  · simp only [Formula.mem_dependencies]
    exact Formula.same_of_replaced_iff replaced

/-- Folding with one lookup and then with another is folding with both at once, the first one before the second,
bit by bit. Folding with the same lookup again changes nothing. -/
theorem fold_stages (formula : Formula) (first second : Lookup) :
    ((formula.fold first).fold second).same (formula.fold (first.orElse second)) = true ∧
      ((formula.fold first).fold first).same (formula.fold first) = true := by
  have alone : first.orElse first = first := by
    funext name
    simp [Lookup.orElse]
  have again : (formula.fold first).fold first = formula.fold (first.orElse first) :=
    formula.fold_fold_eq
  rw [alone] at again
  constructor
  · rw [Formula.fold_fold_eq]
    exact Formula.same_refl _
  · rw [again]
    exact Formula.same_refl _

end PostfixSheet
