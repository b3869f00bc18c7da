import PostfixSheet.Formula.Evaluation
import PostfixSheet.Proofs.Formula.Respelling

/-! Trees that count as equal. They are built alike from the same numbers and names, and may only differ in what
their functions compute; so they have the same texts, and where functions of the same name compute the same they
have the same values. -/

namespace PostfixSheet

namespace Formula

inductive BuiltAlike : Formula → Formula → Prop
  | constant (value : Float) : BuiltAlike (constant value) (constant value)
  | reference (name : String) : BuiltAlike (reference name) (reference name)
  | operation (operator : Operator) {left₁ left₂ right₁ right₂ : Formula}
      (left : BuiltAlike left₁ left₂) (right : BuiltAlike right₁ right₂) :
      BuiltAlike (operation operator left₁ right₁) (operation operator left₂ right₂)
  | application {function other : NamedFunction} {argument₁ argument₂ : Formula}
      (named : function.name = other.name) (argument : BuiltAlike argument₁ argument₂) :
      BuiltAlike (application function argument₁) (application other argument₂)

theorem builtAlike_of_same (left right : Formula) (same : left.same right = true) :
    left.BuiltAlike right := by
  induction left generalizing right with
  | constant value =>
      cases right <;> simp only [Formula.same, Bool.false_eq_true, beq_iff_eq] at same
      case constant other =>
        rw [eq_of_toBits_eq value other same]
        exact .constant other
  | reference name =>
      cases right <;> simp only [Formula.same, Bool.false_eq_true, beq_iff_eq] at same
      case reference other =>
        rw [same]
        exact .reference other
  | operation operator first second ihFirst ihSecond =>
      cases right <;> simp only [Formula.same, Bool.false_eq_true, Bool.and_eq_true, beq_iff_eq] at same
      case operation other third fourth =>
        obtain ⟨⟨rfl, firstSame⟩, secondSame⟩ := same
        exact .operation operator (ihFirst third firstSame) (ihSecond fourth secondSame)
  | application function argument ih =>
      cases right <;> simp only [Formula.same, NamedFunction.sameName, Bool.false_eq_true,
        Bool.and_eq_true, beq_iff_eq] at same
      case application other inner => exact .application same.1 (ih inner same.2)

theorem same_iff (left right : Formula) : left.same right = true ↔ left.BuiltAlike right := by
  refine ⟨builtAlike_of_same left right, fun alike => ?_⟩
  induction alike with
  | constant value => simp [same]
  | reference name => simp [same]
  | operation operator _ _ ihLeft ihRight => simp [same, ihLeft, ihRight]
  | application named _ ih => simp [same, NamedFunction.sameName, named, ih]

theorem BuiltAlike.refl (formula : Formula) : formula.BuiltAlike formula := by
  induction formula with
  | constant value => exact .constant value
  | reference name => exact .reference name
  | operation operator left right ihLeft ihRight => exact .operation operator ihLeft ihRight
  | application function argument ih => exact .application rfl ih

theorem same_refl (formula : Formula) : formula.same formula = true :=
  (same_iff formula formula).mpr (.refl formula)

namespace BuiltAlike

variable {left right : Formula}

theorem symm (alike : left.BuiltAlike right) : right.BuiltAlike left := by
  induction alike with
  | constant value => exact .constant value
  | reference name => exact .reference name
  | operation operator _ _ ihLeft ihRight => exact .operation operator ihLeft ihRight
  | application named _ ih => exact .application named.symm ih

theorem trans {other : Formula} (alike : left.BuiltAlike right) (further : right.BuiltAlike other) :
    left.BuiltAlike other := by
  induction alike generalizing other with
  | constant value => exact further
  | reference name => exact further
  | operation operator _ _ ihLeft ihRight =>
      cases further with
      | operation _ left right => exact .operation operator (ihLeft left) (ihRight right)
  | application named _ ih =>
      cases further with
      | application otherNamed argument => exact .application (named.trans otherNamed) (ih argument)

theorem infixText_eq (alike : left.BuiltAlike right) : left.infixText = right.infixText := by
  induction alike with
  | constant value => rfl
  | reference name => rfl
  | operation operator _ _ ihLeft ihRight => rw [infixText, infixText, ihLeft, ihRight]
  | application named _ ih => rw [infixText, infixText, named, ih]

theorem tokens_eq (alike : left.BuiltAlike right) : left.tokens = right.tokens := by
  induction alike with
  | constant value => rfl
  | reference name => rfl
  | operation operator _ _ ihLeft ihRight => rw [tokens, tokens, ihLeft, ihRight]
  | application named _ ih => rw [tokens, tokens, named, ih]

theorem dependencies_eq (alike : left.BuiltAlike right) : left.dependencies = right.dependencies := by
  rw [dependencies, dependencies, ← left.references_tokens, alike.tokens_eq, right.references_tokens]

end BuiltAlike

def functions : Formula → List NamedFunction
  | constant _ => []
  | reference _ => []
  | operation _ left right => left.functions ++ right.functions
  | application function argument => argument.functions ++ [function]

/-- Functions of the same name in two trees compute the same, bit by bit. -/
def FunctionsAgree (left right : Formula) : Prop :=
  ∀ function ∈ left.functions, ∀ other ∈ right.functions, function.name = other.name →
    ∀ value, (function.apply value).toBits = (other.apply value).toBits

theorem eq_of_builtAlike {left right : Formula} (alike : left.BuiltAlike right)
    (agree : left.FunctionsAgree right) : left = right := by
  induction alike with
  | constant value => rfl
  | reference name => rfl
  | operation operator _ _ ihLeft ihRight =>
      have leftEqual := ihLeft fun function member other belongs =>
        agree function (by simp [functions, member]) other (by simp [functions, belongs])
      have rightEqual := ihRight fun function member other belongs =>
        agree function (by simp [functions, member]) other (by simp [functions, belongs])
      rw [leftEqual, rightEqual]
  | @application function other _ _ named _ ih =>
      have argumentEqual := ih fun inner member twin belongs =>
        agree inner (by simp [functions, member]) twin (by simp [functions, belongs])
      have computed : function.apply = other.apply := by
        funext value
        exact eq_of_toBits_eq _ _
          (agree function (by simp [functions]) other (by simp [functions]) named value)
      have functionEqual : function = other := by
        cases function
        cases other
        rw [NamedFunction.mk.injEq]
        exact ⟨named, computed⟩
      rw [argumentEqual, functionEqual]

theorem get?_of_mem_functions (registry : Registry) (formula : Formula)
    (resolved : formula.ResolvedBy registry) :
    ∀ function ∈ formula.functions, registry.get? function.name = some function := by
  induction formula with
  | constant value => simp [functions]
  | reference name => simp [functions]
  | operation operator left right ihLeft ihRight =>
      intro function member
      rcases List.mem_append.mp member with earlier | later
      · exact ihLeft resolved.1 function earlier
      · exact ihRight resolved.2 function later
  | application applied argument ih =>
      intro function member
      rcases List.mem_append.mp member with earlier | last
      · exact ih resolved.2 function earlier
      · rw [List.mem_singleton.mp last]
        exact resolved.1

theorem functionsAgree_of_resolved (registry : Registry) (left right : Formula)
    (resolved : left.ResolvedBy registry) (otherResolved : right.ResolvedBy registry) :
    left.FunctionsAgree right := by
  intro function member other belongs named value
  have found := get?_of_mem_functions registry left resolved function member
  have otherFound := get?_of_mem_functions registry right otherResolved other belongs
  rw [named, otherFound, Option.some.injEq] at found
  rw [found]

end Formula

/-- Equality of trees is an equivalence, with what is no number equal to itself. Equal trees have the same texts,
names and number of operations. Where functions of the same name compute the same, as they do in formulas read with
one registry, equal trees also have the same value or stop at the same name, and are folded to equal trees. -/
theorem same_respected :
    Equivalence (fun left right : Formula => left.same right = true) ∧
    ∀ left right : Formula, left.same right = true →
      left.infixText = right.infixText ∧ left.postfixText = right.postfixText ∧
      left.dependencies = right.dependencies ∧ left.operationCount = right.operationCount ∧
      (left.FunctionsAgree right → ∀ lookup, left.eval lookup = right.eval lookup ∧
        (left.fold lookup).same (right.fold lookup) = true) ∧
      ∀ functions text otherText, parseFormula functions text = .ok left →
        parseFormula functions otherText = .ok right → left.FunctionsAgree right := by
  constructor
  · simp only [Formula.same_iff]
    exact ⟨.refl, .symm, .trans⟩
  · intro left right same
    have alike := (Formula.same_iff left right).mp same
    refine ⟨alike.infixText_eq, ?_, alike.dependencies_eq, ?_, ?_, ?_⟩
    · rw [left.postfixText_tokens, alike.tokens_eq, ← right.postfixText_tokens]
    · rw [← left.operationCount_tokens, alike.tokens_eq, right.operationCount_tokens]
    · intro agree lookup
      obtain rfl := Formula.eq_of_builtAlike alike agree
      exact ⟨rfl, Formula.same_refl _⟩
    · intro functions text otherText parsed otherParsed
      have resolved := ((parseTokens_eq_ok functions _ left).mp parsed).2
      have otherResolved := ((parseTokens_eq_ok functions _ right).mp otherParsed).2
      exact Formula.functionsAgree_of_resolved functions left right resolved otherResolved

def overHalf (half : Float → Float) : Formula :=
  .operation .divide (.constant 1) (.application ⟨"half", half⟩ (.reference "x"))

theorem same_respected_overHalf :
    let left := overHalf fun value => value / 2
    let right := overHalf fun value => id value / 2
    let lookup : Lookup := fun _ => some (-0.0)
    left.same right = true ∧ left.eval lookup = right.eval lookup ∧
      right.eval lookup = .ok (-1.0 / 0.0) ∧ left.infixText = right.infixText ∧
      right.infixText = "(1.0 / half(x))" := by
  intro left right lookup
  have same : left.same right = true := rfl
  have agree : left.FunctionsAgree right := by
    intro function member other belongs named value
    rw [List.mem_singleton.mp member, List.mem_singleton.mp belongs]
    rfl
  obtain ⟨infixText, _, _, _, respected, _⟩ := same_respected.2 left right same
  refine ⟨same, (respected agree lookup).1, ?_, infixText, by decide +kernel⟩
  exact congrArg Except.ok (eq_of_toBits_eq _ _ (by decide +kernel))

end PostfixSheet
