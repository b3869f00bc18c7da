import PostfixSheet.Formula.Evaluation
import PostfixSheet.Proofs.Formula.PostfixOrder

/-! Evaluating postfix text on a stack of numbers. The machine goes through the tokens once and builds no
tree; where the text parses and all its names are bound, it leaves the value of the tree. -/

namespace PostfixSheet

def Lookup.firstUnbound? (lookup : Lookup) (names : List String) : Option String :=
  names.find? fun name => (lookup name).isNone

/-- One token on a stack of numbers, the last one first. The machine stops where an operand, a value or a
function is missing. -/
def runToken (functions : Registry) (lookup : Lookup) : List Float → Token → Option (List Float)
  | stack, .number value => some (value :: stack)
  | stack, .name name => (lookup name).map fun value => value :: stack
  | right :: left :: stack, .operator operator => some (operator.apply left right :: stack)
  | argument :: stack, .call name =>
      (functions.get? name).map fun function => function.apply argument :: stack
  | _, _ => none

def runTokens (functions : Registry) (lookup : Lookup) : List Float → List Token → Option (List Float)
  | stack, [] => some stack
  | stack, token :: rest =>
      match runToken functions lookup stack token with
      | some next => runTokens functions lookup next rest
      | none => none

theorem firstUnbound?_append (lookup : Lookup) (left right : List String) :
    lookup.firstUnbound? (left ++ right) =
      (lookup.firstUnbound? left).or (lookup.firstUnbound? right) :=
  List.find?_append

namespace Formula

theorem eval_unbound (lookup : Lookup) (formula : Formula) :
    match lookup.firstUnbound? formula.references with
    | some name => formula.eval lookup = .error (.unbound name)
    | none => ∃ value, formula.eval lookup = .ok value := by
  induction formula with
  | constant value => exact ⟨value, rfl⟩
  | reference name =>
      cases answer : lookup name with
      | none => simp [references, Lookup.firstUnbound?, eval, answer]
      | some value => simp [references, Lookup.firstUnbound?, eval, answer]
  | operation operator left right ihLeft ihRight =>
      rw [references, firstUnbound?_append]
      cases leftUnbound : lookup.firstUnbound? left.references with
      | some name =>
          simp only [leftUnbound] at ihLeft
          simp [eval, ihLeft]
      | none =>
          simp only [leftUnbound] at ihLeft
          obtain ⟨leftValue, leftEvaluated⟩ := ihLeft
          cases rightUnbound : lookup.firstUnbound? right.references with
          | some name =>
              simp only [rightUnbound] at ihRight
              simp [eval, leftEvaluated, ihRight]
          | none =>
              simp only [rightUnbound] at ihRight
              obtain ⟨rightValue, rightEvaluated⟩ := ihRight
              exact ⟨operator.apply leftValue rightValue, by simp [eval, leftEvaluated, rightEvaluated]⟩
  | application function argument ih =>
      rw [references]
      cases unbound : lookup.firstUnbound? argument.references with
      | some name =>
          simp only [unbound] at ih
          simp [eval, ih]
      | none =>
          simp only [unbound] at ih
          obtain ⟨value, evaluated⟩ := ih
          exact ⟨function.apply value, by simp [eval, evaluated]⟩

end Formula

theorem runTokens_tokens (functions : Registry) (lookup : Lookup) (formula : Formula)
    (resolved : formula.ResolvedBy functions) (value : Float)
    (evaluated : formula.eval lookup = .ok value) (stack : List Float) (rest : List Token) :
    runTokens functions lookup stack (formula.tokens ++ rest) =
      runTokens functions lookup (value :: stack) rest := by
  induction formula generalizing value stack rest with
  | constant bits =>
      simp only [Formula.eval, Except.ok.injEq] at evaluated
      subst value
      rfl
  | reference name =>
      simp only [Formula.eval] at evaluated
      split at evaluated
      · rename_i found answer
        simp only [Except.ok.injEq] at evaluated
        subst value
        simp [Formula.tokens, runTokens, runToken, answer]
      · simp at evaluated
  | operation operator left right ihLeft ihRight =>
      simp only [Formula.eval] at evaluated
      split at evaluated
      · simp at evaluated
      · rename_i leftValue leftEvaluated
        split at evaluated
        · simp at evaluated
        · rename_i rightValue rightEvaluated
          simp only [Except.ok.injEq] at evaluated
          subst value
          simp only [Formula.tokens, List.append_assoc]
          rw [ihLeft resolved.1 leftValue leftEvaluated, ihRight resolved.2 rightValue rightEvaluated]
          rfl
  | application function argument ih =>
      simp only [Formula.eval] at evaluated
      split at evaluated
      · simp at evaluated
      · rename_i argumentValue argumentEvaluated
        simp only [Except.ok.injEq] at evaluated
        subst value
        simp only [Formula.tokens, List.append_assoc]
        rw [ih resolved.2 argumentValue argumentEvaluated]
        simp [runTokens, runToken, resolved.1]

/-- A text that does not parse has that error whatever is bound. A text that does has the value that the
machine leaves alone on its stack, unless a name in it is unbound; then the first such name from the left is
the error. -/
theorem formulaValue_stackMachine (functions : Registry) (text : String) :
    match parseFormula functions text with
    | .error error => ∀ lookup, formulaValue functions lookup text = .error error
    | .ok _ => ∀ lookup : Lookup,
        match lookup.firstUnbound? ((formulaTokens text).filterMap Token.name?) with
        | some name => formulaValue functions lookup text = .error (.unbound name)
        | none => ∃ value, runTokens functions lookup [] (formulaTokens text) = some [value] ∧
            formulaValue functions lookup text = .ok value := by
  cases parsed : parseFormula functions text with
  | error error =>
      intro lookup
      simp [formulaValue, parsed]
  | ok formula =>
      intro lookup
      obtain ⟨tokens, resolved⟩ := (parseTokens_eq_ok functions _ formula).mp parsed
      have outcome := formula.eval_unbound lookup
      have same : formulaValue functions lookup text = formula.eval lookup := by
        simp [formulaValue, parsed]
      rw [tokens, formula.references_tokens, same]
      cases unbound : lookup.firstUnbound? formula.references with
      | some name => simpa only [unbound] using outcome
      | none =>
          simp only [unbound] at outcome
          obtain ⟨value, evaluated⟩ := outcome
          have run := runTokens_tokens functions lookup formula resolved value evaluated [] []
          rw [List.append_nil] at run
          exact ⟨value, run, evaluated⟩

end PostfixSheet
