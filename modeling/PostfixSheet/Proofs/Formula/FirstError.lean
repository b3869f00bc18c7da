import Mathlib
import PostfixSheet.Formula.Parsing

/-! The first error of a formula. Counting numbers, names and operators tells how many operands lie on the
stack behind any part of a formula, and so which token stops the reading and what is reported. -/

namespace PostfixSheet

def Token.isOperand : Token → Bool
  | .number _ => true
  | .name _ => true
  | .operator _ => false
  | .call _ => false

def Token.isOperator : Token → Bool
  | .operator _ => true
  | _ => false

/-- How many more numbers and names than operators there are. -/
def depth (read : List Token) : Int :=
  read.countP Token.isOperand - read.countP Token.isOperator

/-- A token offends behind others when they leave it too few operands, and also when it calls a function that
is not registered. -/
def Token.offends (functions : Registry) (read : List Token) : Token → Bool
  | .number _ => false
  | .name _ => false
  | .operator _ => decide (depth read < 2)
  | .call called => decide (depth read < 1) || (functions.get? called).isNone

def firstOffence? (functions : Registry) (tokens : List Token) : Option (List Token × Token) :=
  (tokens.inits.zip tokens).find? fun place => place.2.offends functions place.1

/-- The error of a token that offends, and its message. An operator is reported with the number of operands in
front of it, and a call without an argument whether its function is registered or not. -/
def Token.ReportedAs (read : List Token) (error : FormulaError) : Token → Prop
  | .operator _ => ∃ held : Nat, (held : Int) = depth read ∧ error = .tooFewOperands held ∧
      error.message = incompleteMessage "too few operands for operator" held
  | .call called =>
      if depth read = 0 then
        error = .missingArgument ∧
          error.message = incompleteMessage "missing argument for function" 0
      else error = .undefinedFunction called ∧ error.message = "Undefined function: " ++ called
  | .number _ => False
  | .name _ => False

def placesBehind (read rest : List Token) : List (List Token × Token) :=
  (rest.inits.map (read ++ ·)).zip rest

theorem placesBehind_cons (read rest : List Token) (token : Token) :
    placesBehind read (token :: rest) = (read, token) :: placesBehind (read ++ [token]) rest := by
  simp [placesBehind, Function.comp_def]

theorem depth_concat (read : List Token) (token : Token) :
    depth (read ++ [token]) = depth read + depth [token] := by
  simp only [depth, List.countP_append]
  omega

section Run

variable {functions : Registry} {stack : List Formula} {read : List Token}
  (counted : (stack.length : Int) = depth read)

include counted

theorem pushToken_counted (token : Token) (fine : token.offends functions read = false) :
    ∃ top below, pushToken functions stack token = .ok (top :: below) ∧
      ((top :: below).length : Int) = depth (read ++ [token]) := by
  rw [depth_concat, ← counted]
  cases token with
  | number value => exact ⟨_, _, rfl, by simp [depth, Token.isOperand, Token.isOperator]⟩
  | name name => exact ⟨_, _, rfl, by simp [depth, Token.isOperand, Token.isOperator]⟩
  | operator operator =>
      simp only [Token.offends, ← counted, decide_eq_false_iff_not] at fine
      match stack with
      | [] => simp at fine
      | [only] => simp at fine
      | right :: left :: below =>
          exact ⟨_, below, rfl, by simp [depth, Token.isOperand, Token.isOperator]⟩
  | call called =>
      simp only [Token.offends, ← counted, Bool.or_eq_false_iff, decide_eq_false_iff_not,
        Option.isNone_eq_false_iff, Option.isSome_iff_exists] at fine
      obtain ⟨deep, function, found⟩ := fine
      match stack with
      | [] => simp at deep
      | argument :: below =>
          refine ⟨.application function argument, below, by simp [pushToken, found], ?_⟩
          simp [depth, Token.isOperand, Token.isOperator]

theorem pushToken_reported (token : Token) (offends : token.offends functions read = true) :
    ∃ error, pushToken functions stack token = .error error ∧ token.ReportedAs read error := by
  cases token with
  | number value => simp [Token.offends] at offends
  | name name => simp [Token.offends] at offends
  | operator operator =>
      simp only [Token.offends, ← counted, decide_eq_true_eq] at offends
      refine ⟨.tooFewOperands stack.length, ?_, stack.length, counted, rfl, rfl⟩
      match stack with
      | [] => rfl
      | [only] => rfl
      | right :: left :: below =>
          simp only [List.length_cons] at offends
          omega
  | call called =>
      simp only [Token.offends, ← counted, Bool.or_eq_true, decide_eq_true_eq,
        Option.isNone_iff_eq_none] at offends
      simp only [Token.ReportedAs, ← counted]
      match stack with
      | [] => exact ⟨.missingArgument, rfl, rfl, rfl⟩
      | argument :: below =>
          have deep : ((argument :: below).length : Int) ≠ 0 := by
            simp only [List.length_cons]
            omega
          have unknown := offends.resolve_left (by simp)
          refine ⟨.undefinedFunction called, by simp [pushToken, unknown], ?_⟩
          rw [if_neg deep]
          exact ⟨rfl, rfl⟩

theorem pushTokens_firstOffence (rest : List Token) :
    match (placesBehind read rest).find? (fun place => place.2.offends functions place.1) with
    | some (front, token) =>
        ∃ error, pushTokens functions stack rest = .error error ∧ token.ReportedAs front error
    | none => ∃ final, pushTokens functions stack rest = .ok final ∧
        (final.length : Int) = depth (read ++ rest) ∧ (final = [] → stack = [] ∧ rest = []) := by
  induction rest generalizing stack read with
  | nil => simpa [pushTokens, placesBehind] using counted
  | cons token rest ih =>
      rw [placesBehind_cons, List.find?_cons]
      cases offends : token.offends functions read with
      | true =>
          obtain ⟨error, stopped, reported⟩ := pushToken_reported counted token offends
          exact ⟨error, by simp only [pushTokens, stopped], reported⟩
      | false =>
          obtain ⟨top, below, pushed, next⟩ := pushToken_counted counted token offends
          have later := ih next
          simp only [pushTokens, pushed, List.append_assoc, List.singleton_append] at later ⊢
          split at later
          · exact later
          · obtain ⟨final, finished, left, nothing⟩ := later
            have kept : final ≠ [] := by
              intro empty
              simpa using (nothing empty).1
            exact ⟨final, finished, left, fun empty => absurd empty kept⟩

end Run

/-- A formula is refused for the first token that offends. If none does, it parses when one operand is left, and
is refused when there was nothing to read or several operands are left. -/
theorem parseFormula_firstError (functions : Registry) (text : String) :
    match firstOffence? functions (formulaTokens text) with
    | some (read, token) =>
        ∃ error, parseFormula functions text = .error error ∧ token.ReportedAs read error
    | none =>
        (depth (formulaTokens text) = 1 ∧ ∃ formula, parseFormula functions text = .ok formula) ∨
        (formulaTokens text = [] ∧ parseFormula functions text = .error .noExpression ∧
          FormulaError.noExpression.message = incompleteMessage "no expression" 0) ∨
        ∃ held : Nat, 2 ≤ held ∧ (held : Int) = depth (formulaTokens text) ∧
          parseFormula functions text = .error (.operandsLeft held) ∧
          (FormulaError.operandsLeft held).message =
            incompleteMessage "too many operands left on the stack" held := by
  have run := @pushTokens_firstOffence functions [] [] rfl (formulaTokens text)
  have places : placesBehind [] (formulaTokens text) =
      (formulaTokens text).inits.zip (formulaTokens text) := by simp [placesBehind]
  rw [places] at run
  rw [firstOffence?]
  split
  · rename_i read token found
    simp only [found] at run
    obtain ⟨error, stopped, reported⟩ := run
    exact ⟨error, by simp only [parseFormula, parseTokens, stopped], reported⟩
  · rename_i noOffence
    simp only [noOffence] at run
    obtain ⟨final, finished, counted, nothing⟩ := run
    rw [parseFormula, parseTokens, finished]
    match final with
    | [] => exact Or.inr (Or.inl ⟨(nothing rfl).2, rfl, rfl⟩)
    | [formula] => exact Or.inl ⟨by simpa using counted.symm, formula, rfl⟩
    | first :: second :: below =>
        exact Or.inr (Or.inr ⟨(first :: second :: below).length, by simp, by simpa using counted, rfl, rfl⟩)

end PostfixSheet
