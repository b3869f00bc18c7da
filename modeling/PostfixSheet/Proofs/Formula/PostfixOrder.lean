import Mathlib
import PostfixSheet.Formula.Parsing
import PostfixSheet.Proofs.Number.Bits

/-! Postfix order. Every tree has one list of tokens, parsing accepts exactly the lists of trees whose
functions are known, and no list belongs to two such trees. -/

namespace PostfixSheet

def Token.agrees : Token → Token → Prop
  | .number left, .number right => left.toBits = right.toBits
  | left, right => left = right

theorem Token.agrees_iff (left right : Token) : left.agrees right ↔ left = right := by
  constructor
  · intro same
    cases left <;> cases right
    case number.number left right =>
      rw [eq_of_toBits_eq left right same]
    all_goals exact same
  · intro same
    subst right
    cases left <;> rfl

theorem forall₂_agrees_iff (left right : List Token) :
    List.Forall₂ Token.agrees left right ↔ left = right := by
  have agreement : Token.agrees = Eq := by
    funext left right
    exact propext (Token.agrees_iff left right)
  rw [agreement, List.forall₂_eq_eq_eq]

def Token.name? : Token → Option String
  | .name text => some text
  | _ => none

theorem Token.mem_names_iff (tokens : List Token) (text : String) :
    text ∈ tokens.filterMap Token.name? ↔ Token.name text ∈ tokens := by
  rw [List.mem_filterMap]
  constructor
  · rintro ⟨token, member, named⟩
    cases token <;> simp [Token.name?] at named
    rw [← named]
    exact member
  · intro member
    exact ⟨.name text, member, rfl⟩

def Token.call? : Token → Option String
  | .call text => some text
  | _ => none

namespace Formula

/-- The tokens of a tree: the operands from left to right, then what is applied to them. -/
def tokens : Formula → List Token
  | constant value => [.number value]
  | reference name => [.name name]
  | operation operator left right => left.tokens ++ right.tokens ++ [.operator operator]
  | application function argument => argument.tokens ++ [.call function.name]

def functionNames : Formula → List String
  | constant _ => []
  | reference _ => []
  | operation _ left right => left.functionNames ++ right.functionNames
  | application function argument => argument.functionNames ++ [function.name]

/-- A registry resolves a tree when it gives each of its functions for the name of that function. -/
def ResolvedBy (functions : Registry) : Formula → Prop
  | constant _ => True
  | reference _ => True
  | operation _ left right => left.ResolvedBy functions ∧ right.ResolvedBy functions
  | application function argument =>
      functions.get? function.name = some function ∧ argument.ResolvedBy functions

theorem references_tokens (formula : Formula) :
    formula.tokens.filterMap Token.name? = formula.references := by
  induction formula with
  | constant value => rfl
  | reference name => rfl
  | operation operator left right ihLeft ihRight =>
      simp [tokens, references, ihLeft, ihRight, Token.name?]
  | application function argument ih => simp [tokens, references, ih, Token.name?]

theorem functionNames_tokens (formula : Formula) :
    formula.tokens.filterMap Token.call? = formula.functionNames := by
  induction formula with
  | constant value => rfl
  | reference name => rfl
  | operation operator left right ihLeft ihRight =>
      simp [tokens, functionNames, ihLeft, ihRight, Token.call?]
  | application function argument ih => simp [tokens, functionNames, ih, Token.call?]

end Formula

structure Spells (functions : Registry) (stack : List Formula) (read : List Token) : Prop where
  tokens : stack.reverse.flatMap Formula.tokens = read
  resolved : ∀ formula ∈ stack, formula.ResolvedBy functions

section Soundness

variable {functions : Registry} {stack next : List Formula} {read : List Token}

theorem Spells.push (spelled : Spells functions stack read) (formula : Formula)
    (resolved : formula.ResolvedBy functions) :
    Spells functions (formula :: stack) (read ++ formula.tokens) := by
  constructor
  · simp [spelled.tokens]
  · intro member belongs
    rcases List.mem_cons.mp belongs with same | below
    · subst member
      exact resolved
    · exact spelled.resolved member below

theorem pushToken_spells (token : Token) (spelled : Spells functions stack read)
    (pushed : pushToken functions stack token = .ok next) :
    Spells functions next (read ++ [token]) := by
  cases token with
  | number value =>
      simp only [pushToken, Except.ok.injEq] at pushed
      subst next
      exact spelled.push (.constant value) trivial
  | name name =>
      simp only [pushToken, Except.ok.injEq] at pushed
      subst next
      exact spelled.push (.reference name) trivial
  | operator operator =>
      match stack, spelled, pushed with
      | right :: left :: below, spelled, pushed =>
          simp only [pushToken, Except.ok.injEq] at pushed
          subst next
          constructor
          · simp [← spelled.tokens, Formula.tokens]
          · intro member belongs
            rcases List.mem_cons.mp belongs with same | lower
            · subst member
              exact ⟨spelled.resolved left (by simp), spelled.resolved right (by simp)⟩
            · exact spelled.resolved member (by simp [lower])
  | call name =>
      match stack, spelled, pushed with
      | argument :: below, spelled, pushed =>
          simp only [pushToken] at pushed
          split at pushed
          · rename_i function found
            simp only [Except.ok.injEq] at pushed
            subst next
            have named : function.name = name := functions.name_of_get? name function found
            constructor
            · simp [← spelled.tokens, Formula.tokens, named]
            · intro member belongs
              rcases List.mem_cons.mp belongs with same | lower
              · subst member
                exact ⟨by rw [named, found], spelled.resolved argument (by simp)⟩
              · exact spelled.resolved member (by simp [lower])
          · simp at pushed

theorem pushTokens_spells (tokens : List Token) (spelled : Spells functions stack read)
    (pushed : pushTokens functions stack tokens = .ok next) :
    Spells functions next (read ++ tokens) := by
  induction tokens generalizing stack read with
  | nil =>
      simp only [pushTokens, Except.ok.injEq] at pushed
      subst next
      simpa using spelled
  | cons token rest ih =>
      simp only [pushTokens] at pushed
      split at pushed
      · rename_i middle step
        have later := ih (pushToken_spells token spelled step) pushed
        simpa using later
      · simp at pushed

end Soundness

theorem pushTokens_tokens (functions : Registry) (formula : Formula)
    (resolved : formula.ResolvedBy functions) (stack : List Formula) (rest : List Token) :
    pushTokens functions stack (formula.tokens ++ rest) =
      pushTokens functions (formula :: stack) rest := by
  induction formula generalizing stack rest with
  | constant value => simp [Formula.tokens, pushTokens, pushToken]
  | reference name => simp [Formula.tokens, pushTokens, pushToken]
  | operation operator left right ihLeft ihRight =>
      simp only [Formula.tokens, List.append_assoc]
      rw [ihLeft resolved.1, ihRight resolved.2]
      simp [pushTokens, pushToken]
  | application function argument ih =>
      simp only [Formula.tokens, List.append_assoc]
      rw [ih resolved.2]
      simp [pushTokens, pushToken, resolved.1]

theorem onlyOperand_eq_ok (stack : List Formula) (formula : Formula) :
    onlyOperand stack = .ok formula ↔ stack = [formula] := by
  match stack with
  | [] => simp [onlyOperand]
  | [only] => simp [onlyOperand]
  | first :: second :: rest => simp [onlyOperand]

theorem parseTokens_eq_ok (functions : Registry) (tokens : List Token) (formula : Formula) :
    parseTokens functions tokens = .ok formula ↔
      tokens = formula.tokens ∧ formula.ResolvedBy functions := by
  constructor
  · intro parsed
    simp only [parseTokens] at parsed
    split at parsed
    · rename_i stack pushed
      have only : stack = [formula] := (onlyOperand_eq_ok stack formula).mp parsed
      subst stack
      have start : Spells functions [] [] := ⟨rfl, by simp⟩
      have spelled := pushTokens_spells tokens start pushed
      refine ⟨?_, spelled.resolved formula (by simp)⟩
      simpa using spelled.tokens.symm
    · simp at parsed
  · rintro ⟨same, resolved⟩
    subst tokens
    have pushed := pushTokens_tokens functions formula resolved [] []
    rw [List.append_nil] at pushed
    simp [parseTokens, pushed, pushTokens, onlyOperand]

/-- A text parses to a tree exactly when its tokens are those of the tree, in this order, and the
registry resolves the tree. Two trees with the same tokens are the same tree. -/
theorem parseFormula_iff_tokens (functions : Registry) (formula : Formula) :
    (∀ text : String, parseFormula functions text = .ok formula ↔
      List.Forall₂ Token.agrees (formulaTokens text) formula.tokens ∧
        formula.ResolvedBy functions) ∧
    ∀ other : Formula, formula.ResolvedBy functions → other.ResolvedBy functions →
      List.Forall₂ Token.agrees formula.tokens other.tokens → formula = other := by
  constructor
  · intro text
    rw [forall₂_agrees_iff, parseFormula, parseTokens_eq_ok]
  · intro other resolved otherResolved same
    have tokens : formula.tokens = other.tokens := (forall₂_agrees_iff _ _).mp same
    have first := (parseTokens_eq_ok functions formula.tokens formula).mpr ⟨rfl, resolved⟩
    have second := (parseTokens_eq_ok functions formula.tokens other).mpr ⟨tokens, otherResolved⟩
    rw [first] at second
    simpa using second

end PostfixSheet
