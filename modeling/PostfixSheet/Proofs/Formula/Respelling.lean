import PostfixSheet.Proofs.Formula.PostfixOrder
import PostfixSheet.Proofs.Formula.WordTokens

/-! The postfix text of a parsed formula. It is the formula word by word, with single spaces between the
words and every number in its shortest form, and what is counted in the tree is counted in the words. -/

namespace PostfixSheet

namespace Token

def spelling : Token → String
  | .number value => showNumber value
  | .operator applied => applied.symbol
  | .call called => called ++ "()"
  | .name text => text

def takesOperands : Token → Bool
  | .number _ => false
  | .operator _ => true
  | .call _ => true
  | .name _ => false

end Token

def respelled (word : String) : String :=
  match Token.ofWord word with
  | .number value => showNumber value
  | _ => word

theorem spelling_ofWord (word : String) : (Token.ofWord word).spelling = respelled word := by
  rw [respelled, Token.ofWord]
  cases readNumber? word with
  | some value => rfl
  | none =>
      cases found : Operator.ofSymbol? word with
      | some operator => exact Operator.symbol_of_ofSymbol word operator found
      | none =>
          cases split : calledName? word with
          | some called =>
              have behind := (calledName?_eq_some word called).mp split
              exact String.toList_inj.mp ((toList_call called).trans behind.symm)
          | none => rfl

namespace Formula

theorem tokens_ne_nil (formula : Formula) : formula.tokens ≠ [] := by
  cases formula <;> simp [tokens]

theorem postfixText_tokens (formula : Formula) :
    formula.postfixText = " ".intercalate (formula.tokens.map Token.spelling) := by
  induction formula with
  | constant value => simp [postfixText, tokens, Token.spelling]
  | reference name => simp [postfixText, tokens, Token.spelling]
  | operation operator left right ihLeft ihRight =>
      have leftWords : left.tokens.map Token.spelling ≠ [] := by simp [tokens_ne_nil]
      have rightWords : right.tokens.map Token.spelling ≠ [] := by simp [tokens_ne_nil]
      rw [postfixText, tokens, List.map_append, List.map_append,
        String.intercalate_append_of_ne_nil (by simp [leftWords]) (by simp),
        String.intercalate_append_of_ne_nil leftWords rightWords, ihLeft, ihRight]
      simp [Token.spelling]
  | application function argument ih =>
      have words : argument.tokens.map Token.spelling ≠ [] := by simp [tokens_ne_nil]
      rw [postfixText, tokens, List.map_append,
        String.intercalate_append_of_ne_nil words (by simp), ih]
      simp [Token.spelling, String.append_assoc]

theorem operationCount_tokens (formula : Formula) :
    formula.tokens.countP Token.takesOperands = formula.operationCount := by
  induction formula with
  | constant value => rfl
  | reference name => rfl
  | operation operator left right ihLeft ihRight =>
      rw [tokens, List.countP_append, List.countP_append, ihLeft, ihRight]
      rfl
  | application function argument ih =>
      rw [tokens, List.countP_append, ih]
      rfl

end Formula

/-- The postfix text of a parsed formula has the words of the formula, one space between them and the numbers
in their shortest form. The operations of the tree are the operators and calls of the formula, and it depends on
the names in the formula and on no others. -/
theorem parseFormula_respelled (functions : Registry) (text : String) (formula : Formula)
    (parsed : parseFormula functions text = .ok formula) :
    formula.postfixText = " ".intercalate ((words text).map respelled) ∧
      formula.operationCount = (formulaTokens text).countP Token.takesOperands ∧
      ∀ name, name ∈ formula.dependencies ↔ Token.name name ∈ formulaTokens text := by
  have tokens : formulaTokens text = formula.tokens :=
    ((parseTokens_eq_ok functions _ formula).mp parsed).1
  refine ⟨?_, ?_, ?_⟩
  · rw [formula.postfixText_tokens, ← tokens, formulaTokens, List.map_map]
    congr 1
    exact List.map_congr_left fun word _ => spelling_ofWord word
  · rw [tokens, formula.operationCount_tokens]
  · intro name
    rw [tokens, formula.mem_dependencies, ← formula.references_tokens, Token.mem_names_iff]

def looseFormula : String :=
  " +1.50\t\u00FC1 *\n\u00A01e3 \u00BD() -  "

theorem parseFormula_respelled_looseFormula :
    let functions := Registry.empty.register ⟨"\u00BD", fun value => value / 2⟩
    ∃ formula, parseFormula functions looseFormula = .ok formula ∧
      formula.postfixText = "1.5 \u00FC1 * 1000.0 \u00BD() -" ∧ formula.operationCount = 3 ∧
      ∀ name, name ∈ formula.dependencies ↔ name = "\u00FC1" := by
  intro functions
  have succeeded : (parseFormula functions looseFormula).isOk = true := by decide +kernel
  cases parsed : parseFormula functions looseFormula with
  | error error => simp [parsed, Except.isOk, Except.toBool] at succeeded
  | ok formula =>
      obtain ⟨text, count, names⟩ := parseFormula_respelled functions looseFormula formula parsed
      have found : (formulaTokens looseFormula).filterMap Token.name? = ["\u00FC1"] := by
        decide +kernel
      refine ⟨formula, rfl, text.trans (by decide +kernel), count.trans (by decide +kernel), ?_⟩
      intro name
      rw [names, ← Token.mem_names_iff, found, List.mem_singleton]

end PostfixSheet
