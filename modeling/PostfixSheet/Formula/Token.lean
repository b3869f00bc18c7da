import PostfixSheet.Formula.Operator
import PostfixSheet.Number.Reading
import PostfixSheet.Text.Blank

/-! Tokens are the words of a formula, sorted into numbers, operators, function calls and names. -/

namespace PostfixSheet

inductive Token
  | number (value : Float)
  | operator (operator : Operator)
  | call (name : String)
  | name (name : String)

def calledName? (word : String) : Option String :=
  match word.toList.reverse with
  | ')' :: '(' :: name => some (String.ofList name.reverse)
  | _ => none

/-- A word is a number if it reads as one, else an operator if it is a symbol, else a call if it ends in
parentheses; any other word is a name. -/
def Token.ofWord (word : String) : Token :=
  match readNumber? word with
  | some value => .number value
  | none =>
      match Operator.ofSymbol? word with
      | some found => .operator found
      | none =>
          match calledName? word with
          | some called => .call called
          | none => .name word

def formulaTokens (text : String) : List Token :=
  (words text).map Token.ofWord

end PostfixSheet
