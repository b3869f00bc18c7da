import PostfixSheet.Formula.Error
import PostfixSheet.Formula.Tree
import PostfixSheet.Formula.Token

/-! Building a formula tree from postfix text with a stack of finished operands, the last one first. -/

namespace PostfixSheet

/-- One token: a value is pushed, an operator takes its right operand first and then its left one. A call
without an argument is reported before its name is looked up. -/
def pushToken (functions : Registry) :
    List Formula → Token → Except FormulaError (List Formula)
  | stack, .number value => .ok (.constant value :: stack)
  | stack, .name name => .ok (.reference name :: stack)
  | right :: left :: stack, .operator operator => .ok (.operation operator left right :: stack)
  | stack, .operator _ => .error (.tooFewOperands stack.length)
  | [], .call _ => .error .missingArgument
  | argument :: stack, .call name =>
      match functions.get? name with
      | some function => .ok (.application function argument :: stack)
      | none => .error (.undefinedFunction name)

def pushTokens (functions : Registry) :
    List Formula → List Token → Except FormulaError (List Formula)
  | stack, [] => .ok stack
  | stack, token :: rest =>
      match pushToken functions stack token with
      | .ok next => pushTokens functions next rest
      | .error error => .error error

def onlyOperand : List Formula → Except FormulaError Formula
  | [] => .error .noExpression
  | [formula] => .ok formula
  | stack => .error (.operandsLeft stack.length)

def parseTokens (functions : Registry) (tokens : List Token) : Except FormulaError Formula :=
  match pushTokens functions [] tokens with
  | .ok stack => onlyOperand stack
  | .error error => .error error

def parseFormula (functions : Registry) (text : String) : Except FormulaError Formula :=
  parseTokens functions (formulaTokens text)

def formulaBody (text : String) : String :=
  match text.toList with
  | '=' :: rest => String.ofList rest
  | _ => text

end PostfixSheet
