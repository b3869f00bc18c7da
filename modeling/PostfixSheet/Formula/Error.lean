/-! What can go wrong with a formula. Arithmetic never does. -/

namespace PostfixSheet

inductive FormulaError
  | unbound (name : String)
  | tooFewOperands (depth : Nat)
  | missingArgument
  | noExpression
  | operandsLeft (depth : Nat)
  | undefinedFunction (name : String)
  deriving DecidableEq, Repr

def incompleteMessage (reason : String) (depth : Nat) : String :=
  "Incomplete RPN expression: " ++ reason ++ " (stack depth " ++ toString depth ++ ")"

def FormulaError.message : FormulaError → String
  | .unbound name => "Unbound variable: " ++ name
  | .tooFewOperands depth => incompleteMessage "too few operands for operator" depth
  | .missingArgument => incompleteMessage "missing argument for function" 0
  | .noExpression => incompleteMessage "no expression" 0
  | .operandsLeft depth => incompleteMessage "too many operands left on the stack" depth
  | .undefinedFunction name => "Undefined function: " ++ name

end PostfixSheet
