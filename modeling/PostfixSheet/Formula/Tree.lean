import Std.Data.ExtTreeSet
import PostfixSheet.Formula.Function
import PostfixSheet.Formula.Operator
import PostfixSheet.Number.Writing

/-! Formula trees: their infix and postfix texts, the names that they refer to, and equality. -/

namespace PostfixSheet

inductive Formula
  | constant (value : Float)
  | reference (name : String)
  | operation (operator : Operator) (left right : Formula)
  | application (function : NamedFunction) (argument : Formula)

abbrev NameSet := Std.ExtTreeSet String

namespace Formula

def isConstant : Formula → Bool
  | constant _ => true
  | _ => false

def operationCount : Formula → Nat
  | constant _ => 0
  | reference _ => 0
  | operation _ left right => left.operationCount + right.operationCount + 1
  | application _ argument => argument.operationCount + 1

def references : Formula → List String
  | constant _ => []
  | reference name => [name]
  | operation _ left right => left.references ++ right.references
  | application _ argument => argument.references

def dependencies (formula : Formula) : NameSet :=
  Std.ExtTreeSet.ofList formula.references

def infixText : Formula → String
  | constant value => showNumber value
  | reference name => name
  | operation operator left right =>
      "(" ++ left.infixText ++ " " ++ operator.symbol ++ " " ++ right.infixText ++ ")"
  | application function argument => function.name ++ "(" ++ argument.infixText ++ ")"

def postfixText : Formula → String
  | constant value => showNumber value
  | reference name => name
  | operation operator left right =>
      left.postfixText ++ " " ++ right.postfixText ++ " " ++ operator.symbol
  | application function argument => argument.postfixText ++ " " ++ function.name ++ "()"

/-- Equality of trees: constants agree bit by bit, and functions agree by name. There is only one `Float`
that is no number, so what is read from `nan` and from `-nan` is the same constant here. -/
def same : Formula → Formula → Bool
  | constant left, constant right => left.toBits == right.toBits
  | reference left, reference right => left == right
  | operation leftOperator left₁ right₁, operation rightOperator left₂ right₂ =>
      leftOperator == rightOperator && left₁.same left₂ && right₁.same right₂
  | application left argument₁, application right argument₂ =>
      left.sameName right && argument₁.same argument₂
  | _, _ => false

theorem mem_dependencies (formula : Formula) (name : String) :
    name ∈ formula.dependencies ↔ name ∈ formula.references := by
  simp [dependencies, Std.ExtTreeSet.mem_ofList]

end Formula

end PostfixSheet
