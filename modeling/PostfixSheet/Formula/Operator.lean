/-! The five arithmetic operators and their symbols. -/

namespace PostfixSheet

inductive Operator
  | add
  | subtract
  | multiply
  | divide
  | power
  deriving DecidableEq, Repr

def Operator.all : List Operator :=
  [.add, .subtract, .multiply, .divide, .power]

def Operator.symbol : Operator → String
  | .add => "+"
  | .subtract => "-"
  | .multiply => "*"
  | .divide => "/"
  | .power => "^"

def Operator.ofSymbol? (text : String) : Option Operator :=
  Operator.all.find? fun operator => operator.symbol == text

def Operator.apply (operator : Operator) (left right : Float) : Float :=
  match operator with
  | .add => left + right
  | .subtract => left - right
  | .multiply => left * right
  | .divide => left / right
  | .power => left ^ right

theorem Operator.mem_all (operator : Operator) : operator ∈ Operator.all := by
  cases operator <;> decide

theorem Operator.ofSymbol_symbol (operator : Operator) :
    Operator.ofSymbol? operator.symbol = some operator := by
  cases operator <;> decide

theorem Operator.symbol_of_ofSymbol (text : String) (operator : Operator)
    (found : Operator.ofSymbol? text = some operator) : operator.symbol = text := by
  simpa using List.find?_some found

end PostfixSheet
