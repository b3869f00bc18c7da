import PostfixSheet.Formula.Bindings
import PostfixSheet.Formula.Parsing

/-! Evaluating formula trees against the values of their names, and folding the parts that have a
value. -/

namespace PostfixSheet

namespace Formula

/-- The value of a tree, or the first name from the left that has none. -/
def eval (lookup : Lookup) : Formula → Except FormulaError Float
  | constant value => .ok value
  | reference name =>
      match lookup name with
      | some value => .ok value
      | none => .error (.unbound name)
  | operation operator left right =>
      match left.eval lookup with
      | .error error => .error error
      | .ok leftValue =>
          match right.eval lookup with
          | .error error => .error error
          | .ok rightValue => .ok (operator.apply leftValue rightValue)
  | application function argument =>
      match argument.eval lookup with
      | .error error => .error error
      | .ok value => .ok (function.apply value)

def settle (lookup : Lookup) (formula : Formula) : Formula :=
  match formula.eval lookup with
  | .ok value => constant value
  | .error _ => formula

/-- Replaces every part that has a value by a constant, from the leaves up. -/
def fold (lookup : Lookup) : Formula → Formula
  | constant value => constant value
  | reference name =>
      match lookup name with
      | some value => constant value
      | none => reference name
  | operation operator left right =>
      settle lookup (operation operator (left.fold lookup) (right.fold lookup))
  | application function argument => settle lookup (application function (argument.fold lookup))

end Formula

def formulaValue (functions : Registry) (lookup : Lookup) (text : String) :
    Except FormulaError Float :=
  match parseFormula functions text with
  | .ok formula => formula.eval lookup
  | .error error => .error error

end PostfixSheet
