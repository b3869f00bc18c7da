import PostfixSheet.Formula.Evaluation

/-! A workspace holds bindings, functions, and formulas kept under names of their own. A kept formula goes
on using the functions that it was read with. -/

namespace PostfixSheet

structure Workspace where
  bindings : Bindings := .empty
  functions : Registry := .builtin
  formulas : Std.ExtTreeMap String Formula := ∅

namespace Workspace

def formula? (workspace : Workspace) (name : String) : Option Formula :=
  workspace.formulas[name]?

def keep (workspace : Workspace) (name : String) (formula : Formula) : Workspace :=
  { workspace with formulas := workspace.formulas.insert name formula }

def bind (workspace : Workspace) (name : String) (value : Float) : Workspace :=
  { workspace with bindings := workspace.bindings.set name value }

def register (workspace : Workspace) (function : NamedFunction) : Workspace :=
  { workspace with functions := workspace.functions.register function }

def read (workspace : Workspace) (name text : String) : Except FormulaError (Formula × Workspace) :=
  match parseFormula workspace.functions text with
  | .ok formula => .ok (formula, workspace.keep name formula)
  | .error error => .error error

def value? (workspace : Workspace) (name : String) : Option (Except FormulaError Float) :=
  (workspace.formula? name).map (Formula.eval workspace.bindings.get?)

def fold? (workspace : Workspace) (name target : String) : Option (Formula × Workspace) :=
  (workspace.formula? name).map fun formula =>
    let folded := formula.fold workspace.bindings.get?
    (folded, workspace.keep target folded)

def assign (workspace : Workspace) (name text : String) :
    Except FormulaError (Float × Workspace) :=
  match formulaValue workspace.functions workspace.bindings.get? text with
  | .ok value => .ok (value, workspace.bind name value)
  | .error error => .error error

theorem formula?_keep (workspace : Workspace) (name other : String) (formula : Formula) :
    (workspace.keep name formula).formula? other =
      if name = other then some formula else workspace.formula? other := by
  simp [keep, formula?, Std.ExtTreeMap.getElem?_insert]

end Workspace

end PostfixSheet
