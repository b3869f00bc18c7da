import Std.Data.ExtTreeMap
import PostfixSheet.Text.Quoted

/-! Named functions of one number, and registries that formulas resolve function names against. -/

namespace PostfixSheet

structure NamedFunction where
  name : String
  apply : Float → Float

def NamedFunction.sameName (left right : NamedFunction) : Bool :=
  left.name == right.name

def NamedFunction.description (function : NamedFunction) : String :=
  "UnaryFunction(" ++ quoted '"' function.name ++ ")"

/-- Functions by name, in the order of their names. Each one is kept under its own name. -/
structure Registry where
  entries : Std.ExtTreeMap String NamedFunction
  named : ∀ (name : String) (function : NamedFunction), entries[name]? = some function →
    function.name = name

namespace Registry

def empty : Registry :=
  ⟨∅, by simp⟩

def get? (registry : Registry) (name : String) : Option NamedFunction :=
  registry.entries[name]?

def contains (registry : Registry) (name : String) : Bool :=
  registry.entries.contains name

def size (registry : Registry) : Nat :=
  registry.entries.size

def names (registry : Registry) : List String :=
  registry.entries.keys

def register (registry : Registry) (function : NamedFunction) : Registry where
  entries := registry.entries.insert function.name function
  named := by
    intro name found entry
    rw [Std.ExtTreeMap.getElem?_insert] at entry
    split at entry
    · rename_i same
      simp only [Option.some.injEq] at entry
      subst found
      simpa using same
    · exact registry.named name found entry

def ofList (functions : List NamedFunction) : Registry :=
  functions.foldl register empty

theorem get?_empty (name : String) : empty.get? name = none := by
  simp [empty, get?]

theorem name_of_get? (registry : Registry) (name : String) (function : NamedFunction)
    (found : registry.get? name = some function) : function.name = name :=
  registry.named name function found

theorem get?_register (registry : Registry) (function : NamedFunction) (name : String) :
    (registry.register function).get? name =
      if function.name = name then some function else registry.get? name := by
  simp [register, get?, Std.ExtTreeMap.getElem?_insert]

end Registry

def builtinFunctions : List NamedFunction :=
  [⟨"abs", Float.abs⟩, ⟨"sqrt", Float.sqrt⟩, ⟨"cbrt", Float.cbrt⟩, ⟨"exp", Float.exp⟩,
    ⟨"log", Float.log⟩, ⟨"log10", Float.log10⟩, ⟨"sin", Float.sin⟩, ⟨"cos", Float.cos⟩,
    ⟨"tan", Float.tan⟩, ⟨"asin", Float.asin⟩, ⟨"acos", Float.acos⟩, ⟨"atan", Float.atan⟩,
    ⟨"sinh", Float.sinh⟩, ⟨"cosh", Float.cosh⟩, ⟨"tanh", Float.tanh⟩, ⟨"ceil", Float.ceil⟩,
    ⟨"floor", Float.floor⟩]

def Registry.builtin : Registry :=
  Registry.ofList builtinFunctions

end PostfixSheet
