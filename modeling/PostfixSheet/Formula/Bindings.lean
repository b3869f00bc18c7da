import Std.Data.ExtTreeMap

/-! Variables and their values. Evaluation only asks for the value of a name, so it takes any lookup;
bindings are the lookup that a table of names answers. -/

namespace PostfixSheet

abbrev Lookup := String → Option Float

structure Bindings where
  entries : Std.ExtTreeMap String Float

namespace Bindings

def empty : Bindings :=
  ⟨∅⟩

def get? (bindings : Bindings) : Lookup :=
  fun name => bindings.entries[name]?

def contains (bindings : Bindings) (name : String) : Bool :=
  bindings.entries.contains name

def size (bindings : Bindings) : Nat :=
  bindings.entries.size

def names (bindings : Bindings) : List String :=
  bindings.entries.keys

def toList (bindings : Bindings) : List (String × Float) :=
  bindings.entries.toList

def set (bindings : Bindings) (name : String) (value : Float) : Bindings :=
  ⟨bindings.entries.insert name value⟩

def extend (bindings : Bindings) (values : List (String × Float)) : Bindings :=
  values.foldl (fun bindings entry => bindings.set entry.1 entry.2) bindings

def ofList (values : List (String × Float)) : Bindings :=
  empty.extend values

theorem get?_empty (name : String) : empty.get? name = none := by
  simp [empty, get?]

theorem get?_set (bindings : Bindings) (name other : String) (value : Float) :
    (bindings.set name value).get? other = if name = other then some value else bindings.get? other := by
  simp [set, get?, Std.ExtTreeMap.getElem?_insert]

theorem ext_get? (left right : Bindings) (same : left.get? = right.get?) : left = right := by
  cases left
  cases right
  congr 1
  exact Std.ExtTreeMap.ext_getElem? fun name => congrFun same name

end Bindings

end PostfixSheet
