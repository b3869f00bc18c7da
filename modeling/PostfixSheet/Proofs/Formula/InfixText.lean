import PostfixSheet.Proofs.Formula.SameTrees

/-! Infix text and trees. The text of a tree ends where the tree does, so that whatever follows it the tree can be
found again; two trees with the same text are the same. -/

namespace PostfixSheet

def Plain (text : List Char) : Prop :=
  ∀ character ∈ text, character ∉ ['(', ')', ' ']

def EndsName (text : List Char) : Prop :=
  ∀ first, text.head? = some first → first ∈ ['(', ')', ' ']

def EndsTree (text : List Char) : Prop :=
  ∀ first, text.head? = some first → first ∈ [')', ' ']

theorem EndsTree.endsName {text : List Char} (ends : EndsTree text) : EndsName text :=
  fun first found => List.mem_cons_of_mem _ (ends first found)

theorem EndsTree.ne_open {text more : List Char} (ends : EndsTree text) : text ≠ '(' :: more := by
  rintro rfl
  simpa using ends '(' rfl

theorem name_cut (left right rest more : List Char) (plain : Plain left) (otherPlain : Plain right)
    (ends : EndsName rest) (otherEnds : EndsName more) (same : left ++ rest = right ++ more) :
    left = right ∧ rest = more := by
  have inside {name : List Char} (plain : Plain name) :
      ∀ character ∈ name, (!(['(', ')', ' '].contains character)) = true := by
    intro character member
    simpa using plain character member
  have stop {text : List Char} (ends : EndsName text) :
      ∀ first, text.head? = some first → (!(['(', ')', ' '].contains first)) = false := by
    intro first found
    rw [List.contains_iff_mem.mpr (ends first found)]
    rfl
  obtain ⟨taken, left'⟩ := span_append _ left rest (inside plain) (stop ends)
  obtain ⟨otherTaken, otherLeft⟩ := span_append _ right more (inside otherPlain) (stop otherEnds)
  rw [same] at taken left'
  exact ⟨taken.symm.trans otherTaken, left'.symm.trans otherLeft⟩

theorem symbol_cut (operator other : Operator) (rest more : List Char)
    (same : operator.symbol.toList ++ rest = other.symbol.toList ++ more) :
    operator = other ∧ rest = more := by
  cases operator <;> cases other <;> simp_all [Operator.symbol]

theorem plain_showNumber (value : Float) : Plain (showNumber value).toList := by
  intro character member mark
  have fine := showNumber_characters value character member
  simp only [List.mem_cons, List.not_mem_nil, or_false] at mark
  rcases mark with rfl | rfl | rfl <;> simp [isNumberChar] at fine

namespace Formula

/-- A tree whose names have neither parentheses nor spaces in them and do not read as numbers where they stand for
variables. Names of functions may be empty or read as numbers, and all names may be symbols of operators. -/
structure Legible (formula : Formula) : Prop where
  names : ∀ name ∈ formula.references, Plain name.toList ∧ readNumber? name = none
  calls : ∀ name ∈ formula.functionNames, Plain name.toList

def opening : Formula → List Char
  | constant value => (showNumber value).toList
  | reference name => name.toList
  | operation _ _ _ => []
  | application function _ => function.name.toList

def enclosed : Formula → List Char
  | constant _ => []
  | reference _ => []
  | operation operator left right =>
      '(' :: (left.infixText.toList ++
        ' ' :: (operator.symbol.toList ++ ' ' :: (right.infixText.toList ++ [')'])))
  | application _ argument => '(' :: (argument.infixText.toList ++ [')'])

theorem toList_infixText (formula : Formula) :
    formula.infixText.toList = formula.opening ++ formula.enclosed := by
  cases formula <;> simp [infixText, opening, enclosed]

theorem plain_opening (formula : Formula) (legible : formula.Legible) : Plain formula.opening := by
  cases formula with
  | constant value => exact plain_showNumber value
  | reference name => exact (legible.names name (by simp [references])).1
  | operation _ _ _ => simp [Plain, opening]
  | application function argument => exact legible.calls function.name (by simp [functionNames])

theorem endsName_enclosed (formula : Formula) (rest : List Char) (ends : EndsTree rest) :
    EndsName (formula.enclosed ++ rest) := by
  cases formula with
  | constant value => exact ends.endsName
  | reference name => exact ends.endsName
  | operation operator left right => simp [EndsName, enclosed]
  | application function argument => simp [EndsName, enclosed]

theorem Legible.left {operator : Operator} {first second : Formula}
    (legible : (operation operator first second).Legible) : first.Legible :=
  ⟨fun name member => legible.names name (by simp [references, member]),
    fun name member => legible.calls name (by simp [functionNames, member])⟩

theorem Legible.right {operator : Operator} {first second : Formula}
    (legible : (operation operator first second).Legible) : second.Legible :=
  ⟨fun name member => legible.names name (by simp [references, member]),
    fun name member => legible.calls name (by simp [functionNames, member])⟩

theorem Legible.argument {function : NamedFunction} {inner : Formula}
    (legible : (application function inner).Legible) : inner.Legible :=
  ⟨fun name member => legible.names name (by simpa [references] using member),
    fun name member => legible.calls name (by simp [functionNames, member])⟩

theorem opening_cut (left right : Formula) (legible : left.Legible) (otherLegible : right.Legible)
    (rest more : List Char) (ends : EndsTree rest) (otherEnds : EndsTree more)
    (same : left.infixText.toList ++ rest = right.infixText.toList ++ more) :
    left.opening = right.opening ∧ left.enclosed ++ rest = right.enclosed ++ more := by
  rw [toList_infixText, toList_infixText, List.append_assoc, List.append_assoc] at same
  exact name_cut _ _ _ _ (left.plain_opening legible) (right.plain_opening otherLegible)
    (left.endsName_enclosed rest ends) (right.endsName_enclosed more otherEnds) same

theorem infixText_cut (left right : Formula) (legible : left.Legible) (otherLegible : right.Legible)
    (rest more : List Char) (ends : EndsTree rest) (otherEnds : EndsTree more)
    (same : left.infixText.toList ++ rest = right.infixText.toList ++ more) :
    left.BuiltAlike right ∧ rest = more := by
  induction left generalizing right rest more with
  | constant value =>
      obtain ⟨opens, behind⟩ := opening_cut _ right legible otherLegible rest more ends otherEnds same
      cases right with
      | constant other =>
          have read := congrArg readNumberChars? opens
          have number := readNumber?_showNumber value
          have otherNumber := readNumber?_showNumber other
          rw [readNumber?] at number otherNumber
          rw [opening, opening, number, otherNumber, Option.some.injEq] at read
          rw [read]
          exact ⟨.constant other, behind⟩
      | reference name =>
          have number := readNumber?_showNumber value
          have noNumber := (otherLegible.names name (by simp [references])).2
          rw [opening, opening] at opens
          rw [readNumber?, opens, ← readNumber?, noNumber] at number
          contradiction
      | operation _ _ _ => exact absurd behind ends.ne_open
      | application _ _ => exact absurd behind ends.ne_open
  | reference name =>
      obtain ⟨opens, behind⟩ := opening_cut _ right legible otherLegible rest more ends otherEnds same
      cases right with
      | constant value =>
          have number := readNumber?_showNumber value
          have noNumber := (legible.names name (by simp [references])).2
          rw [opening, opening] at opens
          rw [readNumber?, ← opens, ← readNumber?, noNumber] at number
          contradiction
      | reference other =>
          rw [String.toList_inj.mp opens]
          exact ⟨.reference other, behind⟩
      | operation _ _ _ => exact absurd behind ends.ne_open
      | application _ _ => exact absurd behind ends.ne_open
  | operation operator first second ihFirst ihSecond =>
      obtain ⟨opens, behind⟩ := opening_cut _ right legible otherLegible rest more ends otherEnds same
      cases right with
      | constant _ => exact absurd behind.symm otherEnds.ne_open
      | reference _ => exact absurd behind.symm otherEnds.ne_open
      | operation other third fourth =>
          simp only [enclosed, List.cons_append, List.append_assoc, List.cons.injEq, true_and] at behind
          obtain ⟨firstAlike, behindFirst⟩ := ihFirst third legible.left otherLegible.left _ _
            (by simp [EndsTree]) (by simp [EndsTree]) behind
          obtain ⟨rfl, behindSymbol⟩ := symbol_cut _ _ _ _ (List.cons.inj behindFirst).2
          obtain ⟨secondAlike, behindSecond⟩ := ihSecond fourth legible.right otherLegible.right _ _
            (by simp [EndsTree]) (by simp [EndsTree]) (List.cons.inj behindSymbol).2
          exact ⟨.operation operator firstAlike secondAlike, (List.cons.inj behindSecond).2⟩
      | application function argument =>
          simp only [enclosed, List.cons_append, List.append_assoc, List.cons.injEq, true_and] at behind
          obtain ⟨_, behindFirst⟩ := ihFirst argument legible.left otherLegible.argument _ _
            (by simp [EndsTree]) (by simp [EndsTree]) behind
          simp at behindFirst
  | application function argument ih =>
      obtain ⟨opens, behind⟩ := opening_cut _ right legible otherLegible rest more ends otherEnds same
      cases right with
      | constant _ => exact absurd behind.symm otherEnds.ne_open
      | reference _ => exact absurd behind.symm otherEnds.ne_open
      | operation other third fourth =>
          simp only [enclosed, List.cons_append, List.append_assoc, List.cons.injEq, true_and] at behind
          obtain ⟨_, behindArgument⟩ := ih third legible.argument otherLegible.left _ _
            (by simp [EndsTree]) (by simp [EndsTree]) behind
          simp at behindArgument
      | application other inner =>
          simp only [enclosed, List.cons_append, List.append_assoc, List.cons.injEq, true_and] at behind
          obtain ⟨alike, behindArgument⟩ := ih inner legible.argument otherLegible.argument _ _
            (by simp [EndsTree]) (by simp [EndsTree]) behind
          exact ⟨.application (String.toList_inj.mp opens) alike, (List.cons.inj behindArgument).2⟩

end Formula

/-- The infix text of a tree determines the tree. -/
theorem infixText_unambiguous (left right : Formula) (legible : left.Legible)
    (otherLegible : right.Legible) (text : left.infixText = right.infixText) :
    left.same right = true := by
  have whole : left.infixText.toList ++ [] = right.infixText.toList ++ [] := by rw [text]
  have alike := Formula.infixText_cut left right legible otherLegible [] [] (by simp [EndsTree])
    (by simp [EndsTree]) whole
  exact (Formula.same_iff left right).mpr alike.1

def namelessCall (function : Float → Float) : Formula :=
  .operation .subtract (.constant (-1))
    (.application ⟨"", function⟩ (.operation .subtract (.reference "") (.reference "-")))

theorem infixText_unambiguous_namelessCall :
    let left := namelessCall fun value => value
    let right := namelessCall fun value => -value
    left.Legible ∧ right.Legible ∧ left.infixText = right.infixText ∧
      left.infixText = "(-1.0 - (( - -)))" ∧ left.same right = true := by
  intro left right
  have legible (function : Float → Float) : (namelessCall function).Legible := by
    constructor
    · intro name member
      have known : name = "" ∨ name = "-" := by simpa [namelessCall, Formula.references] using member
      rcases known with rfl | rfl
      · exact ⟨by simp [Plain], by decide⟩
      · exact ⟨by simp [Plain], by decide⟩
    · intro name member
      rw [List.mem_singleton.mp member]
      simp [Plain]
  have text : left.infixText = right.infixText := rfl
  exact ⟨legible _, legible _, text, by decide +kernel,
    infixText_unambiguous left right (legible _) (legible _) text⟩

end PostfixSheet
