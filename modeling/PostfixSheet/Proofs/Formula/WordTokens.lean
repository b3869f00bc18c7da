import PostfixSheet.Formula.Token
import PostfixSheet.Proofs.Number.NumberText
import PostfixSheet.Proofs.Text.Words

/-! Words and tokens. What a formula is made of can be told apart: a number, an operator, a call and a plain
name are each read back from their own word. -/

namespace PostfixSheet

structure PlainName (name : String) : Prop where
  nonempty : name ≠ ""
  unbroken : Unbroken name
  noNumber : readNumber? name = none
  noOperator : ∀ operator : Operator, operator.symbol ≠ name
  noCall : ¬['(', ')'] <:+ name.toList

theorem calledName?_eq_some (word called : String) :
    calledName? word = some called ↔ word.toList = called.toList ++ ['(', ')'] := by
  rw [calledName?]
  constructor
  · intro found
    split at found
    · rename_i name same
      simp only [Option.some.injEq] at found
      subst called
      rw [← List.reverse_reverse word.toList, same]
      simp
    · simp at found
  · intro split
    simp [split]

theorem calledName?_eq_none (word : String) :
    calledName? word = none ↔ ¬['(', ')'] <:+ word.toList := by
  rw [Option.eq_none_iff_forall_ne_some]
  constructor
  · rintro missing ⟨name, split⟩
    exact missing (String.ofList name) ((calledName?_eq_some word _).mpr (by simp [← split]))
  · intro noCall called found
    exact noCall ⟨called.toList, ((calledName?_eq_some word called).mp found).symm⟩

theorem ofSymbol?_eq_none (word : String) :
    Operator.ofSymbol? word = none ↔ ∀ operator : Operator, operator.symbol ≠ word := by
  rw [Operator.ofSymbol?, List.find?_eq_none]
  constructor
  · intro missing operator
    simpa using missing operator operator.mem_all
  · intro noOperator operator _
    simpa using noOperator operator

section Foreign

def isForeign (character : Char) : Bool :=
  !(character.isDigit || ['-', '+', '.', 'e', 'E'].contains character ||
    ['i', 'n', 'f', 't', 'y', 'a'].contains character.toLower)

theorem isForeign_of_isBlank (character : Char) (blank : isBlank character = true) :
    isForeign character = true := by
  by_cases small : character.toNat < 128
  · have all : ∀ code < 128, isBlank (Char.ofNat code) = true → isForeign (Char.ofNat code) = true := by
      decide
    have foreign := all character.toNat small
    rw [Char.ofNat_toNat] at foreign
    exact foreign blank
  · have lower : character.toLower = character := by
      rw [Char.toLower, dif_neg]
      simp only [UInt32.le_iff_toNat_le]
      intro upper
      exact small (Nat.lt_of_le_of_lt upper.2 (by decide))
    have distinct (other : Char) (ascii : other.toNat < 128) : character ≠ other := by
      rintro rfl
      exact small ascii
    have noDigit : character.isDigit = false := by
      simp [Char.isDigit, UInt32.le_iff_toNat_le]
      omega
    simp [isForeign, lower, noDigit, distinct]

variable {character : Char} (foreign : isForeign character = true)

theorem mem_dropWhile_of_not (test : Char → Bool) (other : test character = false)
    (text : List Char) (member : character ∈ text) : character ∈ text.dropWhile test := by
  rw [← List.takeWhile_append_dropWhile (p := test) (l := text)] at member
  rcases List.mem_append.mp member with taken | dropped
  · rw [List.mem_takeWhile_imp taken] at other
    contradiction
  · exact dropped

include foreign

theorem foreign_cases :
    character.isDigit = false ∧ character ∉ ['-', '+', '.', 'e', 'E'] ∧
      character.toLower ∉ ['i', 'n', 'f', 't', 'y', 'a'] := by
  simpa [isForeign, and_assoc] using foreign

theorem mem_splitSign (text : List Char) (member : character ∈ text) :
    character ∈ (splitSign text).2 := by
  have noSign := (foreign_cases foreign).2.1
  simp only [List.mem_cons, not_or] at noSign
  unfold splitSign
  split
  · exact (List.mem_cons.mp member).resolve_left noSign.1
  · exact (List.mem_cons.mp member).resolve_left noSign.2.1
  · exact member

theorem readExponent?_foreign (text : List Char) (member : character ∈ text) :
    readExponent? text = none := by
  obtain ⟨noDigit, noSign, _⟩ := foreign_cases foreign
  cases text with
  | nil => simp at member
  | cons mark rest =>
      simp only [readExponent?]
      rw [if_neg]
      intro exponent
      simp only [Bool.and_eq_true, Bool.or_eq_true, beq_iff_eq, List.all_eq_true] at exponent
      have later : character ∈ rest := by
        rcases List.mem_cons.mp member with rfl | later
        · simp [exponent.1.1] at noSign
        · exact later
      rw [exponent.2 character (mem_splitSign foreign rest later)] at noDigit
      contradiction

theorem readDecimal?_foreign (text : List Char) (member : character ∈ text) :
    readDecimal? text = none := by
  obtain ⟨noDigit, noSign, _⟩ := foreign_cases foreign
  have behindWhole := mem_dropWhile_of_not Char.isDigit noDigit text member
  simp only [readDecimal?]
  split
  · rename_i rest same
    rw [same] at behindWhole
    have noPoint : character ≠ '.' := by
      rintro rfl
      simp at noSign
    have ending := mem_dropWhile_of_not Char.isDigit noDigit rest
      ((List.mem_cons.mp behindWhole).resolve_left noPoint)
    simp [readExponent?_foreign foreign _ ending]
  · simp [readExponent?_foreign foreign _ behindWhole]

theorem readNumberChars?_foreign (text : List Char) (member : character ∈ text) :
    readNumberChars? text = none := by
  have inside := mem_splitSign foreign text member
  have noLetter := (foreign_cases foreign).2.2
  have lower : character.toLower ∈ (splitSign text).2.map Char.toLower :=
    List.mem_map.mpr ⟨character, inside, rfl⟩
  have noWord : ∀ word ∈ "nan".toList :: infinityWords, (splitSign text).2.map Char.toLower ≠ word := by
    have letters : ∀ word ∈ "nan".toList :: infinityWords,
        ∀ letter ∈ word, letter ∈ ['i', 'n', 'f', 't', 'y', 'a'] := by
      simp [infinityWords]
    rintro word isWord rfl
    exact noLetter (letters _ isWord _ lower)
  obtain ⟨notNan, notInfinite⟩ := List.forall_mem_cons.mp noWord
  simp only [readNumberChars?, readMagnitude?, Option.map_eq_none_iff]
  rw [if_neg, if_neg notNan, readDecimal?_foreign foreign _ inside, Option.map_none]
  intro isWord
  exact notInfinite _ (List.contains_iff_mem.mp isWord) rfl

end Foreign

theorem unbroken_of_readNumberChars? (text : List Char) (value : Float)
    (read : readNumberChars? text = some value) :
    text ≠ [] ∧ ∀ character ∈ text, isBlank character = false := by
  constructor
  · rintro rfl
    simp [readNumberChars?, readMagnitude?, splitSign, readDecimal?, infinityWords] at read
  · intro character member
    by_contra blank
    rw [Bool.not_eq_false] at blank
    rw [readNumberChars?_foreign (isForeign_of_isBlank character blank) text member] at read
    contradiction

theorem toList_call (name : String) : (name ++ "()").toList = name.toList ++ ['(', ')'] := by
  simp

theorem readNumber?_call (name : String) : readNumber? (name ++ "()") = none := by
  have foreign : isForeign ')' = true := by decide
  exact readNumberChars?_foreign foreign _ (by simp)

theorem ofSymbol?_call (name : String) : Operator.ofSymbol? (name ++ "()") = none := by
  rw [ofSymbol?_eq_none]
  intro operator same
  have lengths := congrArg (fun text => text.toList.length) same
  cases operator <;> simp [Operator.symbol] at lengths

theorem formulaTokens_append (left right : String) :
    formulaTokens (left ++ " " ++ right) = formulaTokens left ++ formulaTokens right := by
  simp [formulaTokens, words_append]

theorem formulaTokens_word (word : String) (nonempty : word ≠ "") (unbroken : Unbroken word) :
    formulaTokens word = [Token.ofWord word] := by
  simp [formulaTokens, words_unbroken word nonempty unbroken]

theorem ofWord_eq_number (word : String) (value : Float) :
    Token.ofWord word = .number value ↔ readNumber? word = some value := by
  rw [Token.ofWord]
  cases readNumber? word with
  | some other => simp
  | none =>
      cases Operator.ofSymbol? word with
      | some operator => simp
      | none => cases calledName? word <;> simp

theorem ofWord_eq_name (word name : String) :
    Token.ofWord word = .name name ↔
      word = name ∧ readNumber? word = none ∧ Operator.ofSymbol? word = none ∧
        calledName? word = none := by
  rw [Token.ofWord]
  cases readNumber? word with
  | some value => simp
  | none =>
      cases Operator.ofSymbol? word with
      | some operator => simp
      | none =>
          cases calledName? word with
          | some called => simp
          | none => simp

theorem calledName?_of_ofWord (word name : String) (isCall : Token.ofWord word = .call name) :
    calledName? word = some name := by
  rw [Token.ofWord] at isCall
  split at isCall
  · simp at isCall
  · split at isCall
    · simp at isCall
    · split at isCall
      · rename_i called found
        simp only [Token.call.injEq] at isCall
        rw [found, isCall]
      · simp at isCall

theorem isBlank_of_isAlphanum (character : Char) (inside : character.isAlphanum = true) :
    isBlank character = false := by
  have bounds : 48 ≤ character.toNat ∧ character.toNat ≤ 122 := by
    simp [Char.isAlphanum, Char.isAlpha, Char.isUpper, Char.isLower, Char.isDigit,
      UInt32.le_iff_toNat_le] at inside
    omega
  simp [isBlank, blankRanges]
  omega

theorem isBlank_of_isNumberChar (character : Char) (fine : isNumberChar character = true) :
    isBlank character = false := by
  simp only [isNumberChar, Bool.or_eq_true] at fine
  rcases fine with digit | letter
  · exact isBlank_of_isAlphanum character (by simp [Char.isAlphanum, digit])
  · simp at letter
    rcases letter with rfl | rfl | rfl | rfl | rfl | rfl | rfl | rfl <;> decide

theorem unbroken_showNumber (value : Float) : Unbroken (showNumber value) := by
  intro character member
  exact isBlank_of_isNumberChar character (showNumber_characters value character member)

theorem showNumber_ne_empty (value : Float) : showNumber value ≠ "" := by
  obtain ⟨first, rest, same, _⟩ := showNumber_begins value
  intro empty
  simp [empty] at same

theorem formulaTokens_constant (value : Float) :
    formulaTokens (showNumber value) = [.number value] := by
  rw [formulaTokens_word _ (showNumber_ne_empty value) (unbroken_showNumber value), Token.ofWord,
    readNumber?_showNumber]

theorem formulaTokens_name (name : String) (plain : PlainName name) :
    formulaTokens name = [.name name] := by
  rw [formulaTokens_word name plain.nonempty plain.unbroken]
  have token := (ofWord_eq_name name name).mpr ⟨rfl, plain.noNumber,
    (ofSymbol?_eq_none name).mpr plain.noOperator, (calledName?_eq_none name).mpr plain.noCall⟩
  rw [token]

theorem formulaTokens_symbol (operator : Operator) :
    formulaTokens operator.symbol = [.operator operator] := by
  have nonempty : operator.symbol ≠ "" := by cases operator <;> decide
  have unbroken : Unbroken operator.symbol := by
    cases operator <;> simp [Unbroken, Operator.symbol] <;> decide
  have noNumber : readNumber? operator.symbol = none := by cases operator <;> decide
  rw [formulaTokens_word _ nonempty unbroken, Token.ofWord, noNumber, Operator.ofSymbol_symbol]

theorem formulaTokens_call (name : String) (unbroken : Unbroken name) :
    formulaTokens (name ++ "()") = [.call name] := by
  have whole : Unbroken (name ++ "()") := by
    intro character member
    rw [toList_call] at member
    rcases List.mem_append.mp member with front | parentheses
    · exact unbroken character front
    · simp at parentheses
      rcases parentheses with rfl | rfl <;> decide
  have called := (calledName?_eq_some (name ++ "()") name).mpr (toList_call name)
  rw [formulaTokens_word _ (by simp) whole, Token.ofWord, readNumber?_call, ofSymbol?_call, called]

end PostfixSheet
