/-! Blank characters are those with the Unicode property White_Space. The words of a text are its
maximal runs of other characters, and trimming drops the blanks at both ends. -/

namespace PostfixSheet

def blankRanges : List (Nat × Nat) :=
  [(0x09, 0x0D), (0x20, 0x20), (0x85, 0x85), (0xA0, 0xA0), (0x1680, 0x1680), (0x2000, 0x200A),
    (0x2028, 0x2029), (0x202F, 0x202F), (0x205F, 0x205F), (0x3000, 0x3000)]

def isBlank (character : Char) : Bool :=
  blankRanges.any fun range => decide (range.1 ≤ character.toNat ∧ character.toNat ≤ range.2)

def closeWord (current : List Char) (later : List (List Char)) : List (List Char) :=
  if current.isEmpty then later else current.reverse :: later

def wordsFrom : List Char → List Char → List (List Char)
  | current, [] => closeWord current []
  | current, character :: rest =>
      if isBlank character then closeWord current (wordsFrom [] rest)
      else wordsFrom (character :: current) rest

def words (text : String) : List String :=
  (wordsFrom [] text.toList).map String.ofList

def trimBlanks (text : List Char) : List Char :=
  ((text.dropWhile isBlank).reverse.dropWhile isBlank).reverse

end PostfixSheet
