import PostfixSheet.Number.Decimal

/-! Reading a double from text: an optional sign, then a word for infinity or for what is not a number
in any letter case, or ASCII digits with an optional point and an optional exponent. -/

namespace PostfixSheet

def splitSign : List Char → Bool × List Char
  | '-' :: rest => (true, rest)
  | '+' :: rest => (false, rest)
  | text => (false, text)

def readExponent? : List Char → Option Int
  | [] => some 0
  | mark :: rest =>
      let (negative, digits) := splitSign rest
      if (mark == 'e' || mark == 'E') && !digits.isEmpty && digits.all Char.isDigit then
        some (if negative then -(digitsValue digits : Int) else digitsValue digits)
      else none

def readDecimal? (text : List Char) : Option Decimal :=
  let whole := text.takeWhile Char.isDigit
  let behindWhole := text.dropWhile Char.isDigit
  let behindPoint := match behindWhole with
    | '.' :: rest => rest
    | _ => []
  let fraction := behindPoint.takeWhile Char.isDigit
  let ending := match behindWhole with
    | '.' :: _ => behindPoint.dropWhile Char.isDigit
    | _ => behindWhole
  if whole.isEmpty && fraction.isEmpty then none
  else (readExponent? ending).map fun exponent =>
    ⟨digitsValue (whole ++ fraction), exponent - fraction.length⟩

def infinityWords : List (List Char) :=
  ["inf".toList, "infinity".toList]

def readMagnitude? (text : List Char) : Option Nat :=
  let lower := text.map Char.toLower
  if infinityWords.contains lower then some infiniteRank
  else if lower = "nan".toList then some (infiniteRank + Nat.pow 2 51)
  else (readDecimal? text).map Decimal.rank

def readNumberChars? (text : List Char) : Option Float :=
  let (negative, magnitude) := splitSign text
  (readMagnitude? magnitude).map (floatOfRank negative)

def readNumber? (text : String) : Option Float :=
  readNumberChars? text.toList

end PostfixSheet
