import PostfixSheet.Cell.Column
import PostfixSheet.Number.Digits

/-! Cell addresses: a column label followed by a row number. Indices count from zero and row numbers
from one. -/

namespace PostfixSheet

structure Address where
  row : UInt32
  column : UInt32
  deriving DecidableEq, Repr, Inhabited

inductive AddressError
  | emptyAddress
  | noColumn (text : String)
  | column (letters : String) (cause : ColumnError)
  | noRow (text : String)
  | badRow (text : String)
  | rowZero (text : String)
  | lineOutOfRange (line : Nat)
  | fieldOutOfRange (field : Nat)
  deriving DecidableEq, Repr

def ColumnError.detail (letters : String) : ColumnError → String
  | .noLetters => "empty column letters"
  | .notALetter character => "invalid column letter '" ++ character.toString ++ "'"
  | .tooLarge => "column '" ++ letters ++ "' is too large"

def AddressError.detail : AddressError → String
  | .emptyAddress => "empty address"
  | .noColumn text => "no column letters in '" ++ text ++ "'"
  | .column letters cause => cause.detail letters
  | .noRow text => "no row number in '" ++ text ++ "'"
  | .badRow text => "invalid row number in '" ++ text ++ "'"
  | .rowZero text => "row number must be >= 1 in '" ++ text ++ "'"
  | .lineOutOfRange line => "row " ++ toString line
  | .fieldOutOfRange field => "column " ++ toString field

def AddressError.message (error : AddressError) : String :=
  "Invalid cell address: " ++ error.detail

/-- The label of the column with a given index. The last index shares the label of the one before it. -/
def labelOfIndex (column : UInt32) : String :=
  labelOfNumber (min (column.toNat + 1) maxIndex)

def indexOfLabel (letters : String) : Except AddressError UInt32 :=
  match readColumn letters.toList with
  | .ok number => .ok (UInt32.ofNat (number - 1))
  | .error cause => .error (.column letters cause)

def readRow (text : String) (digits : List Char) : Except AddressError UInt32 :=
  if digits.isEmpty then .error (.noRow text)
  else if !digits.all Char.isDigit then .error (.badRow text)
  else
    let row := digitsValue digits
    if maxIndex < row then .error (.badRow text)
    else if row = 0 then .error (.rowZero text)
    else .ok (UInt32.ofNat (row - 1))

def Address.parse (text : String) : Except AddressError Address :=
  let letters := text.toList.takeWhile Char.isAlpha
  if text.isEmpty then .error .emptyAddress
  else if letters.isEmpty then .error (.noColumn text)
  else
    match indexOfLabel (String.ofList letters) with
    | .error error => .error error
    | .ok column =>
        match readRow text (text.toList.dropWhile Char.isAlpha) with
        | .error error => .error error
        | .ok row => .ok ⟨row, column⟩

def Address.text (address : Address) : String :=
  labelOfIndex address.column ++ String.ofList (decimalDigits (address.row.toNat + 1))

def Address.precedes (left right : Address) : Bool :=
  decide (left.row < right.row ∨ left.row = right.row ∧ left.column ≤ right.column)

def dropRepeats : List Address → List Address
  | first :: second :: rest =>
      if first = second then dropRepeats (second :: rest) else first :: dropRepeats (second :: rest)
  | addresses => addresses

def sortAddresses (addresses : List Address) : List Address :=
  dropRepeats (addresses.mergeSort Address.precedes)

end PostfixSheet
