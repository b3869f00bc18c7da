import PostfixSheet.Table.Lines
import PostfixSheet.Table.Scanning
import PostfixSheet.Text.Utf8

/-! Documents: the records of a table as text, each with the line on which it starts. -/

namespace PostfixSheet

structure Record where
  line : Nat
  blankBefore : Nat
  fields : List String
  deriving DecidableEq, Repr

/-- A field that is not UTF-8. The record is counted from zero, and line and byte are those at which the
reading of the record began, with lines counted by line feeds alone. -/
structure UndecodableField where
  record : Nat
  line : Nat
  byte : Nat
  field : Nat
  validLength : Nat
  deriving DecidableEq, Repr

/-- The records up to the end or to the first one that cannot be decoded, and the number of blank lines
behind the last one if there is no such record. -/
structure Document where
  records : List Record
  ending : Except UndecodableField Nat

structure ReadingPoint where
  lines : LineCount := {}
  record : Nat := 0
  line : Nat := 1
  byte : Nat := 0

def ReadingPoint.next (point : ReadingPoint) (lines : LineCount) (source : List UInt8) :
    ReadingPoint :=
  ⟨lines, point.record + 1, point.line + source.count lineFeed, point.byte + source.length⟩

def decodeFields : Nat → List (List UInt8) → Except (Nat × Nat) (List String)
  | _, [] => .ok []
  | index, field :: rest =>
      match decodeText field with
      | .error error => .error (index, error.validLength)
      | .ok text =>
          match decodeFields (index + 1) rest with
          | .error error => .error error
          | .ok texts => .ok (text :: texts)

def readFrom (tail : List UInt8) : ReadingPoint → List RawRecord → Document
  | point, [] => ⟨[], .ok ((point.lines.pass tail).blanksSince point.lines)⟩
  | point, raw :: rest =>
      match decodeFields 0 raw.fields with
      | .error (field, validLength) =>
          ⟨[], .error ⟨point.record, point.line, point.byte, field, validLength⟩⟩
      | .ok fields =>
          let (placement, lines) := point.lines.place raw.source
          let later := readFrom tail (point.next lines raw.source) rest
          { later with records := ⟨placement.line, placement.blankBefore, fields⟩ :: later.records }

def readDocument (dialect : Dialect) (bytes : List UInt8) : Document :=
  let (records, tail) := rawRecords dialect bytes
  readFrom tail {} records

end PostfixSheet
