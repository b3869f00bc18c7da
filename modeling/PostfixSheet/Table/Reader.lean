import PostfixSheet.Table.Document

/-! Reading a document record by record. Every read goes on scanning where the last one stopped, and counts
the lines of the bytes that were scanned for it. -/

namespace PostfixSheet

def slice? (bytes : List UInt8) (start stop : Nat) : Option (List UInt8) :=
  if start ≤ stop ∧ stop ≤ bytes.length then some ((bytes.take stop).drop start) else none

/-- A document that is being read: how far it has been scanned, and the offset up to which its lines have
been counted. -/
structure Reader where
  input : List UInt8
  point : ReadingPoint := {}
  counted : Nat := 0

namespace Reader

def scanned? (dialect : Dialect) (reader : Reader) : Option RawRecord :=
  let ahead := reader.input.drop reader.point.byte
  if reader.point.byte = 0 then (rawRecords dialect ahead).1.head?
  else (scanRecords dialect {} ahead).1.head?

def uncounted (reader : Reader) (stop : Nat) : List UInt8 :=
  (slice? reader.input reader.counted stop).getD []

/-- The next record and the reader behind it, or nothing at the end of the document. Offsets beyond the end
are taken back to it. -/
def read (dialect : Dialect) (reader : Reader) :
    Except UndecodableField (Option (Record × Reader)) :=
  match reader.scanned? dialect with
  | none => .ok none
  | some raw =>
      let point := reader.point
      match decodeFields 0 raw.fields with
      | .error (field, validLength) =>
          .error ⟨point.record, point.line, point.byte, field, validLength⟩
      | .ok fields =>
          let stop := min (point.byte + raw.source.length) reader.input.length
          let (placement, lines) := point.lines.place (reader.uncounted stop)
          .ok (some (⟨placement.line, placement.blankBefore, fields⟩,
            { reader with point := point.next lines raw.source, counted := stop }))

def finish (reader : Reader) : Nat × Reader :=
  let lines := reader.point.lines.pass (reader.uncounted reader.input.length)
  (lines.blanksSince reader.point.lines,
    { reader with point := { reader.point with lines }, counted := reader.input.length })

end Reader

end PostfixSheet
