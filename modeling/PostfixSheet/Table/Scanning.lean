import PostfixSheet.Table.Dialect

/-! Cutting bytes into records and fields. A scanner moves from state to state with every byte, and the
effect of the byte says what becomes of it. -/

namespace PostfixSheet

inductive ScanState
  | recordStart
  | fieldStart
  | unquoted
  | quoted
  | escaped
  | afterQuote
  deriving DecidableEq, Repr

inductive ScanEffect
  | drop
  | keep
  | endField
  | endRecord
  deriving DecidableEq, Repr

namespace Dialect

def scanUnquoted (dialect : Dialect) (byte : UInt8) : ScanState × ScanEffect :=
  if byte = dialect.delimiter then (.fieldStart, .endField)
  else if isLineBreak byte then (.recordStart, .endRecord)
  else (.unquoted, .keep)

def scanFieldStart (dialect : Dialect) (byte : UInt8) : ScanState × ScanEffect :=
  if byte = dialect.quote then (.quoted, .drop) else dialect.scanUnquoted byte

/-- One byte. Line breaks in front of a record are skipped, a quote only opens at the start of a field,
and of a quote and an escape that are the same byte the quote wins. -/
def scan (dialect : Dialect) : ScanState → UInt8 → ScanState × ScanEffect
  | .recordStart, byte =>
      if isLineBreak byte then (.recordStart, .drop) else dialect.scanFieldStart byte
  | .fieldStart, byte => dialect.scanFieldStart byte
  | .unquoted, byte => dialect.scanUnquoted byte
  | .quoted, byte =>
      if byte = dialect.quote then (.afterQuote, .drop)
      else if dialect.escape = some byte then (.escaped, .drop)
      else (.quoted, .keep)
  | .escaped, _ => (.quoted, .keep)
  | .afterQuote, byte =>
      if byte = dialect.quote ∧ dialect.escape = none then (.quoted, .keep)
      else dialect.scanUnquoted byte

end Dialect

/-- A record as bytes. Its source is all that was read for it: the line breaks skipped in front of it, and
the byte that ended it. -/
structure RawRecord where
  source : List UInt8
  fields : List (List UInt8)
  deriving DecidableEq, Repr

/-- A record that is being read; every list is in reverse. -/
structure OpenRecord where
  state : ScanState := .recordStart
  source : List UInt8 := []
  field : List UInt8 := []
  fields : List (List UInt8) := []

def OpenRecord.close (record : OpenRecord) : RawRecord :=
  ⟨record.source.reverse, (record.field.reverse :: record.fields).reverse⟩

/-- The records of the remaining bytes, and the bytes behind the last record. The end of the bytes ends a
record that has begun, even inside quotes. -/
def scanRecords (dialect : Dialect) : OpenRecord → List UInt8 → List RawRecord × List UInt8
  | record, [] =>
      if record.state = .recordStart then ([], record.source.reverse) else ([record.close], [])
  | record, byte :: rest =>
      let source := byte :: record.source
      match dialect.scan record.state byte with
      | (state, .drop) => scanRecords dialect { record with state, source } rest
      | (state, .keep) =>
          scanRecords dialect { record with state, source, field := byte :: record.field } rest
      | (state, .endField) =>
          let fields := record.field.reverse :: record.fields
          scanRecords dialect { state, source, field := [], fields } rest
      | (_, .endRecord) =>
          let (records, tail) := scanRecords dialect {} rest
          ({ record with source }.close :: records, tail)

def splitMark : List UInt8 → List UInt8 × List UInt8
  | 0xEF :: 0xBB :: 0xBF :: rest => ([0xEF, 0xBB, 0xBF], rest)
  | bytes => ([], bytes)

/-- The records of a document and the bytes behind the last one. Together with the sources of the records
they make up the document again. -/
def rawRecords (dialect : Dialect) (bytes : List UInt8) : List RawRecord × List UInt8 :=
  let (mark, rest) := splitMark bytes
  scanRecords dialect { source := mark.reverse } rest

end PostfixSheet
