import PostfixSheet.Table.Dialect
import PostfixSheet.Text.Utf8

/-! Writing records. With an escape byte, fields are never quoted and every record is one line; without
one, fields are quoted only where they have to be. -/

namespace PostfixSheet

namespace Dialect

def escapeByte (dialect : Dialect) (escape byte : UInt8) : List UInt8 :=
  if byte = carriageReturn then [escape, 114]
  else if byte = lineFeed then [escape, 110]
  else if byte = dialect.delimiter ∨ byte = escape then [escape, byte]
  else [byte]

def needsQuotes (dialect : Dialect) (field : List UInt8) : Bool :=
  field.any fun byte => byte == dialect.delimiter || byte == dialect.quote || isLineBreak byte

def quoteField (dialect : Dialect) (field : List UInt8) : List UInt8 :=
  let doubled := field.flatMap fun byte => if byte = dialect.quote then [byte, byte] else [byte]
  dialect.quote :: (doubled ++ [dialect.quote])

def encodeField (dialect : Dialect) (field : List UInt8) : List UInt8 :=
  match dialect.escape with
  | some escape => field.flatMap (dialect.escapeByte escape)
  | none => if dialect.needsQuotes field then dialect.quoteField field else field

/-- A record without its terminator. One that would leave no bytes is written as two quotes, so that it is
not taken for a blank line. -/
def recordBody (dialect : Dialect) (fields : List String) : List UInt8 :=
  let encoded := fields.map fun field => dialect.encodeField (encodeText field)
  let body := [dialect.delimiter].intercalate encoded
  if body.isEmpty then [dialect.quote, dialect.quote] else body

def encodeRecord (dialect : Dialect) (fields : List String) : List UInt8 :=
  dialect.recordBody fields ++ dialect.terminator.bytes

end Dialect

end PostfixSheet
