/-! The written form of a table: which bytes separate, quote and escape its fields, and what ends its
lines. -/

namespace PostfixSheet

inductive Terminator
  | lf
  | crlf
  | cr
  deriving DecidableEq, Repr

def lineFeed : UInt8 := 10

def carriageReturn : UInt8 := 13

def isLineBreak (byte : UInt8) : Bool :=
  byte == carriageReturn || byte == lineFeed

def Terminator.bytes : Terminator → List UInt8
  | .lf => [lineFeed]
  | .crlf => [carriageReturn, lineFeed]
  | .cr => [carriageReturn]

/-- Without an escape byte, quotes are doubled inside quotes. With one, it is honored inside quotes when
reading, and takes the place of quotes when writing. -/
structure Dialect where
  delimiter : UInt8 := 44
  quote : UInt8 := 34
  escape : Option UInt8 := some 92
  terminator : Terminator := .lf
  deriving DecidableEq, Repr

end PostfixSheet
