import PostfixSheet.Table.Dialect

/-! Counting lines while bytes are read in pieces. A carriage return and the line feed right behind it are
one line break, also when a cut falls between them. -/

namespace PostfixSheet

/-- The number of the line reached, and what the next byte has to know about the bytes before it. -/
structure LineCount where
  line : Nat := 1
  afterReturn : Bool := false
  atLineStart : Bool := true
  deriving DecidableEq, Repr

namespace LineCount

def passByte (count : LineCount) (byte : UInt8) : LineCount :=
  let breaks := byte == carriageReturn || byte == lineFeed && !count.afterReturn
  { count with
    line := if breaks then count.line + 1 else count.line
    afterReturn := byte == carriageReturn }

def pass (count : LineCount) (bytes : List UInt8) : LineCount :=
  let counted := bytes.foldl passByte count
  match bytes.getLast? with
  | some last => { counted with atLineStart := isLineBreak last }
  | none => counted

/-- The blank lines since an earlier count. The break that ends a line left open there ends no blank
line. -/
def blanksSince (count earlier : LineCount) : Nat :=
  count.line - earlier.line - if earlier.atLineStart then 0 else 1

end LineCount

structure Placement where
  line : Nat
  blankBefore : Nat
  deriving DecidableEq, Repr

/-- Places a record behind the lines counted so far, given all bytes that were read for it. -/
def LineCount.place (count : LineCount) (source : List UInt8) : Placement × LineCount :=
  let start := count.pass (source.takeWhile isLineBreak)
  (⟨start.line, start.blanksSince count⟩, start.pass (source.dropWhile isLineBreak))

end PostfixSheet
