import PostfixSheet.Formula.Evaluation
import PostfixSheet.Table.Encoding
import PostfixSheet.Table.Fault

/-! Evaluating the formulas of a table. Cells are visited line by line and from left to right, and a
formula sees the values of the cells before it under their addresses. -/

namespace PostfixSheet

structure Settings extends Dialect where
  formulaPrefix : Char := '='
  errorText : String := "#N/A"

structure Evaluator where
  settings : Settings := {}
  functions : Registry := .builtin

/-- What a cell holds: text that may read as a number, or a formula with its value or its error. -/
inductive CellResult
  | plain (value : Option Float)
  | computed (value : Float)
  | failed (error : FormulaError)

def CellResult.value? : CellResult → Option Float
  | .plain value => value
  | .computed value => some value
  | .failed _ => none

structure Cell where
  address : Address
  text : String
  result : CellResult

def Settings.formula? (settings : Settings) (text : String) : Option String :=
  match text.toList with
  | first :: rest => if first = settings.formulaPrefix then some (String.ofList rest) else none
  | [] => none

def plainValue? (text : String) : Option Float :=
  readNumberChars? (trimBlanks text.toList)

def Evaluator.result (evaluator : Evaluator) (lookup : Lookup) (text : String) : CellResult :=
  match evaluator.settings.formula? text with
  | none => .plain (plainValue? text)
  | some formula =>
      match formulaValue evaluator.functions lookup formula with
      | .ok value => .computed value
      | .error error => .failed error

def Cell.output (settings : Settings) (cell : Cell) : String :=
  match cell.result with
  | .plain _ => cell.text
  | .computed value => showNumber value
  | .failed _ => settings.errorText

def Bindings.bindCell (bindings : Bindings) (cell : Cell) : Bindings :=
  match cell.result.value? with
  | some value => bindings.set cell.address.text value
  | none => bindings

def Evaluator.cells (evaluator : Evaluator) (row : UInt32) :
    Nat → Bindings → List String → List Cell × Bindings
  | _, bindings, [] => ([], bindings)
  | column, bindings, text :: rest =>
      let cell : Cell := ⟨⟨row, UInt32.ofNat column⟩, text, evaluator.result bindings.get? text⟩
      let (cells, final) := evaluator.cells row (column + 1) (bindings.bindCell cell) rest
      (cell :: cells, final)

structure Statistics where
  rows : Nat := 0
  cells : Nat := 0
  formulas : Nat := 0
  evaluated : Nat := 0
  errors : Nat := 0
  deriving DecidableEq, Repr

def Statistics.addCell (statistics : Statistics) (cell : Cell) : Statistics :=
  let counted := { statistics with cells := statistics.cells + 1 }
  match cell.result with
  | .plain _ => counted
  | .computed _ =>
      { counted with formulas := counted.formulas + 1, evaluated := counted.evaluated + 1 }
  | .failed _ => { counted with formulas := counted.formulas + 1, errors := counted.errors + 1 }

def Statistics.addRows (statistics : Statistics) (rows : Nat) : Statistics :=
  { statistics with rows := statistics.rows + rows }

inductive Event
  | bound (name : String) (value : Float)
  | failed (name : String) (error : FormulaError)

def Event.text : Event → String
  | .bound name value => "TRACE " ++ name ++ " = " ++ numberText logStyle value
  | .failed name error => "DEBUG " ++ name ++ ": " ++ error.message

def Cell.event? (cell : Cell) : Option Event :=
  match cell.result with
  | .plain (some value) => some (.bound cell.address.text value)
  | .plain none => none
  | .computed value => some (.bound cell.address.text value)
  | .failed error => some (.failed cell.address.text error)

inductive Action
  | report (event : Event)
  | write (bytes : List UInt8)

def Action.write? : Action → Option (List UInt8)
  | .report _ => none
  | .write bytes => some bytes

/-- Everything that an evaluation does, in order, and how it ends. Each write is one record or one blank
line, with its terminator. -/
structure Run where
  actions : List Action
  result : Except Fault Statistics

def Run.after (actions : List Action) (run : Run) : Run :=
  { run with actions := actions ++ run.actions }

def blankLines (dialect : Dialect) (count : Nat) : List Action :=
  List.replicate count (.write dialect.terminator.bytes)

def reports (cells : List Cell) : List Action :=
  (cells.filterMap Cell.event?).map .report

/-- Evaluates the records behind what the bindings and the statistics hold. Rows and columns run out at
the largest index. -/
def Evaluator.runFrom (evaluator : Evaluator) (ending : Except UndecodableField Nat) :
    Bindings → Statistics → List Record → Run
  | _, statistics, [] =>
      match ending with
      | .error field => ⟨[], .error (.undecodable field)⟩
      | .ok trailing =>
          ⟨blankLines evaluator.settings.toDialect trailing, .ok (statistics.addRows trailing)⟩
  | bindings, statistics, record :: rest =>
      let blanks := blankLines evaluator.settings.toDialect record.blankBefore
      if maxIndex < record.line - 1 then ⟨blanks, .error (.address (.lineOutOfRange record.line))⟩
      else
        let row := UInt32.ofNat (record.line - 1)
        let (cells, final) := evaluator.cells row 0 bindings (record.fields.take (maxIndex + 1))
        if maxIndex + 1 < record.fields.length then
          ⟨blanks ++ reports cells, .error (.address (.fieldOutOfRange (maxIndex + 2)))⟩
        else
          let line := evaluator.settings.encodeRecord (cells.map (Cell.output evaluator.settings))
          let counted := (cells.foldl Statistics.addCell statistics).addRows (record.blankBefore + 1)
          (evaluator.runFrom ending final counted rest).after
            (blanks ++ reports cells ++ [.write line])

def Evaluator.run (evaluator : Evaluator) (bytes : List UInt8) : Run :=
  let document := readDocument evaluator.settings.toDialect bytes
  evaluator.runFrom document.ending .empty {} document.records

def Run.writes (run : Run) : List (List UInt8) :=
  run.actions.filterMap Action.write?

def Run.output (run : Run) : List UInt8 :=
  run.writes.flatten

def Evaluator.evaluateText (evaluator : Evaluator) (text : String) : Except Fault String :=
  let run := evaluator.run (encodeText text)
  match run.result with
  | .error fault => .error fault
  | .ok _ =>
      match decodeText run.output with
      | .ok output => .ok output
      | .error error => .error (.badOutput error)

end PostfixSheet
