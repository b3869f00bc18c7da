import PostfixSheet.Command.Files
import PostfixSheet.Command.Request
import PostfixSheet.Table.Sink

/-! What the command does: a script of the files that it opens, up to an exit code and the texts that it
prints. -/

namespace PostfixSheet

structure Outcome where
  code : UInt32
  output : List UInt8 := []
  errors : String := ""

/-- One step after another on files. What follows a failure is given its message. -/
inductive Script
  | finish (outcome : Outcome)
  | create (path : String) (failed : String → Script) (next : Script)
  | load (path : String) (failed : String → Script) (next : List UInt8 → Script)
  | save (path : String) (bytes : List UInt8) (failed : String → Script) (next : Script)

/-- What is written to the standard output or the standard error is printed in front of the rest. -/
def Outcome.behind (outcome : Outcome) (target : Except PathFault Place) (bytes : List UInt8) :
    Outcome :=
  match target with
  | .error _ => outcome
  | .ok place =>
      if place = standardOutput then { outcome with output := bytes ++ outcome.output }
      else if place = standardError then
        { outcome with errors := (decodeText bytes).toOption.getD "" ++ outcome.errors }
      else outcome

def Script.runOn : Script → Files → Outcome × Files
  | .finish outcome, files => (outcome, files)
  | .create path failed next, files =>
      match files.write path [] with
      | .ok created => next.runOn created
      | .error fault => (failed fault.message).runOn files
  | .load path failed next, files =>
      match files.read path with
      | .ok bytes => (next bytes).runOn files
      | .error fault => (failed fault.message).runOn files
  | .save path bytes failed next, files =>
      match files.write path bytes with
      | .ok saved =>
          let (outcome, final) := next.runOn saved
          (outcome.behind (files.follow path (Files.writtenNames path)) bytes, final)
      | .error fault => (failed fault.message).runOn files

def causeLines : List String → List String
  | [] => []
  | [cause] => ["", "Caused by:", "    " ++ cause]
  | causes =>
      ["", "Caused by:"] ++
        causes.mapIdx fun index cause => "    " ++ toString index ++ ": " ++ cause

def failure (message : String) (causes : List String) : Outcome :=
  { code := 1, errors := linesText (("Error: " ++ message) :: causeLines causes) }

def EvaluateRequest.evaluator (request : EvaluateRequest) : Evaluator where
  settings :=
    { delimiter := UInt8.ofNat request.delimiter.toNat
      escape := if request.escaping then some 92 else none
      errorText := request.errorText }

def EvaluateRequest.failed (request : EvaluateRequest) (fault : Fault) : Outcome :=
  failure ("Failed to evaluate '" ++ request.input ++ "'") fault.messages

def summary (statistics : Statistics) : String :=
  "Evaluated " ++ toString statistics.formulas ++ " formulas (" ++ toString statistics.errors ++
    " errors)\n"

def EvaluateRequest.printScript (request : EvaluateRequest) : Script :=
  .load request.input (fun text => .finish (request.failed (.io text))) fun bytes =>
    let run := request.evaluator.run bytes
    match run.result with
    | .ok statistics => .finish { code := 0, output := run.output, errors := summary statistics }
    | .error fault => .finish { request.failed fault with output := run.output }

def EvaluateRequest.saved (request : EvaluateRequest) (path : String) :
    Except Fault Statistics → Outcome
  | .ok statistics =>
      let written := "Wrote " ++ toString statistics.rows ++ " rows to '" ++ path ++ "'\n"
      { code := 0, errors := written ++ summary statistics }
  | .error fault => request.failed fault

/-- A buffer in front of a file that refuses everything: it takes its fill, and fails when it is full or
flushed. -/
def bufferedRefusal (refusal : String) : Sink where
  room := some 8192
  refusal := refusal
  flushFailure := some refusal

/-- Evaluates into a file, which is created before the input is read. -/
def EvaluateRequest.saveScript (request : EvaluateRequest) (path : String) : Script :=
  let refused := fun text => Script.finish (failure ("Failed to create '" ++ path ++ "'") [text])
  let unreadable := fun text => Script.finish (request.failed (.io text))
  .create path refused <| .load request.input unreadable fun bytes =>
    let run := request.evaluator.run bytes
    let unsaved := fun text =>
      Script.finish (request.saved path ((bufferedRefusal text).deliver run).result)
    .save path run.output unsaved <| .finish (request.saved path run.result)

def EvaluateRequest.script (request : EvaluateRequest) : Script :=
  if 0x80 ≤ request.delimiter.toNat then
    .finish (failure ("Delimiter must be a single ASCII character: " ++
      quoted '\'' request.delimiter.toString) [])
  else
    match request.output with
    | none => request.printScript
    | some path => request.saveScript path

def inspection (formula : Formula) (lookup : Lookup) : List String :=
  [ "Infix:        " ++ formula.infixText,
    "Postfix:      " ++ formula.postfixText,
    "Operations:   " ++ toString formula.operationCount,
    "Dependencies: " ++ ", ".intercalate formula.dependencies.toList,
    "Optimized:    " ++ (formula.fold lookup).infixText,
    "Value:        " ++
      match formula.eval lookup with
      | .ok value => showNumber value
      | .error error => error.message ]

def inspectionOutcome (text : String) (values : List (String × Float)) : Outcome :=
  match parseFormula .builtin (formulaBody text) with
  | .error error => failure ("Failed to parse '" ++ text ++ "'") [error.message]
  | .ok formula =>
      { code := 0
        output := encodeText (linesText (inspection formula (Bindings.ofList values).get?)) }

def Request.script : Request → Script
  | .evaluate request => request.script
  | .inspect formula values => .finish (inspectionOutcome formula values)
  | .functions =>
      .finish { code := 0, output := encodeText (linesText (Registry.builtin.names.map (· ++ "()"))) }
  | .version => .finish { code := 0, output := encodeText "rpn-sheets 0.1.0\n" }
  | .help text => .finish { code := 0, output := encodeText text }

def commandScript (words : List String) : Script :=
  match readRequest words with
  | .ok request => request.script
  | .error error => .finish { code := 2, errors := "error: " ++ error.message ++ "\n" }

end PostfixSheet
