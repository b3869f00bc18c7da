import PostfixSheet.Command.Arguments
import PostfixSheet.Command.Usage
import PostfixSheet.Number.Reading
import PostfixSheet.Text.Blank

/-! What the words of a command line ask for. -/

namespace PostfixSheet

structure EvaluateRequest where
  input : String
  output : Option String := none
  delimiter : Char := ','
  errorText : String := "#N/A"
  escaping : Bool := true
  deriving DecidableEq, Repr

inductive Request
  | evaluate (request : EvaluateRequest)
  | inspect (formula : String) (values : List (String × Float))
  | functions
  | version
  | help (text : String)

def readBinding? (text : String) : Option (String × Float) :=
  let name := text.toList.takeWhile (· != '=')
  match text.toList.dropWhile (· != '=') with
  | [] => none
  | _ :: value =>
      if name.isEmpty then none
      else (readNumberChars? (trimBlanks value)).map (String.ofList name, ·)

def singleChar? (text : String) : Option Char :=
  match text.toList with
  | [character] => some character
  | _ => none

def isPath (text : String) : Bool :=
  !text.isEmpty

def evaluateSpec : CommandSpec where
  operands := [isPath]
  options := [
    { long := "output", short := some 'o', accepts := isPath },
    { long := "delimiter", short := some 'd', accepts := fun text => (singleChar? text).isSome },
    { long := "error-text" },
    { long := "no-escape", takesValue := false }]

def inspectSpec : CommandSpec where
  operands := [fun _ => true]
  options := [
    { long := "var", repeatable := true, accepts := fun text => (readBinding? text).isSome }]

def functionsSpec : CommandSpec where
  operands := []
  options := []

def evaluateRequest (words : CommandWords) (input : String) : EvaluateRequest where
  input := input
  output := words.value? "output"
  delimiter := ((words.value? "delimiter").bind singleChar?).getD ','
  errorText := (words.value? "error-text").getD "#N/A"
  escaping := !words.has "no-escape"

def requestOfWords (usage : String) (words : Except WordsError CommandWords)
    (request : CommandWords → Option Request) : Except WordsError Request :=
  match words with
  | .error .help => .ok (.help usage)
  | .error error => .error error
  | .ok words =>
      match request words with
      | some request => .ok request
      | none => .error .missingOperand

def helpRequest : List String → Except WordsError Request
  | [] => .ok (.help mainUsage)
  | ["help"] => .ok (.help mainUsage)
  | ["eval"] => .ok (.help evaluateUsage)
  | ["inspect"] => .ok (.help inspectUsage)
  | ["functions"] => .ok (.help functionsUsage)
  | words => .error (.unexpected (" ".intercalate words))

/-- Options in front of the command. Of several in one word the first one is carried out. -/
def leadingOption (word : String) : Except WordsError Request :=
  match word.toList with
  | '-' :: 'V' :: _ => .ok .version
  | '-' :: 'h' :: _ => .ok (.help mainUsage)
  | _ =>
      if word = "--version" then .ok .version
      else if word = "--help" then .ok (.help mainUsage)
      else .error (.unexpected word)

def readRequest : List String → Except WordsError Request
  | [] => .error .noCommand
  | "eval" :: words =>
      requestOfWords evaluateUsage (evaluateSpec.read words) fun words =>
        words.operands.head?.map fun input => .evaluate (evaluateRequest words input)
  | "inspect" :: words =>
      requestOfWords inspectUsage (inspectSpec.read words) fun words =>
        words.operands.head?.map fun formula =>
          .inspect formula ((words.values "var").filterMap readBinding?)
  | "functions" :: words =>
      requestOfWords functionsUsage (functionsSpec.read words) fun _ => some .functions
  | "help" :: words => helpRequest words
  | word :: _ => leadingOption word

end PostfixSheet
