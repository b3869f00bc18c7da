/-! Reading command-line words into operands and options. Options stand anywhere among the operands, a
value follows its option or is attached to it, and two hyphens end the options. -/

namespace PostfixSheet

structure OptionSpec where
  long : String
  short : Option Char := none
  takesValue : Bool := true
  repeatable : Bool := false
  accepts : String → Bool := fun _ => true

structure CommandSpec where
  operands : List (String → Bool)
  options : List OptionSpec

structure CommandWords where
  operands : List String := []
  options : List (String × String) := []
  deriving DecidableEq, Repr

inductive WordsError
  | help
  | unexpected (word : String)
  | missingValue (option : String)
  | badValue (name value : String)
  | repeated (option : String)
  | missingOperand
  | noCommand
  deriving DecidableEq, Repr

def WordsError.message : WordsError → String
  | .help => "help requested"
  | .unexpected word => "unexpected argument '" ++ word ++ "' found"
  | .missingValue option => "a value is required for '--" ++ option ++ "' but none was supplied"
  | .badValue name value => "invalid value '" ++ value ++ "' for '" ++ name ++ "'"
  | .repeated option => "the argument '--" ++ option ++ "' cannot be used multiple times"
  | .missingOperand => "a required argument was not provided"
  | .noCommand => "a subcommand is required"

namespace CommandWords

def values (words : CommandWords) (long : String) : List String :=
  (words.options.filter fun option => option.1 == long).map Prod.snd

def value? (words : CommandWords) (long : String) : Option String :=
  (words.values long).head?

def has (words : CommandWords) (long : String) : Bool :=
  !(words.values long).isEmpty

def addOption (words : CommandWords) (spec : OptionSpec) (value : String) :
    Except WordsError CommandWords :=
  if !spec.accepts value then .error (.badValue spec.long value)
  else if !spec.repeatable && words.has spec.long then .error (.repeated spec.long)
  else .ok { words with options := words.options ++ [(spec.long, value)] }

def addOperand (words : CommandWords) (spec : CommandSpec) (word : String) :
    Except WordsError CommandWords :=
  match spec.operands[words.operands.length]? with
  | none => .error (.unexpected word)
  | some accepts =>
      if accepts word then .ok { words with operands := words.operands ++ [word] }
      else .error (.badValue "operand" word)

def addOperands (words : CommandWords) (spec : CommandSpec) :
    List String → Except WordsError CommandWords
  | [] => .ok words
  | word :: rest =>
      match words.addOperand spec word with
      | .ok next => next.addOperands spec rest
      | .error error => .error error

end CommandWords

abbrev WordsState := CommandWords × Option OptionSpec

def CommandSpec.readLong (spec : CommandSpec) (words : CommandWords) (word : List Char) :
    Except WordsError WordsState :=
  let name := String.ofList (word.takeWhile (· != '='))
  let attached := (word.dropWhile (· != '=')).tail?.map String.ofList
  if name = "help" ∧ attached = none then .error .help
  else
    match spec.options.find? (·.long == name), attached with
    | none, _ => .error (.unexpected ("--" ++ String.ofList word))
    | some option, none =>
        if option.takesValue then .ok (words, some option)
        else (words.addOption option "").map (·, none)
    | some option, some value =>
        if option.takesValue then (words.addOption option value).map (·, none)
        else .error (.unexpected value)

/-- Options of one letter may share a word; the first one that takes a value takes the rest of it. -/
def CommandSpec.readShort (spec : CommandSpec) (words : CommandWords) :
    List Char → Except WordsError WordsState
  | [] => .ok (words, none)
  | letter :: rest =>
      if letter = 'h' then .error .help
      else
        match spec.options.find? (·.short == some letter) with
        | none => .error (.unexpected ("-" ++ letter.toString))
        | some option =>
            if option.takesValue then
              match rest with
              | [] => .ok (words, some option)
              | '=' :: value => (words.addOption option (String.ofList value)).map (·, none)
              | value => (words.addOption option (String.ofList value)).map (·, none)
            else
              match words.addOption option "" with
              | .ok next => spec.readShort next rest
              | .error error => .error error

def CommandSpec.readWord (spec : CommandSpec) (words : CommandWords) (word : String) :
    Except WordsError WordsState :=
  match word.toList with
  | '-' :: '-' :: rest => spec.readLong words rest
  | '-' :: letter :: rest => spec.readShort words (letter :: rest)
  | _ => (words.addOperand spec word).map (·, none)

def isOptionWord (word : String) : Bool :=
  match word.toList with
  | '-' :: _ :: _ => true
  | _ => false

def CommandSpec.complete (spec : CommandSpec) (words : CommandWords) :
    Except WordsError CommandWords :=
  if words.operands.length < spec.operands.length then .error .missingOperand else .ok words

def CommandSpec.readFrom (spec : CommandSpec) (words : CommandWords) :
    Option OptionSpec → List String → Except WordsError CommandWords
  | some option, [] => .error (.missingValue option.long)
  | none, [] => spec.complete words
  | some option, word :: rest =>
      if isOptionWord word then .error (.missingValue option.long)
      else
        match words.addOption option word with
        | .ok next => spec.readFrom next none rest
        | .error error => .error error
  | none, word :: rest =>
      if word = "--" then
        match words.addOperands spec rest with
        | .ok next => spec.complete next
        | .error error => .error error
      else
        match spec.readWord words word with
        | .ok (next, waiting) => spec.readFrom next waiting rest
        | .error error => .error error

def CommandSpec.read (spec : CommandSpec) (words : List String) : Except WordsError CommandWords :=
  spec.readFrom {} none words

end PostfixSheet
