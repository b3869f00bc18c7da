import PostfixSheet.Command.Request

/-! The option that names an output among the words of an evaluation. Without it and its value the other
words are read as before. -/

namespace PostfixSheet

def outputWord? (word : String) : Option Bool :=
  match word.toList with
  | '-' :: '-' :: rest =>
      if String.ofList (rest.takeWhile (· != '=')) = "output" then
        some (rest.dropWhile (· != '=')).isEmpty
      else none
  | '-' :: 'o' :: rest => some rest.isEmpty
  | _ => none

/-- Leaves out the option that names an output, and its value, which may be what the words begin with. -/
def withoutOutput : Bool → List String → List String
  | _, [] => []
  | true, _ :: rest => withoutOutput false rest
  | false, word :: rest =>
      if word = "--" then word :: rest
      else
        match outputWord? word with
        | some waiting => withoutOutput waiting rest
        | none => word :: withoutOutput false rest

namespace CommandWords

def without (words : CommandWords) (name : String) : CommandWords :=
  { words with options := words.options.filter fun option => option.1 != name }

variable {words next : CommandWords} {name : String}

theorem values_without {long : String} (different : long ≠ name) (words : CommandWords) :
    (words.without name).values long = words.values long := by
  simp only [values, without, List.filter_filter]
  congr 1
  refine List.filter_congr fun option _ => ?_
  by_cases same : option.1 = long
  · simp [same, different]
  · simp [same]

theorem without_addOption {option : OptionSpec} {value : String}
    (added : words.addOption option value = .ok next) (name : String) :
    (option.long = name → next.without name = words.without name) ∧
      (option.long ≠ name → (words.without name).addOption option value = .ok (next.without name)) := by
  simp only [addOption] at added ⊢
  split at added
  · simp at added
  · rename_i accepted
    split at added
    · simp at added
    · rename_i single
      cases added
      constructor
      · rintro rfl
        simp [without]
      · intro different
        have kept : (words.without name).has option.long = words.has option.long := by
          rw [has, values_without different, has]
        rw [if_neg accepted, kept, if_neg single]
        simp [without, different]

theorem without_addOperand {spec : CommandSpec} {word : String}
    (added : words.addOperand spec word = .ok next) :
    (words.without name).addOperand spec word = .ok (next.without name) := by
  simp only [addOperand, without] at added ⊢
  split at added
  · simp at added
  · split at added
    · rename_i accepted
      cases added
      rw [if_pos accepted]
    · simp at added

theorem without_addOperands {spec : CommandSpec} (operands : List String)
    (added : words.addOperands spec operands = .ok next) :
    (words.without name).addOperands spec operands = .ok (next.without name) := by
  induction operands generalizing words with
  | nil =>
      cases added
      rfl
  | cons word rest ih =>
      simp only [addOperands] at added ⊢
      cases first : words.addOperand spec word with
      | error fault => simp [first] at added
      | ok middle =>
          simp only [first] at added
          simp only [without_addOperand first, ih added]

theorem without_complete {spec : CommandSpec} (completed : spec.complete words = .ok next) :
    spec.complete (words.without name) = .ok (next.without name) := by
  simp only [CommandSpec.complete] at completed ⊢
  split at completed
  · simp at completed
  · rename_i enough
    cases completed
    exact if_neg enough

end CommandWords

namespace WordsState

def without (state : WordsState) (name : String) : WordsState :=
  (state.1.without name, state.2.filter fun option => option.long != name)

def awaits (state : WordsState) (name : String) : Bool :=
  state.2.any fun option => option.long == name

end WordsState

def CommandWords.give (words : CommandWords) (option : OptionSpec) :
    Option String → Except WordsError WordsState
  | none => .ok (words, some option)
  | some value => (words.addOption option value).map (·, none)

theorem CommandWords.without_give {words : CommandWords} {option : OptionSpec} {value : Option String}
    {state : WordsState} (given : words.give option value = .ok state) (name : String) :
    (option.long = name →
      state.without name = (words.without name, none) ∧ state.awaits name = value.isNone) ∧
    (option.long ≠ name →
      (words.without name).give option value = .ok (state.without name) ∧ state.awaits name = false) := by
  cases value with
  | none =>
      cases given
      simp +contextual [give, WordsState.without, WordsState.awaits, Option.filter]
  | some value =>
      simp only [give] at given ⊢
      cases added : words.addOption option value with
      | error fault => simp [added, Except.map] at given
      | ok next =>
          simp only [added, Except.map, Except.ok.injEq] at given
          subst given
          refine ⟨fun same => ⟨?_, rfl⟩, fun different => ⟨?_, rfl⟩⟩
          · rw [WordsState.without, (without_addOption added name).1 same]
            rfl
          · rw [(without_addOption added name).2 different]
            rfl

namespace CommandSpec

variable {words : CommandWords} {state : WordsState}

theorem readLong_given (spec : CommandSpec) (word : List Char)
    (read : spec.readLong words word = .ok state) :
    ∃ option value,
      spec.options.find? (·.long == String.ofList (word.takeWhile (· != '='))) = some option ∧
      (option.takesValue = true → value.isNone = (word.dropWhile (· != '=')).isEmpty) ∧
      ∀ words, spec.readLong words word = words.give option value := by
  simp only [readLong] at read ⊢
  split at read
  · simp at read
  · rename_i noHelp
    simp only [if_neg noHelp]
    cases found : spec.options.find? (·.long == String.ofList (word.takeWhile (· != '='))) with
    | none => simp [found] at read
    | some option =>
        cases behind : word.dropWhile (· != '=') with
        | nil =>
            by_cases takes : option.takesValue
            · exact ⟨option, none, rfl, fun _ => rfl, fun words => by simp [takes, CommandWords.give]⟩
            · exact ⟨option, some "", rfl, fun takesValue => (takes takesValue).elim,
                fun words => by simp [takes, CommandWords.give]⟩
        | cons equals value =>
            by_cases takes : option.takesValue
            · exact ⟨option, some (String.ofList value), rfl, fun _ => rfl,
                fun words => by simp [takes, CommandWords.give]⟩
            · simp [found, behind, takes] at read

theorem readShort_given (letter : Char) (rest : List Char)
    (read : evaluateSpec.readShort words (letter :: rest) = .ok state) :
    ∃ option value, (option.long = "output" ↔ letter = 'o') ∧ value.isNone = rest.isEmpty ∧
      ∀ words, evaluateSpec.readShort words (letter :: rest) = words.give option value := by
  simp only [readShort] at read ⊢
  split at read
  · simp at read
  · rename_i noHelp
    simp only [if_neg noHelp]
    cases found : evaluateSpec.options.find? (·.short == some letter) with
    | none => simp [found] at read
    | some option =>
        have takes : option.takesValue = true ∧ (option.long = "output" ↔ letter = 'o') := by
          have member := List.mem_of_find?_eq_some found
          have short : option.short = some letter := by simpa using List.find?_some found
          simp only [evaluateSpec, List.mem_cons, List.not_mem_nil, or_false] at member
          rcases member with rfl | rfl | rfl | rfl
          · obtain rfl := Option.some.inj short
            exact ⟨rfl, by simp⟩
          · obtain rfl := Option.some.inj short
            exact ⟨rfl, by simp⟩
          · simp at short
          · simp at short
        simp only [takes.1, if_true]
        refine ⟨option, ?_⟩
        split
        · exact ⟨none, takes.2, rfl, fun _ => rfl⟩
        · exact ⟨some _, takes.2, rfl, fun _ => rfl⟩
        · rename_i visible _
          exact ⟨some _, takes.2, by simpa using visible, fun _ => rfl⟩

theorem readWord_given (word : String) (read : evaluateSpec.readWord words word = .ok state) :
    (∃ option value,
      outputWord? word = (if option.long = "output" then some value.isNone else none) ∧
      ∀ words, evaluateSpec.readWord words word = words.give option value) ∨
    (outputWord? word = none ∧
      ∀ words, evaluateSpec.readWord words word =
        (words.addOperand evaluateSpec word).map (·, none)) := by
  unfold readWord outputWord? at *
  split at read
  · rename_i rest letters
    obtain ⟨option, value, found, takes, given⟩ := readLong_given evaluateSpec rest read
    refine Or.inl ⟨option, value, ?_, by simpa only [letters] using given⟩
    have named : option.long = String.ofList (rest.takeWhile (· != '=')) := by
      simpa using List.find?_some found
    by_cases output : option.long = "output"
    · rw [← named, output] at found
      cases found
      simp [letters, ← named, takes rfl]
    · simp [letters, ← named, output]
  · rename_i letter rest short letters
    obtain ⟨option, value, output, detached, given⟩ := readShort_given letter rest read
    refine Or.inl ⟨option, value, ?_, by simpa only [letters] using given⟩
    by_cases first : letter = 'o'
    · subst first
      simp [letters, output.mpr rfl, detached]
    · have other : option.long ≠ "output" := fun named => first (output.mp named)
      simp only [letters, if_neg other]
      split
      · rename_i same
        simp only [List.cons.injEq, true_and] at same
        exact (short same.1).elim
      · rename_i same
        simp only [List.cons.injEq, true_and] at same
        exact (first same.1).elim
      · rfl
  · rename_i long short
    refine Or.inr ⟨?_, ?_⟩
    · split
      · rename_i rest letters
        exact (long rest letters).elim
      · rename_i rest letters
        exact (short 'o' rest letters).elim
      · rfl
    · exact fun _ => rfl

theorem kept_of_not_isOptionWord {word : String} (value : isOptionWord word = false) :
    word ≠ "--" ∧ outputWord? word = none := by
  constructor
  · rintro rfl
    simp [isOptionWord] at value
  · unfold isOptionWord outputWord? at *
    split at value
    · simp at value
    · rename_i plain
      split
      · rename_i rest letters
        exact (plain '-' rest letters).elim
      · rename_i rest letters
        exact (plain 'o' rest letters).elim
      · rfl

section Steps

variable {word : String} {rest : List String} {final : CommandWords}

theorem readFrom_word (going : word ≠ "--") (read : evaluateSpec.readWord words word = .ok state)
    (later : evaluateSpec.readFrom (state.without "output").1 (state.without "output").2
      (withoutOutput (state.awaits "output") rest) = .ok final) :
    evaluateSpec.readFrom (words.without "output") none (withoutOutput false (word :: rest)) =
      .ok final := by
  rcases readWord_given word read with ⟨option, value, output, given⟩ | ⟨kept, operand⟩
  · obtain ⟨named, other⟩ := CommandWords.without_give ((given words).symm.trans read) "output"
    by_cases same : option.long = "output"
    · obtain ⟨removed, detached⟩ := named same
      rw [removed, detached] at later
      simpa only [withoutOutput, if_neg going, output, if_pos same] using later
    · obtain ⟨kept, quiet⟩ := other same
      rw [quiet] at later
      simp only [withoutOutput, if_neg going, output, if_neg same, readFrom, given, kept]
      exact later
  · rw [operand] at read
    cases added : words.addOperand evaluateSpec word with
    | error fault => simp [added, Except.map] at read
    | ok next =>
        simp only [added, Except.map, Except.ok.injEq] at read
        subst read
        simp only [withoutOutput, if_neg going, kept, readFrom, operand,
          CommandWords.without_addOperand added, Except.map]
        exact later

theorem readFrom_value {option : OptionSpec} {next : CommandWords}
    (value : isOptionWord word = false) (added : words.addOption option word = .ok next)
    (later : evaluateSpec.readFrom (next.without "output") none (withoutOutput false rest) =
      .ok final) :
    evaluateSpec.readFrom (words.without "output")
        ((some option).filter fun option => option.long != "output")
        (withoutOutput ((some option).any fun option => option.long == "output") (word :: rest)) =
      .ok final := by
  obtain ⟨named, other⟩ := CommandWords.without_addOption added "output"
  by_cases same : option.long = "output"
  · rw [named same] at later
    simpa [same, Option.filter, withoutOutput] using later
  · obtain ⟨going, kept⟩ := kept_of_not_isOptionWord value
    have quiet : (option.long == "output") = false := beq_eq_false_iff_ne.mpr same
    simpa [quiet, same, Option.filter, withoutOutput, going, kept, readFrom, value, other same] using later

end Steps

theorem readFrom_without (arguments : List String) (state : WordsState) {final : CommandWords}
    (read : evaluateSpec.readFrom state.1 state.2 arguments = .ok final) :
    evaluateSpec.readFrom (state.without "output").1 (state.without "output").2
      (withoutOutput (state.awaits "output") arguments) = .ok (final.without "output") := by
  induction arguments generalizing state with
  | nil =>
      obtain ⟨words, _ | option⟩ := state
      · exact CommandWords.without_complete read
      · simp [readFrom] at read
  | cons word rest ih =>
      obtain ⟨words, _ | option⟩ := state
      · simp only [readFrom] at read
        split at read
        · rename_i ended
          subst ended
          cases added : words.addOperands evaluateSpec rest with
          | error fault => simp [added] at read
          | ok next =>
              simp only [added] at read
              simp only [WordsState.awaits, WordsState.without, Option.any_none, Option.filter_none,
                withoutOutput, if_true, readFrom, CommandWords.without_addOperands rest added]
              exact CommandWords.without_complete read
        · rename_i going
          cases reading : evaluateSpec.readWord words word with
          | error fault => simp [reading] at read
          | ok next =>
              simp only [reading] at read
              exact readFrom_word going reading (ih next read)
      · simp only [readFrom] at read
        split at read
        · simp at read
        · rename_i value
          cases added : words.addOption option word with
          | error fault => simp [added] at read
          | ok next =>
              simp only [added] at read
              exact readFrom_value (by simpa using value) added (ih (next, none) read)

end CommandSpec

theorem evaluateRequest_without (words : CommandWords) (input : String) :
    evaluateRequest (words.without "output") input =
      { evaluateRequest words input with output := none } := by
  have absent : (words.without "output").values "output" = [] := by
    simp [CommandWords.values, CommandWords.without, List.filter_filter]
  simp [evaluateRequest, CommandWords.value?, CommandWords.has, CommandWords.values_without, absent]

theorem readRequest_withoutOutput (arguments : List String) (request : EvaluateRequest)
    (accepted : readRequest ("eval" :: arguments) = .ok (.evaluate request)) :
    readRequest ("eval" :: withoutOutput false arguments) =
      .ok (.evaluate { request with output := none }) := by
  simp only [readRequest, CommandSpec.read] at accepted ⊢
  cases read : evaluateSpec.readFrom {} none arguments with
  | error error => cases error <;> simp [read, requestOfWords] at accepted
  | ok words =>
      have shorter : evaluateSpec.readFrom {} none (withoutOutput false arguments) =
          .ok (words.without "output") := CommandSpec.readFrom_without arguments ({}, none) read
      simp only [read, requestOfWords] at accepted
      cases operand : words.operands.head? with
      | none => simp [operand] at accepted
      | some input =>
          simp only [operand, Option.map_some, Except.ok.injEq, Request.evaluate.injEq] at accepted
          have same : (words.without "output").operands.head? = some input := operand
          simp only [shorter, requestOfWords, same, Option.map_some, evaluateRequest_without, accepted]

example : withoutOutput false ["-o", "out.csv", "in.csv", "-d", ";", "--", "-o"] =
    ["in.csv", "-d", ";", "--", "-o"] := by decide +kernel

end PostfixSheet
