import PostfixSheet.Command.Script
import PostfixSheet.Proofs.Command.CreatedFiles
import PostfixSheet.Proofs.Command.OutputOption
import PostfixSheet.Proofs.Table.WrittenRows

/-! The two ways out of an evaluation, onto the standard output and into a file. Both are told from what
the same evaluation delivers; they differ in the files that it finds. -/

namespace PostfixSheet

namespace EvaluateRequest

variable (request : EvaluateRequest)

def delivery (files : Files) : Delivery :=
  request.evaluator.evaluate ((files.read request.input).mapError PathFault.message) {}

theorem delivery_unreadable {files : Files} {fault : PathFault}
    (unread : files.read request.input = .error fault) :
    request.delivery files = ⟨[], [], .error (.io fault.message)⟩ := by
  rw [delivery, unread]
  rfl

theorem delivery_readable {files : Files} {bytes : List UInt8}
    (read : files.read request.input = .ok bytes) :
    (request.delivery files).written.flatten = (request.evaluator.run bytes).output ∧
      (request.delivery files).result = (request.evaluator.run bytes).result := by
  rw [delivery, read]
  obtain ⟨written, ended⟩ := request.evaluator.evaluate_unlimited bytes
  exact ⟨congrArg List.flatten written, ended⟩

def printed : Except Fault Statistics → Outcome
  | .ok statistics => { code := 0, errors := summary statistics }
  | .error fault => request.failed fault

theorem printScript_runOn (files : Files) :
    request.printScript.runOn files =
      ({ request.printed (request.delivery files).result with
          output := (request.delivery files).written.flatten }, files) := by
  simp only [printScript, Script.runOn]
  cases read : files.read request.input with
  | error fault =>
      simp only [request.delivery_unreadable read]
      rfl
  | ok bytes =>
      obtain ⟨written, ended⟩ := request.delivery_readable read
      simp only [written, ended]
      cases (request.evaluator.run bytes).result <;> rfl

theorem behind_eq {files : Files} {path : String} {place : Place}
    (creates : files.Creates path place) (outcome : Outcome) (bytes : List UInt8) :
    outcome.behind (files.follow path (Files.writtenNames path)) bytes = outcome := by
  have noDevice := creates.noEmptyDevice
  simp only [emptyDevices, List.contains_cons, Bool.or_eq_false_iff, beq_eq_false_iff_ne] at noDevice
  obtain ⟨_, _, notOutput, notErrors, _⟩ := noDevice
  simp only [Outcome.behind, creates.followed, if_neg notOutput, if_neg notErrors]

theorem saveScript_runOn {files : Files} {path : String} {place : Place}
    (creates : files.Creates path place) :
    let delivery := request.delivery (files.put place [])
    (request.saveScript path).runOn files =
      (request.saved path delivery.result, files.put place delivery.written.flatten) := by
  simp only [saveScript, Script.runOn, creates.write_eq]
  cases read : (files.put place []).read request.input with
  | error fault =>
      simp only [request.delivery_unreadable read]
      rfl
  | ok bytes =>
      obtain ⟨written, ended⟩ := request.delivery_readable read
      simp only [(creates.put []).write_eq, Files.put_put, written, ended,
        behind_eq (creates.put [])]

section Inputs

variable {files : Files} {path : String} {place : Place}

theorem delivery_put (creates : files.Creates path place)
    (different : files.follow request.input (Files.pathNames request.input) ≠ .ok place)
    (found : ¬ (files.content? place = none ∧ files.LeadsThrough request.input place)) :
    request.delivery (files.put place []) = request.delivery files := by
  have same : (files.put place []).read request.input = files.read request.input := by
    by_cases through : files.LeadsThrough request.input place
    · have present : (files.content? place).isSome := by
        rw [Option.isSome_iff_ne_none]
        exact fun absent => found ⟨absent, through⟩
      rw [creates.put_read_through [] through, creates.read_through through, if_pos present]
    · exact creates.put_read [] through different
  rw [delivery, delivery, same]

theorem delivery_put_through (creates : files.Creates path place)
    (absent : files.content? place = none) (through : files.LeadsThrough request.input place) :
    request.delivery files = ⟨[], [], .error (.io PathFault.notFound.message)⟩ ∧
      request.delivery (files.put place []) =
        ⟨[], [], .error (.io PathFault.notADirectory.message)⟩ := by
  refine ⟨request.delivery_unreadable ?_,
    request.delivery_unreadable (creates.put_read_through [] through)⟩
  rw [creates.read_through through, absent]
  rfl

theorem delivery_put_self (creates : files.Creates path place)
    (same : files.follow request.input (Files.pathNames request.input) = .ok place) :
    (request.delivery (files.put place [])).written.flatten = [] ∧
      (request.delivery (files.put place [])).result = .ok {} :=
  request.delivery_readable (creates.put_read_self [] same)

theorem delivery_put_written (creates : files.Creates path place)
    (different : files.follow request.input (Files.pathNames request.input) ≠ .ok place) :
    (request.delivery (files.put place [])).written = (request.delivery files).written ∧
      (request.printed (request.delivery (files.put place [])).result).code =
        (request.printed (request.delivery files).result).code := by
  by_cases missing : files.content? place = none ∧ files.LeadsThrough request.input place
  · obtain ⟨notFound, notADirectory⟩ :=
      request.delivery_put_through creates missing.1 missing.2
    rw [notFound, notADirectory]
    exact ⟨rfl, rfl⟩
  · rw [request.delivery_put creates different missing]
    exact ⟨rfl, rfl⟩

end Inputs

theorem saved_code (path : String) (result : Except Fault Statistics) :
    (request.saved path result).code = (request.printed result).code := by
  cases result <;> rfl

theorem saved_output (path : String) (result : Except Fault Statistics) :
    (request.saved path result).output = [] := by
  cases result <;> rfl

def savedLine (path : String) : Except Fault Statistics → String
  | .ok statistics => "Wrote " ++ toString statistics.rows ++ " rows to '" ++ path ++ "'\n"
  | .error _ => ""

theorem saved_errors (path : String) (result : Except Fault Statistics) :
    (request.saved path result).errors = savedLine path result ++ (request.printed result).errors := by
  cases result with
  | ok statistics => rfl
  | error fault => simp [saved, savedLine, printed]

theorem savedLine_empty (path : String) :
    savedLine path (.ok {}) ++ (request.printed (.ok {})).errors =
      "Wrote 0 rows to '" ++ path ++ "'\nEvaluated 0 formulas (0 errors)\n" := by
  have front : "Wrote " ++ toString 0 ++ " rows to '" = "Wrote 0 rows to '" := rfl
  have behind : "'\n" ++ summary {} = "'\nEvaluated 0 formulas (0 errors)\n" := rfl
  simp only [savedLine, printed, front, String.append_assoc, behind]

end EvaluateRequest

theorem commandScript_evaluate {arguments : List String} {request : EvaluateRequest}
    (accepted : readRequest ("eval" :: arguments) = .ok (.evaluate request))
    (ascii : request.delimiter.toNat < 0x80) :
    commandScript ("eval" :: arguments) =
      match request.output with
      | none => request.printScript
      | some path => request.saveScript path := by
  rw [commandScript, accepted]
  exact if_neg (Nat.not_le.mpr ascii)

/-- With the option that names an output the rows that would be printed are in that file, and nothing else
changes. The file is there before the input is looked for: an input that is the file itself is empty then,
and one that leads through it as through a directory fails in another way. -/
theorem output_modes (files : Files) (arguments : List String) (request : EvaluateRequest)
    (path : String) (place : Place)
    (accepted : readRequest ("eval" :: arguments) = .ok (.evaluate request))
    (named : request.output = some path) (ascii : request.delimiter.toNat < 0x80)
    (creates : files.Creates path place) :
    let saved := (commandScript ("eval" :: arguments)).runOn files
    let printed := (commandScript ("eval" :: withoutOutput false arguments)).runOn files
    let delivery :=
      request.evaluator.evaluate ((files.read request.input).mapError PathFault.message) {}
    let target := files.follow request.input (Files.pathNames request.input)
    let missing := files.content? place = none ∧ files.LeadsThrough request.input place
    printed.2 = files ∧ saved.1.output = [] ∧
    (∀ other ≠ place, saved.2.content? other = files.content? other) ∧
    (∀ other, saved.2.isDirectory other = files.isDirectory other) ∧
    (target ≠ .ok place →
      saved.2.read path = .ok printed.1.output ∧
      printed.1.output = delivery.written.flatten ∧
      saved.1.code = printed.1.code ∧
      (¬ missing →
        saved.1.errors = EvaluateRequest.savedLine path delivery.result ++ printed.1.errors) ∧
      (missing →
        printed.1.errors = (request.failed (.io PathFault.notFound.message)).errors ∧
        saved.1.errors = (request.failed (.io PathFault.notADirectory.message)).errors)) ∧
    (target = .ok place →
      saved.2.read path = .ok [] ∧ saved.1.code = 0 ∧
      saved.1.errors =
        "Wrote 0 rows to '" ++ path ++ "'\nEvaluated 0 formulas (0 errors)\n") := by
  have saving : commandScript ("eval" :: arguments) = request.saveScript path := by
    rw [commandScript_evaluate accepted ascii, named]
  have printing : commandScript ("eval" :: withoutOutput false arguments) = request.printScript :=
    commandScript_evaluate (readRequest_withoutOutput arguments request accepted) ascii
  simp only [saving, printing, EvaluateRequest.printScript_runOn,
    EvaluateRequest.saveScript_runOn request creates]
  have noDevice := creates.noEmptyDevice
  have kept (bytes : List UInt8) : (files.put place bytes).read path = .ok bytes :=
    creates.put_read_self bytes (creates.names_eq ▸ creates.followed)
  refine ⟨trivial, request.saved_output path _, ?_, ?_, fun different => ?_, fun same => ?_⟩
  · intro other elsewhere
    rw [Files.content?_put _ noDevice, if_neg elsewhere]
  · exact Files.isDirectory_put _ noDevice creates.inside
  · obtain ⟨written, code⟩ := request.delivery_put_written creates different
    refine ⟨?_, rfl, ?_, fun found => ?_, fun missing => ?_⟩
    · rw [kept, written]
    · rw [request.saved_code, code]
    · rw [request.saved_errors, request.delivery_put creates different found]
      rfl
    · obtain ⟨notFound, notADirectory⟩ :=
        request.delivery_put_through creates missing.1 missing.2
      rw [notFound, notADirectory]
      exact ⟨rfl, rfl⟩
  · obtain ⟨written, ended⟩ := request.delivery_put_self creates same
    rw [kept, written, request.saved_code, request.saved_errors, ended]
    exact ⟨rfl, rfl, request.savedLine_empty path⟩

def tableFiles : Files :=
  .ofList [("in.csv", encodeText "x,=A9\n"), ("out.csv", encodeText "old")]

theorem output_modes_tableFiles :
    let saved :=
      (commandScript ["eval", "in.csv", "-o", "out.csv", "--no-escape"]).runOn tableFiles
    let printed := (commandScript ["eval", "in.csv", "--no-escape"]).runOn tableFiles
    saved.2.read "out.csv" = .ok printed.1.output ∧
      printed.1.output = encodeText "x,#N/A\n" ∧
      saved.1.code = printed.1.code ∧
      saved.1.errors = "Wrote 1 rows to 'out.csv'\n" ++ printed.1.errors := by
  let request : EvaluateRequest :=
    { input := "in.csv", output := some "out.csv", escaping := false }
  have words : evaluateSpec.read ["in.csv", "-o", "out.csv", "--no-escape"] =
      .ok ⟨["in.csv"], [("output", "out.csv"), ("no-escape", "")]⟩ := by decide +kernel
  have accepted : readRequest ["eval", "in.csv", "-o", "out.csv", "--no-escape"] =
      .ok (.evaluate request) := by
    rw [readRequest, words]
    rfl
  have creates : tableFiles.Creates "out.csv" ["tmp", "work", "out.csv"] := by
    constructor <;> decide +kernel
  have different : tableFiles.follow "in.csv" (Files.pathNames "in.csv") ≠
      .ok ["tmp", "work", "out.csv"] := by decide +kernel
  have present : tableFiles.content? ["tmp", "work", "out.csv"] ≠ none := by decide +kernel
  have written : (request.evaluator.evaluate
      ((tableFiles.read "in.csv").mapError PathFault.message) {}).written =
        [encodeText "x,#N/A\n"] := by decide +kernel
  have ended : (request.evaluator.evaluate
      ((tableFiles.read "in.csv").mapError PathFault.message) {}).result = .ok ⟨1, 2, 1, 0, 1⟩ :=
    eq_ok_of_toOption _ _ (by decide +kernel)
  have shorter : withoutOutput false ["in.csv", "-o", "out.csv", "--no-escape"] =
      ["in.csv", "--no-escape"] := by decide +kernel
  obtain ⟨_, _, _, _, apart, _⟩ := output_modes tableFiles _ request "out.csv" _ accepted rfl
    (by decide) creates
  rw [shorter] at apart
  obtain ⟨kept, printed, code, errors, _⟩ := apart different
  refine ⟨kept, ?_, code, ?_⟩
  · rw [printed, written]
    rfl
  · rw [errors fun missing => present missing.1, ended]
    rfl

/-- The new file is in the way of an input that leads through it, and the reason given is another one. A
device is written like a file, and keeps nothing. -/
theorem output_modes_differ :
    let files : Files := .ofList [("in.csv", encodeText "x\n")]
    let saved := (commandScript ["eval", "out/x", "-o", "out"]).runOn files
    let printed := (commandScript ["eval", "out/x"]).runOn files
    let sunk := (commandScript ["eval", "in.csv", "-o", "/dev/null"]).runOn files
    let shown := (commandScript ["eval", "in.csv"]).runOn files
    files.Creates "out" ["tmp", "work", "out"] ∧
      files.follow "out/x" (Files.pathNames "out/x") ≠ .ok ["tmp", "work", "out"] ∧
      saved.1.code = 1 ∧
      (∀ line, saved.1.errors ≠ line ++ printed.1.errors) ∧
      sunk.1.code = 0 ∧ shown.1.output = encodeText "x\n" ∧
      sunk.2.read "/dev/null" = .ok [] := by
  intro files saved printed sunk shown
  have apart : ¬ printed.1.errors.toList <:+ saved.1.errors.toList := by decide +kernel
  refine ⟨by constructor <;> decide +kernel, by decide +kernel, by decide +kernel, ?_,
    by decide +kernel, by decide +kernel, by decide +kernel⟩
  intro line same
  exact apart ⟨line.toList, by rw [same, String.toList_append]⟩

end PostfixSheet
