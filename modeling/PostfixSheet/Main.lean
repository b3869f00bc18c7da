import PostfixSheet.Command.Script

/-! The command line: carries out the script of its words on real files. -/

namespace PostfixSheet

def systemMessage (error : IO.Error) : String :=
  match error with
  | .noFileOrDirectory _ code details => details ++ " (os error " ++ toString code ++ ")"
  | .inappropriateType _ code details => details ++ " (os error " ++ toString code ++ ")"
  | .invalidArgument _ code details => details ++ " (os error " ++ toString code ++ ")"
  | .resourceExhausted _ code details => details ++ " (os error " ++ toString code ++ ")"
  | .permissionDenied _ code details => details ++ " (os error " ++ toString code ++ ")"
  | .otherError code details => details ++ " (os error " ++ toString code ++ ")"
  | other => toString other

def loadFile (path : String) : IO ByteArray := do
  let handle ← IO.FS.Handle.mk path .read
  handle.readBinToEnd

def saveFile (path : String) (bytes : ByteArray) : IO Unit := do
  let handle ← IO.FS.Handle.mk path .write
  handle.write bytes
  handle.flush

def Script.perform : Script → IO Outcome
  | .finish outcome => pure outcome
  | .create path failed next => do
      match ← (saveFile path ByteArray.empty).toBaseIO with
      | .ok _ => next.perform
      | .error error => (failed (systemMessage error)).perform
  | .load path failed next => do
      match ← (loadFile path).toBaseIO with
      | .ok bytes => (next bytes.toList).perform
      | .error error => (failed (systemMessage error)).perform
  | .save path bytes failed next => do
      match ← (saveFile path ⟨bytes.toArray⟩).toBaseIO with
      | .ok _ => next.perform
      | .error error => (failed (systemMessage error)).perform

end PostfixSheet

def main (words : List String) : IO UInt32 := do
  let outcome ← (PostfixSheet.commandScript words).perform
  let output ← IO.getStdout
  output.write ⟨outcome.output.toArray⟩
  output.flush
  IO.eprint outcome.errors
  pure outcome.code
