import HlsEmit.CommandLine.Run

/-!
# The program

Reads the model file, asks for the response, and carries it out.
-/

open HlsEmit CommandLine

/-- The system's wording of a failed access. System numbers come with either sign. -/
def accessMessage : IO.Error → String
  | .noFileOrDirectory .. => AccessError.notFound.message
  | .permissionDenied .. => AccessError.denied.message
  | .inappropriateType _ code _ =>
    if code = 21 || code = -21 then AccessError.isDirectory.message
    else AccessError.notDirectory.message
  | error@(.resourceExhausted _ code _) =>
    if code = 28 || code = -28 then AccessError.noSpace.message else toString error
  | error@(.invalidArgument _ code _) =>
    if code = 36 || code = -36 then AccessError.nameTooLong.message else toString error
  | error => toString error

/-- Tries an access to a file or a stream. -/
def attempt {α : Type} (access : IO α) : IO (Except String α) := do
  try return .ok (← access)
  catch error => return .error (accessMessage error)

/-- Prints a text at once. -/
def printAt (stream : IO.FS.Stream) (text : String) : IO Unit := do
  stream.putStr text
  stream.flush

/-- Prints messages; then the run goes on, or it panics. -/
def withMessages (messages : String) (next : IO UInt32) : IO UInt32 := do
  match ← attempt (printAt (← IO.getStderr) messages) with
  | .ok () => next
  | .error _ => return panicked.toUInt32

/-- Writes a text to the file at a path, or to standard output if there is no path. -/
def deliver (path : Option String) (text : String) : IO (Option Failure) := do
  match ← attempt (path.elim (do printAt (← IO.getStdout) text) (IO.FS.writeFile · text)) with
  | .ok () => return none
  | .error reason => return some (.unwritable (path.getD "<stdout>") reason)

/-- Carries out a response; the result is the exit code. -/
def carryOut : Response → IO UInt32
  | .refuse exit messages => withMessages messages (return exit.toUInt32)
  | .deliver path text messages =>
    withMessages messages do
      match ← deliver path text with
      | none => return 0
      | some failure => withMessages (failureLine failure) (return 2)

/-- The program: its exit code is that of the run. -/
def main (args : List String) : IO UInt32 := do
  match start args with
  | .inl answer =>
    discard (attempt (printAt (← IO.getStderr) answer.messages))
    discard (attempt (printAt (← IO.getStdout) answer.output))
    return answer.exit.toUInt32
  | .inr arguments =>
    carryOut (arguments.respond (← attempt (IO.FS.readBinFile arguments.model)))
