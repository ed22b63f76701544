import HlsEmit.CommandLine.Arguments
import HlsEmit.CommandLine.Directory
import HlsEmit.CommandLine.Failure
import HlsEmit.CommandLine.Session
import HlsEmit.Emission.Program
import HlsEmit.Provenance

/-!
# Runs

What a run answers: its exit code, what it prints, and the file that it writes.

`Arguments.respond` is what is to be done once the model file was read, whatever the file system. The
messages come first; then the text of the stage goes to its destination, if there is a text.
`Response.carryOut` does this in a session, where each step may fail. `FileSystem.run` is a whole run.
-/

namespace HlsEmit.CommandLine

/-! ## Texts of stages -/

/-- The text of a stage, with the reports that go with it. There is no text if there are errors. -/
structure Product where
  text : Option String
  diagnostics : List Diagnostic := []
deriving Repr

/-- What a stage makes of a module. -/
def Stage.product (stage : Stage) (headers : List String) (module : Module) : Product :=
  match stage with
  | .model => { text := some (module.pretty ++ "\n") }
  | .buildInfo => { text := some module.buildInfo }
  | .cpp =>
    let emitted := module.emit headers
    { text := if emitted.hasErrors then none else some emitted.text
      diagnostics := emitted.diagnostics }

/-! ## Responses -/

/-- What is seen of a run besides files. -/
structure Answer where
  exit : UInt8 := 0
  /-- What is printed on standard output. -/
  output : String := ""
  /-- What is printed on standard error. -/
  messages : String := ""
deriving DecidableEq, Repr

/-- A line on standard error. -/
def messageLine (text : String) : String :=
  "hlsc: " ++ text ++ "\n"

/-- The last line of a run that could not do its work. -/
def failureLine (failure : Failure) : String :=
  messageLine ("error: " ++ failure.message)

/-- What is to be done after the model was read. -/
inductive Response where
  /-- The run ends with a code; there is no text. -/
  | refuse (exit : UInt8) (messages : String)
  /-- A text for a file, or for standard output if no path is given. -/
  | deliver (path : Option String) (text : String) (messages : String)
deriving DecidableEq, Repr

/-- The module in the content of a file. -/
def readModule (path : String) (content : Except String ByteArray) : Except Failure Module := do
  let bytes ← content.mapError (.unreadable path)
  match String.fromUTF8? bytes with
  | none => throw (.unreadable path "stream did not contain valid UTF-8")
  | some text => (Module.parse text).mapError .malformed

/-- The messages about a module. -/
def Product.messages (product : Product) : String :=
  String.join (product.diagnostics.map fun d => messageLine d.text)

/-- What is to be done with the content of the model file, or without it if it cannot be read. -/
def Arguments.respond (arguments : Arguments) (content : Except String ByteArray) : Response :=
  match readModule arguments.model content with
  | .error failure => .refuse 2 (failureLine failure)
  | .ok module =>
    let product := arguments.stage.product arguments.headers module
    match product.text with
    | none =>
      let count := toString (errorCount product.diagnostics)
      let last := "emission failed with " ++ count ++ " error(s); no output written"
      .refuse 1 (product.messages ++ messageLine last)
    | some text => .deliver arguments.output text product.messages

/-- The answer to arguments that cannot be understood. -/
def UsageError.answer (error : UsageError) : Answer :=
  let advice := "For more information, try '--help'."
  { exit := 2, messages := "error: " ++ error.message ++ "\n\n" ++ advice ++ "\n" }

/-- What arguments lead to: an answer at once, or a run. -/
def start (args : List String) : Answer ⊕ Arguments :=
  match Request.ofArgs args with
  | .error error => .inl error.answer
  | .ok .version => .inl { output := "hlsc " ++ compilerVersion ++ "\n" }
  | .ok .help => .inl { output := helpText }
  | .ok (.run arguments) => .inr arguments

/-! ## Runs in a file system -/

/-- The exit code of a run that cannot print its messages. It ends at once. -/
def panicked : UInt8 := 101

namespace Session

/-- Prints messages and ends a run. -/
def finish (session : Session) (exit : UInt8) (messages : String) : UInt8 × Session :=
  match session.write (.stream .messages) messages.toUTF8 with
  | (none, session) => (exit, session)
  | (some _, session) => (panicked, session)

/-- Writes a text to the file at a path, or to standard output if there is no path. The texts of all
stages end with a line break, so an output that is kept back up to the end of a line keeps nothing
back of them. -/
def deliver (session : Session) (path : Option String) (text : String) :
    Option Failure × Session :=
  let name := path.getD "<stdout>"
  match session.system.sink path with
  | .error error => (some (.unwritable name error.message), session)
  | .ok sink =>
    let (error, session) := session.write sink text.toUTF8
    (error.map fun error => .unwritable name error.message, session)

/-- Writes a text and ends a run. -/
def conclude (session : Session) (path : Option String) (text : String) : UInt8 × Session :=
  match session.deliver path text with
  | (none, session) => (0, session)
  | (some failure, session) => session.finish 2 (failureLine failure)

end Session

/-- Carries out a response; the result is the exit code. -/
def Response.carryOut (session : Session) : Response → UInt8 × Session
  | .refuse exit messages => session.finish exit messages
  | .deliver path text messages =>
    match session.write (.stream .messages) messages.toUTF8 with
    | (some _, session) => (panicked, session)
    | (none, session) => session.conclude path text

/-- Shows an answer, as far as it can be printed. -/
def Answer.show (answer : Answer) (session : Session) : UInt8 × Session :=
  let (_, session) := session.write (.stream .messages) answer.messages.toUTF8
  let (_, session) := session.write (.stream .output) answer.output.toUTF8
  (answer.exit, session)

/-- A whole run: its exit code, and what it leaves behind. -/
def FileSystem.run (system : FileSystem) (args : List String) : UInt8 × Session :=
  match start args with
  | .inl answer => answer.show { system }
  | .inr arguments =>
    let content := (system.read arguments.model).mapError AccessError.message
    (arguments.respond content).carryOut { system }

/-! ## Runs in a directory -/

/-- A text that was printed. -/
def printedText (bytes : ByteArray) : String :=
  (String.fromUTF8? bytes).getD ""

/-- A whole run in a directory, which it may change. -/
def run (directory : Directory) (args : List String) : Answer × Directory :=
  let (exit, session) := directory.system.run args
  ({ exit, output := printedText session.output, messages := printedText session.messages },
    .ofSystem session.system)

end HlsEmit.CommandLine
