/-!
# Command line arguments

The arguments ask for one run, or for the version or the help text. They are read from left to
right; the first one that is wrong, or that asks for the version or the help text, decides.

Options that take a value are written `--name value`, `--name=value`, `-n value`, `-nvalue` or
`-n=value`. A value of its own must not look like an option. Behind `--` there are no options.
Every option but the extra headers stands at most once.
-/

namespace HlsEmit.CommandLine

/-! ## What is asked for -/

/-- What a run writes. -/
inductive Stage where
  | cpp
  | buildInfo
  | model
deriving DecidableEq, Repr, Inhabited

/-- The stage of a name. -/
def Stage.ofName? : String → Option Stage
  | "cpp" => some .cpp
  | "build-info" => some .buildInfo
  | "model" => some .model
  | _ => none

/-- The arguments of one run. -/
structure Arguments where
  /-- The file that holds the model. -/
  model : String
  /-- The file to write; standard output if there is none. -/
  output : Option String := none
  /-- Extra headers, in order. -/
  headers : List String := []
  stage : Stage := .cpp
  verbose : Bool := false
deriving DecidableEq, Repr, Inhabited

/-- Why arguments cannot be understood. -/
inductive UsageError where
  | unknownOption (text : String)
  | missingValue (option : String)
  | surplusValue (text : String)
  | repeated (option : String)
  | emptyPath (option : String)
  | unknownStage (name : String)
  | surplusArgument (text : String)
  | missingModel
deriving DecidableEq, Repr

/-- The wording of a usage error. -/
def UsageError.message : UsageError → String
  | .unknownOption text => "unexpected argument '" ++ text ++ "' found"
  | .missingValue option => "a value is required for '" ++ option ++ "' but none was supplied"
  | .surplusValue text => "unexpected value in '" ++ text ++ "'"
  | .repeated option => "the argument '" ++ option ++ "' cannot be used multiple times"
  | .emptyPath option => "a value is required for '" ++ option ++ "' but none was supplied"
  | .unknownStage name => "invalid value '" ++ name ++ "' for '--emit <EMIT>'"
  | .surplusArgument text => "unexpected argument '" ++ text ++ "' found"
  | .missingModel => "the following required arguments were not provided: <MODEL>"

/-- What the arguments ask for. -/
inductive Request where
  | run (arguments : Arguments)
  | version
  | help
deriving DecidableEq, Repr

/-! ## Reading one argument -/

/-- The options that take a value. -/
inductive Setting where
  | output
  | header
  | stage
deriving DecidableEq, Repr

/-- The long name of an option. -/
def Setting.name : Setting → String
  | .output => "--output"
  | .header => "--include"
  | .stage => "--emit"

/-- What one argument is, by itself. -/
inductive Word where
  /-- An option that takes a value, with the value if it is attached. -/
  | setting (setting : Setting) (value : Option String)
  | verbose
  | version
  | help
  /-- The mark that ends the options. -/
  | endOfOptions
  /-- A file, or the value of the option before it. -/
  | plain (text : String)
  | wrong (error : UsageError)
deriving DecidableEq, Repr

/-- A long option, read behind its two hyphens. -/
def Word.ofLong (text : String) (name : List Char) (value : Option String) : Word :=
  match String.ofList name, value with
  | "output", value => .setting .output value
  | "include", value => .setting .header value
  | "emit", value => .setting .stage value
  | "verbose", none => .verbose
  | "version", none => .version
  | "help", none => .help
  | "verbose", some _ | "version", some _ | "help", some _ => .wrong (.surplusValue text)
  | _, _ => .wrong (.unknownOption text)

/-- The value that is attached to a short option, if there is one. -/
def attached : List Char → Option String
  | [] => none
  | '=' :: value => some (String.ofList value)
  | value => some (String.ofList value)

/-- What one argument is, by itself. A single hyphen is a file. -/
def Word.of (text : String) : Word :=
  match text.toList with
  | ['-', '-'] => .endOfOptions
  | '-' :: '-' :: long =>
    let name := long.takeWhile (· ≠ '=')
    let value := match long.dropWhile (· ≠ '=') with
      | [] => none
      | _ :: value => some (String.ofList value)
    .ofLong text name value
  | '-' :: 'o' :: value => .setting .output (attached value)
  | '-' :: 'I' :: value => .setting .header (attached value)
  | '-' :: 'V' :: _ => .version
  | '-' :: 'h' :: _ => .help
  | '-' :: _ :: _ => .wrong (.unknownOption text)
  | _ => .plain text

/-! ## Reading all arguments -/

/-- What was read so far. -/
structure Given where
  model : Option String := none
  output : Option String := none
  headers : List String := []
  stage : Option Stage := none
  verbose : Bool := false
deriving DecidableEq, Repr

namespace Given

/-- Takes a file as the model. -/
def setModel (given : Given) (path : String) : Except UsageError Given :=
  if given.model.isSome then .error (.surplusArgument path)
  else if path.isEmpty then .error (.emptyPath "<MODEL>")
  else .ok { given with model := some path }

/-- Takes the value of an option. -/
def set (given : Given) (setting : Setting) (value : String) : Except UsageError Given :=
  match setting with
  | .output =>
    if value.isEmpty then .error (.emptyPath setting.name)
    else if given.output.isSome then .error (.repeated setting.name)
    else .ok { given with output := some value }
  | .header =>
    if value.isEmpty then .error (.emptyPath setting.name)
    else .ok { given with headers := given.headers ++ [value] }
  | .stage =>
    match Stage.ofName? value with
    | none => .error (.unknownStage value)
    | some stage =>
      if given.stage.isSome then .error (.repeated setting.name)
      else .ok { given with stage := some stage }

/-- Takes the option for a log. -/
def setVerbose (given : Given) : Except UsageError Given :=
  if given.verbose then .error (.repeated "--verbose") else .ok { given with verbose := true }

/-- The run that was asked for. -/
def request (given : Given) : Except UsageError Request :=
  match given.model with
  | none => .error .missingModel
  | some model => .ok <| .run {
      model
      output := given.output
      headers := given.headers
      stage := given.stage.getD .cpp
      verbose := given.verbose }

/-- Reads arguments behind the mark that ends the options. -/
def readFiles (given : Given) : List String → Except UsageError Request
  | [] => given.request
  | path :: rest => do (← given.setModel path).readFiles rest

/-- Reads arguments. `waiting` is the option before them that has no value yet. -/
def read (given : Given) (waiting : Option Setting) : List String → Except UsageError Request
  | [] =>
    match waiting with
    | some setting => .error (.missingValue setting.name)
    | none => given.request
  | arg :: rest =>
    match waiting, Word.of arg with
    | some setting, .plain value => do (← given.set setting value).read none rest
    | some setting, _ => .error (.missingValue setting.name)
    | none, .plain path => do (← given.setModel path).read none rest
    | none, .setting setting (some value) => do (← given.set setting value).read none rest
    | none, .setting setting none => given.read (some setting) rest
    | none, .verbose => do (← given.setVerbose).read none rest
    | none, .version => .ok .version
    | none, .help => .ok .help
    | none, .endOfOptions => given.readFiles rest
    | none, .wrong error => .error error

end Given

/-- What the arguments ask for. -/
def Request.ofArgs (args : List String) : Except UsageError Request :=
  Given.read {} none args

/-- The help text. -/
def helpText : String :=
  String.join [
    "Renders resolved, attribute-annotated loop programs as Vivado HLS C++\n",
    "\n",
    "Usage: hlsc [OPTIONS] <MODEL>\n",
    "\n",
    "Arguments:\n",
    "  <MODEL>  Resolved program model (JSON)\n",
    "\n",
    "Options:\n",
    "  -o, --output <OUTPUT>    Output file path (stdout when omitted)\n",
    "  -I, --include <INCLUDE>  Extra header included after the prologue (repeatable)\n",
    "      --emit <EMIT>        Output stage: cpp (default), build-info, model\n",
    "      --verbose            Log emission progress to stderr\n",
    "  -h, --help               Print help\n",
    "  -V, --version            Print version\n"]

end HlsEmit.CommandLine
