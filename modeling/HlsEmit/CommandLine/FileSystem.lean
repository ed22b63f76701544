/-!
# File systems

What a run can see of a file system: directories below one root, with files and the places that lead
to the streams of the run itself, and the directory in which it starts. A path is followed part by
part, from the root or from the start; `read` and `destination` either find what it leads to or say
why they cannot. Links are not modelled: every place has one name.

The system may refuse to open what is there (`FileSystem.unreadable`, `FileSystem.unwritable`), and it
may stop taking bytes behind a file that was opened (`FileSystem.limit`), as a disk does that is full.
-/

namespace HlsEmit.CommandLine

/-- Why something cannot be opened, read or written. -/
inductive AccessError where
  | notFound
  | denied
  | notDirectory
  | isDirectory
  | noSpace
  | nameTooLong
  /-- Any other reason, in the words of the system. -/
  | other (message : String)
deriving DecidableEq, Repr

/-- The wording of an access error, with its system number. -/
def AccessError.message : AccessError → String
  | .notFound => "No such file or directory (os error 2)"
  | .denied => "Permission denied (os error 13)"
  | .notDirectory => "Not a directory (os error 20)"
  | .isDirectory => "Is a directory (os error 21)"
  | .noSpace => "No space left on device (os error 28)"
  | .nameTooLong => "File name too long (os error 36)"
  | .other message => message

/-! ## Paths -/

/-- A place in a file system: the directories to go down from the root, then the last part. -/
abbrev Location := List String

/-- A path that is ready to be followed. -/
structure Path where
  /-- Whether it starts at the root of the file system. -/
  absolute : Bool
  /-- The parts in front of the last one. -/
  directories : List String
  /-- The last part; nothing for the root alone. -/
  last : Option String
  /-- Whether a slash follows the last part. -/
  slash : Bool
deriving DecidableEq, Repr

/-- The path of a text. A text of 4096 bytes or more is no path. -/
def Path.ofText (text : String) : Except AccessError Path :=
  let parts := ((text.toList.splitOn '/').filter fun part => !part.isEmpty).map String.ofList
  if 4095 < text.utf8ByteSize then
    .error .nameTooLong
  else
    .ok {
      absolute := text.toList.head? = some '/'
      directories := parts.dropLast
      last := parts.getLast?
      slash := text.toList.getLast? = some '/' }

/-! ## What there is -/

/-- What a run prints on. -/
inductive Stream where
  | output
  | messages
deriving DecidableEq, Repr

/-- What stands at a place. -/
inductive Node where
  | file (content : ByteArray)
  | directory
  /-- What is written here is printed on a stream of the run. -/
  | stream (stream : Stream)

/-- Whether a directory is said to stand at a place. -/
def Node.isDirectory : Node → Bool
  | .directory => true
  | .file _ | .stream _ => false

/-- Where bytes can be written to. -/
inductive Sink where
  | file (location : Location)
  | stream (stream : Stream)
deriving DecidableEq, Repr

/-- How much is taken, and why not more. -/
structure Limit where
  bytes : Nat
  error : AccessError
deriving DecidableEq, Repr

/-- A file system, as a run finds it. -/
structure FileSystem where
  nodes : List (Location × Node) := []
  /-- The directory in which runs start. -/
  here : Location := []
  /-- Why what is at a place is not opened to be read. -/
  unreadable : Location → Option AccessError := fun _ => none
  /-- Why what is at a place is not opened to be written. -/
  unwritable : Location → Option AccessError := fun _ => none
  /-- Where writing stops. -/
  limit : Sink → Option Limit := fun _ => none

namespace FileSystem

/-- What stands at a place. -/
def node? (system : FileSystem) (location : Location) : Option Node :=
  system.nodes.lookup location

/-- The content of a file. -/
def content? (system : FileSystem) (location : Location) : Option ByteArray :=
  match system.node? location with
  | some (.file content) => some content
  | _ => none

/-- Whether there is a directory at this place. The directories that lead to something are there. -/
def isDirectory (system : FileSystem) (location : Location) : Bool :=
  location.isPrefixOf system.here || system.nodes.any fun (place, node) =>
    location.isPrefixOf place && (location.length < place.length || node.isDirectory)

/-! ## Following paths -/

/-- The place of a name in the directory at a place. A name of 256 bytes or more is not even looked
for. -/
def child (place : Location) (name : String) : Except AccessError Location :=
  if 255 < name.utf8ByteSize then .error .nameTooLong else .ok (place ++ [name])

/-- Follows one part of a path, to a directory. Nothing is above the root. -/
def enter (system : FileSystem) (place : Location) (part : String) : Except AccessError Location :=
  match part with
  | "." => .ok place
  | ".." => .ok place.dropLast
  | name => do
    let next ← child place name
    if system.isDirectory next then
      .ok next
    else
      .error (if (system.node? next).isSome then .notDirectory else .notFound)

/-- Follows several parts of a path. -/
def follow (system : FileSystem) : Location → List String → Except AccessError Location
  | place, [] => .ok place
  | place, part :: rest => do system.follow (← system.enter place part) rest

/-- The place of the directory that a path leads to, and the name in it. A path that can only be a
directory is an error. -/
def locate (system : FileSystem) (path : Path) : Except AccessError (Location × String) := do
  let place ← system.follow (if path.absolute then [] else system.here) path.directories
  match path.last with
  | none | some "." | some ".." => .error .isDirectory
  | some name => .ok (place, name)

/-! ## Opening files -/

/-- The content of the file at a path. The streams of the run itself are not for reading. -/
def read (system : FileSystem) (text : String) : Except AccessError ByteArray := do
  let path ← Path.ofText text
  let (place, name) ← system.locate path
  let location ← child place name
  match system.unreadable location, system.node? location with
  | some error, _ => .error error
  | none, some (.file content) => if path.slash then .error .notDirectory else .ok content
  | none, some (.stream _) => .error .denied
  | none, _ => .error (if system.isDirectory location then .isDirectory else .notFound)

/-- What is written when a place is opened for it. A file need not be there yet. -/
def sinkAt (system : FileSystem) (location : Location) : Except AccessError Sink :=
  match system.unwritable location with
  | some error => .error error
  | none =>
    if system.isDirectory location then
      .error .isDirectory
    else
      match system.node? location with
      | some (.stream stream) => .ok (.stream stream)
      | _ => .ok (.file location)

/-- What a path leads to when it is opened to be written. A directory is not made, so a slash at the
end is an error whatever the name. -/
def destination (system : FileSystem) (text : String) : Except AccessError Sink := do
  let path ← Path.ofText text
  let (place, name) ← system.locate path
  if path.slash then
    .error .isDirectory
  else
    system.sinkAt (← child place name)

/-- What the text of a run goes to: what its path leads to, or standard output. -/
def sink (system : FileSystem) : Option String → Except AccessError Sink
  | none => .ok (.stream .output)
  | some text => system.destination text

/-- The file system in which a file has a new content. The file need not have been there. -/
def put (system : FileSystem) (location : Location) (content : ByteArray) : FileSystem :=
  let others := system.nodes.filter fun (place, _) => place ≠ location
  { system with nodes := others ++ [(location, .file content)] }

end FileSystem

end HlsEmit.CommandLine
