import HlsEmit.CommandLine.FileSystem

/-!
# Sessions

A `Session` is what a run has left behind so far: the files, and what was printed on its two streams.
Opening a file to write it empties the file first. Writing may break off: then a front part of the
bytes has been taken, and nothing takes it back.
-/

namespace HlsEmit.CommandLine

/-- The files, and what was printed. -/
structure Session where
  system : FileSystem
  output : ByteArray := .empty
  messages : ByteArray := .empty

namespace Session

/-- What was printed on a stream. -/
def printed (session : Session) : Stream → ByteArray
  | .output => session.output
  | .messages => session.messages

/-- How many bytes a sink holds to which more are written. A file is empty when it was opened. -/
def filled (session : Session) : Sink → Nat
  | .file _ => 0
  | .stream stream => (session.printed stream).size

/-- The part of some bytes that a sink takes, and why it does not take all of them. -/
def taken (session : Session) (sink : Sink) (bytes : ByteArray) :
    ByteArray × Option AccessError :=
  match session.system.limit sink with
  | none => (bytes, none)
  | some limit =>
    let room := limit.bytes - session.filled sink
    if bytes.size ≤ room then (bytes, none) else (bytes.extract 0 room, some limit.error)

/-- A sink gets some bytes: a file as its only content, a stream behind what was printed. -/
def give (session : Session) (sink : Sink) (bytes : ByteArray) : Session :=
  match sink with
  | .file location => { session with system := session.system.put location bytes }
  | .stream .output => { session with output := session.output ++ bytes }
  | .stream .messages => { session with messages := session.messages ++ bytes }

/-- Writes bytes. If not all of them are taken there is an error. -/
def write (session : Session) (sink : Sink) (bytes : ByteArray) : Option AccessError × Session :=
  let (part, error) := session.taken sink bytes
  (error, session.give sink part)

end Session

end HlsEmit.CommandLine
