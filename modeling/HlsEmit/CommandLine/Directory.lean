import HlsEmit.CommandLine.FileSystem

/-!
# Directories

The files of one directory and of all directories below. A run that is started in a `Directory` finds
a file system with nothing else in it but the streams of the run; nothing is refused there, and no
write breaks off.
-/

namespace HlsEmit.CommandLine

/-- The files of a directory and of all directories below, each with its content. Their places are
told from the directory. -/
structure Directory where
  files : List (Location × ByteArray) := []

namespace Directory

/-- The directory that holds files of these names. A slash in a name separates its parts. -/
def ofFiles (files : List (String × ByteArray)) : Directory :=
  ⟨files.map fun (name, content) => ((name.toList.splitOn '/').map String.ofList, content)⟩

/-- The content of a file. -/
def content? (directory : Directory) (location : Location) : Option ByteArray :=
  directory.files.lookup location

/-- The place of the directory. -/
def place : Location :=
  ["tmp", "run"]

/-- The file system that holds a directory, in which runs start, and the two streams. -/
def system (directory : Directory) : FileSystem where
  nodes := directory.files.map (fun (location, content) => (place ++ location, .file content)) ++
    [(["dev", "stdout"], .stream .output), (["dev", "stderr"], .stream .messages)]
  here := place

/-- The directory in such a file system. -/
def ofSystem (system : FileSystem) : Directory where
  files := system.nodes.filterMap fun (location, node) =>
    match node with
    | .file content =>
      if place.isPrefixOf location then some (location.drop place.length, content) else none
    | _ => none

end Directory

end HlsEmit.CommandLine
