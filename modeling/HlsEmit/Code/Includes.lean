import HlsEmit.Code.Layout

/-!
# Reading include lines

An include line names a path between quotes. A backslash there escapes the character behind it, and
the path goes on up to the first quote that is not escaped. Reading knows nothing of how paths are
written: any character may be escaped.
-/

namespace HlsEmit.Code

/-! ## Between quotes -/

/-- A character between quotes, with or without an escaping backslash in front of it. -/
structure PathChar where
  char : Char
  escaped : Bool
deriving DecidableEq, Repr, Inhabited

/-- How a character stands between quotes. -/
def PathChar.text (character : PathChar) : List Char :=
  if character.escaped then ['\\', character.char] else [character.char]

/-- Reads behind an opening quote: the characters up to the first quote that is not escaped, and what
stands behind that quote. Nothing if there is none. -/
def readQuoted : List Char → Option (List PathChar × List Char)
  | [] => none
  | '"' :: behind => some ([], behind)
  | '\\' :: c :: rest =>
    (readQuoted rest).map fun (characters, behind) => (⟨c, true⟩ :: characters, behind)
  | c :: rest =>
    (readQuoted rest).map fun (characters, behind) => (⟨c, false⟩ :: characters, behind)

/-- A text between quotes and the path that it stands for, by the characters that are read. -/
structure Quotes (text path : String) (characters : List PathChar) : Prop where
  /-- The first quote that is not escaped is the one behind the text. -/
  read : ∀ behind, readQuoted (text.toList ++ '"' :: behind) = some (characters, behind)
  written : text.toList = characters.flatMap PathChar.text
  /-- The quotes and the backslashes are escaped, and nothing else is. -/
  escaped : ∀ character ∈ characters,
    character.escaped = true ↔ character.char = '"' ∨ character.char = '\\'
  /-- Without the escaping backslashes it is the path. -/
  path_eq : characters.map PathChar.char = path.toList

/-- A text with a backslash in front of each occurrence of a character. -/
def escapeEach (c : Char) (text : List Char) : List Char :=
  text.flatMap fun d => if d = c then ['\\', d] else [d]

/-! ## Lines -/

/-- The line for a path. -/
def includeLine (path : String) : String :=
  "#include \"" ++ escapePath path ++ "\""

/-- The path of an include line. Nothing stands behind its closing quote. -/
def includedPath? (line : List Char) : Option String := do
  let quoted ← "#include \"".toList.isPrefixOf? line
  match ← readQuoted quoted with
  | (characters, []) => some (String.ofList (characters.map PathChar.char))
  | (_, _ :: _) => none

/-- The paths of the include lines that some lines begin with. -/
def includedPaths : List (List Char) → List String
  | [] => []
  | line :: rest =>
    match includedPath? line with
    | some path => path :: includedPaths rest
    | none => []

end HlsEmit.Code
