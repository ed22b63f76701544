import HlsEmit.Code.Tree
import HlsEmit.Diagnostic
import HlsEmit.Model.Bare

/-!
# Code and reports without debugging data

What debugging data may show up in: the notes at the ends of lines and the source lines of reports.
`Stmt.bare` and `FunctionCode.bare` empty all notes, and `Diagnostic.bare` forgets the line.
-/

namespace HlsEmit

namespace Code

/-- A note with nothing in it, where there is a note. -/
def bareNote (note : Option Note) : Option Note :=
  note.map fun _ => {}

mutual

/-- A statement with empty notes. -/
def Stmt.bare : Stmt → Stmt
  | .declaration declarator note => .declaration declarator (bareNote note)
  | .initialized declarator elements note => .initialized declarator elements (bareNote note)
  | .assign form target value note => .assign form target value (bareNote note)
  | .call call note => .call call (bareNote note)
  | .pragma pragma => .pragma pragma
  | .blank => .blank
  | .accelerator operands lines => .accelerator operands lines
  | .loop head note body closing => .loop head (bareNote note) (bareStmts body) (bareNote closing)
  | .branch condition note onTrue none => .branch condition (bareNote note) (bareStmts onTrue) none
  | .branch condition note onTrue (some onFalse) =>
    .branch condition (bareNote note) (bareStmts onTrue) (some (bareStmts onFalse))
termination_by structural stmt => stmt

/-- Some statements with empty notes. -/
def bareStmts : List Stmt → List Stmt
  | [] => []
  | stmt :: rest => stmt.bare :: bareStmts rest
termination_by structural stmts => stmts

end

/-- The notes are dropped from each statement alone. -/
@[simp] theorem bareStmts_append (stmts stmts' : List Stmt) :
    bareStmts (stmts ++ stmts') = bareStmts stmts ++ bareStmts stmts' := by
  induction stmts with
  | nil => rfl
  | cons stmt rest ih => simp only [List.cons_append, bareStmts, ih]

/-! ## Lines up to their notes -/

/-- A line up to its note: what stands in front of the first tab that two slashes follow. -/
def beforeNote : List Char → List Char
  | [] => []
  | c :: line => if ['\t', '/', '/'] <+: c :: line then [] else c :: beforeNote line

/-- The lines of a text, each up to its note. -/
def linesBeforeNotes (text : String) : List (List Char) :=
  (text.toList.splitOn '\n').map beforeNote

/-! ## Functions -/

/-- A function with empty notes. -/
def FunctionCode.bare (function : FunctionCode) : FunctionCode :=
  { function with note := {}, body := bareStmts function.body }

end Code

/-- A report without the source line. -/
def Diagnostic.bare (diagnostic : Diagnostic) : Diagnostic :=
  { diagnostic with origin := { diagnostic.origin with line := none } }

end HlsEmit
