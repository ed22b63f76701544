import HlsEmit.Code.Layout

/-!
# Writing with a depth that is entered and left

`HlsEmit.Code.Layout` gives a text for every depth. A `Writer` has the depth as a state, as a
program that writes a text line by line: a level is entered before nested lines and left behind
them, and it can be left only if it was entered.

The writer follows the tree, so each level is left where it was entered: the pairing is a matter of
nesting here, for every tree there is, and says nothing about the lines. What the text itself looks
like, its braces and the blanks of its lines, is the subject of `HlsEmit.Proofs.Indentation`.

## Key results

- `Stmt.write_eq`: a statement appends its text and leaves the depth as it was
- `Program.write_eq`: a whole program can be written, and its text is `Program.text`
-/

namespace HlsEmit.Code

/-- What was written so far, and how many levels are open. -/
structure Writer where
  text : String := ""
  depth : Nat := 0
deriving DecidableEq, Repr, Inhabited

namespace Writer

/-- Appends a text. -/
def put (w : Writer) (text : String) : Writer :=
  { w with text := w.text ++ text }

/-- Appends the blanks in front of a line. -/
def indent (w : Writer) : Writer :=
  w.put (Code.indent w.depth)

/-- Opens a level. -/
def enter (w : Writer) : Writer :=
  { w with depth := w.depth + 1 }

/-- Closes a level; there must be an open one. The levels of a tree are closed where their nesting
ends, so that no statement can forget to. -/
def leave (w : Writer) : Option Writer :=
  if w.depth = 0 then none else some { w with depth := w.depth - 1 }

@[simp] theorem leave_enter (text : String) (depth : Nat) :
    leave ⟨text, depth + 1⟩ = some ⟨text, depth⟩ := rfl

end Writer

mutual

/-- Writes a statement. -/
def Stmt.write (w : Writer) : Stmt → Option Writer
  | .declaration declarator note => some (w.indent.put (declarator.text ++ ";" ++ lineEnd note))
  | .initialized declarator elements note =>
    some (w.indent.put (declarator.text ++ " = \x7b" ++ ", ".intercalate elements ++ "\x7d;"
      ++ lineEnd note))
  | .assign form target value note =>
    some (w.indent.put (target.text ++ " " ++ form.symbol ++ " " ++ value.text ++ ";"
      ++ lineEnd note))
  | .call call note => some (w.indent.put (call.text ++ ";" ++ lineEnd note))
  | .pragma pragma => some (w.indent.put (pragma.text ++ "\n"))
  | .blank => some (w.put "\n")
  | .accelerator _ lines => some (w.put (String.join (lines.map (plainLine w.depth))))
  | .loop head note body closing => do
    let w := w.indent.put (head.text ++ " \x7b" ++ lineEnd note)
    let w ← (← writeStmts w.enter body).leave
    return w.indent.put ("\x7d" ++ lineEnd closing)
  | .branch condition note onTrue none => do
    let w := w.indent.put ("if (" ++ condition.text ++ ") \x7b" ++ lineEnd note)
    let w ← (← writeStmts w.enter onTrue).leave
    return w.indent.put "\x7d\n"
  | .branch condition note onTrue (some onFalse) => do
    let w := w.indent.put ("if (" ++ condition.text ++ ") \x7b" ++ lineEnd note)
    let w ← (← writeStmts w.enter onTrue).leave
    let w := w.indent.put "\x7d else \x7b\n"
    let w ← (← writeStmts w.enter onFalse).leave
    return w.indent.put "\x7d\n"
termination_by structural stmt => stmt

/-- Writes some statements. -/
def writeStmts (w : Writer) : List Stmt → Option Writer
  | [] => some w
  | stmt :: rest => do writeStmts (← stmt.write w) rest
termination_by structural stmts => stmts

end

/-- Writes a function. The ports and the body are one level deeper than its first line. -/
def FunctionCode.write (w : Writer) (function : FunctionCode) : Option Writer := do
  let w := w.put (String.join (function.remarks.map fun remark => "/// " ++ remark ++ "\n"))
  let w := (w.put ("void " ++ function.name ++ "(\n")).enter
  let w := w.put (",\n".intercalate (function.ports.map fun port => Code.indent w.depth ++ port.text))
  let w ← w.leave
  let w := w.put ("\n) \x7b" ++ lineEnd (some function.note))
  let w ← (← writeStmts w.enter function.body).leave
  return w.put "\x7d\n\n"

/-- Writes some functions. -/
def writeFunctions (w : Writer) : List FunctionCode → Option Writer
  | [] => some w
  | function :: rest => do writeFunctions (← function.write w) rest

/-- Writes a whole program. -/
def Program.write (w : Writer) (program : Program) : Option Writer :=
  writeFunctions (w.put (prologue ++ includesText program.includes)) program.functions

/-! ## The text that is written -/

mutual

/-- A statement appends its text and leaves the depth as it was. -/
theorem Stmt.write_eq (w : Writer) : (stmt : Stmt) →
    stmt.write w = some ⟨w.text ++ stmt.text w.depth, w.depth⟩
  | .declaration declarator note => by
    simp [Stmt.write, Stmt.text, Writer.put, Writer.indent, String.append_assoc]
  | .initialized declarator elements note => by
    simp [Stmt.write, Stmt.text, Writer.put, Writer.indent, String.append_assoc]
  | .assign form target value note => by
    simp [Stmt.write, Stmt.text, Writer.put, Writer.indent, String.append_assoc]
  | .call call note => by
    simp [Stmt.write, Stmt.text, Writer.put, Writer.indent, String.append_assoc]
  | .pragma pragma => by
    simp [Stmt.write, Stmt.text, Writer.put, Writer.indent, String.append_assoc]
  | .blank => by
    simp [Stmt.write, Stmt.text, Writer.put]
  | .accelerator operands lines => by
    simp [Stmt.write, Stmt.text, Writer.put]
  | .loop head note body closing => by
    -- The body is written one level deeper, and `leave` takes that level back.
    have hbody (w : Writer) := writeStmts_eq w body
    simp [Stmt.write, Stmt.text, Writer.put, Writer.indent, Writer.enter, String.append_assoc, hbody]
  | .branch condition note onTrue none => by
    have htrue (w : Writer) := writeStmts_eq w onTrue
    simp [Stmt.write, Stmt.text, Writer.put, Writer.indent, Writer.enter, String.append_assoc, htrue]
  | .branch condition note onTrue (some onFalse) => by
    have htrue (w : Writer) := writeStmts_eq w onTrue
    have hfalse (w : Writer) := writeStmts_eq w onFalse
    simp [Stmt.write, Stmt.text, Writer.put, Writer.indent, Writer.enter, String.append_assoc, htrue,
      hfalse]

/-- Some statements append their texts and leave the depth as it was. -/
theorem writeStmts_eq (w : Writer) : (stmts : List Stmt) →
    writeStmts w stmts = some ⟨w.text ++ stmtsText w.depth stmts, w.depth⟩
  | [] => by simp [writeStmts, stmtsText]
  | stmt :: rest => by
    have hstmt (w : Writer) := Stmt.write_eq w stmt
    have hrest (w : Writer) := writeStmts_eq w rest
    simp [writeStmts, stmtsText, String.append_assoc, hstmt, hrest]

end

/-- A function is written from the outermost level on. -/
theorem FunctionCode.write_eq (text : String) (function : FunctionCode) :
    function.write ⟨text, 0⟩ = some ⟨text ++ function.text, 0⟩ := by
  simp [FunctionCode.write, FunctionCode.text, Writer.put, Writer.enter, writeStmts_eq,
    String.append_assoc]

/-- Functions stand at the outermost level, one after the other. -/
theorem writeFunctions_eq (text : String) (functions : List FunctionCode) :
    writeFunctions ⟨text, 0⟩ functions =
      some ⟨text ++ String.join (functions.map FunctionCode.text), 0⟩ := by
  induction functions generalizing text with
  | nil => simp [writeFunctions]
  | cons function rest ih =>
    simp [writeFunctions, FunctionCode.write_eq, ih, String.append_assoc]

/-- A whole program can be written, and in the end every level is closed. -/
theorem Program.write_eq (program : Program) : program.write {} = some ⟨program.text, 0⟩ := by
  simp [Program.write, Program.text, Writer.put, writeFunctions_eq, String.append_assoc]

end HlsEmit.Code
