import HlsEmit.Code.Writer

/-!
# Lines and braces of a text

What a reader sees of the depth of a program without reading it: the braces, and the blanks in front
of each line. Every line inside of braces is indented by two blanks for each open brace, a line that
begins with a closing brace by two less.
-/

namespace HlsEmit.Code

/-- How many braces are open behind some characters if so many are open in front of them; nothing if
one is closed that was not opened. -/
def depthBehind : (depth : Nat) → List Char → Option Nat
  | depth, [] => some depth
  | depth, c :: cs =>
    if c = '\x7b' then depthBehind (depth + 1) cs
    else if c = '\x7d' then if depth = 0 then none else depthBehind (depth - 1) cs
    else depthBehind depth cs

/-- A line inside of so many braces has two blanks for each of them, or one pair less if it begins
with a closing brace. -/
def Indented (depth : Nat) (line : List Char) : Prop :=
  ∃ c rest, c ≠ ' ' ∧
    line = List.replicate (2 * if c = '\x7d' then depth - 1 else depth) ' ' ++ c :: rest

/-- The assignment of an accelerator's result to nothing, inside of so many braces. -/
def Stray (depth : Nat) (line : List Char) : Prop :=
  line = List.replicate (2 * depth) ' ' ++ " = l_res;".toList

/-- The lines of a text from one on in front of which so many braces are open. Every line inside of
braces is indented or empty, or a stray one where those are admitted; no brace is closed that was not
opened, and in the end all are closed. -/
def Disciplined (strays : Prop) : (depth : Nat) → List (List Char) → Prop
  | depth, [] => depth = 0
  | depth, line :: rest =>
    (0 < depth → line ≠ [] → Indented depth line ∨ strays ∧ Stray depth line) ∧
      ∃ next, depthBehind depth line = some next ∧ Disciplined strays next rest

/-- A name without braces and white space. -/
def PlainName (name : String) : Prop :=
  ∀ c ∈ name.toList, c ≠ '\x7b' ∧ c ≠ '\x7d' ∧ c.isWhitespace = false

instance (name : String) : Decidable (PlainName name) :=
  List.decidableBAll (fun c => c ≠ '\x7b' ∧ c ≠ '\x7d' ∧ c.isWhitespace = false) name.toList

end HlsEmit.Code
