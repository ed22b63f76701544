import HlsEmit.Obstacle

/-!
# Calling sequences of accelerator blocks

An accelerator block is called by a fixed sequence of lines with placeholders between braces. A
`Template` holds the lines, the roles of the operands, and where the numbers in them come from;
`Template.fill` replaces all placeholders or says which problem is in the way.

* `substitute` replaces the placeholders of one line in a single pass from left to right.
* `Template.extentsFrom` finds the numbers.
* `Template.operandFor` takes the operand for a role by its position.
-/

namespace HlsEmit.Accelerator

/-- Where a number of a calling sequence comes from. -/
inductive ExtentSource where
  /-- The extent of a dimension of the operand in a role. -/
  | dim (role : String) (dim : Nat)
  /-- The product of two numbers that were found before. -/
  | product (lhs rhs : String)
deriving DecidableEq, Repr

/-- The calling sequence of an accelerator block. -/
structure Template where
  /-- The name of the block in messages. -/
  routine : String
  /-- The roles of the operands, in order. -/
  roles : List String
  /-- The role whose element type is the data type of the block. -/
  dataRole : String
  /-- The numbers of the sequence, by placeholder. -/
  extents : List (String × ExtentSource)
  /-- The lines; an empty one is a blank line. -/
  lines : List String
deriving DecidableEq, Repr

/-! ## Placeholders -/

/-- Replaces every placeholder of a line. `key` is what was read of a placeholder so far, if the
line stands inside of one; replaced text is not searched again. The first placeholder that has no
text, or no closing brace, stops the replacement. -/
def substituteChars (lookup : String → Option String) :
    (key : Option (List Char)) → List Char → Except String (List Char)
  | none, [] => .ok []
  | none, c :: rest =>
    if c = '\x7b' then substituteChars lookup (some []) rest
    else (substituteChars lookup none rest).map (c :: ·)
  | some key, [] => .error (String.ofList key.reverse)
  | some key, c :: rest =>
    if c = '\x7d' then
      let name := String.ofList key.reverse
      match lookup name with
      | none => .error name
      | some text => (substituteChars lookup none rest).map (text.toList ++ ·)
    else substituteChars lookup (some (c :: key)) rest

/-- Replaces every placeholder of a line, from left to right. If one cannot be replaced the result
is its key, or the rest of the line if its closing brace is missing. -/
def substitute (lookup : String → Option String) (line : String) : Except String String :=
  (substituteChars lookup none line.toList).map String.ofList

/-- The data type of a block for operands of an element type. -/
def dataType : ElemType → String
  | .f64 => "double"
  | .index => "int"
  | _ => "float"

/-- The placeholders that have the same text in every calling sequence: logarithm and count of the
parallel entries, the widths of banded matrices, and the unrolling of square roots. -/
def fixedTexts : List (String × String) :=
  [("LP", "2"), ("PE", "4"), ("kl", "4"), ("ku", "3"), ("unroll", "2")]

/-! ## Filling a template -/

namespace Template

/-- The operand in the position of a role, if there is one. -/
def operand? (template : Template) (operands : List Use) (role : String) : Option Use :=
  (template.roles.zip operands).lookup role

/-- The operand that is taken for a role; none for the role of another block. A role of this block
has an operand in its position. -/
def operandFor (template : Template) (operands : List Use) (role : String) :
    Except Obstacle (Option Use) :=
  match template.operand? operands role with
  | some operand => .ok (some operand)
  | none => if role ∈ template.roles then .error (.overrun (.role role)) else .ok none

/-- The extent of an operand in one dimension, which has to be known. -/
def staticExtent (template : Template) (role : String) (dim : Nat)
    (extents : Option (List Int64)) : Except Obstacle Int :=
  match extents.bind fun extents => extents[dim]? with
  | some extent => .ok extent.toInt
  | none => .error (.problem (.missingExtent template.routine dim role))

/-- One number of the sequence. `known` are the numbers found before. -/
def extent (template : Template) (arena : Arena) (operands : List Use)
    (known : List (String × Int)) (key : String) : ExtentSource → Except Obstacle Int
  | .dim role dim => do
    let extents ← match ← template.operandFor operands role with
      | some operand => pure (← arena.entry operand.value).shape.extents?
      | none => pure none
    template.staticExtent role dim extents
  | .product lhs rhs =>
    let value := (known.lookup lhs).getD 0 * (known.lookup rhs).getD 0
    if Int64.minValue.toInt ≤ value ∧ value ≤ Int64.maxValue.toInt then .ok value
    else .error (.problem (.extentOverflow template.routine key lhs rhs))

/-- The numbers of the sequence, in order, behind those that are known. -/
def extentsFrom (template : Template) (arena : Arena) (operands : List Use) :
    (known : List (String × Int)) → List (String × ExtentSource) →
      Except Obstacle (List (String × Int))
  | known, [] => .ok known
  | known, (key, source) :: rest => do
    let value ← template.extent arena operands known key source
    template.extentsFrom arena operands (known ++ [(key, value)]) rest

/-- The data type of the block for these operands. -/
def typeFor (template : Template) (arena : Arena) (operands : List Use) :
    Except Obstacle String := do
  match ← template.operandFor operands template.dataRole with
  | some operand => return dataType (← arena.entry operand.value).elem
  | none => return "float"

/-- The text of a placeholder: the data type, a fixed text, a number, or what stands for the operand
in that role. -/
def lookup (template : Template) (operands : List Use) (type : String)
    (extents : List (String × Int)) (key : String) : Option String :=
  if key = "DT" then some type
  else
    fixedTexts.lookup key
      |>.or ((extents.lookup key).map toString)
      |>.or ((template.operand? operands key).map fun operand => operand.designator.text)

/-- What is in the way of a placeholder that is not replaced. If it is a role, its operand was not
there to be taken. -/
def unfilled (template : Template) (operands : List Use) (key : String) : Obstacle :=
  match template.operandFor operands key with
  | .error obstacle => obstacle
  | .ok _ => .problem (.openPlaceholder template.routine key)

/-- The lines of a call with these operands. -/
def fill (template : Template) (arena : Arena) (operands : List Use) :
    Except Obstacle (List String) := do
  if operands.length ≠ template.roles.length then
    throw (.problem (.roleCount template.routine template.roles operands.length))
  let extents ← template.extentsFrom arena operands [] template.extents
  let type ← template.typeFor arena operands
  let text := template.lookup operands type extents
  template.lines.mapM fun line =>
    (substitute text line).mapError (template.unfilled operands)

end Template

end HlsEmit.Accelerator
