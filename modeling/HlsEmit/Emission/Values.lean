import HlsEmit.Emission.Basic

/-!
# Mentions of values

The first mention of a value declares it, all later ones use it. This module emits mentions,
declarations of arrays, and the loops that run over all elements of an array.

* `mention`, `pointerMention`: a use, or a declaration with the type in front.
* `declarator`: the same with the extents of an array behind it.
* `elementwise`: one loop for each dimension of a target, around the statement for one element.
-/

namespace HlsEmit.Emission

open Code

/-- The C++ type of a value. That it has none is reported. -/
def typeOf (op : Option Op) (id : ValueId) : Emission (Option String) := do
  let elem := (← info id).elem
  if elem.cppName?.isNone then raise op (.noElemType elem id)
  return elem.cppName?

/-- A use of a value, or its declaration if it has no name yet. -/
def mentionAs (pointer : Bool) (op : Option Op) (id : ValueId) : Emission Mention := do
  if ← isBound id then return .use (← use id)
  let type ← typeOf op id
  match ← declare id pointer with
  | .ok name => return .declare id type name
  | .error error =>
    raise op (.naming error)
    return .use (← use id)

/-- A use of a value, or its declaration by value. -/
def mention (op : Option Op) (id : ValueId) : Emission Mention :=
  mentionAs false op id

/-- A use of a value, or its declaration as a pointer. -/
def pointerMention (op : Option Op) (id : ValueId) : Emission Mention :=
  mentionAs true op id

/-- A mention as an expression. -/
def operand (op : Op) (id : ValueId) : Emission Expr := do
  return .mention (← mention (some op) id)

/-- A mention indexed by the counters of the loops around it. -/
def element (op : Op) (rank : Nat) (id : ValueId) : Emission Expr := do
  return (← operand op id).atCounters rank

/-- The expressions of several mentions, in order. -/
def operands (op : Op) : List ValueId → Emission (List Expr)
  | [] => return []
  | id :: rest => do
    let first ← operand op id
    return first :: (← operands op rest)

/-- A mention of an array with its extents. An array whose extents are not all known is reported,
and declared as a pointer. -/
def arrayDeclarator (op : Option Op) (id : ValueId) : Emission Declarator := do
  match (← info id).shape.extents? with
  | some extents => return ⟨← mention op id, extents⟩
  | none =>
    raise op (.dynamicShape id)
    return ⟨← pointerMention op id, []⟩

/-- A mention, with its extents if the value is an array. -/
def declarator (op : Option Op) (id : ValueId) : Emission Declarator := do
  if (← info id).isShaped then arrayDeclarator op id else return ⟨← mention op id, []⟩

/-- A line for each of these values that is not bound yet, which declares it. -/
def predeclare (op : Op) : List ValueId → Emission (List Stmt)
  | [] => return []
  | id :: rest => do
    if ← isBound id then predeclare op rest
    else
      let first ← declarator (some op) id
      return .declaration first none :: (← predeclare op rest)

/-! ## Loops over the elements of an array -/

/-- One loop for each extent, the first one outermost, around some statements. `dim` is the
dimension of the first extent. -/
def counterLoops (body : List Stmt) : (dim : Nat) → (extents : List Int64) → List Stmt
  | _, [] => body
  | dim, extent :: rest =>
    [.loop (.counter dim extent) none (counterLoops body (dim + 1) rest) none]

/-- The extents to loop over for a target, with its declaration if it is not bound. Nothing is
looped over for a scalar, nor for an array whose extents are not all known, which is reported. -/
def loopExtents (op : Op) (target : ValueId) : Emission (List Stmt × List Int64) := do
  let info ← info target
  if !info.isShaped then return ([], [])
  match info.shape.extents? with
  | none =>
    raise (some op) (.dynamicShape target)
    return ([], [])
  | some extents =>
    if ← isBound target then return ([], extents)
    return ([.declaration (← arrayDeclarator (some op) target) none], extents)

/-- The statement of one element inside of loops over all elements of a target. The statement is
given the number of loops. -/
def elementwise (op : Op) (target : ValueId) (statement : Nat → Emission Stmt) :
    Emission (List Stmt) := do
  let (declaration, extents) ← loopExtents op target
  let body ← statement extents.length
  return declaration ++ counterLoops [body] 0 extents

end HlsEmit.Emission
