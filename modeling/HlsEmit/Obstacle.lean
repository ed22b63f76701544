import HlsEmit.Diagnostic

/-!
# Obstacles

What can be in the way of an operation. Usually it is a problem of the model, which is reported. An
`Overrun` is none: it means that something was looked up in a place where nothing is, although the
checks in front should have seen to that.
-/

namespace HlsEmit

/-- Something that was looked up where nothing is. -/
inductive Overrun where
  /-- An operand, a result or a region of an operation of this kind. -/
  | part (kind : OpKind)
  /-- The operand in a role of an accelerator block. -/
  | role (role : String)
  /-- The entry of a value in the value table. -/
  | entry (id : ValueId)
  /-- A result of a map. -/
  | result (map : AffineMap)
  /-- A bound or a step of the loop with this index. -/
  | loop (index : ValueId)
  /-- The number of inputs of a map or a set, which has 32 bits. -/
  | inputs (dims symbols : UInt32)
deriving DecidableEq, Repr

/-- Why there is no plan for an operation. -/
inductive Obstacle where
  | problem (problem : Problem)
  | overrun (overrun : Overrun)
deriving DecidableEq, Repr

namespace Arena

/-- The entry of a value that has one. -/
def entry (arena : Arena) (id : ValueId) : Except Obstacle ValueInfo :=
  match arena.info? id with
  | some info => .ok info
  | none => .error (.overrun (.entry id))

/-- Whether a use of a value can be written without declaring it. The entry of a value that has a
name is not looked up. -/
def checkBound (arena : Arena) (names : NameTable) (id : ValueId) : Except Obstacle Bool :=
  if names.isDeclared id then .ok true
  else return (← arena.entry id).constantText?.isSome

end Arena

/-- The number of inputs of a map or a set. -/
def countInputs (dims symbols : UInt32) : Except Obstacle Nat :=
  let inputs := dims.toNat + symbols.toNat
  if inputs < UInt32.size then .ok inputs else .error (.overrun (.inputs dims symbols))

end HlsEmit
