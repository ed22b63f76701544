import HlsEmit.Model.Operation

/-!
# Drafts of modules

A module is constructed call by call. A `Draft` is what the calls made so far have left behind: the
value table, and a log of the values that each call has given out. Values are numbered in the order
of the calls, so the number of a value is its position in the table.

A `Construction α` is a computation on the draft. The operations that are constructed are results of
such computations and not parts of the draft: each call says which operations it appends to the
block that is being filled.
-/

namespace HlsEmit

/-! ## Numbering values -/

/-- Gives out numbers of values, from zero upward. They have 32 bits: behind the last one, zero is the
next again. -/
structure IdSupply where
  /-- The next number. -/
  next : UInt32 := 0
deriving DecidableEq, Repr, Inhabited

/-- How many numbers were given out, as far as 32 bits can tell. -/
def IdSupply.allocated (supply : IdSupply) : Nat :=
  supply.next.toNat

/-- The next number, with the supply that is left. -/
def IdSupply.take (supply : IdSupply) : ValueId × IdSupply :=
  (⟨supply.next⟩, ⟨supply.next + 1⟩)

/-! ## Drafts -/

namespace Construction

/-- What the log says about a call. -/
inductive Record where
  /-- The values that the call gave out. -/
  | allocated (call : String) (ids : List ValueId)
  /-- The table entry that the call asked for. -/
  | looked (info : Option ValueInfo)
deriving Repr

/-- What the calls made so far have left behind. -/
structure Draft where
  supply : IdSupply := {}
  values : Arena := #[]
  /-- The calls made so far, in order. -/
  log : List Record := []
deriving Repr, Inhabited

end Construction

/-- A computation on a draft. -/
abbrev Construction (α : Type) : Type :=
  StateM Construction.Draft α

namespace Construction

/-! ## Values -/

/-- Adds a value to the table. -/
def add (info : ValueInfo) : Construction ValueId := fun draft =>
  let (id, supply) := draft.supply.take
  (id, { draft with supply, values := draft.values.push info })

/-- Adds several values to the table, in order. -/
def addAll : List ValueInfo → Construction (List ValueId)
  | [] => return []
  | info :: rest => do
    let id ← add info
    return id :: (← addAll rest)

/-- The table entry of a value, if there is one. -/
def info? (id : ValueId) : Construction (Option ValueInfo) := fun draft =>
  (draft.values.info? id, draft)

/-- Adds the result of an elementwise operation: shaped as the operand, with an element type of its
own or that of the operand, and without a placement or a content. -/
def addLike (operand : ValueId) (elem : Option ElemType) : Construction ValueId := do
  match ← info? operand with
  | some info => add { elem := elem.getD info.elem, shape := info.shape }
  | none => add { elem := elem.getD .f32 }

/-- Adds a scalar of the element type of an array. -/
def addElement (array : ValueId) : Construction ValueId := do
  add { elem := (← info? array).elim .f32 ValueInfo.elem }

/-- Adds the index of a loop. -/
def addIndex : Construction ValueId :=
  add { elem := .index }

/-! ## The log -/

/-- Adds a record to the log. -/
def record (record : Record) : Construction Unit := fun draft =>
  ((), { draft with log := draft.log ++ [record] })

/-! ## Operations without regions -/

/-- The operation of a call that gives out its result. -/
def computing (call : String) (kind : OpKind) (operands : List ValueId) (result : ValueId) :
    Construction (List Op) := do
  record (.allocated call [result])
  return [{ kind, operands, results := [result] }]

/-- The operation of a call that gives out nothing. -/
def acting (call : String) (kind : OpKind) (operands : List ValueId) :
    Construction (List Op) := do
  record (.allocated call [])
  return [{ kind, operands }]

/-- Adds a constant, with the operation that stands for it. -/
def constant (info : ValueInfo) : Construction (ValueId × Op) := do
  let id ← add info
  return (id, { kind := .constant, results := [id] })

/-- The table entry of a constant index. -/
def indexInfo (value : Int64) : ValueInfo :=
  { elem := .index, constant := some (.int value) }

end Construction

end HlsEmit
