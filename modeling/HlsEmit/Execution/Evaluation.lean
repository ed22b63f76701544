import HlsEmit.Execution.Content
import HlsEmit.Model.Operation

/-!
# Evaluating the model

What a function computes by its operations, without any code being written for them. The numbers are
those of a `Meaning`, which says what constants, arithmetic and comparisons mean and how a number is
converted to an element type.

An operation sets its results. Whatever a value is set to is converted to its element type; only a
constant is its payload as it stands. An array is a value that can be changed: stores set its
elements. A conditional sets its results to what the branch that is taken yields.

Evaluation covers the structured core, and has no result for any other operation, nor where a value
is read before it was set. Each loop has a limit for its iterations, so that evaluation always ends;
what a function computes, it computes with some limit (`Meaning.Computes`).
-/

namespace HlsEmit

/-- The numbers that a function of the model computes with. -/
structure Meaning (V : Type) where
  constant : Literal → Option V
  binary : BinaryOp → V → V → Option V
  unary : UnaryOp → V → Option V
  cmpI : CmpIPredicate → V → V → Option V
  cmpF : CmpFPredicate → V → V → Option V
  max : V → V → Option V
  min : V → V → Option V
  convert : ElemType → V → Option V
  truth : V → Option Bool
  index : V → Option Int

/-- What the values hold that have been set. -/
abbrev State (V : Type) := ValueId → Option (Content V)

/-- The extents of a value, none for a scalar. -/
def Arena.bounds? (arena : Arena) (id : ValueId) : Option (List Int) :=
  (arena.info id).shape.extents?.map (List.map Int64.toInt)

/-- A region of an operation: its arguments and what it does. -/
structure Body (V : Type) where
  args : List ValueId
  run : State V → Option (State V)

namespace State

variable {V : Type} (arena : Arena) (σ : State V)

/-- The state with a value set. -/
def set (id : ValueId) (content : Content V) : State V :=
  fun other => if other = id then some content else σ other

/-- The state with several values set, one after the other. -/
def setAll (contents : List (ValueId × Content V)) : State V :=
  contents.foldl (fun σ entry => σ.set entry.1 entry.2) σ

/-- The state without some values. -/
def clear (ids : List ValueId) : State V :=
  fun id => if id ∈ ids then none else σ id

/-- The number that a scalar is set to. -/
def scalar? (id : ValueId) : Option V :=
  match σ id with
  | some (.scalar value) => value
  | _ => none

/-- An element of an array; a scalar has one without an index. -/
def element? (id : ValueId) (indices : List Int) : Option V :=
  match σ id, arena.bounds? id with
  | some (.scalar value), _ => if indices = [] then value else none
  | some (.array elements), some extents =>
    if inBounds extents indices then elements indices else none
  | _, _ => none

end State

namespace Meaning

variable {V : Type} (m : Meaning V) (arena : Arena)

/-! ## Affine expressions -/

/-- The value of an affine expression of the structured core, over operands by position. -/
def affine (operand : Nat → Option V) (dims : Nat) : AffineExpr → Option V
  | .dim position => operand position.toNat
  | .symbol position => operand (dims + position.toNat)
  | .constant value => m.constant (.int value)
  | .add lhs rhs => do m.binary .add (← affine operand dims lhs) (← affine operand dims rhs)
  | .mul lhs rhs => do m.binary .mul (← affine operand dims lhs) (← affine operand dims rhs)
  | .mod .. | .floorDiv .. | .ceilDiv .. => none

/-- The values of several affine expressions. -/
def affineAll (operand : Nat → Option V) (dims : Nat) : List AffineExpr → Option (List V)
  | [] => some []
  | first :: rest => do return (← m.affine operand dims first) :: (← affineAll operand dims rest)

/-- The value of an operand in a position. -/
def input (σ : State V) (operands : List ValueId) (position : Nat) : Option V := do
  σ.scalar? (← operands[position]?)

/-- The indices that some affine expressions are. -/
def affineIndices (operand : Nat → Option V) (dims : Nat) : List AffineExpr → Option (List Int)
  | [] => some []
  | first :: rest => do
    return (← m.index (← m.affine operand dims first)) :: (← affineIndices operand dims rest)

/-- The indices that a map gives. -/
def mapIndices (σ : State V) (map : AffineMap) (operands : List ValueId) : Option (List Int) :=
  m.affineIndices (input σ operands) map.dims.toNat map.results

/-- The indices that some values are. -/
def valueIndices (σ : State V) : List ValueId → Option (List Int)
  | [] => some []
  | id :: rest => do return (← m.index (← σ.scalar? id)) :: (← valueIndices σ rest)

/-- The greatest or the least of the values of a bound. -/
def bound (combine : V → V → Option V) (σ : State V) (bound : AffineBound) : Option V := do
  match ← m.affineAll (input σ bound.operands) bound.map.dims.toNat bound.map.results with
  | [] => none
  | first :: rest => rest.foldlM combine first

/-! ## Setting values -/

/-- What a value is set to if its elements are given by a formula. -/
def content (id : ValueId) (formula : List Int → Option V) : Option (Content V) :=
  let element indices := do m.convert (arena.info id).elem (← formula indices)
  if (arena.info id).isShaped then do
    return .array (← tabulate (← arena.bounds? id) element)
  else do return .scalar (some (← element []))

/-- Sets a value whose elements are given by a formula. -/
def compute (σ : State V) (id : ValueId) (formula : List Int → Option V) : Option (State V) := do
  return σ.set id (← m.content arena id formula)

/-- Sets a scalar. -/
def setScalar (σ : State V) (id : ValueId) (value : V) : Option (State V) :=
  if (arena.info id).isShaped then none else m.compute arena σ id fun _ => some value

/-- Sets a scalar to a constant as it stands. -/
def setConstant (σ : State V) (id : ValueId) : Option (State V) := do
  if (arena.info id).isShaped then none
  else return σ.set id (.scalar (some (← m.constant (← (arena.info id).constant))))

/-- Sets an element of an array. -/
def setElement (σ : State V) (array : ValueId) (indices : List Int) (value : V) :
    Option (State V) :=
  match σ array, arena.bounds? array with
  | some (.array elements), some extents =>
    if inBounds extents indices then do
      let value ← m.convert (arena.info array).elem value
      return σ.set array (.array (HlsEmit.setElement elements indices value))
    else none
  | _, _ => none

/-- Leaves a value without a content. -/
def setBlank (σ : State V) (id : ValueId) : State V :=
  σ.set id (if (arena.info id).isShaped then .array fun _ => none else .scalar none)

/-- What each target is set to if it is a copy of its source. -/
def copies (σ : State V) : List (ValueId × ValueId) → Option (List (ValueId × Content V))
  | [] => some []
  | (target, source) :: rest => do
    return (target, ← m.content arena target (σ.element? arena source)) :: (← copies σ rest)

/-- Sets every target to its source, all at once. -/
def deliver (σ : State V) (pairs : List (ValueId × ValueId)) : Option (State V) := do
  return σ.setAll (← m.copies arena σ pairs)

/-! ## Operations -/

/-- Evaluates the body of a loop for an index that grows by steps. -/
def loop (limit : Nat) (σ : State V) (index : ValueId) (lower upper step : V)
    (body : State V → Option (State V)) : Option (State V) := do
  iterate (fun σ => do m.truth (← m.cmpI .slt (← σ.scalar? index) upper))
    (fun σ => do
      let σ ← body σ
      m.setScalar arena σ index (← m.binary .add (← σ.scalar? index) step))
    limit (← m.setScalar arena σ index lower)

/-- Evaluates one branch of a conditional. -/
def branch (σ : State V) (condition : V) (onTrue : State V → Option (State V))
    (onFalse : Option (State V → Option (State V))) : Option (State V) := do
  if ← m.truth condition then onTrue σ
  else match onFalse with
    | some onFalse => onFalse σ
    | none => some σ

/-- Evaluates an operation inside of one with the results `around`. The bodies are those of its
regions, in order. -/
def operation (limit : Nat) (around : List ValueId) (op : Op) (bodies : List (Body V))
    (σ : State V) : Option (State V) :=
  match op.kind, op.operands, op.results, bodies with
  | .constant, [], [result], [] => m.setConstant arena σ result
  | .binary operation, [lhs, rhs], [result], [] =>
    m.compute arena σ result fun indices => do
      m.binary operation (← σ.element? arena lhs indices) (← σ.element? arena rhs indices)
  | .unary operation, [operand], [result], [] =>
    m.compute arena σ result fun indices => do m.unary operation (← σ.element? arena operand indices)
  | .cmpF predicate, [lhs, rhs], [result], [] =>
    m.compute arena σ result fun indices => do
      m.cmpF predicate (← σ.element? arena lhs indices) (← σ.element? arena rhs indices)
  | .cmpI predicate, [lhs, rhs], [result], [] =>
    m.compute arena σ result fun indices => do
      m.cmpI predicate (← σ.element? arena lhs indices) (← σ.element? arena rhs indices)
  | .select, [condition, onTrue, onFalse], [result], [] =>
    m.compute arena σ result fun indices => do
      let shaped := (arena.info condition).isShaped
      if ← m.truth (← σ.element? arena condition (if shaped then indices else [])) then
        σ.element? arena onTrue indices
      else σ.element? arena onFalse indices
  | .assign, [source], [result], [] => m.compute arena σ result (σ.element? arena source)
  | .alloc, [], [result], [] => some (setBlank arena σ result)
  | .load, array :: indices, [result], [] => do
    m.setScalar arena σ result (← σ.element? arena array (← m.valueIndices σ indices))
  | .store, value :: array :: indices, [], [] => do
    m.setElement arena σ array (← m.valueIndices σ indices) (← σ.scalar? value)
  | .affineLoad map, array :: inputs, [result], [] => do
    m.setScalar arena σ result (← σ.element? arena array (← m.mapIndices σ map inputs))
  | .affineStore map, value :: array :: inputs, [], [] => do
    m.setElement arena σ array (← m.mapIndices σ map inputs) (← σ.scalar? value)
  | .affineApply map, inputs, [result], [] => do
    m.setScalar arena σ result
      (← m.affine (input σ inputs) map.dims.toNat (← map.results.head?))
  | .scfFor, [lower, upper, step], [], [⟨[index], body⟩] => do
    m.loop arena limit σ index (← σ.scalar? lower) (← σ.scalar? upper) (← σ.scalar? step) body
  | .affineFor lower upper step, [], [], [⟨[index], body⟩] => do
    m.loop arena limit σ index (← m.bound m.max σ lower) (← m.bound m.min σ upper)
      (← m.constant (.int step)) body
  | .scfIf, [condition], results, [⟨[], onTrue⟩] => do
    m.branch (σ.clear results) (← σ.scalar? condition) onTrue none
  | .scfIf, [condition], results, [⟨[], onTrue⟩, ⟨[], onFalse⟩] => do
    m.branch (σ.clear results) (← σ.scalar? condition) onTrue (some onFalse)
  | .scfYield, operands, [], [] | .affineYield, operands, [], [] =>
    m.deliver arena σ (around.zip operands)
  | .ret, _, [], [] => some σ
  | _, _, _, _ => none

/-- The results of an operation that its regions yield to. -/
def yieldTargets (op : Op) : List ValueId :=
  match op.kind with
  | .scfIf => op.results
  | _ => []

mutual

/-- Evaluates an operation. -/
def evalOp (limit : Nat) (around : List ValueId) : Op → State V → Option (State V)
  | ⟨kind, operands, results, attrs, regions, line⟩ =>
    let op : Op := ⟨kind, operands, results, attrs, regions, line⟩
    m.operation arena limit around op (evalRegions limit (yieldTargets op) regions)
termination_by structural op => op

/-- Evaluates each of some regions. -/
def evalRegions (limit : Nat) (around : List ValueId) : List (BlockOf Op) → List (Body V)
  | [] => []
  | region :: rest => ⟨region.args, evalBlock limit around region⟩ :: evalRegions limit around rest
termination_by structural regions => regions

/-- Evaluates a block. -/
def evalBlock (limit : Nat) (around : List ValueId) : BlockOf Op → State V → Option (State V)
  | ⟨_, ops⟩ => evalOps limit around ops
termination_by structural block => block

/-- Evaluates some operations, one behind the other. -/
def evalOps (limit : Nat) (around : List ValueId) : List Op → State V → Option (State V)
  | [] => some
  | op :: rest => fun σ => do evalOps limit around rest (← evalOp limit around op σ)
termination_by structural ops => ops

end

/-! ## Functions -/

/-- What an argument is set to. Its numbers are converted to its element type. -/
def argument (id : ValueId) : Content V → Option (Content V)
  | .scalar none => if (arena.info id).isShaped then none else some (.scalar none)
  | .scalar (some value) => if (arena.info id).isShaped then none
    else do return .scalar (some (← m.convert (arena.info id).elem value))
  | .array elements => if (arena.info id).isShaped then
      some (.array fun indices => (elements indices).bind (m.convert (arena.info id).elem))
    else none

/-- Sets the arguments of a function. -/
def arguments (σ : State V) : List ValueId → List (Content V) → Option (State V)
  | [], [] => some σ
  | id :: ids, content :: contents => do
    arguments (σ.set id (← m.argument arena id content)) ids contents
  | _, _ => none

end Meaning

/-- The values that a function returns. -/
def Function.returned (function : Function) : List ValueId :=
  ((function.blocks.head?.bind BlockOf.returnOp?).map Op.operands).getD []

/-- What the arguments of a function and the values that it returns hold in the end. -/
def Meaning.evaluate {V : Type} (m : Meaning V) (arena : Arena) (limit : Nat) (function : Function)
    (inputs : List (Content V)) : Option (List (Content V)) :=
  match function.blocks with
  | [block] => do
    let σ ← m.arguments arena (fun _ => none) function.args inputs
    let σ ← m.evalBlock arena limit [] block σ
    (function.args ++ function.returned).mapM σ
  | _ => none

/-- A function ends with these contents, however often its loops are run through. -/
def Meaning.Computes {V : Type} (m : Meaning V) (arena : Arena) (function : Function)
    (inputs outputs : List (Content V)) : Prop :=
  ∃ limit, m.evaluate arena limit function inputs = some outputs

end HlsEmit
