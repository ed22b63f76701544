import HlsEmit.Code.Affine
import HlsEmit.Obstacle

/-!
# Computations that emit code

An `Emission α` computes a piece of code. It knows the value table and the function around, it may
give names to values, and it may report problems; nothing else passes from one piece to the next.
So the code of a function depends on the functions before it only through the names that they gave.

An outcome also keeps an account of the run: which operations were dispatched with which names, and
what was looked up in a place where nothing is. An emission goes on after such an `Overrun` with a
default; that no emission of a module has any is a theorem.
-/

namespace HlsEmit

/-- What emission knows about its surroundings. -/
structure Scope where
  values : Arena
  /-- The name of the function that is being emitted. -/
  function : Option String := none
deriving Inhabited

/-- An operation when its turn comes. -/
structure Dispatch where
  /-- The name of the function. -/
  function : Option String
  /-- The operation around. -/
  owner : Option Op
  op : Op
  /-- The names given so far. -/
  names : NameTable
deriving Repr

/-- What an emission leaves behind. -/
structure Outcome (α : Type) where
  value : α
  names : NameTable
  /-- The reports of this emission alone, in order. -/
  raised : List Diagnostic := []
  /-- The operations that were dispatched, in order. -/
  dispatched : List Dispatch := []
  overruns : List Overrun := []

/-- What two emissions leave behind, one after the other. The value is that of the second. -/
def Outcome.andThen {α β : Type} (before : Outcome α) (after : Outcome β) : Outcome β where
  value := after.value
  names := after.names
  raised := before.raised ++ after.raised
  dispatched := before.dispatched ++ after.dispatched
  overruns := before.overruns ++ after.overruns

/-- A computation that emits a piece of code. -/
def Emission (α : Type) : Type :=
  Scope → NameTable → Outcome α

/-- The place of an operation in a function. -/
def Origin.at (function : Option String) (op : Option Op) : Origin where
  function := function
  op := op.map fun op => op.kind.mnemonic
  line := op.bind fun op => op.line

namespace Emission

/-- What an emission leaves behind if it starts with these names. -/
def run {α : Type} (emission : Emission α) (scope : Scope) (names : NameTable) : Outcome α :=
  emission scope names

instance : Monad Emission where
  pure value := fun _ names => ⟨value, names, [], [], []⟩
  bind first next := fun scope names =>
    let before := first.run scope names
    before.andThen ((next before.value).run scope before.names)

/-- Something about the surroundings and the names given so far. -/
def inspect {α : Type} (f : Scope → NameTable → α) : Emission α :=
  fun scope names => { value := f scope names, names }

/-- Reports a problem, with the operation at which it was met. -/
def raise (op : Option Op) (problem : Problem) : Emission Unit :=
  fun scope names =>
    { value := (), names, raised := [problem.report (Origin.at scope.function op)] }

/-- Notes that an operation has its turn. -/
def dispatch (owner : Option Op) (op : Op) : Emission Unit :=
  fun scope names => { value := (), names, dispatched := [⟨scope.function, owner, op, names⟩] }

/-- Notes that nothing is where something was looked up. -/
def overrun (missing : Overrun) : Emission Unit :=
  fun _ names => { value := (), names, overruns := [missing] }

/-- Runs an emission inside of a function. -/
def inFunction {α : Type} (name : String) (emission : Emission α) : Emission α :=
  fun scope names => emission.run { scope with function := some name } names

/-- Notes that a value is not in the value table, if it is not. -/
def checkEntry (id : ValueId) : Emission Unit := do
  if (← inspect fun scope _ => scope.values.info? id).isNone then overrun (.entry id)

/-- The entry of a value in the value table. -/
def info (id : ValueId) : Emission ValueInfo := do
  checkEntry id
  inspect fun scope _ => scope.values.info id

/-- Whether a value can be used without declaring it. The entry of a value that has a name is not
looked up. -/
def isBound (id : ValueId) : Emission Bool := do
  if ← inspect fun _ names => names.isDeclared id then return true
  return (← info id).constantText?.isSome

/-- A use of a value. -/
def use (id : ValueId) : Emission Use :=
  inspect fun scope names => scope.values.use names id

/-- The code of some operands, by position. -/
def operandAt (operands : List ValueId) : Emission (Nat → Code.Expr) :=
  inspect fun scope names => scope.values.operandAt names operands

/-- Gives a fresh name to a value. -/
def declare (id : ValueId) (pointer : Bool) : Emission (Except NameError Name) :=
  fun _ names =>
    match names.declare id pointer with
    | .ok (name, names) => { value := .ok name, names }
    | .error error => { value := .error error, names }

/-- Lets a value share the name of another one; if that has none, the problem is reported. -/
def share (op : Op) (existing fresh : ValueId) : Emission Unit := do
  let failure ← (fun _ names =>
    match names.share existing fresh with
    | .ok (_, names) => { value := none, names }
    | .error error => { value := some error, names } : Emission (Option NameError))
  match failure with
  | none => return
  | some error => raise (some op) (.naming error)

end Emission

end HlsEmit
