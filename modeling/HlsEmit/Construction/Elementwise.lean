import HlsEmit.Code.Spelling
import HlsEmit.Construction.Script

/-!
# Elementwise programs

The programs that compute with values of one common shape, element by element: some arguments, any
number of steps each of which makes one value out of arguments and results of earlier steps, and the
result of the last step is returned.
-/

namespace HlsEmit

/-- The shape with these known extents; without any, it is a scalar. -/
def Shape.ofExtents : List Int64 → Shape
  | [] => .scalar
  | extents => .fixed extents

/-- A value of a common shape that is computed with: it can be declared, and it is no literal, which
would be written as it stands in the place of an argument. -/
structure ValueInfo.IsVariable (extents : List Int64) (info : ValueInfo) : Prop where
  shape : info.shape = .ofExtents extents
  typed : info.elem.cppName?.isSome
  noLiteral : info.constantText? = none

namespace Construction

/-- The table entry that a call adds. -/
def ModuleStep.entry? : ModuleStep → Option ValueInfo
  | .scalar elem => some { elem }
  | .array elem extents => some { elem, shape := .fixed extents }
  | .shaped elem shape => some { elem, shape }
  | .add entry => some entry
  | .info _ | .function .. => none

/-- The value that is added when there are so many already. -/
def nextValue (count : Nat) : ValueId :=
  ⟨UInt32.ofNat count⟩

/-- A counter below the size of an id is the id it gives out. -/
theorem index_nextValue {count : Nat} (h : count < UInt32.size) :
    (nextValue count).index = count := by
  simp [nextValue, ValueId.index, UInt32.toNat_ofNat_of_lt' h]

/-- The counter of an id wraps round, so the id is never above it. -/
theorem index_nextValue_le (count : Nat) : (nextValue count).index ≤ count := by
  simp [nextValue, ValueId.index, Nat.mod_le]

/-- The id that stands for the index of an id is that id. -/
theorem nextValue_index (id : ValueId) : nextValue id.index = id := by
  simp [nextValue, ValueId.index]

/-- The results of so many steps. `count` values were added before. -/
def stepResults (count steps : Nat) : List ValueId :=
  (List.range' count steps).map nextValue

/-- A step that computes an array or a scalar from known ones, element by element. -/
inductive Step.Elementwise (known : List ValueId) : Step → Prop where
  | binary {op : BinaryOp} {lhs rhs : ValueId} (hlhs : lhs ∈ known) (hrhs : rhs ∈ known) :
      Elementwise known (.binary op lhs rhs)
  | unary {op : UnaryOp} {operand : ValueId} (hoperand : operand ∈ known) :
      Elementwise known (.unary op operand)
  | assign {source : ValueId} (hsource : source ∈ known) : Elementwise known (.assign source)
  | cmpI {predicate : CmpIPredicate} {lhs rhs : ValueId} (hlhs : lhs ∈ known) (hrhs : rhs ∈ known) :
      Elementwise known (.cmpI predicate lhs rhs)
  /-- There is no operator for some comparisons. -/
  | cmpF {predicate : CmpFPredicate} {lhs rhs : ValueId} (hoperator : predicate.operator?.isSome)
      (hlhs : lhs ∈ known) (hrhs : rhs ∈ known) : Elementwise known (.cmpF predicate lhs rhs)
  /-- Any known value may be the condition, whether it is the result of a comparison or not. -/
  | select {condition onTrue onFalse : ValueId} (hcondition : condition ∈ known)
      (hTrue : onTrue ∈ known) (hFalse : onFalse ∈ known) :
      Elementwise known (.select condition onTrue onFalse)

/-- The values that an elementwise step computes from. -/
def Step.sources : Step → List ValueId
  | .binary _ lhs rhs | .cmpI _ lhs rhs | .cmpF _ lhs rhs => [lhs, rhs]
  | .unary _ operand => [operand]
  | .assign source => [source]
  | .select condition onTrue onFalse => [condition, onTrue, onFalse]
  | _ => []

/-- Each of some steps computes from known values and from the results in front of it. `count` values
were added before. -/
def ElementwiseSteps : (known : List ValueId) → (count : Nat) → List Step → Prop
  | _, _, [] => True
  | known, count, step :: rest =>
    step.Elementwise known ∧ ElementwiseSteps (nextValue count :: known) (count + 1) rest

/-- A program over values of one shape. -/
structure ElementwiseProgram where
  name : String
  /-- The extents of all values; none for scalars. -/
  extents : List Int64
  /-- The calls that add the arguments to the table. -/
  calls : List ModuleStep
  args : List ValueId
  steps : List Step
  addsVariables : ∀ call ∈ calls, ∃ info, call.entry? = some info ∧ info.IsVariable extents
  addedArgs : ∀ id ∈ args, id.index < calls.length
  someSteps : steps ≠ []
  /-- The first step computes from arguments, so there is at least one. -/
  computes : ElementwiseSteps args calls.length steps
  /-- There is a number for every value. -/
  numbered : calls.length + steps.length ≤ UInt32.size

namespace ElementwiseProgram

/-- The results of the steps, in order. -/
def results (program : ElementwiseProgram) : List ValueId :=
  stepResults program.calls.length program.steps.length

/-- The result of the last step. -/
def last (program : ElementwiseProgram) : ValueId :=
  nextValue (program.calls.length + program.steps.length - 1)

/-- The calls that construct the program. -/
def script (program : ElementwiseProgram) : Script :=
  program.calls ++
    [.function program.name program.args (program.steps ++ [.ret [program.last]]) {} none]

/-- The module that is constructed. -/
def module (program : ElementwiseProgram) : Module :=
  program.script.run.1

end ElementwiseProgram

end Construction

end HlsEmit
