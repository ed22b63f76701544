import HlsEmit.Construction.Elementwise

/-!
# The calls of a script

`Script.calls` lists all calls of a script in the order in which they are made, each with the draft
that it meets. The calls that fill the regions of an operation are behind the call that opens it.

A caller knows a value once the log says that it was given out. The index of a loop is given out
before the body of the loop is filled, the results of a conditional when all its regions are.
-/

namespace HlsEmit

/-- The values that an operation defines by itself: the arguments of its regions and its results. -/
def Op.ownDefined (op : Op) : List ValueId :=
  op.regions.flatMap BlockOf.args ++ op.results

namespace Construction

/-- The values that a record names. -/
def Record.ids : Record → List ValueId
  | .allocated _ ids => ids
  | .looked _ => []

/-- The values that the caller was given so far. -/
def Draft.known (draft : Draft) : List ValueId :=
  draft.log.flatMap Record.ids

/-- What is to be seen of a call. -/
structure Call where
  /-- What the calls in front have left behind. -/
  draft : Draft
  /-- The values that the caller passes. -/
  passed : List ValueId
  /-- The values that are added to the table before any region is filled, in order. -/
  added : List ValueId
  /-- The operations that are appended to the block, with everything inside of them. -/
  appended : List Op
  /-- Whether an operation is appended as it is. -/
  raw : Bool
deriving Repr

/-- A call whose caller keeps to the values that were given out, and that constructs its operations
by itself. -/
structure Call.Proper (call : Call) : Prop where
  notRaw : call.raw = false
  known : ∀ id ∈ call.passed, id ∈ call.draft.known

instance (call : Call) : Decidable call.Proper :=
  decidable_of_iff (call.raw = false ∧ ∀ id ∈ call.passed, id ∈ call.draft.known)
    ⟨fun h => ⟨h.1, h.2⟩, fun h => ⟨h.notRaw, h.known⟩⟩

/-! ## Steps -/

/-- The values that a caller passes to a step. -/
def Step.passed : Step → List ValueId
  | .value _ | .constant .. | .index _ | .constantArray .. | .alloc _ | .affineFor ..
  | .parallel .. => []
  | .unary _ operand | .cast _ operand _ | .dim operand _ | .rank operand | .assign operand
  | .tensorToMemref operand _ => [operand]
  | .binary _ lhs rhs | .cmpF _ lhs rhs | .cmpI _ lhs rhs => [lhs, rhs]
  | .select condition onTrue onFalse => [condition, onTrue, onFalse]
  | .load array indices | .affineLoad array _ indices => array :: indices
  | .store source array indices | .affineStore source array _ indices => source :: array :: indices
  | .affineApply _ operands | .call _ operands _ | .ip _ operands | .affineIf _ operands _ _
  | .yield operands | .ret operands => operands
  | .push op _ => op.mentioned
  | .scfFor lower upper step _ _ => [lower, upper, step]
  | .affineForBounds lower upper _ _ _ => lower.operands ++ upper.operands
  | .scfIf condition _ _ _ => [condition]

/-- The values that a step adds to the table by itself: those that its operations define, or the
one that has no operation. -/
def Step.added (draft : Draft) : Step → List ValueId
  | .value info => [((add info).run draft).1]
  | step => (step.run.run draft).1.flatMap Op.ownDefined

/-- Whether a step appends an operation as it is. -/
def Step.isPush : Step → Bool
  | .push .. => true
  | _ => false

/-- The call of a step. -/
def Step.toCall (step : Step) (draft : Draft) : Call :=
  ⟨draft, step.passed, step.added draft, (step.run.run draft).1, step.isPush⟩

/-- What a step does before the first of its regions is filled. -/
def Step.opening : Step → Construction Unit
  | .scfFor .. => do record (.allocated "scf_for" [← addIndex])
  | .affineFor .. => do record (.allocated "affine_for" [← addIndex])
  | .affineForBounds .. => do record (.allocated "affine_for_bounds" [← addIndex])
  | .scfIf _ results _ _ => discard (addAll results)
  | .parallel extents elem _ _ => do
    let indices ← addAll (extents.map fun _ => { elem := .index })
    discard (add { elem })
    record (.allocated "parallel ivs" indices)
  | _ => return

/-- The draft that the first region of a step is filled from. -/
def Step.opened (step : Step) (draft : Draft) : Draft :=
  (step.opening.run draft).2

mutual

/-- The call of a step, with the calls that fill its regions. -/
def Step.calls : Step → Draft → List Call
  | .scfFor lower upper step body marks, draft =>
    let outer : Step := .scfFor lower upper step body marks
    outer.toCall draft :: callsAll body (outer.opened draft)
  | .affineFor lower upper step body marks, draft =>
    let outer : Step := .affineFor lower upper step body marks
    outer.toCall draft :: callsAll body (outer.opened draft)
  | .affineForBounds lower upper step body marks, draft =>
    let outer : Step := .affineForBounds lower upper step body marks
    outer.toCall draft :: callsAll body (outer.opened draft)
  | .scfIf condition results onTrue onFalse, draft =>
    let outer : Step := .scfIf condition results onTrue onFalse
    let opened := outer.opened draft
    outer.toCall draft :: callsAll onTrue opened ++ callsAll onFalse ((runAll onTrue).run opened).2
  | .affineIf set operands onTrue marks, draft =>
    let outer : Step := .affineIf set operands onTrue marks
    outer.toCall draft :: callsAll onTrue (outer.opened draft)
  | .parallel extents elem reductions body, draft =>
    let outer : Step := .parallel extents elem reductions body
    outer.toCall draft :: callsAll body (outer.opened draft)
  | step, draft => [step.toCall draft]
termination_by structural step => step

/-- The calls of several steps, in order. -/
def callsAll : List Step → Draft → List Call
  | [], _ => []
  | step :: rest, draft => step.calls draft ++ callsAll rest (step.run.run draft).2
termination_by structural steps => steps

end

/-! ## Scripts -/

/-- The values that a caller passes to a call on a module. -/
def ModuleStep.passed : ModuleStep → List ValueId
  | .info id => [id]
  | .function _ args _ _ _ => args
  | _ => []

/-- The call on a module, with the calls that fill the body of a function. -/
def ModuleStep.calls (step : ModuleStep) (draft : Draft) : List Call :=
  let added := step.entry?.toList.map fun info => ((Construction.add info).run draft).1
  let outer : Call := ⟨draft, step.passed, added, [], false⟩
  match step with
  | .function _ _ body _ _ => outer :: callsAll body draft
  | _ => [outer]

namespace Script

/-- The calls of a script whose first call meets this draft. -/
def callsFrom : Script → Draft → List Call
  | [], _ => []
  | step :: rest, draft => step.calls draft ++ callsFrom rest (step.run.run draft).2

/-- All calls of a script, in order. -/
def calls (script : Script) : List Call :=
  script.callsFrom {}

end Script

end Construction

end HlsEmit
