import HlsEmit.Proofs.Elementwise.Emission

/-!
# The module of an elementwise program

The calls of an elementwise program add variables of one common shape, and each step gives one
operation that computes the next value of the table from its sources.

## Key results

- `Step.Elementwise.run`: what a single step adds
- `runAll_elementwise`: the operations of all steps, by induction on the steps
- `ElementwiseProgram.module_eq`: the module as a whole
-/

namespace HlsEmit

/-- Operations of a kind compute one value from their operands, and nothing else. -/
structure OpKind.Computes (kind : OpKind) (sources : List ValueId) (formula : Formula) : Prop where
  noBounds : kind.mentioned = []
  notReturn : kind ≠ .ret
  values : formula.values = sources
  plain : formula.Plain
  plan : ∀ result arena t owner,
    Op.plan arena t owner { kind, operands := sources, results := [result] } =
      .ok (.compute result formula)

namespace Construction

/-- Operations that compute the results of some steps, one for each step. `count` values were added
before. -/
inductive StepOps : (count : Nat) → List Step → List Op → Prop where
  | nil {count : Nat} : StepOps count [] []
  | cons {count : Nat} {step : Step} {rest : List Step} {ops : List Op} {kind : OpKind}
      {formula : Formula} (hkind : kind.Computes step.sources formula)
      (hops : StepOps (count + 1) rest ops) :
      StepOps count (step :: rest)
        ({ kind, operands := step.sources, results := [nextValue count] } :: ops)

/-- All values added so far are variables of one shape, numbered in order. -/
structure Draft.Uniform (extents : List Int64) (count : Nat) (draft : Draft) : Prop where
  numbered : draft.supply.next = UInt32.ofNat count
  size : draft.values.size = count
  entries : Arena.Uniform extents draft.values

variable {extents : List Int64} {count : Nat} {draft : Draft}

/-! ## Single values -/

namespace Draft.Uniform

/-- A table entry with the next number. -/
theorem add (h : draft.Uniform extents count) {info : ValueInfo} (hinfo : info.IsVariable extents) :
    ∃ draft', (Construction.add info).run draft = (nextValue count, draft') ∧
      draft'.Uniform extents (count + 1) := by
  have hvalue : ((Construction.add info).run draft).1 = nextValue count := by
    rw [nextValue, ← h.numbered]
    rfl
  refine ⟨((Construction.add info).run draft).2, Prod.ext hvalue rfl, ?_, ?_, ?_⟩
  · show draft.supply.next + 1 = UInt32.ofNat (count + 1)
    rw [h.numbered, UInt32.ofNat_add]
    rfl
  · exact (Array.size_push ..).trans (congrArg (· + 1) h.size)
  · intro info' hinfo'
    rcases Array.mem_push.1 hinfo' with hbefore | rfl
    · exact h.entries info' hbefore
    · exact hinfo

/-- The log does not matter. -/
theorem record (h : draft.Uniform extents count) (record : Record) :
    ∃ draft', (Construction.record record).run draft = ((), draft') ∧
      draft'.Uniform extents count :=
  ⟨_, rfl, h.numbered, h.size, h.entries⟩

/-- The result of an elementwise operation is a variable like its operand. -/
theorem addLike (h : draft.Uniform extents count) {operand : ValueId} {elem : Option ElemType}
    (hoperand : operand.index < count) (helem : ∀ type ∈ elem, type.cppName?.isSome) :
    ∃ draft', (Construction.addLike operand elem).run draft = (nextValue count, draft') ∧
      draft'.Uniform extents (count + 1) := by
  rw [← h.size] at hoperand
  have hentry : draft.values.info? operand = some draft.values[operand.index] :=
    Array.getElem?_eq_getElem hoperand
  have hlike := h.entries _ (Array.getElem_mem hoperand)
  -- The result takes the shape of the operand and is no constant.
  have hresult : ValueInfo.IsVariable extents
      { elem := elem.getD draft.values[operand.index].elem
        shape := draft.values[operand.index].shape } :=
    { shape := hlike.shape
      typed := by
        cases elem with
        | none => exact hlike.typed
        | some type => exact helem type rfl
      noLiteral := by simp [ValueInfo.constantText?] }
  obtain ⟨draft', hrun, hdraft'⟩ := h.add hresult
  refine ⟨draft', ?_, hdraft'⟩
  have hinfo : (Construction.info? operand).run draft =
      (some draft.values[operand.index], draft) := by
    rw [← hentry]
    rfl
  rw [Construction.addLike, StateT.run_bind, hinfo]
  exact hrun

/-- The operation of a call that computes a value like one of its operands. -/
theorem computing (h : draft.Uniform extents count) (call : String) (kind : OpKind)
    (operands : List ValueId) {like : ValueId} {elem : Option ElemType}
    (hlike : like.index < count) (helem : ∀ type ∈ elem, type.cppName?.isSome) :
    ∃ draft', (do Construction.computing call kind operands (← Construction.addLike like elem) :
        Construction (List Op)).run draft =
          ([{ kind, operands, results := [nextValue count] }], draft') ∧
      draft'.Uniform extents (count + 1) := by
  obtain ⟨draft₁, hadd, h₁⟩ := h.addLike hlike helem
  obtain ⟨draft₂, hrecord, h₂⟩ := h₁.record (.allocated call [nextValue count])
  refine ⟨draft₂, ?_, h₂⟩
  rw [StateT.run_bind, hadd]
  show (Construction.computing call kind operands (nextValue count)).run draft₁ = _
  rw [Construction.computing, StateT.run_bind, hrecord]
  rfl

end Draft.Uniform

/-! ## Steps -/

section Step

variable {known : List ValueId} {step : Step}

/-- The text in front of a unary operand is plain. -/
theorem plain_head (operation : UnaryOp) (operand : ValueId) :
    (Formula.function operation.head operand).Plain := by
  show 'v' ∉ operation.head.toList
  cases operation <;> decide

/-- A float comparison with an operator computes it. -/
theorem computes_cmpF {predicate : CmpFPredicate} {operator : Code.Operator}
    (hoperator : predicate.operator? = some operator) (lhs rhs : ValueId) :
    (OpKind.cmpF predicate).Computes [lhs, rhs] (.binary operator lhs rhs) where
  noBounds := rfl
  notReturn := by simp
  values := rfl
  plain := trivial
  plan result arena t owner := by
    have hrule : Op.plan arena t owner
        { kind := .cmpF predicate, operands := [lhs, rhs], results := [result] } =
          Op.rule arena t owner
            { kind := .cmpF predicate, operands := [lhs, rhs], results := [result] } := rfl
    simp only [hrule, Op.rule, hoperator]
    rfl

/-- What a single step adds. -/
theorem Step.Elementwise.run (hstep : step.Elementwise known) (h : draft.Uniform extents count)
    (hknown : ∀ id ∈ known, id.index < count) :
    ∃ kind formula draft', step.run.run draft =
        ([{ kind, operands := step.sources, results := [nextValue count] }], draft') ∧
      kind.Computes step.sources formula ∧ draft'.Uniform extents (count + 1) := by
  have hnone : ∀ type ∈ (none : Option ElemType), type.cppName?.isSome := by simp
  have hbool : ∀ type ∈ some ElemType.bool, type.cppName?.isSome := by simp [ElemType.cppName?]
  -- Every step is one computation; they differ in the operator and in the type of the result.
  cases hstep with
  | @binary op lhs rhs hlhs hrhs =>
    obtain ⟨draft', hrun, h'⟩ := h.computing "binary" (.binary op) [lhs, rhs] (hknown lhs hlhs) hnone
    have hkind : (OpKind.binary op).Computes [lhs, rhs] (.binary op.operator lhs rhs) :=
      ⟨rfl, by simp, rfl, trivial, fun _ _ _ _ => rfl⟩
    exact ⟨_, _, draft', hrun, hkind, h'⟩
  | @unary op operand hoperand =>
    obtain ⟨draft', hrun, h'⟩ := h.computing "unary" (.unary op) [operand] (hknown _ hoperand) hnone
    have hkind : (OpKind.unary op).Computes [operand] (.function op.head operand) :=
      ⟨rfl, by simp, rfl, plain_head op operand, fun _ _ _ _ => rfl⟩
    exact ⟨_, _, draft', hrun, hkind, h'⟩
  | @assign source hsource =>
    obtain ⟨draft', hrun, h'⟩ := h.computing "assign" .assign [source] (hknown source hsource) hnone
    have hkind : OpKind.assign.Computes [source] (.copy source) :=
      ⟨rfl, by simp, rfl, trivial, fun _ _ _ _ => rfl⟩
    exact ⟨_, _, draft', hrun, hkind, h'⟩
  | @cmpI predicate lhs rhs hlhs hrhs =>
    obtain ⟨draft', hrun, h'⟩ :=
      h.computing "cmpi" (.cmpI predicate) [lhs, rhs] (hknown lhs hlhs) hbool
    have hkind : (OpKind.cmpI predicate).Computes [lhs, rhs] (.binary predicate.operator lhs rhs) :=
      ⟨rfl, by simp, rfl, trivial, fun _ _ _ _ => rfl⟩
    exact ⟨_, _, draft', hrun, hkind, h'⟩
  | @cmpF predicate lhs rhs hoperator hlhs hrhs =>
    obtain ⟨draft', hrun, h'⟩ :=
      h.computing "cmpf" (.cmpF predicate) [lhs, rhs] (hknown lhs hlhs) hbool
    obtain ⟨operator, hoperator⟩ := Option.isSome_iff_exists.1 hoperator
    exact ⟨_, _, draft', hrun, computes_cmpF hoperator lhs rhs, h'⟩
  | @select condition onTrue onFalse hcondition hTrue hFalse =>
    obtain ⟨draft', hrun, h'⟩ :=
      h.computing "select" .select [condition, onTrue, onFalse] (hknown onTrue hTrue) hnone
    have hkind : OpKind.select.Computes [condition, onTrue, onFalse]
        (.select condition onTrue onFalse) :=
      ⟨rfl, by simp, rfl, trivial, fun _ _ _ _ => rfl⟩
    exact ⟨_, _, draft', hrun, hkind, h'⟩

end Step

/-! ## Programs -/

/-- The operations of all steps, with those of the calls behind them. -/
theorem runAll_elementwise (tail : List Step) {steps : List Step} {known : List ValueId}
    (hsteps : ElementwiseSteps known count steps) (h : draft.Uniform extents count)
    (hknown : ∀ id ∈ known, id.index < count) (hroom : count + steps.length ≤ UInt32.size) :
    ∃ ops draft', StepOps count steps ops ∧ draft'.Uniform extents (count + steps.length) ∧
      (runAll (steps ++ tail)).run draft =
        (ops ++ ((runAll tail).run draft').1, ((runAll tail).run draft').2) := by
  induction steps generalizing known count draft with
  | nil => exact ⟨[], draft, .nil, h, rfl⟩
  | cons step rest ih =>
    rw [List.length_cons] at hroom
    obtain ⟨kind, formula, draft₁, hrun, hkind, h₁⟩ := hsteps.1.run h hknown
    have hnext : (nextValue count).index = count := index_nextValue (by omega)
    -- The result of the first step may be used by all later ones.
    have hknown₁ : ∀ id ∈ nextValue count :: known, id.index < count + 1 :=
      List.forall_mem_cons.2 ⟨by omega, fun id hid => Nat.lt_succ_of_lt (hknown id hid)⟩
    obtain ⟨ops, draft₂, hops, h₂, hrest⟩ := ih hsteps.2 h₁ hknown₁ (by omega)
    refine ⟨_ :: ops, draft₂, .cons hkind hops, ?_, ?_⟩
    · rwa [List.length_cons, ← Nat.add_assoc, Nat.add_right_comm]
    · have hcons : (runAll (step :: rest ++ tail)).run draft =
          ((step.run.run draft).1 ++ ((runAll (rest ++ tail)).run (step.run.run draft).2).1,
            ((runAll (rest ++ tail)).run (step.run.run draft).2).2) := rfl
      rw [hcons, hrun, hrest]
      rfl

/-- A call that adds a variable constructs no function. -/
theorem ModuleStep.run_of_entry {call : ModuleStep} {info : ValueInfo}
    (hentry : call.entry? = some info) (hinfo : info.IsVariable extents)
    (h : draft.Uniform extents count) :
    ∃ draft', call.run.run draft = ([], draft') ∧ draft'.Uniform extents (count + 1) := by
  -- The calls that add a variable differ in the name they record.
  have hadd (name : String) : ∃ draft', (addValue name info).run draft = ([], draft') ∧
      draft'.Uniform extents (count + 1) := by
    obtain ⟨draft₁, hrun, h₁⟩ := h.add hinfo
    obtain ⟨draft₂, hrecord, h₂⟩ := h₁.record (.allocated name [nextValue count])
    refine ⟨draft₂, ?_, h₂⟩
    have hvalue : (addValue name info).run draft =
        ([], ((Construction.record (.allocated name [((Construction.add info).run draft).1])).run
          ((Construction.add info).run draft).2).2) := rfl
    rw [hvalue, hrun, hrecord]
  cases call with
  | scalar elem => cases hentry; exact hadd "scalar"
  | array elem extents => cases hentry; exact hadd "array"
  | shaped elem shape => cases hentry; exact hadd "shaped"
  | add entry => cases hentry; exact hadd "add"
  | info id => cases hentry
  | function name args body attrs line => cases hentry

/-- Behind calls that add variables, the other calls run as if they came first. -/
theorem functions_calls (tail : Script) {calls : List ModuleStep}
    (hcalls : ∀ call ∈ calls, ∃ info, call.entry? = some info ∧ info.IsVariable extents)
    (h : draft.Uniform extents count) :
    ∃ draft', draft'.Uniform extents (count + calls.length) ∧
      (Script.functions (calls ++ tail)).run draft = (Script.functions tail).run draft' := by
  induction calls generalizing count draft with
  | nil => exact ⟨draft, h, rfl⟩
  | cons call rest ih =>
    rw [List.forall_mem_cons] at hcalls
    obtain ⟨⟨info, hentry, hinfo⟩, hrest⟩ := hcalls
    obtain ⟨draft₁, hrun, h₁⟩ := call.run_of_entry hentry hinfo h
    obtain ⟨draft₂, h₂, hfunctions⟩ := ih hrest h₁
    refine ⟨draft₂, ?_, ?_⟩
    · rwa [List.length_cons, ← Nat.add_assoc, Nat.add_right_comm]
    -- A call that adds a variable leaves the functions to the calls behind it.
    · have hcons : (Script.functions (call :: rest ++ tail)).run draft =
          ((call.run.run draft).1 ++
              ((Script.functions (rest ++ tail)).run (call.run.run draft).2).1,
            ((Script.functions (rest ++ tail)).run (call.run.run draft).2).2) := rfl
      rw [hcons, hrun, hfunctions]
      rfl

namespace ElementwiseProgram

/-- The function of a program whose steps have these operations. -/
def function (program : ElementwiseProgram) (ops : List Op) : Function where
  name := program.name
  args := program.args
  blocks := [⟨[], ops ++ [{ kind := .ret, operands := [program.last] }]⟩]

/-- The module that the calls of a program construct. -/
theorem module_eq (program : ElementwiseProgram) :
    ∃ arena ops, program.module = ⟨arena, [program.function ops]⟩ ∧
      arena.Uniform program.extents ∧
      arena.size = program.calls.length + program.steps.length ∧
      StepOps program.calls.length program.steps ops := by
  have hempty : Draft.Uniform program.extents 0 {} := ⟨rfl, rfl, by simp [Arena.Uniform]⟩
  -- First the variables, then the function over them.
  obtain ⟨draft₁, h₁, hcalls⟩ := functions_calls
    [.function program.name program.args (program.steps ++ [.ret [program.last]]) {} none]
    program.addsVariables hempty
  rw [Nat.zero_add] at h₁
  obtain ⟨ops, draft₂, hops, h₂, hsteps⟩ := runAll_elementwise [.ret [program.last]]
    program.computes h₁ program.addedArgs program.numbered
  refine ⟨draft₂.values, ops, ?_, h₂.entries, h₂.size, hops⟩
  have hmodule : program.module =
      ⟨((Script.functions program.script).run {}).2.values,
        ((Script.functions program.script).run {}).1⟩ := rfl
  rw [hmodule, script, hcalls]
  have hfunction (body : List Step) : (Script.functions
      [.function program.name program.args body {} none]).run draft₁ =
        ([{ name := program.name, args := program.args
            blocks := [⟨[], ((runAll body).run draft₁).1⟩] }],
          ((record (.allocated "function" program.args)).run ((runAll body).run draft₁).2).2) := rfl
  rw [hfunction, hsteps]
  rfl

end ElementwiseProgram

end Construction

end HlsEmit
