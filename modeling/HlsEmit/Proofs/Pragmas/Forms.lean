import HlsEmit.Proofs.Account.Operation
import HlsEmit.Proofs.Pragmas.Basic
import HlsEmit.Proofs.Pragmas.Built
import HlsEmit.Proofs.Stages.Admission

/-!
# The forms of operations

The kind of an operation tells which plans it may have: only loops have the plan of a loop, and an
operation that makes an array has a plan with pragmas unless its result is bound already.

`Op.reached` follows the forms into the regions: these are the operations that are written.

## Key results

- `Op.plan_fits`: the plan of an operation has the form of its kind
- `unmarked_render`, `built_render`: what a plan that opens no region is carried out by
- `operation_of_clean`: an operation that is emitted without an error has a plan
-/

namespace HlsEmit

open Code

/-- What an operation writes, apart from unmarked code. -/
inductive OpKind.Form where
  | plain
  /-- The pragmas of the array that the operation makes. -/
  | array
  /-- A loop with scheduling pragmas around the first region. -/
  | loop
  /-- A conditional between the first two regions. -/
  | branch
  /-- A nest of loops around the first region. -/
  | nest
deriving DecidableEq, Repr

/-- The form of a kind of operation. -/
def OpKind.form : OpKind → Form
  | .alloc | .alloca | .tensorToMemref => .array
  | .scfFor | .affineFor .. => .loop
  | .scfIf | .affineIf _ => .branch
  | .affineParallel .. => .nest
  | _ => .plain

/-- How many of its regions an operation of this form writes, if it has so many. -/
def OpKind.Form.opened : OpKind.Form → Nat
  | .loop | .nest => 1
  | .branch => 2
  | _ => 0

mutual

/-- An operation with the operations inside of it that are written, too. -/
def Op.reached : Op → List Op
  | ⟨kind, operands, results, attrs, regions, line⟩ =>
    ⟨kind, operands, results, attrs, regions, line⟩ :: reachedInBlocks kind.form.opened regions
termination_by structural op => op

/-- The operations that are written in so many of some blocks. -/
def reachedInBlocks : (count : Nat) → List (BlockOf Op) → List Op
  | _, [] | 0, _ :: _ => []
  | count + 1, block :: rest => reachedInBlock block ++ reachedInBlocks count rest
termination_by structural _ blocks => blocks

/-- The operations that are written in a block. -/
def reachedInBlock : BlockOf Op → List Op
  | ⟨_, ops⟩ => reachedInOps ops
termination_by structural block => block

/-- Some operations with those inside of them that are written, in order. -/
def reachedInOps : List Op → List Op
  | [] => []
  | op :: rest => op.reached ++ reachedInOps rest
termination_by structural ops => ops

end

/-- The operations that are written for a function; its body is the first block. -/
def Function.reached (function : Function) : List Op :=
  reachedInBlocks 1 function.blocks

/-- No region opened, no operation reached. -/
@[simp] theorem reachedInBlocks_zero (regions : List Block) : reachedInBlocks 0 regions = [] := by
  cases regions <;> rfl

/-- Two regions opened are the first one and the first of the others. -/
theorem reachedInBlocks_two (regions : List Block) :
    reachedInBlocks 2 regions = reachedInBlocks 1 regions ++ reachedInBlocks 1 regions.tail := by
  rcases regions with _ | ⟨first, _ | ⟨second, rest⟩⟩ <;> simp [reachedInBlocks]

/-- Operations of other forms write no region. -/
theorem reached_of_plain {form : OpKind.Form} (h : form = .plain ∨ form = .array)
    (regions : List Block) : reachedInBlocks form.opened regions = [] := by
  rcases h with rfl | rfl <;> simp [OpKind.Form.opened]

/-! ## Plans -/

/-- The form of a plan. -/
def Plan.form : Plan → OpKind.Form
  | .allocate _ | .share .. => .array
  | .loop .. => .loop
  | .branch _ => .branch
  | .nest _ => .nest
  | _ => .plain

/-- The array that a plan makes. -/
def Plan.makes? : Plan → Option ValueId
  | .allocate array | .share _ array => some array
  | _ => none

/-- A plan that an operation of its form may have. -/
def Op.Fits (arena : Arena) (t : NameTable) (op : Op) : Plan → Prop
  | .allocate id | .share _ id =>
    op.kind.form = .array ∧ op.results.head? = some id ∧ arena.isBound t id = false
  | .loop .. => op.kind.form = .loop
  | .branch _ => op.kind.form = .branch
  | .nest loops => op.kind.form = .nest ∧
      ∃ body rest, op.regions = body :: rest ∧ loops.length = body.args.length
  | _ => op.kind.form = .plain ∨
      op.kind.form = .array ∧ ∃ id, op.results.head? = some id ∧ arena.isBound t id = true

section Plans

variable {arena : Arena} {t : NameTable} {owner : Option Op} {op : Op} {plan : Plan}

/-- A computation all of whose results are fine. -/
abbrev Always {α : Type} (fine : α → Prop) (x : Except Obstacle α) : Prop :=
  Admits fine (fun _ => True) x

/-- A check may forget what came before. -/
theorem Always.bindAny {α β : Type} {fine : β → Prop} {x : Except Obstacle α}
    {f : α → Except Obstacle β} (h : ∀ value, Always fine (f value)) : Always fine (x >>= f) :=
  .bind (.always x) fun value _ => h value

/-- Whether a value is bound is found out as it is. -/
theorem always_checkBound (id : ValueId) :
    Always (fun bound => bound = arena.isBound t id) (arena.checkBound t id) := by
  unfold Arena.checkBound
  split
  · rename_i hdeclared
    simp [Admits, Arena.isBound, hdeclared]
  · rename_i hfree
    unfold Arena.entry
    cases hinfo : arena.info? id with
    | none => trivial
    | some info =>
      show info.constantText?.isSome = arena.isBound t id
      simp [Arena.isBound, Arena.constantText?, hinfo, hfree]

/-- The loops of a nest are those of its indices. -/
theorem always_loops (indices : List ValueId) (lowers uppers : List AffineValue)
    (steps : List Int64) :
    Always (fun loops => loops.length = indices.length) (nestLoops indices lowers uppers steps) := by
  fun_induction nestLoops indices lowers uppers steps with
  | case1 => rfl
  | case2 index indices lower lowers upper uppers step steps ih =>
    exact .bind ih fun loops hloops => congrArg (· + 1) hloops
  | case3 => trivial

/-- An accepted nest fits its operation. -/
theorem always_nest {lower upper : AffineBound} {steps : List Int64} {body : Block}
    {rest : List Block} (hform : op.kind.form = .nest) (hregions : op.regions = body :: rest) :
    Always (op.Fits arena t) (planNest lower upper steps body) := by
  unfold planNest
  dsimp only
  split
  · trivial
  refine .bindAny fun lowers => .bindAny fun uppers => ?_
  split
  · trivial
  · exact .bind (always_loops ..) fun loops hloops => ⟨hform, body, rest, hregions, hloops⟩

/-- An accepted yield fits its operation. -/
theorem always_yield (hform : op.kind.form = .plain) (operands : List ValueId) :
    Always (op.Fits arena t) (planYield owner operands) := by
  unfold planYield
  split
  · exact .inl hform
  split
  · trivial
  split
  · exact .inl hform
  · exact .inl hform
  · exact .inl hform
  · trivial

/-- An accepted constant fits its operation. -/
theorem always_constant (hform : op.kind.form = .plain) (result : ValueId) :
    Always (op.Fits arena t) (planConstant arena t result) := by
  refine .bindAny fun bound => ?_
  split
  · exact .inl hform
  refine .bindAny fun info => ?_
  split
  -- The elements need an array and a type before they are looked at.
  · by_cases hscalar : (!info.isShaped) = true
    · rw [if_pos hscalar]
      trivial
    rw [if_neg hscalar]
    by_cases htype : info.elem.cppName?.isNone = true
    · rw [if_pos htype]
      trivial
    rw [if_neg htype]
    split
    · exact .inl hform
    · trivial
  · trivial

/-- An operation makes its array if that is not bound yet. -/
theorem always_make {result : ValueId} {others : List ValueId} {again first : Plan}
    (hform : op.kind.form = .array) (hresults : op.results = result :: others)
    (hagain : (op.kind.form = .array ∧ ∃ id, op.results.head? = some id ∧ arena.isBound t id = true) →
      op.Fits arena t again)
    (hfirst : op.kind.form = .array ∧ op.results.head? = some result ∧ arena.isBound t result = false →
      op.Fits arena t first) :
    Always (op.Fits arena t) (do return if ← arena.checkBound t result then again else first) := by
  have hhead : op.results.head? = some result := by rw [hresults, List.head?_cons]
  -- the plan depends on the answer, and the answer is about the same table
  refine .bind (always_checkBound result) fun bound hbound => ?_
  cases bound with
  | true => exact hagain ⟨hform, result, hhead, hbound.symm⟩
  | false => exact hfirst ⟨hform, hhead, hbound.symm⟩

/-- Computations write no pragmas. -/
theorem OpKind.HasFormula.form {kind : OpKind} {operands : List ValueId} {formula : Formula}
    (h : kind.HasFormula operands formula) : kind.form = .plain := by
  cases h <;> rfl

/-- The plan of an operation with enough operands, results and regions has the form of its kind. -/
theorem Op.Ruled.fits {rule : Except Obstacle Plan} (h : op.Ruled arena t owner rule) :
    Always (op.Fits arena t) rule := by
  cases h with
  -- what opens regions
  | scfFor hkind => exact .bindAny fun index => congrArg OpKind.form hkind
  | affineFor hkind =>
    exact .bindAny fun lowers => .bindAny fun uppers => .bindAny fun index =>
      congrArg OpKind.form hkind
  | scfIf hkind => exact congrArg OpKind.form hkind
  | affineIf hkind => exact .bindAny fun condition => congrArg OpKind.form hkind
  | affineParallel hkind hregions => exact always_nest (congrArg OpKind.form hkind) hregions
  -- what makes an array
  | alloc hkind hresults =>
    have hform : op.kind.form = .array := by rcases hkind with hkind | hkind <;> rw [hkind] <;> rfl
    exact always_make hform hresults .inr id
  | tensorToMemref hkind hoperands hresults =>
    exact always_make (congrArg OpKind.form hkind) hresults .inr id
  -- what does neither
  | yield hkind =>
    exact always_yield (by rcases hkind with hkind | hkind <;> rw [hkind] <;> rfl) _
  | constant hkind => exact always_constant (congrArg OpKind.form hkind) _
  | affineExtremum hkind =>
    refine .bindAny fun codes => .inl ?_
    rcases hkind with ⟨hkind, -⟩ | ⟨hkind, -⟩ <;> rw [hkind] <;> rfl
  | affineApply hkind | affineLoad hkind | affineStore hkind | dim hkind | rank hkind
  | accelerator hkind => exact .bindAny fun codes => .inl (congrArg OpKind.form hkind)
  | load hkind | store hkind | tensorStore hkind | cast hkind | call hkind | blockCall hkind =>
    exact .inl (congrArg OpKind.form hkind)
  | compute hkind => exact .inl hkind.form
  | silent hkind => exact .inl (by rcases hkind with hkind | hkind | hkind <;> rw [hkind] <;> rfl)
  | incomparable | unknown => trivial

/-- The plan of an operation has the form of its kind. -/
theorem Op.plan_fits (h : op.plan arena t owner = .ok plan) : op.Fits arena t plan := by
  have hrule : Always (op.Fits arena t) (op.plan arena t owner) := by
    unfold Op.plan
    split
    · next hcovers => exact (Op.ruled hcovers).fits
    · trivial
  rwa [h] at hrule

end Plans

/-! ## Emissions without errors -/

namespace Emission

/-- Carrying out a plain plan writes unmarked code. -/
theorem unmarked_render {op : Op} {plan : Plan} (h : plan.form = .plain)
    (bodies : List (Emission (List Stmt))) : Cleanly (render op bodies plan) Unmarked := by
  cases plan with
  | nothing | accelerator operands lines => exact .pure ⟨rfl, rfl⟩
  | compute target source => exact unmarked_compute op target source
  | assign target source => exact .bindAny fun target => .map fun source => ⟨rfl, rfl⟩
  | define array elements => exact .map fun declarator => ⟨rfl, rfl⟩
  | call callee =>
    refine .bind (unmarked_predeclare op op.results) fun declarations hdeclarations => ?_
    exact .bindAny fun args => .map fun results => .append hdeclarations ⟨rfl, rfl⟩
  | blockCall name => exact .map fun operands => ⟨rfl, rfl⟩
  | deliver results => exact .bindAny fun pairs => unmarked_computeEach op pairs
  | reduce owner => exact unmarked_reduce op owner
  | allocate | share | loop | branch | nest => cases h

/-- Carrying out a plan that opens no region notes no turns. -/
theorem built_render {turns : Prop} {op : Op} {plan : Plan} (h : plan.form.opened = 0)
    (bodies : List (Emission (List Stmt))) : Built turns (render op bodies plan) := by
  -- One case per plan; the structured ones open regions.
  cases plan with
  | nothing | accelerator operands lines => exact .pure _
  | compute target source => exact built_compute op target source
  | assign target source =>
    exact .bind (built_place op target) fun target => (built_place op source).map _
  | allocate array =>
    exact .bind (built_arrayDeclarator (some op) array) fun _ => (built_arrayPragmas ..).map _
  | define array elements => exact (built_arrayDeclarator (some op) array).map _
  | share source result => exact .bind (.share ..) fun _ => built_arrayPragmas ..
  | call callee =>
    refine .bind (built_predeclare op op.results) fun declarations => ?_
    exact .bind (built_operands op op.operands) fun args => (built_references op op.results).map _
  | blockCall name => exact (built_operands op op.operands).map _
  | deliver results => exact .bind (built_yielded op results) fun pairs => built_computeEach op pairs
  | reduce owner => exact built_reduce op owner
  | loop | branch | nest => cases h

end Emission

/-- A problem that is in the way of a plan is an error. -/
theorem Problem.severity_of_admission {problem : Problem}
    (h : problem.stage = .counting ∨ problem.stage = .admission) : problem.severity = .error := by
  cases problem <;> first | rfl | simp [Problem.stage] at h

namespace Emission

variable {owner : Option Op} {op : Op} {bodies : List (Emission (List Stmt))}
variable {scope : Scope} {t : NameTable}

/-- An operation that is emitted without an error has a plan, which is carried out. -/
theorem operation_of_clean (h : ((operation owner op bodies).run scope t).Clean) :
    ∃ plan, op.Fits scope.values t plan ∧ ((render op bodies plan).run scope t).Clean ∧
      (operation owner op bodies).run scope t =
        (dispatch owner op >>= fun _ => render op bodies plan).run scope t := by
  rw [operation_run] at h ⊢
  have hcarried : ((carryOut op bodies (op.plan scope.values t owner)).run scope t).Clean :=
    h.of_andThen.2
  cases hplan : op.plan scope.values t owner with
  | ok plan =>
    rw [hplan] at hcarried
    exact ⟨plan, Op.plan_fits hplan, hcarried, rfl⟩
  | error obstacle =>
    -- a plan fails only by an error or by an overrun, and neither is clean
    rw [hplan] at hcarried
    cases obstacle with
    | problem p =>
      have hnever : Cleanly (carryOut op bodies (.error (.problem p))) fun _ => False :=
        .error (Problem.severity_of_admission (Op.stage_of_plan hplan))
      exact (hnever scope t hcarried).elim
    | overrun missing => cases hcarried.of_andThen.1.overruns

end Emission

end HlsEmit
