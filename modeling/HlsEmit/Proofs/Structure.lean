import HlsEmit.Proofs.Independence
import HlsEmit.Proofs.Placement
import HlsEmit.Proofs.Stages.Emission

/-!
# The structure of function bodies

A body is proper if it is one block whose only return is its last operation. Whatever is wrong with it
is reported before the function is written: the number of its blocks and of the returns of its first
block when the function begins, and a missing return at the end of its signature. The function is written
nevertheless, and all operations of its first block have their turns.

Operations have turns inside of other operations too. Those of the block itself are the ones without an
owner.

## Key results

- `Function.faults_eq_nil`: what is wrong with a body that is not proper
- `Emission.outermost_ofOps`: the turns of the operations of a block
- `Module.structure_reported`: what a module has of a function, proper or not
-/

namespace HlsEmit

open Code

/-! ## Bodies -/

/-- A body is one block, and its only return is its last operation. Returns inside of regions are not
looked at. -/
def Function.IsProper (function : Function) : Prop :=
  ∃ args ops ret, function.blocks = [⟨args, ops ++ [ret]⟩] ∧ ret.kind = .ret ∧
    ∀ op ∈ ops, op.kind ≠ .ret

/-- What is wrong with the numbers of blocks and of returns. -/
def Function.countFaults (function : Function) : List Problem :=
  (if function.blocks.length ≠ 1 then [.blockCount function.blocks.length] else []) ++
    if 1 < function.returnCount then [.returnCount function.returnCount] else []

/-- What is wrong with the end of the first block. -/
def Function.endFaults (function : Function) : List Problem :=
  if (function.blocks.head?.bind BlockOf.returnOp?).isNone then [.unterminated] else []

/-- All that is wrong with a body, in the order in which it is found. -/
def Function.faults (function : Function) : List Problem :=
  function.countFaults ++ function.endFaults

/-- A block that ends with a return and has no two of them has one, at its end. -/
theorem BlockOf.returnOp?_isSome_iff (block : Block) :
    block.returnOp?.isSome = true ∧ (block.ops.countP fun op => op.kind = .ret) ≤ 1 ↔
      ∃ ops ret, block.ops = ops ++ [ret] ∧ ret.kind = .ret ∧ ∀ op ∈ ops, op.kind ≠ .ret := by
  constructor
  · rintro ⟨hreturn, hcount⟩
    rcases List.eq_nil_or_concat block.ops with hnil | ⟨ops, ret, hops⟩
    · simp [returnOp?, hnil] at hreturn
    · rw [List.concat_eq_append] at hops
      have hret : ret.kind = .ret := by
        simpa [returnOp?, hops, Option.filter, Option.isSome_iff_exists] using hreturn
      -- The return at the end is the only one, so there is none in front of it.
      have hothers : (ops.countP fun op => op.kind = .ret) = 0 := by
        rw [hops, List.countP_append, List.countP_singleton, hret] at hcount
        simpa using hcount
      exact ⟨ops, ret, hops, hret, by simpa using List.countP_eq_zero.1 hothers⟩
  · rintro ⟨ops, ret, hops, hret, hothers⟩
    have hcount : (ops.countP fun op => op.kind = .ret) = 0 :=
      List.countP_eq_zero.2 (by simpa using hothers)
    rw [returnOp?, hops, List.countP_append, hcount]
    simp [hret, Option.filter]

/-- A function has no faults if and only if it is proper. -/
theorem Function.faults_eq_nil (function : Function) : function.faults = [] ↔ function.IsProper := by
  have hsplit : function.faults = [] ↔ function.blocks.length = 1 ∧ function.returnCount ≤ 1 ∧
      (function.blocks.head?.bind BlockOf.returnOp?).isSome = true := by
    simp [faults, countFaults, endFaults, Option.isSome_iff_ne_none]
  rw [hsplit, IsProper, returnCount]
  match function.blocks with
  | [] => simp
  | [⟨args, ops⟩] =>
    have hblock := BlockOf.returnOp?_isSome_iff ⟨args, ops⟩
    simp only [List.length_singleton, List.head?_cons, Option.elim_some, Option.bind_some, true_and,
      List.cons.injEq, BlockOf.mk.injEq, and_true]
    rw [and_comm, hblock]
    simp
  | _ :: _ :: _ => simp

/-! ## Reports -/

/-- Whether a report is about the form of a body. -/
def Diagnostic.concernsBody (report : Diagnostic) : Bool :=
  report.code = some "E0100" || report.code = some "E0101"

/-- The reports about a body are those of the problems that are found when a function is looked at. -/
theorem Problem.concernsBody_report (problem : Problem) (origin : Origin) :
    (problem.report origin).concernsBody = decide (problem.stage = .function) := by
  cases problem <;> rfl

/-- Faults are problems of the function. -/
theorem Function.stage_of_mem_faults {function : Function} {problem : Problem}
    (h : problem ∈ function.faults) : problem.stage = .function := by
  rw [faults, countFaults, endFaults, List.mem_append, List.mem_append] at h
  obtain (h | h) | h := h
  all_goals
    split at h
    · rw [List.mem_singleton.1 h]
      rfl
    · cases h

namespace Emission

variable {scope : Scope} {t : NameTable}

/-- Nothing behind the checks is about the form of the body. -/
theorem Reports.filter_concernsBody {α : Type} {e : Emission α}
    (h : Reports (· ≠ .function) e) : (e.run scope t).raised.filter Diagnostic.concernsBody = [] := by
  refine List.filter_eq_nil_iff.2 fun report hreport => ?_
  obtain ⟨problem, origin, hstage, rfl⟩ := h scope t report hreport
  rw [Problem.concernsBody_report]
  simpa using hstage

/-- The check of the structure reports what is wrong with the counts. -/
theorem checkStructure_raised (function : Function) :
    ((checkStructure function).run scope t).raised =
      function.countFaults.map (Problem.report · (Origin.at scope.function none)) := by
  unfold checkStructure Function.countFaults
  dsimp only
  split <;> split <;> rfl

/-- The search for a return reports what is wrong with the end. -/
theorem returnOp?_raised (function : Function) :
    ((returnOp? function).run scope t).raised =
      function.endFaults.map (Problem.report · (Origin.at scope.function none)) := by
  unfold returnOp? Function.endFaults
  dsimp only
  split <;> rfl

/-- The reports about the body of a function are those of all that is wrong with it. -/
theorem function_raised (function : Function) (arena : Arena) (name : Option String) (t : NameTable) :
    ((Emission.function function).run ⟨arena, name⟩ t).raised.filter Diagnostic.concernsBody =
      function.faults.map (Problem.report · (Origin.at (some function.name) none)) := by
  have hkept : ∀ report ∈ function.faults.map (Problem.report · (Origin.at (some function.name) none)),
      report.concernsBody = true := by
    rw [List.forall_mem_map]
    intro problem hproblem
    rw [Problem.concernsBody_report, decide_eq_true (Function.stage_of_mem_faults hproblem)]
  rw [Function.faults, List.map_append, List.forall_mem_append] at hkept
  have hrun := function_run arena t function name
  extract_lets scope ret checked arguments found results pragmas body at hrun
  -- The other parts report problems of writing only, so the filter drops all of them.
  have hwriting : Stage.writing ≠ .function := by decide
  have harguments : arguments.raised.filter Diagnostic.concernsBody = [] :=
    (reports_arguments hwriting function.args).filter_concernsBody
  have hresults : results.raised.filter Diagnostic.concernsBody = [] :=
    (reports_results (by decide) hwriting ret).filter_concernsBody
  have hpragmas : pragmas.raised.filter Diagnostic.concernsBody = [] :=
    (reports_functionPragmas hwriting _ _).filter_concernsBody
  have hbody : body.raised.filter Diagnostic.concernsBody = [] :=
    (reports_body (by decide) hwriting function.blocks fun _ _ _ => by decide).filter_concernsBody
  have hchecked : checked.raised = _ := checkStructure_raised function
  have hfound : found.raised = _ := returnOp?_raised function
  rw [hrun]
  simp only [Outcome.andThen, List.filter_append, harguments, hresults, hpragmas, hbody, List.append_nil,
    List.nil_append]
  rw [Function.faults, List.map_append, ← List.filter_eq_self.2 hkept.1, ← List.filter_eq_self.2 hkept.2,
    ← hchecked, ← hfound]

/-! ## Turns -/

/-- Whatever is wrong, these operations have their turns outside of any other one, in order. -/
def Outermost {α : Type} (e : Emission α) (ops : List Op) : Prop :=
  ∀ scope t, ((e.run scope t).dispatched.filter (·.owner.isNone)).map Dispatch.op = ops

namespace Outermost

variable {α β : Type} {e : Emission α} {next : α → Emission β} {ops ops' : List Op}

/-- An emission that notes no turns. -/
theorem ofBuilt (h : Built False e) : Outermost e [] :=
  fun scope t => by rw [h.dispatched, List.filter_nil, List.map_nil]

/-- The outermost turns of a sequence are those of its parts. -/
theorem bind (h : Outermost e ops) (hnext : ∀ value, Outermost (next value) ops') :
    Outermost (e >>= next) (ops ++ ops') := by
  intro scope t
  rw [bind_apply, Outcome.andThen, List.filter_append, List.map_append, h scope t, hnext _ scope]

/-- A sequence whose first emission notes no turns. -/
theorem bindBuilt (h : Built False e) (hnext : ∀ value, Outermost (next value) ops) :
    Outermost (e >>= next) ops :=
  bind (ofBuilt h) hnext

/-- What is made of the code of an emission. -/
theorem map (f : α → β) (h : Outermost e ops) : Outermost (do return f (← e)) ops := by
  simpa using bind h fun value => ofBuilt (.pure (f value))

end Outermost

section Operations

variable {op : Op} {bodies : List (Emission (List Stmt))}

/-- The first body has no outermost turns. -/
theorem outermost_firstBody (h : ∀ body ∈ bodies, Outermost body []) :
    Outermost (firstBody op bodies) [] := by
  cases bodies with
  | nil => exact .ofBuilt (.bind (.overrun _) fun _ => .pure _)
  | cons body rest => exact h body (List.mem_cons_self ..)

/-- The second body has no outermost turns. -/
theorem outermost_secondBody (h : ∀ body ∈ bodies, Outermost body []) :
    Outermost (secondBody bodies) [] := by
  match bodies, h with
  | [], _ | [_], _ => exact .ofBuilt (.pure _)
  | _ :: body :: _, h => exact (h body (by simp)).map some

/-- All turns that carrying out a plan gives are inside of the operation. -/
theorem outermost_render (h : ∀ body ∈ bodies, Outermost body []) (plan : Plan) :
    Outermost (render op bodies plan) [] := by
  cases plan with
  | loop index lower upper step =>
    refine .bindBuilt (built_loopHead op index lower upper step) fun head => ?_
    exact (outermost_firstBody h).map _
  | branch condition =>
    refine .bindBuilt (built_predeclare op op.results) fun declarations => ?_
    refine .bindBuilt (built_term op condition) fun condition => ?_
    exact .bind (outermost_firstBody h) fun onTrue => (outermost_secondBody h).map _
  | nest loops =>
    refine .bindBuilt (built_predeclare op op.results) fun declarations => ?_
    refine .bindBuilt (built_nestHeads op loops) fun heads => ?_
    exact (outermost_firstBody h).map _
  | _ => exact .ofBuilt (built_render rfl bodies)

/-- An operation outside of all others has an outermost turn. -/
theorem outermost_operation (owner : Option Op) (h : ∀ body ∈ bodies, Outermost body []) :
    Outermost (operation owner op bodies) (if owner.isNone then [op] else []) := by
  have hcarried (plan : Except Obstacle Plan) : Outermost (carryOut op bodies plan) [] := by
    match plan with
    | .ok plan => exact outermost_render h plan
    | .error (.problem p) => exact .ofBuilt (.bind (.raise _ _) fun _ => .pure _)
    | .error (.overrun missing) => exact .ofBuilt (.bind (.overrun _) fun _ => .pure _)
  have hturn : Outermost (dispatch owner op) (if owner.isNone then [op] else []) := by
    intro scope t
    rw [dispatch_apply]
    cases owner <;> rfl
  have hoperation := hturn.bind fun _ => Outermost.bindBuilt (.inspect fun scope names =>
    op.plan scope.values names owner) hcarried
  rwa [List.append_nil] at hoperation

end Operations

mutual

/-- An operation with everything inside of it. -/
theorem outermost_ofOp (owner : Option Op) : (op : Op) →
    Outermost (ofOp owner op) (if owner.isNone then [op] else [])
  | ⟨kind, operands, results, attrs, regions, line⟩ => by
    rw [ofOp]
    exact outermost_operation owner (outermost_ofRegions _ regions)

/-- Each region of an operation. -/
theorem outermost_ofRegions (owner : Op) : (regions : List (BlockOf Op)) →
    ∀ body ∈ ofRegions owner regions, Outermost body []
  | [] => by simp [ofRegions]
  | region :: rest => by
    rw [ofRegions, List.forall_mem_cons]
    exact ⟨outermost_ofBlock (some owner) region, outermost_ofRegions owner rest⟩

/-- A block. -/
theorem outermost_ofBlock (owner : Option Op) : (block : BlockOf Op) →
    Outermost (ofBlock owner block) (if owner.isNone then block.ops else [])
  | ⟨_, ops⟩ => outermost_ofOps owner ops

/-- Some operations with everything inside of them. -/
theorem outermost_ofOps (owner : Option Op) : (ops : List Op) →
    Outermost (ofOps owner ops) (if owner.isNone then ops else [])
  | [] => by
    rw [ite_self]
    exact .ofBuilt (.pure _)
  | op :: rest => by
    have hall := Outermost.bind (outermost_ofOp owner op) fun first =>
      (outermost_ofOps owner rest).map (first ++ ·)
    cases owner <;> exact hall

end

/-- Inside of a function. -/
theorem Outermost.inFunction {α : Type} {e : Emission α} {ops : List Op} (name : String)
    (h : Outermost e ops) : Outermost (inFunction name e) ops :=
  fun scope => h { scope with function := some name }

/-- The operations of the first block have their turns, in order. -/
theorem outermost_function (function : Function) :
    Outermost (Emission.function function) (function.blocks.head?.elim [] BlockOf.ops) := by
  refine .inFunction function.name ?_
  -- nothing in front of the body notes a turn
  refine .bindBuilt (built_checkStructure function) fun _ => ?_
  refine .bindBuilt (built_arguments function.args) fun arguments => ?_
  refine .bindBuilt (built_returnOp? function) fun ret => ?_
  refine .bindBuilt (built_results ret) fun results => ?_
  refine .bindBuilt (built_functionPragmas _ _) fun pragmas => Outermost.map _ ?_
  cases function.blocks with
  | nil => exact .ofBuilt (.pure _)
  | cons block rest => exact outermost_ofBlock none block

/-- The turns of functions, one after the other. -/
theorem functions_dispatched (fs gs : List Function) (scope : Scope) (t : NameTable) :
    let first := (functions fs).run scope t
    ((functions (fs ++ gs)).run scope t).dispatched =
      first.dispatched ++ ((functions gs).run scope first.names).dispatched := by
  induction fs generalizing t with
  | nil => rfl
  | cons f fs ih =>
    simp only [List.cons_append, functions, bind_apply, pure_apply, Outcome.andThen, ih,
      List.append_assoc, List.append_nil]

end Emission

/-! ## Modules -/

/-- The turns that a module has of a function that stands behind some others: those that the functions up
to this one have beyond the others. -/
structure Module.TurnsOf (module : Module) (includes : List String) (before : List Function)
    (g : Function) (turns : List Dispatch) : Prop where
  turns_eq : (program ⟨module.values, before ++ [g]⟩ includes).dispatched =
    (program ⟨module.values, before⟩ includes).dispatched ++ turns
  turns_go_on : ∃ rest, (module.program includes).dispatched =
    (program ⟨module.values, before ++ [g]⟩ includes).dispatched ++ rest

/-- The turns of a function stand behind those of the functions before it. -/
theorem Module.turnsOf {module : Module} {before after : List Function} {g : Function}
    (hfunctions : module.functions = before ++ g :: after) (includes : List String) :
    module.TurnsOf includes before g ((Emission.function g).run { values := module.values }
      (Emission.namesBehind module.values before)).dispatched := by
  have hprogram (module : Module) : (module.program includes).dispatched =
      ((Emission.functions module.functions).run { values := module.values } .empty).dispatched :=
    List.append_nil _
  constructor
  · rw [hprogram, hprogram, Emission.functions_dispatched]
    exact congrArg _ (List.append_nil _)
  · rw [hprogram, hprogram, hfunctions, List.append_cons, Emission.functions_dispatched]
    exact ⟨_, rfl⟩

/-- What is written, reported and dispatched of a function. -/
structure Function.Written (function : Function) (text : String) (reports : List Diagnostic)
    (turns : List Dispatch) : Prop where
  /-- Everything that is wrong with the body is reported, each once. -/
  faults : reports.filter Diagnostic.concernsBody =
    function.faults.map (Problem.report · (Origin.at (some function.name) none))
  /-- Nothing is reported about the body exactly if it is proper. -/
  proper : (∀ report ∈ reports, report.code ≠ some "E0100" ∧ report.code ≠ some "E0101") ↔
    function.IsProper
  /-- The header is written, and the braces of the body. -/
  framed : ∃ ports body, text =
    String.join (function.attrs.remarks.map fun remark => "/// " ++ remark ++ "\n") ++
      "void " ++ function.name ++ "(\n" ++ ports ++ "\n) \x7b" ++
      lineEnd (some { line := function.line }) ++ body ++ "\x7d\n\n"
  /-- All operations of the first block have their turns. -/
  turns : (turns.filter (·.owner.isNone)).map Dispatch.op = function.blocks.head?.elim [] BlockOf.ops

open Emission in
/-- Whatever is wrong with a function, it is written and the operations of its first block are
dispatched. -/
theorem Function.written (function : Function) (arena : Arena) (t : NameTable) :
    let o := (Emission.function function).run { values := arena } t
    function.Written o.value.text o.raised o.dispatched := by
  intro o
  have hfaults := function_raised function arena none t
  refine ⟨hfaults, ?_, ⟨_, _, rfl⟩, outermost_function function _ t⟩
  rw [← function.faults_eq_nil, ← List.map_eq_nil_iff, ← hfaults, List.filter_eq_nil_iff]
  simp [Diagnostic.concernsBody, o]

/-- Every function of a module without dangling values, wherever it stands: errors about its body are
reported exactly if that is not proper, and in any case the function is written and the operations of its
first block have their turns. -/
theorem Module.structure_reported {module : Module} (h : module.dangling = [])
    {before after : List Function} {function : Function}
    (hfunctions : module.functions = before ++ function :: after) (includes : List String) :
    ∃ text reports turns, module.HasOf includes before function text reports ∧
      module.TurnsOf includes before function turns ∧ function.Written text reports turns := by
  have hwritten := function.written module.values (Emission.namesBehind module.values before)
  exact ⟨_, _, _, Module.hasOf h hfunctions includes, Module.turnsOf hfunctions includes, hwritten⟩

/-- A function that only returns. -/
def bareReturn : Function where
  name := "bare"
  blocks := [{ ops := [{ kind := .ret }] }]

/-- A function of two blocks, the first of which does not end with its return. -/
def twoBlocks : Function where
  name := "twice"
  args := [⟨0⟩]
  blocks := [
    { ops := [{ kind := .ret, operands := [⟨0⟩] },
      { kind := .unary .neg, operands := [⟨0⟩], results := [⟨1⟩] }] },
    { ops := [{ kind := .ret }] }]

/-- A function with two blocks is reported, and the first of them is written. -/
theorem twoBlocks_reported :
    let module : Module := ⟨#[{ elem := .f32 }, { elem := .f32 }], [bareReturn, twoBlocks]⟩
    module.dangling = [] ∧
      (bareReturn.IsProper ∧ ∃ text reports turns, module.HasOf [] [] bareReturn text reports ∧
        module.TurnsOf [] [] bareReturn turns ∧ bareReturn.Written text reports turns) ∧
      (¬ twoBlocks.IsProper ∧ ∃ text reports turns,
        module.HasOf [] [bareReturn] twoBlocks text reports ∧
        module.TurnsOf [] [bareReturn] twoBlocks turns ∧ twoBlocks.Written text reports turns) := by
  intro module
  have hdangling : module.dangling = [] := by decide
  have hfirst : module.functions = [] ++ bareReturn :: [twoBlocks] := rfl
  have hsecond : module.functions = [bareReturn] ++ twoBlocks :: [] := rfl
  refine ⟨hdangling, ⟨⟨[], [], _, rfl, rfl, by simp⟩, ?_⟩, ?_, ?_⟩
  · exact Module.structure_reported hdangling hfirst []
  · rw [← Function.faults_eq_nil]
    decide
  · exact Module.structure_reported hdangling hsecond []

end HlsEmit
