import HlsEmit.Proofs.BlockScope
import HlsEmit.Proofs.Pragmas.Forms
import Mathlib.Data.List.Forall2

/-!
# The schedule of a module

A sequential loop asks for its schedule by its attributes: whether it is pipelined, with which
interval, and whether it is unrolled. Each of these decisions stands in the generated code exactly
once, at the head of the body of its loop, and no other scheduling pragma stands anywhere but those of
functions. The loops of a parallel nest have none, whatever the attributes of the nest say.

## Key results

- `Module.schedule_kept`: the loops of the code have the schedules of the loops of the model, in order
- `Function.ScheduledAs.pipelines`: the number of pipeline pragmas of a function
-/

namespace HlsEmit

open Code

/-! ## Loops of the model -/

/-- The scheduling pragmas that some attributes ask for. -/
def OpAttrs.schedule (attrs : OpAttrs) : List Pragma :=
  (if attrs.pipeline then [.pipeline (attrs.targetInterval.getD 1)] else [])
    ++ (if attrs.unroll then [.unroll] else [])

/-- A function is pipelined as a whole, or not at all. -/
def FuncAttrs.schedule (attrs : FuncAttrs) : List Pragma :=
  if attrs.pipeline then [.pipeline (attrs.targetInterval.getD 1)] else []

/-- The loops over ranges that an operation writes around its first region: their attributes, if they
are scheduled by some. -/
def Op.loops (op : Op) : List (Option OpAttrs) :=
  match op.kind.form with
  | .loop => [some op.attrs]
  | .nest => (op.regions.head?.elim [] BlockOf.args).map fun _ => none
  | _ => []

/-- The loops over ranges that some operations write, in order. -/
abbrev loopsOf (ops : List Op) : List (Option OpAttrs) :=
  ops.flatMap Op.loops

/-- Operations of other forms write no loop over a range, and no region. -/
theorem Op.loops_of_plain {op : Op} (h : op.kind.form = .plain ∨ op.kind.form = .array) :
    op.loops ++ loopsOf (reachedInBlocks op.kind.form.opened op.regions) = [] := by
  rw [reached_of_plain h, loops]
  rcases h with h | h <;> rw [h] <;> rfl

/-! ## Loops of the code -/

/-- The scheduling pragmas of a loop. -/
def scheduleOf (loop : Option OpAttrs) : List Pragma :=
  loop.elim [] OpAttrs.schedule

/-- The loops over ranges in some code have the schedules that are asked for, and there are no other
scheduling pragmas. -/
structure Code.Scheduled (stmts : List Stmt) (loops : List (Option OpAttrs)) : Prop where
  /-- What is behind a pragma in front of the code does not belong to its lead. -/
  lead : leadOfStmts stmts = []
  schedules : schedulesOfStmts stmts = loops.map scheduleOf
  pragmas : (pragmasOfStmts stmts).filter Pragma.isSchedule = loops.flatMap scheduleOf

/-- The pragmas of a loop are those of its schedule. -/
theorem OpAttrs.loopPragmas_eq (attrs : OpAttrs) : attrs.loopPragmas = attrs.schedule.map .pragma := by
  cases hpipeline : attrs.pipeline <;> cases hunroll : attrs.unroll <;>
    simp [loopPragmas, schedule, hpipeline, hunroll]

/-- The schedule of a loop has pragmas of schedules only. -/
theorem OpAttrs.isSchedule_of_mem {attrs : OpAttrs} {pragma : Pragma} (h : pragma ∈ attrs.schedule) :
    pragma.isSchedule = true := by
  rw [schedule, List.mem_append] at h
  rcases h with h | h
  · split at h <;> simp_all [Pragma.isSchedule]
  · split at h <;> simp_all [Pragma.isSchedule]

namespace Code

variable {stmts stmts' body : List Stmt} {loops loops' : List (Option OpAttrs)}

/-- Pragmas of a schedule in front of a body are its lead. -/
theorem leadOfStmts_lead {pragmas : List Pragma} (h : ∀ pragma ∈ pragmas, pragma.isSchedule = true)
    (hstmts : leadOfStmts stmts = []) : leadOfStmts (pragmas.map .pragma ++ stmts) = pragmas := by
  induction pragmas with
  | nil => exact hstmts
  | cons pragma rest ih =>
    rw [List.forall_mem_cons] at h
    rw [List.map_cons, List.cons_append, leadOfStmts, if_pos h.1, ih h.2]

namespace Scheduled

/-- Statements one behind the other have the loops of both. -/
theorem append (h : Scheduled stmts loops) (h' : Scheduled stmts' loops') :
    Scheduled (stmts ++ stmts') (loops ++ loops') :=
  ⟨leadOfStmts_append h.lead h'.lead, by simp [h.schedules, h'.schedules],
    by simp [h.pragmas, h'.pragmas]⟩

/-- Code without pragmas and without loops over ranges. -/
theorem ofUnmarked (h : Unmarked stmts) : Scheduled stmts [] :=
  ⟨leadOfStmts_eq_nil h.pragmas, h.schedules, by simp [h.pragmas]⟩

/-- Statements without loops add none. -/
theorem behindUnmarked (h : Unmarked stmts) (h' : Scheduled stmts' loops) :
    Scheduled (stmts ++ stmts') loops :=
  append (ofUnmarked h) h'

/-- Pragmas that schedule nothing. -/
theorem ofOthers {stmts : List Stmt} (hloops : schedulesOfStmts stmts = [])
    (h : ∀ pragma ∈ pragmasOfStmts stmts, pragma.isSchedule = false) : Scheduled stmts [] where
  lead := by
    cases stmts with
    | nil => rfl
    | cons first rest =>
      cases first with
      | pragma pragma =>
        have hother := h pragma (by simp [pragmasOfStmts, Stmt.pragmas])
        simp [leadOfStmts, hother]
      | _ => rfl
  schedules := hloops
  pragmas := by simpa [List.filter_eq_nil_iff] using h

/-- A loop whose body starts with the pragmas that its attributes ask for. -/
theorem loop (attrs : OpAttrs) (start lower test upper advance step : Expr) (note closing : Option Note)
    (h : Scheduled body loops) :
    Scheduled [.loop (.range start lower test upper advance step) note (attrs.loopPragmas ++ body)
      closing] (some attrs :: loops) where
  lead := rfl
  schedules := by
    have hown : ∀ pragma ∈ attrs.schedule, pragma.isSchedule = true :=
      fun _ => OpAttrs.isSchedule_of_mem
    have hlead := leadOfStmts_lead hown h.lead
    simp [schedulesOfStmts, Stmt.schedules, OpAttrs.loopPragmas_eq, hlead, h.schedules,
      scheduleOf]
  pragmas := by
    -- nothing of the schedule is filtered away
    have hall : attrs.schedule.filter Pragma.isSchedule = attrs.schedule :=
      List.filter_eq_self.2 fun _ => OpAttrs.isSchedule_of_mem
    simp [pragmasOfStmts, Stmt.pragmas, OpAttrs.loopPragmas_eq, hall, h.pragmas, scheduleOf]

/-- A loop without pragmas of its own. -/
theorem bareLoop (start lower test upper advance step : Expr) (note closing : Option Note)
    (h : Scheduled body loops) :
    Scheduled [.loop (.range start lower test upper advance step) note body closing]
      (none :: loops) where
  lead := rfl
  schedules := by simp [schedulesOfStmts, Stmt.schedules, h.lead, h.schedules, scheduleOf]
  pragmas := by simp [pragmasOfStmts, Stmt.pragmas, h.pragmas, scheduleOf]

/-- A conditional; without a second branch, that counts as empty. -/
theorem branch (condition : Expr) (note : Option Note) {onFalse : Option (List Stmt)}
    (h : Scheduled stmts loops) (h' : Scheduled (onFalse.getD []) loops') :
    Scheduled [.branch condition note stmts onFalse] (loops ++ loops') where
  lead := rfl
  schedules := by
    have hsecond := h'.schedules
    cases onFalse <;> simp_all [schedulesOfStmts, Stmt.schedules, h.schedules]
  pragmas := by
    have hsecond := h'.pragmas
    cases onFalse <;> simp_all [pragmasOfStmts, Stmt.pragmas, h.pragmas]

end Scheduled

end Code

/-! ## Statements -/

/-- The pragmas of an array schedule nothing. -/
theorem ValueInfo.scheduled_memoryPragmas (info : ValueInfo) (array : Use) :
    Scheduled (info.memoryPragmas array) [] := by
  rw [memoryPragmas_eq]
  refine .append (.ofOthers (schedulesOfStmts_map _) ?_) (.ofUnmarked ⟨rfl, rfl⟩)
  rw [pragmasOfStmts_map, List.forall_mem_cons]
  refine ⟨rfl, fun pragma hpragma => ?_⟩
  obtain ⟨entry, -, hentry⟩ := List.mem_filterMap.1 hpragma
  unfold DimPartition.pragma? at hentry
  split at hentry
  · cases hentry
  · cases hentry
    rfl

namespace Emission

variable {op : Op} {regions : List Block} {bodies : List (Emission (List Stmt))}

/-- The pragmas of an array have no loops. -/
theorem scheduled_arrayPragmas (op : Option Op) (id : ValueId) :
    Cleanly (arrayPragmas op id) fun stmts => Scheduled stmts [] := by
  refine .bindAny fun info => ?_
  split
  · exact .pure (.ofUnmarked .nil)
  refine .bindAny fun array => ?_
  dsimp only
  split
  · exact .bindAny fun _ => .pure (info.scheduled_memoryPragmas array)
  · exact .pure (info.scheduled_memoryPragmas array)

/-! ### Loops -/

/-- The head of a loop is one with a range. -/
theorem range_loopHead (op : Op) (index : ValueId) (lower upper step : Term) :
    Cleanly (loopHead op index lower upper step) fun head =>
      ∃ start lower test upper advance step, head = .range start lower test upper advance step :=
  .bindAny fun _ => .bindAny fun _ => .bindAny fun _ => .bindAny fun _ => .bindAny fun _ =>
    .map fun _ => ⟨_, _, _, _, _, _, rfl⟩

/-- One head for each loop of a nest, over a range. -/
theorem range_nestHeads (op : Op) (loops : List NestLoop) :
    Cleanly (nestHeads op loops) fun heads => heads.length = loops.length ∧
      ∀ head ∈ heads, ∃ start lower test upper advance step,
        head = .range start lower test upper advance step := by
  induction loops with
  | nil => exact .pure ⟨rfl, by simp⟩
  | cons loop rest ih =>
    refine .bind (.bindAny fun lower => .bindAny fun upper => range_loopHead op _ _ _ _)
      fun first hfirst => ?_
    exact .bind ih fun heads hheads =>
      .pure ⟨congrArg (· + 1) hheads.1, List.forall_mem_cons.2 ⟨hfirst, hheads.2⟩⟩

/-- The loops of a nest are bare, and the schedules inside of them are those of the body. -/
theorem scheduled_nestStmts {body : List Stmt} {loops : List (Option OpAttrs)}
    (h : Scheduled body loops) (closing : Option Note) {heads : List LoopHead}
    (hheads : ∀ head ∈ heads, ∃ start lower test upper advance step,
      head = .range start lower test upper advance step) :
    Scheduled (nestStmts body closing heads) (heads.map (fun _ => none) ++ loops) := by
  induction heads generalizing closing with
  | nil => exact h
  | cons head rest ih =>
    rw [List.forall_mem_cons] at hheads
    obtain ⟨⟨start, lower, test, upper, advance, step, rfl⟩, hrest⟩ := hheads
    exact .bareLoop start lower test upper advance step none closing (ih none hrest)

/-! ### Regions -/

/-- The bodies of some regions have the schedules of their loops. -/
abbrev BodiesScheduled (regions : List Block) (bodies : List (Emission (List Stmt))) : Prop :=
  List.Forall₂ (fun region body =>
    Cleanly body fun stmts => Scheduled stmts (loopsOf (reachedInBlock region))) regions bodies

/-- The first body has the loops of its region. -/
theorem scheduled_firstBody (h : BodiesScheduled regions bodies) :
    Cleanly (firstBody op bodies) fun stmts => Scheduled stmts (loopsOf (reachedInBlocks 1 regions)) := by
  cases h with
  | nil =>
    -- without a first region there is an overrun
    intro scope t hclean
    cases hclean.of_andThen.1.overruns
  | cons hfirst _ => simpa [firstBody, reachedInBlocks] using hfirst

/-- The second body has the loops of its region. -/
theorem scheduled_secondBody (h : BodiesScheduled regions bodies) :
    Cleanly (secondBody bodies) fun onFalse =>
      Scheduled (onFalse.getD []) (loopsOf (reachedInBlocks 1 regions.tail)) := by
  have hnothing : Scheduled [] [] := .ofUnmarked .nil
  cases h with
  | nil => exact .pure hnothing
  | cons _ hrest =>
    cases hrest with
    | nil => exact .pure hnothing
    | cons hsecond _ =>
      exact .bind hsecond fun stmts hstmts => .pure (by simpa [reachedInBlocks] using hstmts)

/-! ### Plans -/

/-- Carrying out a plan that fits writes the loops of its operation. -/
theorem scheduled_render {arena : Arena} {t : NameTable} {plan : Plan} (hplan : op.Fits arena t plan)
    (h : BodiesScheduled op.regions bodies) :
    Cleanly (render op bodies plan) fun stmts => Scheduled stmts
      (op.loops ++ loopsOf (reachedInBlocks op.kind.form.opened op.regions)) := by
  have hfirst : Cleanly (firstBody op bodies) fun stmts =>
      Scheduled stmts (loopsOf (reachedInBlocks 1 op.regions)) := scheduled_firstBody h
  cases plan with
  | loop index lower upper step =>
    have hform : op.kind.form = .loop := hplan
    rw [Op.loops, hform]
    refine .bind (range_loopHead op index lower upper step) fun head hhead => ?_
    obtain ⟨start, lower, test, upper, advance, step, rfl⟩ := hhead
    exact .bind hfirst fun body hbody => .pure (.loop op.attrs _ _ _ _ _ _ _ _ hbody)
  | branch condition =>
    have hform : op.kind.form = .branch := hplan
    rw [Op.loops, hform]
    refine .bind (unmarked_predeclare op op.results) fun declarations hdeclarations => ?_
    refine .bindAny fun condition => .bind hfirst fun onTrue honTrue => ?_
    refine .bind (scheduled_secondBody h) fun onFalse honFalse => .pure ?_
    refine .behindUnmarked hdeclarations ?_
    -- both regions of a conditional are written
    show Scheduled _ (loopsOf (reachedInBlocks 2 op.regions))
    rw [reachedInBlocks_two, loopsOf, List.flatMap_append]
    exact .branch condition _ honTrue honFalse
  | nest loops =>
    obtain ⟨hform, body, rest, hregions, hloops⟩ := hplan
    rw [Op.loops, hform]
    refine .bind (unmarked_predeclare op op.results) fun declarations hdeclarations => ?_
    refine .bind (range_nestHeads op loops) fun heads hheads => ?_
    refine .bind hfirst fun stmts hstmts => .pure ?_
    -- a nest has as many loops as its body has indices
    have hargs : heads.map (fun _ => (none : Option OpAttrs)) =
        (op.regions.head?.elim [] BlockOf.args).map fun _ => none := by
      rw [hregions, List.map_const', List.map_const', hheads.1, hloops]
      rfl
    refine .behindUnmarked hdeclarations ?_
    show Scheduled _ ((op.regions.head?.elim [] BlockOf.args).map (fun _ => none) ++ _)
    rw [← hargs]
    exact scheduled_nestStmts hstmts _ hheads.2
  | allocate array =>
    rw [Op.loops_of_plain (.inr hplan.1)]
    refine .bindAny fun declarator => .bind (scheduled_arrayPragmas (some op) array) fun _ hpragmas => ?_
    have hdeclaration : Unmarked [.declaration declarator (some op.note)] := ⟨rfl, rfl⟩
    exact .pure (.behindUnmarked hdeclaration hpragmas)
  | share source result =>
    rw [Op.loops_of_plain (.inr hplan.1)]
    exact .bindAny fun _ => scheduled_arrayPragmas (some op) result
  | _ =>
    -- all other plans write unmarked code; an array that is bound already is among them
    rw [Op.loops_of_plain (hplan.imp_right And.left)]
    exact (unmarked_render rfl bodies).mono fun _ => .ofUnmarked

/-! ## Operations -/

/-- An operation whose regions have the schedules of their loops. -/
theorem scheduled_operation (owner : Option Op) (h : BodiesScheduled op.regions bodies) :
    Cleanly (operation owner op bodies) fun stmts => Scheduled stmts
      (op.loops ++ loopsOf (reachedInBlocks op.kind.form.opened op.regions)) := by
  intro scope t hclean
  obtain ⟨plan, hfits, hrender, hrun⟩ := operation_of_clean hclean
  rw [hrun]
  exact scheduled_render hfits h scope t hrender

mutual

/-- An operation with everything inside of it. -/
theorem scheduled_ofOp (owner : Option Op) : (op : Op) →
    Cleanly (ofOp owner op) fun stmts => Scheduled stmts (loopsOf op.reached)
  | ⟨kind, operands, results, attrs, regions, line⟩ => by
    rw [ofOp, Op.reached]
    exact scheduled_operation owner (scheduled_ofRegions _ regions)

/-- Each region of an operation. -/
theorem scheduled_ofRegions (owner : Op) : (regions : List (BlockOf Op)) →
    BodiesScheduled regions (ofRegions owner regions)
  | [] => .nil
  | region :: rest => .cons (scheduled_ofBlock (some owner) region) (scheduled_ofRegions owner rest)

/-- A block. -/
theorem scheduled_ofBlock (owner : Option Op) : (block : BlockOf Op) →
    Cleanly (ofBlock owner block) fun stmts => Scheduled stmts (loopsOf (reachedInBlock block))
  | ⟨_, ops⟩ => scheduled_ofOps owner ops

/-- Some operations with everything inside of them. -/
theorem scheduled_ofOps (owner : Option Op) : (ops : List Op) →
    Cleanly (ofOps owner ops) fun stmts => Scheduled stmts (loopsOf (reachedInOps ops))
  | [] => .pure (.ofUnmarked .nil)
  | op :: rest => by
    rw [reachedInOps, loopsOf, List.flatMap_append]
    exact .bind (scheduled_ofOp owner op) fun _ hfirst =>
      .bind (scheduled_ofOps owner rest) fun _ hrest => .pure (hfirst.append hrest)

end

/-! ## Functions -/

/-- The pragmas of interfaces have no loops. -/
theorem scheduled_interfaces (ids : List ValueId) :
    Cleanly (interfaces ids) fun stmts => Scheduled stmts [] := by
  induction ids with
  | nil => exact .pure (.ofUnmarked .nil)
  | cons id rest ih =>
    have hfirst : Cleanly (interface id) fun stmts => Scheduled stmts [] := by
      refine .bindAny fun info => .map fun port => ?_
      unfold ValueInfo.interfacePragmas
      split
      · exact .ofOthers rfl (by simp [pragmasOfStmts, Stmt.pragmas, Pragma.isSchedule])
      split
      · exact .ofUnmarked .nil
      · exact .ofOthers rfl (by simp [pragmasOfStmts, Stmt.pragmas, Pragma.isSchedule])
      · exact .ofOthers rfl (by simp [pragmasOfStmts, Stmt.pragmas, Pragma.isSchedule])
    exact .bind hfirst fun _ hfirst => .bind ih fun _ hrest => .pure (.append hfirst hrest)

/-- The pragmas of ports that are arrays have no loops. -/
theorem scheduled_portArrayPragmas (ids : List ValueId) :
    Cleanly (portArrayPragmas ids) fun stmts => Scheduled stmts [] := by
  induction ids with
  | nil => exact .pure (.ofUnmarked .nil)
  | cons id rest ih =>
    have hrest {first : List Stmt} (hfirst : Scheduled first []) :
        Cleanly (do return first ++ (← portArrayPragmas rest)) fun stmts => Scheduled stmts [] :=
      .bind ih fun _ hrest => .pure (.append hfirst hrest)
    refine .bindAny fun info => ?_
    split
    · exact .bind (scheduled_arrayPragmas none id) fun _ hfirst => hrest hfirst
    · exact hrest (.ofUnmarked .nil)

/-- The first lines of a function schedule the function as its attributes say. -/
theorem scheduled_functionPragmas (attrs : FuncAttrs) (ports : List ValueId) :
    Cleanly (functionPragmas attrs ports) fun stmts => schedulesOfStmts stmts = [] ∧
      (pragmasOfStmts stmts).filter Pragma.isSchedule = attrs.schedule := by
  -- the pipeline pragma of a function leads no loop, so this code is not `Scheduled`
  have hown : schedulesOfStmts (if attrs.pipeline then
        [.pragma (.pipeline (attrs.targetInterval.getD 1)), .blank] else []) = [] ∧
      (pragmasOfStmts (if attrs.pipeline then
        [.pragma (.pipeline (attrs.targetInterval.getD 1)), .blank] else [])).filter
          Pragma.isSchedule = attrs.schedule := by
    unfold FuncAttrs.schedule
    split <;> exact ⟨rfl, rfl⟩
  have hdataflow : Scheduled (if attrs.dataflow then [.pragma .dataflow, .blank] else []) [] := by
    split
    · exact .ofOthers rfl (by simp [pragmasOfStmts, Stmt.pragmas, Pragma.isSchedule])
    · exact .ofUnmarked .nil
  unfold functionPragmas
  dsimp only
  split
  · exact .pure ⟨by simp [hdataflow.schedules, hown.1], by simp [hdataflow.pragmas, hown.2]⟩
  refine .bind (scheduled_interfaces ports) fun interfaces hinterfaces => ?_
  refine .bind (scheduled_portArrayPragmas ports) fun arrays harrays => .pure ⟨?_, ?_⟩
  · simp [schedulesOfStmts, Stmt.schedules, hdataflow.schedules, hown.1, hinterfaces.schedules,
      harrays.schedules]
  · simp [pragmasOfStmts, Stmt.pragmas, Pragma.isSchedule, hdataflow.pragmas, hown.2,
      hinterfaces.pragmas, harrays.pragmas]

end Emission

/-- The loops of a function have the schedules of the loops in its code, in order. Apart from those,
only the schedule of the function itself stands in its code. -/
structure Function.ScheduledAs (function : Function) (code : FunctionCode) : Prop where
  schedules : schedulesOfStmts code.body = (loopsOf function.reached).map scheduleOf
  pragmas : (pragmasOfStmts code.body).filter Pragma.isSchedule =
    function.attrs.schedule ++ (loopsOf function.reached).flatMap scheduleOf

namespace Emission

/-- What is emitted cleanly is emitted cleanly in a function. -/
theorem Cleanly.inFunction {α : Type} {e : Emission α} {post : α → Prop} (name : String)
    (h : Cleanly e post) : Cleanly (inFunction name e) post :=
  fun scope => h { scope with function := some name }

/-- A body has the loops of the operations that are reached in it. -/
theorem scheduled_body (blocks : List Block) :
    Cleanly (body blocks) fun stmts => Scheduled stmts (loopsOf (reachedInBlocks 1 blocks)) := by
  cases blocks with
  | nil => exact .pure (.ofUnmarked .nil)
  | cons block rest => simpa [body, reachedInBlocks] using scheduled_ofBlock none block

/-- A function is scheduled as its attributes and loops say. -/
theorem scheduled_function (function : Function) :
    Cleanly (Emission.function function) function.ScheduledAs := by
  refine .inFunction function.name ?_
  refine .bindAny fun _ => .bindAny fun arguments => .bindAny fun ret => .bindAny fun results => ?_
  refine .bind (scheduled_functionPragmas _ _) fun pragmas hpragmas => ?_
  refine .bind (scheduled_body function.blocks) fun body hbody => .pure ⟨?_, ?_⟩
  · simp [hpragmas.1, hbody.schedules, Function.reached]
  · simp [hpragmas.2, hbody.pragmas, Function.reached]

/-- Functions are scheduled one by one. -/
theorem scheduled_functions (functions : List Function) :
    Cleanly (Emission.functions functions) (List.Forall₂ Function.ScheduledAs functions) := by
  induction functions with
  | nil => exact .pure .nil
  | cons function rest ih =>
    exact .bind (scheduled_function function) fun _ hfirst => .bind ih fun _ hrest =>
      .pure (.cons hfirst hrest)

end Emission

/-! ## Modules -/

/-- Without errors, every scheduling decision about a sequential loop or a function stands in the code
exactly once and in its place, and no other does. -/
theorem Module.schedule_kept {module : Module} {includes : List String}
    (h : module.Succeeds includes) :
    List.Forall₂ Function.ScheduledAs module.functions
      (module.program includes).value.functions := by
  have hprogram : Emission.Cleanly
      (do return (⟨includes, ← Emission.functions module.functions⟩ : Program))
      fun program => List.Forall₂ Function.ScheduledAs module.functions program.functions :=
    .bind (Emission.scheduled_functions module.functions) fun _ hcodes => .pure hcodes
  exact hprogram _ _ h.clean

/-! ## Counting -/

/-- Whether a pragma pipelines a loop or a function. -/
def Code.Pragma.isPipeline : Pragma → Bool
  | .pipeline _ => true
  | _ => false

/-- There is one pipeline pragma for a loop that asks for it. -/
theorem OpAttrs.countP_schedule (attrs : OpAttrs) :
    attrs.schedule.countP Pragma.isPipeline = if attrs.pipeline then 1 else 0 := by
  cases hpipeline : attrs.pipeline <;> cases hunroll : attrs.unroll <;>
    simp [schedule, hpipeline, hunroll] <;> rfl

/-- There is one pipeline pragma for a function that asks for it. -/
theorem FuncAttrs.countP_schedule (attrs : FuncAttrs) :
    attrs.schedule.countP Pragma.isPipeline = if attrs.pipeline then 1 else 0 := by
  unfold FuncAttrs.schedule
  split <;> rfl

/-- A sequential loop that is pipelined. -/
def Op.isPipelined (op : Op) : Bool :=
  op.kind.form = .loop && op.attrs.pipeline

/-- There is one pipeline pragma for an operation that asks for it. -/
theorem Op.countP_loops (op : Op) :
    (op.loops.flatMap scheduleOf).countP Pragma.isPipeline = if op.isPipelined then 1 else 0 := by
  unfold loops isPipelined
  cases op.kind.form with
  | loop => simpa [scheduleOf] using op.attrs.countP_schedule
  | nest => simp [scheduleOf]
  | plain | array | branch => rfl

/-- There are as many pipeline pragmas as operations that ask for them. -/
theorem countP_loopsOf (ops : List Op) :
    ((loopsOf ops).flatMap scheduleOf).countP Pragma.isPipeline = ops.countP Op.isPipelined := by
  induction ops with
  | nil => rfl
  | cons op rest ih =>
    rw [loopsOf, List.flatMap_cons, List.flatMap_append, List.countP_append, ih, op.countP_loops,
      List.countP_cons, Nat.add_comm]

/-- All pipeline pragmas are scheduling pragmas. -/
theorem Code.countP_filter_isSchedule (pragmas : List Pragma) :
    (pragmas.filter Pragma.isSchedule).countP Pragma.isPipeline =
      pragmas.countP Pragma.isPipeline := by
  rw [List.countP_filter]
  refine List.countP_congr fun pragma _ => ?_
  cases pragma <;> simp [Pragma.isPipeline, Pragma.isSchedule]

/-- A function has a pipeline pragma for each sequential loop in it that is pipelined, and one if it is
pipelined itself. -/
theorem Function.ScheduledAs.pipelines {function : Function} {code : FunctionCode}
    (h : function.ScheduledAs code) :
    (pragmasOfStmts code.body).countP Pragma.isPipeline =
      function.reached.countP Op.isPipelined + if function.attrs.pipeline then 1 else 0 := by
  rw [← countP_filter_isSchedule, h.pragmas, List.countP_append, function.attrs.countP_schedule,
    countP_loopsOf, Nat.add_comm]

end HlsEmit
