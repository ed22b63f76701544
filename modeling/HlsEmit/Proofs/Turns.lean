import HlsEmit.Proofs.BlockScope
import HlsEmit.Proofs.Pragmas.Forms
import Mathlib.Data.List.Forall2

/-!
# Turns

Each operation has its turn when it is written. If there are no errors, the operations that are
reached through the regions have their turns, each once and in order, and no others do.

## Key results

- `Module.turns_reached`: the turns of a module are those of the operations that are reached
-/

namespace HlsEmit

open Code

namespace Emission

variable {α β : Type} {turns : Prop}

/-! ## Sequences -/

/-- Without errors, these operations have their turns, in order. -/
def Turned (e : Emission α) (ops : List Op) : Prop :=
  ∀ scope t, (e.run scope t).Clean → (e.run scope t).dispatched.map Dispatch.op = ops

namespace Turned

variable {e : Emission α} {next : α → Emission β} {ops ops' : List Op}

/-- An emission that notes no turns. -/
theorem ofBuilt (h : Built False e) : Turned e [] :=
  fun scope t _ => by rw [h.dispatched, List.map_nil]

/-- The turns of a sequence are those of its parts. -/
theorem bind (h : Turned e ops) (hnext : ∀ value, Turned (next value) ops') :
    Turned (e >>= next) (ops ++ ops') := by
  intro scope t hclean
  rw [bind_apply] at hclean ⊢
  obtain ⟨hfirst, hrest⟩ := hclean.of_andThen
  rw [Outcome.andThen, List.map_append, h scope t hfirst, hnext _ scope _ hrest]

/-- A sequence whose first emission notes no turns. -/
theorem bindBuilt (h : Built False e) (hnext : ∀ value, Turned (next value) ops) :
    Turned (e >>= next) ops :=
  bind (ofBuilt h) hnext

/-- What is made of the code of an emission. -/
theorem map (f : α → β) (h : Turned e ops) : Turned (do return f (← e)) ops := by
  simpa using bind h fun value => ofBuilt (.pure (f value))

end Turned

/-! ## Plans -/

variable {op : Op} {regions : List Block} {bodies : List (Emission (List Stmt))}

/-- In the bodies of some regions, the operations that are reached have their turns. -/
abbrev BodiesTurned (regions : List Block) (bodies : List (Emission (List Stmt))) : Prop :=
  List.Forall₂ (fun region body => Turned body (reachedInBlock region)) regions bodies

/-- The first body gives turns to the operations of the first region. -/
theorem turned_firstBody (h : BodiesTurned regions bodies) :
    Turned (firstBody op bodies) (reachedInBlocks 1 regions) := by
  cases h with
  | nil =>
    -- without a first region there is an overrun
    intro scope t hclean
    cases hclean.of_andThen.1.overruns
  | cons hfirst _ => simpa [firstBody, reachedInBlocks] using hfirst

/-- The second body gives turns to the operations of the second region. -/
theorem turned_secondBody (h : BodiesTurned regions bodies) :
    Turned (secondBody bodies) (reachedInBlocks 1 regions.tail) := by
  cases h with
  | nil => exact .ofBuilt (.pure _)
  | cons _ hrest =>
    cases hrest with
    | nil => exact .ofBuilt (.pure _)
    | cons hsecond _ =>
      rw [List.tail_cons, reachedInBlocks, reachedInBlocks_zero, List.append_nil]
      exact hsecond.map some

/-- Carrying out a plan that fits gives a turn to what is reached in the regions. -/
theorem turned_render {arena : Arena} {t : NameTable} {plan : Plan} (hplan : op.Fits arena t plan)
    (h : BodiesTurned op.regions bodies) :
    Turned (render op bodies plan) (reachedInBlocks op.kind.form.opened op.regions) := by
  have hfirst : Turned (firstBody op bodies) (reachedInBlocks 1 op.regions) := turned_firstBody h
  -- A loop and a nest open one region, a branch two, and the others none.
  cases plan with
  | loop index lower upper step =>
    have hform : op.kind.form = .loop := hplan
    rw [hform]
    exact .bindBuilt (built_loopHead op index lower upper step) fun head => hfirst.map _
  | branch condition =>
    have hform : op.kind.form = .branch := hplan
    rw [hform]
    refine .bindBuilt (built_predeclare op op.results) fun declarations => ?_
    refine .bindBuilt (built_term op condition) fun condition => ?_
    show Turned _ (reachedInBlocks 2 op.regions)
    rw [reachedInBlocks_two]
    exact .bind hfirst fun onTrue => (turned_secondBody h).map _
  | nest loops =>
    rw [hplan.1]
    refine .bindBuilt (built_predeclare op op.results) fun declarations => ?_
    exact .bindBuilt (built_nestHeads op loops) fun heads => hfirst.map _
  | allocate array =>
    rw [reached_of_plain (.inr hplan.1)]
    exact .ofBuilt (built_render rfl bodies)
  | share source result =>
    rw [reached_of_plain (.inr hplan.1)]
    exact .ofBuilt (built_render rfl bodies)
  | _ =>
    rw [reached_of_plain (hplan.imp_right And.left)]
    exact .ofBuilt (built_render rfl bodies)

/-! ## Operations -/

/-- An operation has a turn, and then what is reached in its regions. -/
theorem turned_operation (owner : Option Op) (h : BodiesTurned op.regions bodies) :
    Turned (operation owner op bodies) (op :: reachedInBlocks op.kind.form.opened op.regions) := by
  intro scope t hclean
  obtain ⟨plan, hfits, hrender, hrun⟩ := operation_of_clean hclean
  rw [hrun]
  exact congrArg (op :: ·) (turned_render hfits h scope t hrender)

mutual

/-- An operation with everything inside of it. -/
theorem turned_ofOp (owner : Option Op) : (op : Op) → Turned (ofOp owner op) op.reached
  | ⟨kind, operands, results, attrs, regions, line⟩ => by
    rw [ofOp, Op.reached]
    exact turned_operation owner (turned_ofRegions _ regions)

/-- Each region of an operation. -/
theorem turned_ofRegions (owner : Op) : (regions : List (BlockOf Op)) →
    BodiesTurned regions (ofRegions owner regions)
  | [] => .nil
  | region :: rest => .cons (turned_ofBlock (some owner) region) (turned_ofRegions owner rest)

/-- A block. -/
theorem turned_ofBlock (owner : Option Op) : (block : BlockOf Op) →
    Turned (ofBlock owner block) (reachedInBlock block)
  | ⟨_, ops⟩ => turned_ofOps owner ops

/-- Some operations with everything inside of them. -/
theorem turned_ofOps (owner : Option Op) : (ops : List Op) →
    Turned (ofOps owner ops) (reachedInOps ops)
  | [] => .ofBuilt (.pure _)
  | op :: rest => .bind (turned_ofOp owner op) fun _ => (turned_ofOps owner rest).map _

end

/-! ## Functions -/

/-- Inside of a function. -/
theorem Turned.inFunction {e : Emission α} {ops : List Op} (name : String) (h : Turned e ops) :
    Turned (inFunction name e) ops :=
  fun scope => h { scope with function := some name }

/-- The turns of a function are those of what is reached in it. -/
theorem turned_function (function : Function) :
    Turned (Emission.function function) function.reached := by
  refine .inFunction function.name ?_
  -- nothing in front of the body notes a turn
  refine .bindBuilt (built_checkStructure function) fun _ => ?_
  refine .bindBuilt (built_arguments function.args) fun arguments => ?_
  refine .bindBuilt (built_returnOp? function) fun ret => ?_
  refine .bindBuilt (built_results ret) fun results => ?_
  refine .bindBuilt (built_functionPragmas _ _) fun pragmas => Turned.map _ ?_
  rw [Function.reached]
  cases function.blocks with
  | nil => exact .ofBuilt (.pure _)
  | cons block rest => simpa [body, reachedInBlocks] using turned_ofBlock none block

/-- The turns of functions come one function after the other. -/
theorem turned_functions (functions : List Function) :
    Turned (Emission.functions functions) (functions.flatMap Function.reached) := by
  induction functions with
  | nil => exact .ofBuilt (.pure _)
  | cons function rest ih => exact .bind (turned_function function) fun _ => ih.map _

end Emission

/-- Without errors, each operation that is reached has its turn once, in order, and no other does. -/
theorem Module.turns_reached {module : Module} {includes : List String}
    (h : module.Succeeds includes) :
    (module.program includes).dispatched.map Dispatch.op =
      module.functions.flatMap Function.reached :=
  (Emission.turned_functions module.functions).map _ _ _ h.clean

end HlsEmit
