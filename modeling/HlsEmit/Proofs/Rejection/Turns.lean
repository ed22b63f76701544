import HlsEmit.Proofs.InRange
import HlsEmit.Proofs.Pragmas.Forms
import HlsEmit.Proofs.Rejection.Checks

/-!
# Operations that have their turn can be looked at

Whatever is wrong with a module, only operations of the module have their turns. If no value is missing
from the table and the inputs of all maps and sets can be counted, all of them are `Readable`.

## Key results

- `dispatches_ofOp`: the operations that have their turns in an operation are inside of it
- `Module.turns_readable`: all operations that have their turns can be looked at
-/

namespace HlsEmit

open Code

/-! ## Turns -/

namespace Emission

variable {α β : Type} {fine : Op → Prop}

/-- Only operations of some sort have their turns. -/
def Dispatches (fine : Op → Prop) (e : Emission α) : Prop :=
  ∀ scope t, ∀ turn ∈ (e.run scope t).dispatched, fine turn.op

namespace Dispatches

variable {e : Emission α} {next : α → Emission β}

/-- What is built without turns has no others than fine ones. -/
theorem ofBuilt (h : Built False e) : Dispatches fine e := by
  intro scope t
  rw [h.dispatched]
  exact List.forall_mem_nil _

/-- A sequence has the turns of its parts. -/
theorem bind (h : Dispatches fine e) (hnext : ∀ value, Dispatches fine (next value)) :
    Dispatches fine (e >>= next) := by
  intro scope t
  rw [bind_apply, Outcome.andThen]
  exact List.forall_mem_append.2 ⟨h scope t, hnext _ scope _⟩

/-- A function of the value leaves the turns as they are. -/
theorem map (f : α → β) (h : Dispatches fine e) : Dispatches fine (do return f (← e)) :=
  h.bind fun value => ofBuilt (.pure (f value))

end Dispatches

variable {op : Op} {bodies : List (Emission (List Stmt))}

/-- The first body has fine turns if all bodies have. -/
theorem dispatches_firstBody (h : ∀ body ∈ bodies, Dispatches fine body) :
    Dispatches fine (firstBody op bodies) := by
  cases bodies with
  | nil => exact .ofBuilt (.bind (.overrun _) fun _ => .pure _)
  | cons body rest => exact h body (List.mem_cons_self ..)

/-- The second body has fine turns if all bodies have. -/
theorem dispatches_secondBody (h : ∀ body ∈ bodies, Dispatches fine body) :
    Dispatches fine (secondBody bodies) := by
  match bodies, h with
  | [], _ | [_], _ => exact .ofBuilt (.pure _)
  | _ :: body :: _, h => exact (h body (by simp)).map some

/-- Carrying out a plan gives turns inside of the regions only. -/
theorem dispatches_render (h : ∀ body ∈ bodies, Dispatches fine body) (plan : Plan) :
    Dispatches fine (render op bodies plan) := by
  cases plan with
  | loop index lower upper step =>
    refine .bind (.ofBuilt (built_loopHead op index lower upper step)) fun head => ?_
    exact (dispatches_firstBody h).map _
  | branch condition =>
    refine .bind (.ofBuilt (built_predeclare op op.results)) fun declarations => ?_
    refine .bind (.ofBuilt (built_term op condition)) fun condition => ?_
    exact .bind (dispatches_firstBody h) fun onTrue => (dispatches_secondBody h).map _
  | nest loops =>
    refine .bind (.ofBuilt (built_predeclare op op.results)) fun declarations => ?_
    refine .bind (.ofBuilt (built_nestHeads op loops)) fun heads => ?_
    exact (dispatches_firstBody h).map _
  | _ => exact .ofBuilt (built_render rfl bodies)

/-- An operation has its own turn and those of its bodies. -/
theorem dispatches_operation (owner : Option Op) (hop : fine op)
    (h : ∀ body ∈ bodies, Dispatches fine body) : Dispatches fine (operation owner op bodies) := by
  refine .bind (fun scope t turn hturn => ?_) fun _ => .bind (.ofBuilt (.inspect _)) fun plan => ?_
  · rw [dispatch_apply, List.mem_singleton] at hturn
    rwa [hturn]
  · match plan with
    | .ok plan => exact dispatches_render h plan
    | .error (.problem p) => exact .ofBuilt (.bind (.raise _ _) fun _ => .pure _)
    | .error (.overrun missing) => exact .ofBuilt (.bind (.overrun _) fun _ => .pure _)

mutual

/-- An operation with everything inside of it. -/
theorem dispatches_ofOp (owner : Option Op) : (op : Op) → (∀ op' ∈ op.within, fine op') →
    Dispatches fine (ofOp owner op)
  | ⟨kind, operands, results, attrs, regions, line⟩, h => by
    rw [Op.within, List.forall_mem_cons] at h
    rw [ofOp]
    exact dispatches_operation owner h.1 (dispatches_ofRegions _ regions h.2)

/-- Each region of an operation. -/
theorem dispatches_ofRegions (owner : Op) : (regions : List (BlockOf Op)) →
    (∀ op ∈ withinBlocks regions, fine op) → ∀ body ∈ ofRegions owner regions, Dispatches fine body
  | [], _ => by simp [ofRegions]
  | region :: rest, h => by
    rw [withinBlocks, List.forall_mem_append] at h
    rw [ofRegions, List.forall_mem_cons]
    exact ⟨dispatches_ofBlock (some owner) region h.1, dispatches_ofRegions owner rest h.2⟩

/-- A block. -/
theorem dispatches_ofBlock (owner : Option Op) : (block : BlockOf Op) →
    (∀ op ∈ withinBlock block, fine op) → Dispatches fine (ofBlock owner block)
  | ⟨_, ops⟩, h => dispatches_ofOps owner ops h

/-- Some operations with everything inside of them. -/
theorem dispatches_ofOps (owner : Option Op) : (ops : List Op) →
    (∀ op ∈ withinOps ops, fine op) → Dispatches fine (ofOps owner ops)
  | [], _ => .ofBuilt (.pure _)
  | op :: rest, h => by
    rw [withinOps, List.forall_mem_append] at h
    exact .bind (dispatches_ofOp owner op h.1) fun _ => (dispatches_ofOps owner rest h.2).map _

end

/-- Turns are taken in a function as outside of it. -/
theorem Dispatches.inFunction {e : Emission α} (name : String) (h : Dispatches fine e) :
    Dispatches fine (inFunction name e) :=
  fun scope => h { scope with function := some name }

/-- Only operations in the body of a function have their turns. -/
theorem dispatches_function (function : Function)
    (h : ∀ op ∈ withinBlocks function.blocks, fine op) :
    Dispatches fine (Emission.function function) := by
  refine .inFunction function.name ?_
  refine .bind (.ofBuilt (built_checkStructure function)) fun _ => ?_
  refine .bind (.ofBuilt (built_arguments function.args)) fun arguments => ?_
  refine .bind (.ofBuilt (built_returnOp? function)) fun ret => ?_
  refine .bind (.ofBuilt (built_results ret)) fun results => ?_
  refine .bind (.ofBuilt (built_functionPragmas _ _)) fun pragmas => .map _ ?_
  cases hblocks : function.blocks with
  | nil => exact .ofBuilt (.pure _)
  | cons block rest =>
    rw [hblocks, withinBlocks, List.forall_mem_append] at h
    exact dispatches_ofBlock none block h.1

/-- All turns of functions are those of operations in them. -/
theorem dispatches_functions (functions : List Function)
    (h : ∀ function ∈ functions, ∀ op ∈ withinBlocks function.blocks, fine op) :
    Dispatches fine (Emission.functions functions) := by
  induction functions with
  | nil => exact .ofBuilt (.pure _)
  | cons function rest ih =>
    rw [List.forall_mem_cons] at h
    exact .bind (dispatches_function function h.1) fun _ => (ih h.2).map _

end Emission

/-! ## Values of operations -/

section Walk

variable {id : ValueId}

mutual

/-- The walk over an operation meets the values of all operations inside. -/
theorem Op.mentioned_of_within : (op : Op) → ∀ op' ∈ op.within,
    id ∈ op'.operands ++ op'.results → id ∈ op.mentioned
  | ⟨kind, operands, results, attrs, regions, line⟩, op', hop, hid => by
    rw [Op.within, List.mem_cons] at hop
    rw [Op.mentioned, List.mem_append, List.mem_append]
    rcases hop with rfl | hop
    · exact .inl (.inl hid)
    · exact .inr (mentionedInBlocks_of_within regions op' hop hid)

/-- What an operation in some blocks mentions is mentioned in them. -/
theorem mentionedInBlocks_of_within : (blocks : List (BlockOf Op)) → ∀ op ∈ withinBlocks blocks,
    id ∈ op.operands ++ op.results → id ∈ mentionedInBlocks blocks
  | [], _, hop, _ => by cases hop
  | block :: rest, op, hop, hid => by
    rw [withinBlocks, List.mem_append] at hop
    rw [mentionedInBlocks, List.mem_append]
    exact hop.imp (mentionedInBlock_of_within block op · hid)
      (mentionedInBlocks_of_within rest op · hid)

/-- What an operation in a block mentions is mentioned in it. -/
theorem mentionedInBlock_of_within : (block : BlockOf Op) → ∀ op ∈ withinBlock block,
    id ∈ op.operands ++ op.results → id ∈ mentionedInBlock block
  | ⟨_, ops⟩, op, hop, hid => by
    rw [mentionedInBlock, List.mem_append]
    exact .inr (mentionedInOps_of_within ops op hop hid)

/-- What one of the operations, or one within them, mentions is mentioned in them. -/
theorem mentionedInOps_of_within : (ops : List Op) → ∀ op ∈ withinOps ops,
    id ∈ op.operands ++ op.results → id ∈ mentionedInOps ops
  | [], _, hop, _ => by cases hop
  | first :: rest, op, hop, hid => by
    rw [withinOps, List.mem_append] at hop
    rw [mentionedInOps, List.mem_append]
    exact hop.imp (Op.mentioned_of_within first op · hid) (mentionedInOps_of_within rest op · hid)

end

end Walk

/-! ## Modules -/

/-- All operations that have their turns can be looked at. -/
theorem Module.turns_readable {module : Module} (hdangling : module.dangling = [])
    (hcounts : module.CountsInputs) (includes : List String) :
    ∀ turn ∈ (module.program includes).dispatched, turn.op.Readable module.values := by
  have hwithin : ∀ function ∈ module.functions, ∀ op ∈ withinBlocks function.blocks,
      op.Readable module.values := by
    intro function hfunction op hop
    have hknown : ∀ id ∈ op.operands ++ op.results, (module.values.info? id).isSome := by
      intro id hid
      have hmentioned := mentionedInBlocks_of_within function.blocks op hop hid
      exact Module.known_of_mentioned hdangling
        ⟨function, hfunction, List.mem_append_right _ hmentioned⟩
    rw [List.forall_mem_append] at hknown
    exact ⟨hknown.1, hknown.2, hcounts op (List.mem_flatMap.2 ⟨function, hfunction, hop⟩)⟩
  have hprogram : Emission.Dispatches (fun op => op.Readable module.values)
      (do return ⟨includes, ← Emission.functions module.functions⟩ : Emission Program) :=
    (Emission.dispatches_functions module.functions hwithin).map _
  exact hprogram _ _

end HlsEmit
