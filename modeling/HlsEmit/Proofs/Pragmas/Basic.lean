import HlsEmit.Code.Pragmas
import HlsEmit.Emission.Operation
import HlsEmit.Proofs.Scoping.Basic

/-!
# Pragmas in emitted code

Most rules write no pragma and no loop over a range, so what they write is `Unmarked`. The pragmas of an
array say where it is placed, and how each dimension is split into banks.

`Cleanly` is about the code of an emission that reports no error.

## Key results

- `Cleanly.bind`: emissions without errors piece by piece
- `unmarked_elementwise`, `unmarked_computeEach`, `unmarked_reduce`: rules that write unmarked code
- `ValueInfo.memoryPragmas_eq`: one pragma for the memory of an array, and one for each split dimension
-/

namespace HlsEmit

open Code

/-- Code without pragmas and without loops over ranges. -/
structure Code.Unmarked (stmts : List Stmt) : Prop where
  pragmas : pragmasOfStmts stmts = []
  schedules : schedulesOfStmts stmts = []

namespace Code.Unmarked

variable {stmts stmts' : List Stmt}

/-- Nothing has no pragmas. -/
theorem nil : Unmarked [] := ⟨rfl, rfl⟩

/-- Two lists without pragmas have none together. -/
theorem append (h : Unmarked stmts) (h' : Unmarked stmts') : Unmarked (stmts ++ stmts') :=
  ⟨by simp [h.pragmas, h'.pragmas], by simp [h.schedules, h'.schedules]⟩

/-- A statement without pragmas in front of others. -/
theorem cons {first : Stmt} (h : Unmarked [first]) (h' : Unmarked stmts) : Unmarked (first :: stmts) :=
  append h h'

/-- A conditional between unmarked code is plain. -/
theorem branch (condition : Expr) (note : Option Note) (h : Unmarked stmts) (h' : Unmarked stmts') :
    Unmarked [.branch condition note stmts (some stmts')] :=
  ⟨by simp [pragmasOfStmts, Stmt.pragmas, h.pragmas, h'.pragmas],
    by simp [schedulesOfStmts, Stmt.schedules, h.schedules, h'.schedules]⟩

end Code.Unmarked

/-! ## Pragmas of arrays -/

/-- The pragma of one dimension of an array, unless that stays in one bank. -/
def DimPartition.pragma? (part : DimPartition) (array : Use) (dim : Nat) : Option Pragma :=
  if part.factor = 1 ∨ part.kind = .none then none
  else some (.partition array (part.kind = .cyclic) part.factor dim)

/-- The memory core that an array on the chip is placed in. -/
def ValueInfo.core (info : ValueInfo) : String :=
  info.memory.core?.getD MemoryKind.defaultCore

/-- The pragmas for the dimensions of an array, which are counted from one. -/
def ValueInfo.partitions (info : ValueInfo) (array : Use) : List Pragma :=
  (info.layout.elim [] PartitionLayout.dims).zipIdx.filterMap fun entry =>
    entry.1.pragma? array (entry.2 + 1)

/-- A pragma for each dimension that is split, with its position. -/
theorem partitionPragmas_eq (array : Use) (dim : Nat) (parts : List DimPartition) :
    partitionPragmas array dim parts = ((parts.zipIdx dim).filterMap fun entry =>
      entry.1.pragma? array (entry.2 + 1)).map .pragma := by
  induction parts generalizing dim with
  | nil => rfl
  | cons part rest ih =>
    rw [partitionPragmas, ih (dim + 1), List.zipIdx_cons, List.filterMap_cons]
    by_cases hbank : part.factor = 1 ∨ part.kind = .none
    · simp [DimPartition.pragma?, hbank]
    · simp [DimPartition.pragma?, hbank]

/-- One pragma for the memory of an array, and one for each dimension that is split. -/
theorem ValueInfo.memoryPragmas_eq (info : ValueInfo) (array : Use) :
    info.memoryPragmas array =
      (.resource array info.core :: info.partitions array).map .pragma ++ [.blank] := by
  unfold memoryPragmas partitions core
  cases info.layout with
  | none => rfl
  | some layout => simp [partitionPragmas_eq]

namespace Emission

variable {α β : Type}

/-- The code of an emission that reports no error, from any table, has the property `post`. -/
def Cleanly (e : Emission α) (post : α → Prop) : Prop :=
  ∀ scope t, (e.run scope t).Clean → post (e.run scope t).value

/-! ## Sequences -/

namespace Cleanly

variable {e : Emission α} {post post' : α → Prop} {next : α → Emission β} {postNext : β → Prop}

/-- A value alone is made cleanly. -/
theorem pure {value : α} (h : post value) : Cleanly (pure value) post :=
  fun _ _ _ => h

/-- What follows may use the property of what it follows. -/
theorem bind (h : Cleanly e post) (hnext : ∀ value, post value → Cleanly (next value) postNext) :
    Cleanly (e >>= next) postNext := by
  intro scope t hclean
  rw [bind_apply] at hclean ⊢
  obtain ⟨hfirst, hrest⟩ := hclean.of_andThen
  exact hnext _ (h scope t hfirst) scope _ hrest

/-- A sequence in which nothing depends on the first emission. -/
theorem bindAny (hnext : ∀ value, Cleanly (next value) postNext) : Cleanly (e >>= next) postNext :=
  have hany : Cleanly e fun _ => True := fun _ _ _ => trivial
  hany.bind fun value _ => hnext value

/-- Code that is made of what an emission finds out. -/
theorem map {f : α → β} (h : ∀ value, postNext (f value)) : Cleanly (do return f (← e)) postNext :=
  .bindAny fun value => .pure (h value)

/-- A weaker property suffices. -/
theorem mono (h : Cleanly e post) (hpost : ∀ value, post value → post' value) : Cleanly e post' :=
  fun scope t hclean => hpost _ (h scope t hclean)

/-- Nothing is clean behind an error. -/
theorem error {op : Option Op} {problem : Problem} {next : Unit → Emission β}
    (h : problem.severity = .error) : Cleanly (raise op problem >>= next) postNext := by
  intro scope t hclean
  rw [bind_apply] at hclean
  -- the problem itself is among what was raised
  have herror := hclean.of_andThen.1.raised _ (List.mem_singleton_self _)
  simp [Diagnostic.isError, Problem.report, h] at herror

end Cleanly

/-! ## Unmarked code -/

/-- Declarations of results have no pragmas. -/
theorem unmarked_predeclare (op : Op) (ids : List ValueId) : Cleanly (predeclare op ids) Unmarked := by
  induction ids with
  | nil => exact .pure .nil
  | cons id rest ih =>
    refine .bindAny fun bound => ?_
    split
    · exact ih
    · exact .bindAny fun first => .bind ih fun stmts hstmts => .pure (.cons ⟨rfl, rfl⟩ hstmts)

/-- Loops over counters add no pragmas. -/
theorem unmarked_counterLoops {body : List Stmt} (h : Unmarked body) (dim : Nat) (extents : List Int64) :
    Unmarked (counterLoops body dim extents) := by
  -- counters are numbered by their dimension, so the induction is over all of them
  induction extents generalizing dim with
  | nil => exact h
  | cons extent rest ih =>
    have hinside := ih (dim + 1)
    exact ⟨by simpa [counterLoops, pragmasOfStmts, Stmt.pragmas] using hinside.pragmas,
      by simpa [counterLoops, schedulesOfStmts, Stmt.schedules] using hinside.schedules⟩

/-- The declaration of a computed array has no pragmas. -/
theorem unmarked_loopExtents (op : Op) (target : ValueId) :
    Cleanly (loopExtents op target) fun loops => Unmarked loops.1 := by
  refine .bindAny fun info => ?_
  split
  · exact .pure .nil
  split
  · exact .bindAny fun _ => .pure .nil
  refine .bindAny fun bound => ?_
  split
  · exact .pure .nil
  · exact .map fun declarator => ⟨rfl, rfl⟩

/-- One assignment inside of loops over the elements of its target. -/
theorem unmarked_elementwise (op : Op) (target : ValueId) {statement : Nat → Emission Stmt}
    (h : ∀ rank, Cleanly (statement rank) fun stmt => Unmarked [stmt]) :
    Cleanly (elementwise op target statement) Unmarked :=
  .bind (unmarked_loopExtents op target) fun _ hdeclaration => .bind (h _) fun _ hbody =>
    .pure (.append hdeclaration (unmarked_counterLoops hbody _ _))

/-- A computation has no pragmas. -/
theorem unmarked_compute (op : Op) (target : ValueId) (source : Formula) :
    Cleanly (compute op target source) Unmarked :=
  unmarked_elementwise op target fun _ => .bindAny fun _ => .map fun _ => ⟨rfl, rfl⟩

/-- A reduction step has no pragmas. -/
theorem unmarked_combine (op : Op) (kind : ReductionKind) (target source : ValueId) :
    Cleanly (combine op kind target source) Unmarked := by
  refine unmarked_elementwise op target fun rank => .bindAny fun left => ?_
  cases kind with
  | add | assign | multiply => exact .map fun _ => ⟨rfl, rfl⟩
  | max | min => exact .bindAny fun again => .map fun _ => ⟨rfl, rfl⟩

/-- The assignments of a yield have no pragmas. -/
theorem unmarked_computeEach (op : Op) (pairs : List (ValueId × ValueId)) :
    Cleanly (computeEach op pairs) Unmarked := by
  induction pairs with
  | nil => exact .pure .nil
  | cons pair rest ih =>
    exact .bind (unmarked_compute op _ _) fun _ hfirst => .bind ih fun _ hrest =>
      .pure (.append hfirst hrest)

/-- The reduction steps have no pragmas. -/
theorem unmarked_combineEach (op owner : Op) (result : Nat) (pairs : List (ValueId × ValueId)) :
    Cleanly (combineEach op owner result pairs) Unmarked := by
  induction pairs generalizing result with
  | nil => exact .pure .nil
  | cons pair rest ih =>
    -- with an unknown reduction there is no code for this pair, but still for the others
    have hrest {first : List Stmt} (hfirst : Unmarked first) :
        Cleanly (do return first ++ (← combineEach op owner (result + 1) rest)) Unmarked :=
      .bind (ih (result + 1)) fun _ hrest => .pure (.append hfirst hrest)
    unfold combineEach
    split
    · exact .bind (unmarked_combine op _ _ _) fun _ hfirst => hrest hfirst
    · exact .bindAny fun _ => hrest .nil

/-- The end of a reducing nest has no pragmas. -/
theorem unmarked_reduce (op owner : Op) : Cleanly (reduce op owner) Unmarked := by
  refine .bindAny fun pairs => .bindAny fun indices => .bindAny fun condition => ?_
  refine .bind (unmarked_computeEach op pairs) fun onFirst hfirst => ?_
  exact .bind (unmarked_combineEach op owner 0 pairs) fun onOthers hothers =>
    .pure (.branch condition none hfirst hothers)

end Emission

end HlsEmit
