import HlsEmit.Emission.Pragmas
import HlsEmit.Proofs.Account.Values

/-!
# The account of pragmas

Pragmas use the arrays and ports that they are about and declare nothing.
-/

namespace HlsEmit

open Code

/-- The pragmas of a loop mention no value. -/
@[simp] theorem OpAttrs.mentions_loopPragmas (attrs : OpAttrs) :
    mentionsOfStmts attrs.loopPragmas = [] := by
  unfold OpAttrs.loopPragmas
  split <;> split <;> rfl

/-- The partition pragmas of an array use nothing but the array. -/
theorem mem_mentions_partitionPragmas {array : Use} {dim : Nat} {parts : List DimPartition}
    {m : Mention} (hm : m ∈ mentionsOfStmts (partitionPragmas array dim parts)) :
    m = .use array := by
  induction parts generalizing dim with
  | nil => cases hm
  | cons part rest ih =>
    simp only [partitionPragmas] at hm
    split at hm
    · exact ih hm
    · simp only [mentionsOfStmts, Stmt.mentions, Pragma.mentions, List.mem_append,
        List.mem_singleton] at hm
      exact hm.elim id ih

/-- Where an array is placed is said with no other value than the array. -/
theorem ValueInfo.mem_mentions_memoryPragmas {info : ValueInfo} {array : Use} {m : Mention}
    (hm : m ∈ mentionsOfStmts (info.memoryPragmas array)) : m = .use array := by
  simp only [memoryPragmas, List.cons_append, mentionsOfStmts, Stmt.mentions, Pragma.mentions,
    mentionsOfStmts_append, List.nil_append, List.append_nil, List.mem_cons] at hm
  rcases hm with hm | hm
  · exact hm
  · split at hm
    · cases hm
    · exact mem_mentions_partitionPragmas hm

/-- The interface lines of a port mention the port alone. -/
theorem ValueInfo.mem_mentions_interfacePragmas {info : ValueInfo} {port : Use} {m : Mention}
    (hm : m ∈ mentionsOfStmts (info.interfacePragmas port)) : m = .use port := by
  unfold interfacePragmas at hm
  split at hm
  · simpa [mentionsOfStmts, Stmt.mentions, Pragma.mentions] using hm
  · split at hm
    · cases hm
    · simpa [mentionsOfStmts, Stmt.mentions, Pragma.mentions] using hm
    · simpa [mentionsOfStmts, Stmt.mentions, Pragma.mentions] using hm

namespace Emission

variable {c : Contract}

/-- The pragmas of an array on the chip. -/
theorem emits_arrayPragmas (op : Option Op) {id : ValueId} (hid : c.values id) :
    Emits c [] (arrayPragmas op id) mentionsOfStmts := by
  refine .bindNew (emits_info hid) fun info => ?_
  split
  · exact .pure (.refl _)
  intro function t hv
  have hpragmas : EmitsFrom c function t [] (pure (info.memoryPragmas (c.arena.use t id)))
      mentionsOfStmts :=
    .reading fun m hm => ⟨id, hid, ValueInfo.mem_mentions_memoryPragmas hm⟩
  refine .bindQuiet (use_apply id _) ?_
  dsimp only
  split
  · exact .bindEmpty (emits_raise op (by simp) function t hv) hpragmas
  · exact hpragmas

/-- The interface lines of one port. -/
theorem emits_interface {id : ValueId} (hid : c.values id) :
    Emits c [] (interface id) mentionsOfStmts := by
  refine .bindNew (emits_info hid) fun info => ?_
  intro function t hv
  refine .bindQuiet (use_apply id _) ?_
  exact .reading fun m hm => ⟨id, hid, ValueInfo.mem_mentions_interfacePragmas hm⟩

/-- The interface lines of all ports. -/
theorem emits_interfaces {ids : List ValueId} (h : ∀ id ∈ ids, c.values id) :
    Emits c [] (interfaces ids) mentionsOfStmts := by
  induction ids with
  | nil => exact .pure (.refl _)
  | cons id rest ih =>
    rw [List.forall_mem_cons] at h
    refine .bindNew (emits_interface h.1) fun first => ?_
    refine .bindNew (ih h.2) fun rest => ?_
    exact .pure (by simp)

/-- The memory lines of the arrays among the ports. -/
theorem emits_portArrayPragmas {ids : List ValueId} (h : ∀ id ∈ ids, c.values id) :
    Emits c [] (portArrayPragmas ids) mentionsOfStmts := by
  induction ids with
  | nil => exact .pure (.refl _)
  | cons id rest ih =>
    rw [List.forall_mem_cons] at h
    refine .bindNew (emits_info h.1) fun info => ?_
    split
    · refine .bindNew (emits_arrayPragmas none h.1) fun first => ?_
      refine .bindNew (ih h.2) fun rest => ?_
      exact .pure (by simp)
    · refine .bindNew (.pure (.refl _) : Emits c [] (pure []) mentionsOfStmts) fun first => ?_
      refine .bindNew (ih h.2) fun rest => ?_
      exact .pure (by simp)

/-- The first lines of a function body. -/
theorem emits_functionPragmas (attrs : FuncAttrs) {ports : List ValueId}
    (h : ∀ id ∈ ports, c.values id) :
    Emits c [] (functionPragmas attrs ports) mentionsOfStmts := by
  have hdataflow : mentionsOfStmts (if attrs.dataflow then [.pragma .dataflow, .blank] else []) =
      [] := by
    -- Without a top function there are no lines of ports.
    split <;> rfl
  have hpipeline (interval : Int64) :
      mentionsOfStmts (if attrs.pipeline then [.pragma (.pipeline interval), .blank] else []) =
        [] := by
    split <;> rfl
  unfold functionPragmas
  dsimp only
  split
  · refine .pure (.of_eq ?_)
    rw [mentionsOfStmts_append, hdataflow, hpipeline, List.append_nil]
  · refine .bindNew (emits_interfaces h) fun interfaces => ?_
    refine .bindNew (emits_portArrayPragmas h) fun arrays => ?_
    refine .pure (.of_eq ?_)
    simp [hdataflow, hpipeline, mentionsOfStmts, Stmt.mentions, Pragma.mentions]

end Emission

end HlsEmit
