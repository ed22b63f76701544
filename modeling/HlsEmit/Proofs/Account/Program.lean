import HlsEmit.Emission.Program
import HlsEmit.Proofs.Account.Operation

/-!
# The account of functions and modules

## Key results

- `emits_function`: a function, its signature and its pragmas included
- `Module.program_run`: the account of the emission of a module without dangling values
-/

namespace HlsEmit

open Code

/-- The operation that ends a block properly is one of the block. -/
theorem BlockOf.mem_ops_of_returnOp? {block : Block} {ret : Op} (h : block.returnOp? = some ret) :
    ret ∈ block.ops :=
  List.mem_of_getLast? (Option.filter_eq_some_iff.1 h).1

/-- What an operation of a list mentions is mentioned in the list. -/
theorem mem_mentionedInOps {ops : List Op} {op : Op} {id : ValueId} (hop : op ∈ ops)
    (hid : id ∈ op.mentioned) : id ∈ mentionedInOps ops := by
  induction ops with
  | nil => cases hop
  | cons first rest ih =>
    rw [mentionedInOps, List.mem_append]
    rcases List.mem_cons.1 hop with rfl | hop
    · exact .inl hid
    · exact .inr (ih hop)

/-- A function mentions what it returns. -/
theorem Function.mem_mentioned_of_return {function : Function} {ret : Op} {id : ValueId}
    (h : function.blocks.head?.bind BlockOf.returnOp? = some ret) (hid : id ∈ ret.operands) :
    id ∈ function.mentioned := by
  obtain ⟨block, hblock, hret⟩ := Option.bind_eq_some_iff.1 h
  obtain ⟨rest, hblocks⟩ : ∃ rest, function.blocks = block :: rest := by
    cases hblocks : function.blocks with
    | nil => simp [hblocks] at hblock
    | cons first rest =>
      rw [hblocks] at hblock
      cases hblock
      exact ⟨rest, rfl⟩
  -- The return is an operation of the first block.
  have hop : id ∈ ret.mentioned := by
    cases ret
    simp only [Op.mentioned, List.mem_append]
    exact .inl (.inl (.inl hid))
  have hops := mem_mentionedInOps (BlockOf.mem_ops_of_returnOp? hret) hop
  rw [Function.mentioned, hblocks, mentionedInBlocks]
  cases block
  simp only [mentionedInBlock, List.mem_append]
  exact .inr (.inl (.inr hops))

namespace Emission

variable {c : Contract}

/-- A contract does not depend on the function. -/
theorem Emits.inFunction {α : Type} {given : List Mention} {e : Emission α}
    {mentions : α → List Mention} (name : String) (he : Emits c given e mentions) :
    Emits c given (inFunction name e) mentions :=
  fun _ t hv => he (some name) t hv

/-! ## Signatures -/

/-- The arguments of a signature. -/
theorem emits_arguments {args : List ValueId} (h : ∀ id ∈ args, c.values id) :
    Emits c [] (arguments args) fun ports => ports.map Declarator.mention := by
  induction args with
  | nil => exact .pure (.refl _)
  | cons arg rest ih =>
    rw [List.forall_mem_cons] at h
    refine .bindNew (emits_declarator none h.1) fun first => ?_
    refine .bindNew (ih h.2) fun rest => ?_
    exact .pure (.refl _)

/-- One returned value of a signature. -/
theorem emits_returned (ret : Op) {id : ValueId} (hid : c.values id) :
    Emits c [] (returned ret id) Declarator.mentions := by
  refine .bindNew (emits_isBound hid) fun bound => ?_
  split
  · refine .bindNew (emits_raise (some ret) (by simp)) fun _ => ?_
    refine .bindNew (emits_mention (some ret) hid) fun m => ?_
    exact .pure (.refl _)
  · refine .bindNew (emits_info hid) fun info => ?_
    split
    · exact emits_arrayDeclarator (some ret) hid
    · refine .bindNew (emits_pointerMention (some ret) hid) fun m => ?_
      exact .pure (.refl _)

/-- The returned values of a signature. -/
theorem emits_returnedAll (ret : Op) {ids : List ValueId} (h : ∀ id ∈ ids, c.values id) :
    Emits c [] (returnedAll ret ids) fun ports => ports.map Declarator.mention := by
  induction ids with
  | nil => exact .pure (.refl _)
  | cons id rest ih =>
    rw [List.forall_mem_cons] at h
    refine .bindNew (emits_returned ret h.1) fun first => ?_
    refine .bindNew (ih h.2) fun rest => ?_
    exact .pure (.refl _)

/-! ## Functions -/

/-- The check of the structure of a function mentions nothing. -/
theorem emits_checkStructure (function : Function) :
    Emits c [] (checkStructure function) fun _ => [] := by
  have hreturns : Emits c [] (if 1 < function.returnCount then
      raise none (.returnCount function.returnCount) else pure ()) fun _ => [] := by
    split
    · exact emits_raise none (by simp)
    · exact .pure (.refl _)
  unfold checkStructure
  dsimp only
  split
  · exact .bindNew (emits_raise none (by simp)) fun _ => hreturns
  · exact hreturns

/-- Looking for the return of a function mentions nothing. -/
theorem emits_returnOp? (function : Function) :
    Emits c [] (returnOp? function) fun _ => [] := by
  unfold returnOp?
  dsimp only
  split
  · refine .bindNew (emits_raise none (by simp)) fun _ => ?_
    exact .pure (.refl _)
  · exact .pure (.refl _)

/-- The return is the one of the first block. -/
theorem returnOp?_value (function : Function) (scope : Scope) (t : NameTable) :
    ((returnOp? function).run scope t).value = function.blocks.head?.bind BlockOf.returnOp? := by
  unfold returnOp?
  dsimp only
  split <;> rfl

/-- The results of a signature are the operands of the return. -/
theorem emits_results {ret : Option Op} (h : ∀ id ∈ ret.elim [] Op.operands, c.values id) :
    Emits c [] (results ret) fun ports => ports.map Declarator.mention := by
  cases ret with
  | none => exact .pure (.refl _)
  | some ret => exact emits_returnedAll ret h

/-- The body of a function is its first block. -/
theorem emits_body {blocks : List Block} (hvalues : ∀ id ∈ mentionedInBlocks blocks, c.values id)
    (haccepts : c.Accepts (withinBlocks blocks)) : Emits c [] (body blocks) mentionsOfStmts := by
  cases blocks with
  | nil => exact .pure (.refl _)
  | cons block rest =>
    simp only [mentionedInBlocks, List.forall_mem_append] at hvalues
    simp only [Contract.Accepts, withinBlocks, List.forall_mem_append] at haccepts
    exact emits_ofBlock none block hvalues.1 (by simp) haccepts.1

/-- A function, its signature and its pragmas included. -/
theorem emits_function {function : Function} (hvalues : ∀ id ∈ function.mentioned, c.values id)
    (haccepts : c.Accepts (withinBlocks function.blocks)) :
    Emits c [] (Emission.function function) FunctionCode.mentions := by
  have hreturned : ∀ id ∈ (function.blocks.head?.bind BlockOf.returnOp?).elim [] Op.operands,
      c.values id := by
    intro id hid
    cases hret : function.blocks.head?.bind BlockOf.returnOp? with
    | none => simp [hret] at hid
    | some ret =>
      rw [hret] at hid
      exact hvalues id (Function.mem_mentioned_of_return hret hid)
  rw [Function.mentioned, List.forall_mem_append] at hvalues
  -- In the order of the source: checks, arguments, return, results, pragmas, body.
  refine .inFunction function.name ?_
  refine .bindNew (emits_checkStructure function) fun _ => ?_
  refine .bindNew (emits_arguments hvalues.1) fun arguments => ?_
  refine .bindKnown (emits_returnOp? function) (fun _ _ => returnOp?_value ..) ?_
  refine .bindNew (emits_results hreturned) fun results => ?_
  refine .bindNew (emits_functionPragmas _ (List.forall_mem_append.2 ⟨hvalues.1, hreturned⟩))
    fun pragmas => ?_
  refine .bindNew (emits_body hvalues.2 haccepts) fun body => ?_
  exact .pure (by simp [FunctionCode.mentions])

/-- The functions of a module, one after the other. -/
theorem emits_functions {functions : List Function}
    (hvalues : ∀ function ∈ functions, ∀ id ∈ function.mentioned, c.values id)
    (haccepts : ∀ function ∈ functions, c.Accepts (withinBlocks function.blocks)) :
    Emits c [] (Emission.functions functions) fun codes => codes.flatMap FunctionCode.mentions := by
  induction functions with
  | nil => exact .pure (.refl _)
  | cons function rest ih =>
    rw [List.forall_mem_cons] at hvalues haccepts
    refine .bindNew (emits_function hvalues.1 haccepts.1) fun first => ?_
    refine .bindNew (ih hvalues.2 haccepts.2) fun rest => ?_
    exact .pure (by simp)

end Emission

/-! ## Modules -/

/-- Without dangling values, everything that a module mentions is in the value table. -/
theorem Module.known_of_mentioned {module : Module} (h : module.dangling = []) {id : ValueId}
    (hid : ∃ function ∈ module.functions, id ∈ function.mentioned) :
    (module.values.info? id).isSome := by
  have hmem : id ∈ module.functions.flatMap Function.mentioned := List.mem_flatMap.2 hid
  have hinside : ¬ module.values.size ≤ id.index := by
    intro houtside
    have hdangling : id ∈ module.dangling :=
      List.mem_eraseDups.2 (List.mem_filter.2 ⟨hmem, by simpa using houtside⟩)
    rw [h] at hdangling
    cases hdangling
  simpa [Arena.info?] using hinside

/-- What the emission of a module without dangling values is held to. -/
def Module.contract (module : Module) (h : module.dangling = []) (overruns : Overrun → Prop) :
    Contract where
  arena := module.values
  values := fun id => ∃ function ∈ module.functions, id ∈ function.mentioned
  known := fun _ hid => Module.known_of_mentioned h hid
  reports := fun _ => False
  overruns := overruns

/-- The account of the emission of a module. -/
theorem Module.program_run {module : Module} (h : module.dangling = [])
    {overruns : Overrun → Prop} (haccepts : (module.contract h overruns).Accepts module.within)
    (includes : List String) :
    ∃ events, ((module.program includes).value.mentions).Perm (written events) ∧
      Emission.Run (module.contract h overruns) .empty events (module.program includes) := by
  have hfunctions : Emission.Emits (module.contract h overruns) []
      (Emission.functions module.functions) fun codes => codes.flatMap FunctionCode.mentions := by
    refine Emission.emits_functions (fun function hf id hid => ⟨function, hf, hid⟩) ?_
    intro function hf op hop
    exact haccepts op (List.mem_flatMap.2 ⟨function, hf, hop⟩)
  have hprogram : Emission.Emits (module.contract h overruns) []
      (do return ⟨includes, ← Emission.functions module.functions⟩) Program.mentions :=
    .bindNew hfunctions fun codes => .pure (.refl _)
  exact hprogram none .empty (NameTable.valid_empty _)

end HlsEmit
