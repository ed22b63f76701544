import HlsEmit.Proofs.Account.Program
import HlsEmit.Proofs.Stages.Emission

/-!
# Values that are missing from the table

`Module.dangling` walks over a module by its own recursion and lists the values that it meets
outside of the value table. Here it is compared with a description of the places where a value may
occur that knows nothing of a walk, and with what emission, which is another recursion, looks up.

## Key results

- `Function.mem_mentioned`: the walk meets exactly the values that occur in a function
- `pairwise_idxOf_eraseDups`: leaving out what came before keeps the order of first occurrences
- `Module.dangling_found`: missing values are found, each once and in order, and reject the module;
  without any, nothing is looked up outside of the table
-/

namespace HlsEmit

open Code

/-! ## Where values occur -/

/-- The blocks of a function: its bodies, and the regions of the operations inside, at any depth. -/
inductive Function.HasBlock (function : Function) : Block → Prop where
  | body {block : Block} (h : block ∈ function.blocks) : function.HasBlock block
  | region {outer region : Block} {op : Op} (houter : function.HasBlock outer)
      (hop : op ∈ outer.ops) (hregion : region ∈ op.regions) : function.HasBlock region

/-- A value occurs in an operation, not only inside of its regions. -/
inductive Op.Mentions (op : Op) (id : ValueId) : Prop where
  | operand (h : id ∈ op.operands)
  | result (h : id ∈ op.results)
  | loopBound {lower upper : AffineBound} {step : Int64}
      (hkind : op.kind = .affineFor lower upper step)
      (h : id ∈ lower.operands ∨ id ∈ upper.operands)
  | nestBound {lower upper : AffineBound} {steps : List Int64}
      (hkind : op.kind = .affineParallel lower upper steps)
      (h : id ∈ lower.operands ∨ id ∈ upper.operands)

/-- A value occurs in a function. -/
inductive Function.Mentions (function : Function) (id : ValueId) : Prop where
  | arg (h : id ∈ function.args)
  | blockArg {block : Block} (hblock : function.HasBlock block) (h : id ∈ block.args)
  | op {block : Block} {op : Op} (hblock : function.HasBlock block) (hop : op ∈ block.ops)
      (h : op.Mentions id)

section Walk

variable {function : Function} {id : ValueId}

/-- A list mentions what an operation of it mentions. -/
theorem mem_mentionedInOps_iff {ops : List Op} :
    id ∈ mentionedInOps ops ↔ ∃ op ∈ ops, id ∈ op.mentioned := by
  induction ops with
  | nil => simp [mentionedInOps]
  | cons op rest ih => simp [mentionedInOps, ih]

/-- Blocks mention what one of them mentions. -/
theorem mem_mentionedInBlocks_iff {blocks : List Block} :
    id ∈ mentionedInBlocks blocks ↔ ∃ block ∈ blocks, id ∈ mentionedInBlock block := by
  induction blocks with
  | nil => simp [mentionedInBlocks]
  | cons block rest ih => simp [mentionedInBlocks, ih]

/-- A block mentions its arguments and what its operations mention. -/
theorem mem_mentionedInBlock_iff {block : Block} :
    id ∈ mentionedInBlock block ↔ id ∈ block.args ∨ ∃ op ∈ block.ops, id ∈ op.mentioned := by
  obtain ⟨args, ops⟩ := block
  simp [mentionedInBlock, mem_mentionedInOps_iff]

/-- The walk over an operation meets its own values and those of its regions. -/
theorem Op.mem_mentioned_iff {op : Op} :
    id ∈ op.mentioned ↔ op.Mentions id ∨ ∃ region ∈ op.regions, id ∈ mentionedInBlock region := by
  obtain ⟨kind, operands, results, attrs, regions, line⟩ := op
  rw [Op.mentioned, List.mem_append, List.mem_append, List.mem_append, mem_mentionedInBlocks_iff]
  refine or_congr_left ⟨?_, ?_⟩
  · rintro ((h | h) | h)
    · exact .operand h
    · exact .result h
    -- Only the two kinds of affine loops hide values, in their bounds.
    · cases kind <;> simp [OpKind.mentioned] at h
      · exact .loopBound rfl h
      · exact .nestBound rfl h
  · rintro (h | h | ⟨hkind, h⟩ | ⟨hkind, h⟩)
    · exact .inl (.inl h)
    · exact .inl (.inr h)
    all_goals
      dsimp only at hkind
      subst hkind
      exact .inr (List.mem_append.2 h)

mutual

/-- What the walk over an operation meets occurs in the function around. -/
theorem Function.mentions_of_op : (op : Op) → {block : Block} → function.HasBlock block →
    op ∈ block.ops → id ∈ op.mentioned → function.Mentions id
  | ⟨kind, operands, results, attrs, regions, line⟩, _, hblock, hop, hid => by
    rcases Op.mem_mentioned_iff.1 hid with h | h
    · exact .op hblock hop h
    · have hregions : ∀ region ∈ regions, function.HasBlock region := fun _ hregion =>
        .region hblock hop hregion
      exact Function.mentions_of_blocks regions hregions (mem_mentionedInBlocks_iff.2 h)

/-- What the walk over some blocks meets occurs in the function around. -/
theorem Function.mentions_of_blocks : (blocks : List (BlockOf Op)) →
    (∀ block ∈ blocks, function.HasBlock block) → id ∈ mentionedInBlocks blocks →
    function.Mentions id
  | [], _, hid => by cases hid
  | block :: rest, hblocks, hid => by
    rw [List.forall_mem_cons] at hblocks
    rw [mentionedInBlocks, List.mem_append] at hid
    rcases hid with hid | hid
    · exact Function.mentions_of_block block hblocks.1 hid
    · exact Function.mentions_of_blocks rest hblocks.2 hid

/-- What the walk over a block meets occurs in the function around. -/
theorem Function.mentions_of_block : (block : BlockOf Op) → function.HasBlock block →
    id ∈ mentionedInBlock block → function.Mentions id
  | ⟨args, ops⟩, hblock, hid => by
    rw [mentionedInBlock, List.mem_append] at hid
    rcases hid with hid | hid
    · exact .blockArg hblock hid
    · exact Function.mentions_of_ops ops hblock (fun _ hop => hop) hid

/-- What the walk over some operations of a block meets occurs in the function around. -/
theorem Function.mentions_of_ops : (ops : List Op) → {block : Block} → function.HasBlock block →
    (∀ op ∈ ops, op ∈ block.ops) → id ∈ mentionedInOps ops → function.Mentions id
  | [], _, _, _, hid => by cases hid
  | op :: rest, _, hblock, hops, hid => by
    rw [List.forall_mem_cons] at hops
    rw [mentionedInOps, List.mem_append] at hid
    rcases hid with hid | hid
    · exact Function.mentions_of_op op hblock hops.1 hid
    · exact Function.mentions_of_ops rest hblock hops.2 hid

end

/-- The walk over a function enters all of its blocks. -/
theorem Function.mem_mentioned_of_block {block : Block} (hblock : function.HasBlock block)
    (hid : id ∈ mentionedInBlock block) : id ∈ function.mentioned := by
  -- from a region outward to the body that it is inside of
  induction hblock with
  | body h => exact List.mem_append_right _ (mem_mentionedInBlocks_iff.2 ⟨_, h, hid⟩)
  | region houter hop hregion ih =>
    have hop' := Op.mem_mentioned_iff.2 (.inr ⟨_, hregion, hid⟩)
    exact ih (mem_mentionedInBlock_iff.2 (.inr ⟨_, hop, hop'⟩))

/-- The walk over a function meets exactly the values that occur in it. -/
theorem Function.mem_mentioned : id ∈ function.mentioned ↔ function.Mentions id := by
  constructor
  · intro hid
    rcases List.mem_append.1 hid with hid | hid
    · exact .arg hid
    · exact Function.mentions_of_blocks function.blocks (fun _ h => .body h) hid
  · rintro (h | ⟨hblock, h⟩ | ⟨hblock, hop, h⟩)
    · exact List.mem_append_left _ h
    · exact Function.mem_mentioned_of_block hblock (mem_mentionedInBlock_iff.2 (.inl h))
    · have hop' := Op.mem_mentioned_iff.2 (.inl h)
      exact Function.mem_mentioned_of_block hblock (mem_mentionedInBlock_iff.2 (.inr ⟨_, hop, hop'⟩))

end Walk

/-! ## The order of first occurrences -/

/-- What is left of some elements of a list, each only where it occurs first, stands in the order of
the first occurrences in the list. -/
theorem pairwise_idxOf_eraseDups {α : Type} [BEq α] [LawfulBEq α] (p : α → Bool) (xs : List α) :
    (xs.filter p).eraseDups.Pairwise fun a b => xs.idxOf a < xs.idxOf b := by
  induction xs generalizing p with
  | nil => simp
  | cons x xs ih =>
    have hnext {b : α} (hne : x ≠ b) : (x :: xs).idxOf b = xs.idxOf b + 1 := by
      rw [List.idxOf_cons, beq_false_of_ne hne, cond_false]
    -- the elements that are not the head come one place later in the longer list
    have hlater (q : α → Bool) (hq : q x = false) :
        (xs.filter q).eraseDups.Pairwise fun a b => (x :: xs).idxOf a < (x :: xs).idxOf b := by
      refine (ih q).imp_of_mem fun {a b} ha hb hab => ?_
      have hne {c : α} (hc : c ∈ (xs.filter q).eraseDups) : x ≠ c := by
        rintro rfl
        simp [hq] at hc
      rw [hnext (hne ha), hnext (hne hb)]
      omega
    by_cases hx : p x = true
    · rw [List.filter_cons_of_pos hx, List.eraseDups_cons, List.filter_filter, List.pairwise_cons]
      refine ⟨fun b hb => ?_, hlater _ (by simp)⟩
      have hne : x ≠ b := by
        rintro rfl
        simp at hb
      rw [List.idxOf_cons_self, hnext hne]
      omega
    · rw [List.filter_cons_of_neg hx]
      exact hlater p (by simpa using hx)

/-! ## Emission -/

/-- A history mentions only values that it may mention. -/
theorem History.values_of_written {arena : Arena} {values : ValueId → Prop} {t : NameTable}
    {events : List Event} (h : History arena values t events) :
    ∀ m ∈ written events, values m.value := by
  induction events generalizing t with
  | nil => simp [written]
  | cons event rest ih =>
    intro m hm
    rw [written, List.mem_filterMap] at hm
    obtain ⟨event', hevent', hm⟩ := hm
    rcases List.mem_cons.1 hevent' with rfl | hevent'
    · cases h.1 with
      | use hid => cases hm; exact hid
      | declare type pointer hid hfree => cases hm; exact hid
      | share hid hfree howner => cases hm
    · exact ih h.2 m (List.mem_filterMap.2 ⟨event', hevent', hm⟩)

/-- The emission of functions reports no missing value. -/
theorem Module.no_table_report (module : Module) (includes : List String) :
    ∀ report ∈ (module.program includes).raised, report.code ≠ some "E0106" := by
  intro report hreport hcode
  have hprogram : Emission.Reports (· ≠ .table)
      (do return ⟨includes, ← Emission.functions module.functions⟩ : Emission Program) :=
    (Emission.reports_functions (by simp) (by simp) (by simp) (by simp) module.functions
      fun _ _ _ _ _ => by simp).map _
  obtain ⟨problem, origin, hstage, rfl⟩ := hprogram _ _ report hreport
  exact hstage (Problem.stage_of_code (Option.some.inj hcode))

/-- Without dangling values, emission looks up and mentions only values of the table. The numbers of
inputs of maps and sets do not matter. -/
theorem Module.lookups_inTable {module : Module} (h : module.dangling = [])
    (includes : List String) :
    (∀ id, .entry id ∉ (module.program includes).overruns) ∧
      ∀ m ∈ (module.program includes).value.mentions, m.value.index < module.values.size := by
  let accepted : Overrun → Prop := fun missing => ∃ dims symbols, missing = .inputs dims symbols
  have haccepts : (module.contract h accepted).Accepts module.within :=
    fun _ _ inputs _ => .inr ⟨inputs.1, inputs.2, rfl⟩
  obtain ⟨events, hperm, hrun⟩ := Module.program_run h haccepts includes
  refine ⟨fun id hid => ?_, fun m hm => ?_⟩
  · obtain ⟨dims, symbols, hinputs⟩ := hrun.overruns _ hid
    cases hinputs
  · have hvalue := hrun.history.values_of_written m (hperm.mem_iff.1 hm)
    simpa [Arena.info?] using Module.known_of_mentioned h hvalue

/-! ## Modules -/

/-- The values that a module mentions, in the order of the walk over it. -/
def Module.mentioned (module : Module) : List ValueId :=
  module.functions.flatMap Function.mentioned

/-- The values outside of the table that occur somewhere are found, and no others. -/
theorem Module.mem_dangling {module : Module} {id : ValueId} : id ∈ module.dangling ↔
    module.values.size ≤ id.index ∧ ∃ function ∈ module.functions, function.Mentions id := by
  simp only [Module.dangling, List.mem_eraseDups, List.mem_filter, List.mem_flatMap,
    Function.mem_mentioned, decide_eq_true_eq]
  exact and_comm

/-- The values that are missing from the table of a module are found and reject it. -/
structure Module.DanglingFound (module : Module) (includes : List String) : Prop where
  /-- The values outside of the table that occur somewhere are found, and no others. -/
  exactly : ∀ id, id ∈ module.dangling ↔
    module.values.size ≤ id.index ∧ ∃ function ∈ module.functions, function.Mentions id
  /-- Each is listed once. -/
  distinct : module.dangling.Nodup
  /-- They are listed in the order in which the walk meets them first. -/
  ordered : module.dangling.Pairwise fun a b =>
    module.mentioned.idxOf a < module.mentioned.idxOf b
  /-- If there is any, there is no text, and one error for each of them in order. -/
  rejected : module.dangling ≠ [] →
    module.emit includes = ⟨"", module.dangling.map fun id =>
      { severity := .error
        code := some "E0106"
        message := "value %" ++ toString id.index
          ++ " is referenced but not defined in the value table" }⟩
  /-- If there is none, there is no such error. -/
  accepted : module.dangling = [] →
    ∀ report ∈ (module.emit includes).diagnostics, report.code ≠ some "E0106"
  /-- If there is none, every value that is looked up or mentioned is in the table. -/
  inTable : module.dangling = [] →
    (∀ id, .entry id ∉ (module.program includes).overruns) ∧
      ∀ m ∈ (module.program includes).value.mentions, m.value.index < module.values.size

/-- Missing values are found, each once and in order, and reject the module as a whole; without any,
nothing is looked up outside of the table. -/
theorem Module.dangling_found (module : Module) (includes : List String) :
    module.DanglingFound includes := by
  -- Dangling values are listed in the order of the walk, so no value is listed twice.
  have hordered : module.dangling.Pairwise fun a b =>
      module.mentioned.idxOf a < module.mentioned.idxOf b :=
    pairwise_idxOf_eraseDups _ _
  refine
    { exactly := fun id => Module.mem_dangling
      distinct := hordered.imp fun hlt heq => ?_
      ordered := hordered
      rejected := fun hsome => ?_
      accepted := fun hnone => ?_
      inTable := fun hnone => Module.lookups_inTable hnone includes }
  · rw [heq] at hlt
    exact Nat.lt_irrefl _ hlt
  · unfold Module.emit
    split
    · contradiction
    · rfl
  · rw [Module.emit, hnone]
    exact module.no_table_report includes

/-- The operand of a loop bound is found, and so is what only the body of the loop mentions. -/
example :
    Module.dangling ⟨#[{ elem := .index }], [{
      name := "hidden"
      blocks := [{ ops := [
        { kind := .affineFor (.constant 0)
            { map := { symbols := 1, results := [.symbol 0] }, operands := [⟨9⟩] } 1
          regions := [{ args := [⟨0⟩], ops := [
            { kind := .load, operands := [⟨4⟩, ⟨0⟩], results := [⟨9⟩] }] }] },
        { kind := .ret, operands := [⟨4⟩] }] }] }]⟩ = [⟨9⟩, ⟨4⟩] := by
  decide

end HlsEmit
