import HlsEmit.Model.Operation

/-!
# Modules without debugging data

Operations and functions carry data that is meant to be remarked only: the source line, the
schedule, the estimated latency and interval, and whether loops may be flattened. `Module.bare` is a
module without any of it; two modules differ in nothing else if they are the same without it.
-/

namespace HlsEmit

/-- The attributes without schedule, estimates and flattening. -/
def OpAttrs.bare (attrs : OpAttrs) : OpAttrs :=
  { attrs with
    flatten := none
    scheduleBegin := none
    scheduleEnd := none
    iterationLatency := none
    interval := none }

mutual

/-- An operation with everything inside of it, without debugging data. -/
def Op.bare : Op → Op
  | ⟨kind, operands, results, attrs, regions, _⟩ =>
    ⟨kind, operands, results, attrs.bare, bareBlocks regions, none⟩
termination_by structural op => op

/-- Some blocks without debugging data. -/
def bareBlocks : List (BlockOf Op) → List (BlockOf Op)
  | [] => []
  | block :: rest => bareBlock block :: bareBlocks rest
termination_by structural blocks => blocks

/-- A block without debugging data. -/
def bareBlock : BlockOf Op → BlockOf Op
  | ⟨args, ops⟩ => ⟨args, bareOps ops⟩
termination_by structural block => block

/-- Some operations without debugging data. -/
def bareOps : List Op → List Op
  | [] => []
  | op :: rest => op.bare :: bareOps rest
termination_by structural ops => ops

end

/-- A function without debugging data. -/
def Function.bare (function : Function) : Function :=
  { function with blocks := bareBlocks function.blocks, line := none }

/-- A module without debugging data. -/
def Module.bare (module : Module) : Module :=
  { module with functions := module.functions.map Function.bare }

/-! ## What is left -/

namespace Op

@[simp] theorem bare_kind (op : Op) : op.bare.kind = op.kind := by
  cases op; rfl

@[simp] theorem bare_operands (op : Op) : op.bare.operands = op.operands := by
  cases op; rfl

@[simp] theorem bare_results (op : Op) : op.bare.results = op.results := by
  cases op; rfl

@[simp] theorem bare_attrs (op : Op) : op.bare.attrs = op.attrs.bare := by
  cases op; rfl

@[simp] theorem bare_regions (op : Op) : op.bare.regions = bareBlocks op.regions := by
  cases op; rfl

end Op

/-- Operations are stripped one by one. -/
theorem bareOps_eq (ops : List Op) : bareOps ops = ops.map Op.bare := by
  induction ops with
  | nil => rfl
  | cons op rest ih => rw [bareOps, ih, List.map_cons]

/-- Blocks are stripped one by one. -/
theorem bareBlocks_eq (blocks : List (BlockOf Op)) : bareBlocks blocks = blocks.map bareBlock := by
  induction blocks with
  | nil => rfl
  | cons block rest ih => rw [bareBlocks, ih, List.map_cons]

@[simp] theorem bareBlock_args (block : BlockOf Op) : (bareBlock block).args = block.args := by
  cases block; rfl

@[simp] theorem bareBlock_ops (block : BlockOf Op) :
    (bareBlock block).ops = block.ops.map Op.bare := by
  cases block
  rw [bareBlock, bareOps_eq]

mutual

/-- Debugging data mentions no values. -/
theorem Op.bare_mentioned : (op : Op) → op.bare.mentioned = op.mentioned
  | ⟨kind, operands, results, attrs, regions, line⟩ => by
    simp only [Op.bare, Op.mentioned, mentionedInBlocks_bare regions]

/-- Stripped blocks mention the same values. -/
theorem mentionedInBlocks_bare : (blocks : List (BlockOf Op)) →
    mentionedInBlocks (bareBlocks blocks) = mentionedInBlocks blocks
  | [] => rfl
  | block :: rest => by
    simp only [bareBlocks, mentionedInBlocks, mentionedInBlock_bare block,
      mentionedInBlocks_bare rest]

/-- A stripped block mentions the same values. -/
theorem mentionedInBlock_bare : (block : BlockOf Op) →
    mentionedInBlock (bareBlock block) = mentionedInBlock block
  | ⟨args, ops⟩ => by simp only [bareBlock, mentionedInBlock, mentionedInOps_bare ops]

/-- Stripped operations mention the same values. -/
theorem mentionedInOps_bare : (ops : List Op) → mentionedInOps (bareOps ops) = mentionedInOps ops
  | [] => rfl
  | op :: rest => by
    simp only [bareOps, mentionedInOps, Op.bare_mentioned op, mentionedInOps_bare rest]

end

/-- A stripped function mentions the same values. -/
theorem Function.bare_mentioned (function : Function) :
    function.bare.mentioned = function.mentioned := by
  rw [Function.mentioned, Function.mentioned, Function.bare, mentionedInBlocks_bare]

/-- The same values are missing from a module without debugging data. -/
theorem Module.bare_dangling (module : Module) : module.bare.dangling = module.dangling := by
  have hmentioned : module.bare.functions.flatMap Function.mentioned =
      module.functions.flatMap Function.mentioned := by
    rw [Module.bare, List.flatMap_map]
    simp only [Function.bare_mentioned]
  rw [Module.dangling, Module.dangling, hmentioned]
  rfl

end HlsEmit
