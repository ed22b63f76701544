import HlsEmit.Model.Operation

/-!
# Single assignment

A module is in dominance form if no value is defined twice and every value is defined before it is
used: by an argument of the function or of a block around the use, or by an earlier operation of the
same block or of a block around. `Module.InDominanceForm` is a property of the model alone.

`Op.Exact` says in addition that an operation has as many results and block arguments as its kind
calls for.
-/

namespace HlsEmit

/-! ## Definitions -/

mutual

/-- The values that an operation defines, with those inside of its regions, in order. -/
def Op.defined : Op → List ValueId
  | ⟨_, _, results, _, regions, _⟩ => results ++ definedInBlocks regions
termination_by structural op => op

/-- The values that some blocks define, in order. -/
def definedInBlocks : List (BlockOf Op) → List ValueId
  | [] => []
  | block :: rest => definedInBlock block ++ definedInBlocks rest
termination_by structural blocks => blocks

/-- The values that a block defines, in order. -/
def definedInBlock : BlockOf Op → List ValueId
  | ⟨args, ops⟩ => args ++ definedInOps ops
termination_by structural block => block

/-- The values that some operations define, in order. -/
def definedInOps : List Op → List ValueId
  | [] => []
  | op :: rest => op.defined ++ definedInOps rest
termination_by structural ops => ops

end

/-- The values that a function defines, in order. -/
def Function.defined (function : Function) : List ValueId :=
  function.args ++ definedInBlocks function.blocks

/-! ## Uses -/

mutual

/-- An operation uses only values that are in scope, and so does everything inside of it. -/
def Op.Dominated (scope : List ValueId) : Op → Prop
  | ⟨kind, operands, _, _, regions, _⟩ =>
    (∀ id ∈ operands ++ kind.mentioned, id ∈ scope) ∧ BlocksDominated scope regions
termination_by structural op => op

/-- Some blocks use only values that are in scope. -/
def BlocksDominated (scope : List ValueId) : List (BlockOf Op) → Prop
  | [] => True
  | block :: rest => BlockDominated scope block ∧ BlocksDominated scope rest
termination_by structural blocks => blocks

/-- A block uses only values that are in scope and its arguments. -/
def BlockDominated (scope : List ValueId) : BlockOf Op → Prop
  | ⟨args, ops⟩ => OpsDominated (args ++ scope) ops
termination_by structural block => block

/-- Each operation uses only values that are in scope and the results of those before it. -/
def OpsDominated (scope : List ValueId) : List Op → Prop
  | [] => True
  | op :: rest => op.Dominated scope ∧ OpsDominated (op.results ++ scope) rest
termination_by structural ops => ops

end

mutual

/-- Whether an operation uses only values that are in scope can be computed. -/
def Op.decideDominated (scope : List ValueId) : (op : Op) → Decidable (op.Dominated scope)
  | ⟨kind, operands, _, _, regions, _⟩ =>
    have := decideBlocksDominated scope regions
    inferInstanceAs (Decidable ((∀ id ∈ operands ++ kind.mentioned, id ∈ scope) ∧
      BlocksDominated scope regions))
termination_by structural op => op

/-- The same for some blocks. -/
def decideBlocksDominated (scope : List ValueId) : (blocks : List (BlockOf Op)) →
    Decidable (BlocksDominated scope blocks)
  | [] => .isTrue trivial
  | block :: rest =>
    have := decideBlockDominated scope block
    have := decideBlocksDominated scope rest
    inferInstanceAs (Decidable (BlockDominated scope block ∧ BlocksDominated scope rest))
termination_by structural blocks => blocks

/-- The same for a block. -/
def decideBlockDominated (scope : List ValueId) : (block : BlockOf Op) →
    Decidable (BlockDominated scope block)
  | ⟨args, ops⟩ => decideOpsDominated (args ++ scope) ops
termination_by structural block => block

/-- The same for some operations, one behind the other. -/
def decideOpsDominated (scope : List ValueId) : (ops : List Op) →
    Decidable (OpsDominated scope ops)
  | [] => .isTrue trivial
  | op :: rest =>
    have := op.decideDominated scope
    have := decideOpsDominated (op.results ++ scope) rest
    inferInstanceAs (Decidable (op.Dominated scope ∧ OpsDominated (op.results ++ scope) rest))
termination_by structural ops => ops

end

instance (scope : List ValueId) (blocks : List Block) : Decidable (BlocksDominated scope blocks) :=
  decideBlocksDominated scope blocks

/-- Every value is defined once, and before it is used. -/
structure Module.InDominanceForm (module : Module) : Prop where
  distinct : (module.functions.flatMap Function.defined).Nodup
  dominated : ∀ function ∈ module.functions, BlocksDominated function.args function.blocks

instance (module : Module) : Decidable module.InDominanceForm :=
  decidable_of_iff ((module.functions.flatMap Function.defined).Nodup ∧
    ∀ function ∈ module.functions, BlocksDominated function.args function.blocks)
    ⟨fun h => ⟨h.1, h.2⟩, fun h => ⟨h.distinct, h.dominated⟩⟩

/-! ## Results and block arguments -/

/-- How many results an operation has to define, if that depends on its kind alone. -/
def OpKind.resultCount? : OpKind → Option Nat
  | .scfFor | .affineFor .. | .affineStore .. | .store | .tensorStore | .scfYield | .affineYield
  | .ret | .finish | .dealloc | .ip .. | .ipCall .. => some 0
  | .scfIf | .affineIf .. | .affineParallel .. | .call .. => none
  | _ => some 1

/-- Whether regions have as many arguments as this kind of operation binds: a loop has its index and a
nest one for each loop, and the branches of a conditional have none. -/
def OpKind.bindsArgs : OpKind → List (BlockOf Op) → Bool
  | .scfFor, regions | .affineFor .., regions =>
    regions.head?.all fun body => body.args.length = 1
  | .affineParallel .., regions => regions.head?.all fun body => 1 ≤ body.args.length
  | .scfIf, regions | .affineIf _, regions => (regions.take 2).all fun branch => branch.args.isEmpty
  | _, _ => true

/-- An operation with exactly the results and block arguments that its kind calls for. -/
structure Op.Exact (op : Op) : Prop where
  results : ∀ count ∈ op.kind.resultCount?, op.results.length = count
  args : op.kind.bindsArgs op.regions = true

instance (op : Op) : Decidable op.Exact :=
  decidable_of_iff ((∀ count ∈ op.kind.resultCount?, op.results.length = count) ∧
    op.kind.bindsArgs op.regions = true) ⟨fun h => ⟨h.1, h.2⟩, fun h => ⟨h.results, h.args⟩⟩

/-- A module all of whose operations are exact. Function bodies have no arguments of their own. -/
structure Module.Exact (module : Module) : Prop where
  ops : ∀ op ∈ module.within, op.Exact
  bodies : ∀ function ∈ module.functions, ∀ block ∈ function.blocks, block.args = []

instance (module : Module) : Decidable module.Exact :=
  decidable_of_iff ((∀ op ∈ module.within, op.Exact) ∧
    ∀ function ∈ module.functions, ∀ block ∈ function.blocks, block.args = [])
    ⟨fun h => ⟨h.1, h.2⟩, fun h => ⟨h.ops, h.bodies⟩⟩

end HlsEmit
