import HlsEmit.Model.Value

/-!
# Operations, blocks, functions and modules

An operation has a kind, operands, results, attributes and nested blocks (its regions). Operands
and results are numbers into the value table. A module is that table with a list of functions.

`Module.dangling` finds the values that are mentioned but missing from the table; everything else
that may be wrong with a module is found while it is emitted.
-/

namespace HlsEmit

/-! ## Kinds of operations -/

/-- How a parallel nest combines the values of its iterations. -/
inductive ReductionKind where
  | add
  | assign
  | max
  | min
  | multiply
deriving DecidableEq, Repr, Inhabited

/-- Arithmetic on two operands. -/
inductive BinaryOp where
  | add
  | sub
  | mul
  | div
  | rem
  | xor
  | and
  | or
  | shl
  | shr
deriving DecidableEq, Repr, Inhabited

/-- Functions of one operand. -/
inductive UnaryOp where
  | abs
  | ceil
  | neg
  | cos
  | sin
  | tanh
  | sqrt
  | rsqrt
  | exp
  | exp2
  | log
  | log2
  | log10
deriving DecidableEq, Repr, Inhabited

/-- Comparisons of floating-point numbers: `o` is false and `u` is true when one is a NaN. -/
inductive CmpFPredicate where
  | alwaysFalse
  | oeq
  | ogt
  | oge
  | olt
  | ole
  | one
  | ord
  | ueq
  | ugt
  | uge
  | ult
  | ule
  | une
  | uno
  | alwaysTrue
deriving DecidableEq, Repr, Inhabited

/-- The name that messages use. -/
def CmpFPredicate.label : CmpFPredicate → String
  | .alwaysFalse => "AlwaysFalse"
  | .oeq => "Oeq"
  | .ogt => "Ogt"
  | .oge => "Oge"
  | .olt => "Olt"
  | .ole => "Ole"
  | .one => "One"
  | .ord => "Ord"
  | .ueq => "Ueq"
  | .ugt => "Ugt"
  | .uge => "Uge"
  | .ult => "Ult"
  | .ule => "Ule"
  | .une => "Une"
  | .uno => "Uno"
  | .alwaysTrue => "AlwaysTrue"

/-- Comparisons of integers: `s` compares them as signed numbers and `u` as unsigned ones. -/
inductive CmpIPredicate where
  | eq
  | ne
  | slt
  | sle
  | sgt
  | sge
  | ult
  | ule
  | ugt
  | uge
deriving DecidableEq, Repr, Inhabited

/-- Conversions between element types. -/
inductive CastKind where
  | indexCast
  | uiToFp
  | siToFp
  | fpToUi
  | fpToSi
  | truncI
  | zextI
  | sextI
deriving DecidableEq, Repr, Inhabited

/-- Accelerator blocks with a fixed calling sequence. -/
inductive IpKind where
  | amax
  | amin
  | asum
  | axpy
  | dot
  | gbmv
  | gemm
  | gemv
  | nrm2
  | scal
  | swap
  | symv
  | trmv
  | fft
  | pseudoSqrt
deriving DecidableEq, Repr, Inhabited

/-- What an operation does. -/
inductive OpKind where
  /-- Operands: lower bound, upper bound, step. The region's argument is the loop index. -/
  | scfFor
  /-- Operand: condition. Regions: what to do, and optionally what to do otherwise. -/
  | scfIf
  | scfYield
  | affineFor (lower upper : AffineBound) (step : Int64)
  /-- Operands: the inputs of the set. Regions as for `scfIf`. -/
  | affineIf (set : IntegerSet)
  /-- A nest of loops that combines what its body yields. The bounds have one result for each loop,
  the region has one index for each. -/
  | affineParallel (lower upper : AffineBound) (steps : List Int64)
  | affineApply (map : AffineMap)
  | affineMax (map : AffineMap)
  | affineMin (map : AffineMap)
  /-- Operands: array, inputs of the map. -/
  | affineLoad (map : AffineMap)
  /-- Operands: value, array, inputs of the map. -/
  | affineStore (map : AffineMap)
  | affineYield
  | alloc
  | alloca
  | dealloc
  /-- Operands: array, subscripts. -/
  | load
  /-- Operands: value, array, subscripts. -/
  | store
  | tensorLoad
  /-- Operands: content, array. -/
  | tensorStore
  | tensorToMemref
  /-- Operands: array, position of the dimension. -/
  | dim
  | rank
  | binary (op : BinaryOp)
  | unary (op : UnaryOp)
  | cmpF (predicate : CmpFPredicate)
  | cmpI (predicate : CmpIPredicate)
  /-- Operands: condition, value if it holds, value otherwise. -/
  | select
  | constant
  | cast (kind : CastKind)
  | call (callee : String)
  | ret
  | assign
  | finish
  | ip (kind : IpKind)
  /-- An accelerator block that is called by its name alone. -/
  | ipCall (name : String)
  /-- An operation without a rule. -/
  | other (name : String)
deriving DecidableEq, Repr, Inhabited

/-- The name of an operation in messages. -/
def OpKind.mnemonic : OpKind → String
  | .scfFor => "scf.for"
  | .scfIf => "scf.if"
  | .scfYield => "scf.yield"
  | .affineFor .. => "affine.for"
  | .affineIf .. => "affine.if"
  | .affineParallel .. => "affine.parallel"
  | .affineApply .. => "affine.apply"
  | .affineMax .. => "affine.max"
  | .affineMin .. => "affine.min"
  | .affineLoad .. => "affine.load"
  | .affineStore .. => "affine.store"
  | .affineYield => "affine.yield"
  | .alloc => "alloc"
  | .alloca => "alloca"
  | .dealloc => "dealloc"
  | .load => "load"
  | .store => "store"
  | .tensorLoad => "tensor_load"
  | .tensorStore => "tensor_store"
  | .tensorToMemref => "tensor_to_memref"
  | .dim => "dim"
  | .rank => "rank"
  | .binary .. => "binary"
  | .unary .. => "unary"
  | .cmpF .. => "cmpf"
  | .cmpI .. => "cmpi"
  | .select => "select"
  | .constant => "constant"
  | .cast .. => "cast"
  | .call .. => "call"
  | .ret => "return"
  | .assign => "hlscpp.assign"
  | .finish => "hlscpp.end"
  | .ip .. => "hlskernel.ip"
  | .ipCall .. => "hlskernel.ip_call"
  | .other name => name

/-! ## Attributes -/

/-- Scheduling decisions and estimates of an operation. -/
structure OpAttrs where
  pipeline : Bool := false
  /-- Cycles between the starts of two iterations that pipelining should reach. -/
  targetInterval : Option Int64 := none
  unroll : Bool := false
  flatten : Option Bool := none
  scheduleBegin : Option Int64 := none
  scheduleEnd : Option Int64 := none
  iterationLatency : Option Int64 := none
  interval : Option Int64 := none
  /-- For each result of a parallel nest, how it is combined. -/
  reductions : List ReductionKind := []
deriving DecidableEq, Repr, Inhabited

/-- Scheduling decisions and estimates of a function. -/
structure FuncAttrs where
  topFunction : Bool := false
  dataflow : Bool := false
  pipeline : Bool := false
  targetInterval : Option Int64 := none
  latency : Option Int64 := none
  interval : Option Int64 := none
  dsp : Option Int64 := none
deriving DecidableEq, Repr, Inhabited

/-! ## Structure -/

/-- A list of operations with arguments, over a type of operations. -/
structure BlockOf (ω : Type) where
  args : List ValueId := []
  ops : List ω := []
deriving Repr, Inhabited

/-- One operation. -/
structure Op where
  kind : OpKind
  operands : List ValueId := []
  results : List ValueId := []
  attrs : OpAttrs := {}
  regions : List (BlockOf Op) := []
  /-- The source line that it stems from. -/
  line : Option UInt32 := none
deriving Repr, Inhabited

/-- A list of operations with arguments. -/
abbrev Block := BlockOf Op

/-- Numbers of operands, results and regions. -/
structure Counts where
  operands : Nat
  results : Nat
  regions : Nat
deriving DecidableEq, Repr, Inhabited

/-- How many operands, results and regions an operation has. -/
def Op.counts (op : Op) : Counts :=
  ⟨op.operands.length, op.results.length, op.regions.length⟩

/-- The operation that ends a function body properly: a return in last place. -/
def BlockOf.returnOp? (block : Block) : Option Op :=
  block.ops.getLast?.filter fun op => op.kind = .ret

/-- One function. -/
structure Function where
  name : String
  args : List ValueId := []
  attrs : FuncAttrs := {}
  /-- The body. More or fewer than one block is an error of the model. -/
  blocks : List Block
  line : Option UInt32 := none
deriving Repr, Inhabited

/-- A program: the value table and the functions in order. -/
structure Module where
  values : Arena := #[]
  functions : List Function := []
deriving Repr, Inhabited

/-! ## Values that are mentioned but not in the table -/

/-- The values that a kind of operation mentions apart from operands and results. -/
def OpKind.mentioned : OpKind → List ValueId
  | .affineFor lower upper _ => lower.operands ++ upper.operands
  | .affineParallel lower upper _ => lower.operands ++ upper.operands
  | _ => []

mutual

/-- All values that an operation mentions, in order. -/
def Op.mentioned : Op → List ValueId
  | ⟨kind, operands, results, _, regions, _⟩ =>
    operands ++ results ++ kind.mentioned ++ mentionedInBlocks regions
termination_by structural op => op

/-- All values that some blocks mention, in order. -/
def mentionedInBlocks : List (BlockOf Op) → List ValueId
  | [] => []
  | block :: rest => mentionedInBlock block ++ mentionedInBlocks rest
termination_by structural blocks => blocks

/-- All values that a block mentions, in order. -/
def mentionedInBlock : BlockOf Op → List ValueId
  | ⟨args, ops⟩ => args ++ mentionedInOps ops
termination_by structural block => block

/-- All values that some operations mention, in order. -/
def mentionedInOps : List Op → List ValueId
  | [] => []
  | op :: rest => op.mentioned ++ mentionedInOps rest
termination_by structural ops => ops

end

/-! ## Operations of a module -/

mutual

/-- An operation with all operations inside of it, in order. -/
def Op.within : Op → List Op
  | ⟨kind, operands, results, attrs, regions, line⟩ =>
    ⟨kind, operands, results, attrs, regions, line⟩ :: withinBlocks regions
termination_by structural op => op

/-- All operations inside of some blocks, in order. -/
def withinBlocks : List (BlockOf Op) → List Op
  | [] => []
  | block :: rest => withinBlock block ++ withinBlocks rest
termination_by structural blocks => blocks

/-- All operations inside of a block, in order. -/
def withinBlock : BlockOf Op → List Op
  | ⟨_, ops⟩ => withinOps ops
termination_by structural block => block

/-- Some operations with all operations inside of them, in order. -/
def withinOps : List Op → List Op
  | [] => []
  | op :: rest => op.within ++ withinOps rest
termination_by structural ops => ops

end

/-- All operations of a module, in order. -/
def Module.within (module : Module) : List Op :=
  module.functions.flatMap fun function => withinBlocks function.blocks

/-! ## Values of a module -/

/-- All values that a function mentions, in order. -/
def Function.mentioned (function : Function) : List ValueId :=
  function.args ++ mentionedInBlocks function.blocks

/-- The values that are mentioned somewhere but missing from the value table, each once and in the
order of their first mention. -/
def Module.dangling (module : Module) : List ValueId :=
  let outside := (module.functions.flatMap Function.mentioned).filter fun id =>
    module.values.size ≤ id.index
  outside.eraseDups

end HlsEmit
