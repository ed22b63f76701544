import HlsEmit.Json.Schema
import HlsEmit.Model.Operation

/-!
# Models as JSON documents

For every type of the model its document: `toJson` writes a value, and a schema reads one. The
canonical text of a module is the compact text of its document.

* `Module.parse` reads a module from a text.
* `Module.canonical` and `Module.pretty` write it.

Each `toJson` writes all fields in declaration order, also those that hold their default. The
schemas name the same fields in the same order.
-/

namespace HlsEmit

open Json (Schema Fields Alternatives)

/-! ## Writing pieces -/

namespace Json

/-- A signed number of 64 bits. -/
def ofInt64 (n : Int64) : Json := .integer n.toInt

/-- An unsigned number of 32 bits. -/
def ofUInt32 (n : UInt32) : Json := .integer n.toNat

/-- `null` for an absent value. -/
def ofOption {α : Type} (write : α → Json) : Option α → Json
  | none => .null
  | some value => write value

/-- A list, element by element. -/
def ofList {α : Type} (write : α → Json) (items : List α) : Json :=
  .list (items.map write)

/-- An alternative with content. -/
def tagged (name : String) (content : Json) : Json :=
  .object [(name, content)]

end Json

open Json (ofInt64 ofUInt32 ofOption ofList tagged)

/-! ## Names without content -/

/-- The schema of a type whose alternatives have no content. -/
def bareNames {α : Type} : List (String × α) → Alternatives α
  | [] => .nil
  | (name, value) :: rest => .bare name value (bareNames rest)

/-- The document of a memory kind. -/
def MemoryKind.toJson : MemoryKind → Json
  | .bram1p => .text "bram1p"
  | .bramS2p => .text "bram_s2p"
  | .bramT2p => .text "bram_t2p"
  | .uram1p => .text "uram1p"
  | .uramS2p => .text "uram_s2p"
  | .uramT2p => .text "uram_t2p"
  | .dram => .text "dram"
  | .none => .text "none"

/-- Reads a memory kind. -/
def MemoryKind.schema : Schema MemoryKind :=
  .choice <| bareNames [
    ("bram1p", .bram1p), ("bram_s2p", .bramS2p), ("bram_t2p", .bramT2p), ("uram1p", .uram1p),
    ("uram_s2p", .uramS2p), ("uram_t2p", .uramT2p), ("dram", .dram), ("none", .none)]

/-- The document of a partition kind. -/
def PartitionKind.toJson : PartitionKind → Json
  | .cyclic => .text "cyclic"
  | .block => .text "block"
  | .none => .text "none"

/-- Reads a partition kind. -/
def PartitionKind.schema : Schema PartitionKind :=
  .choice <| bareNames [("cyclic", .cyclic), ("block", .block), ("none", .none)]

/-- The document of a reduction kind. -/
def ReductionKind.toJson : ReductionKind → Json
  | .add => .text "add"
  | .assign => .text "assign"
  | .max => .text "max"
  | .min => .text "min"
  | .multiply => .text "multiply"

/-- Reads a reduction kind. -/
def ReductionKind.schema : Schema ReductionKind :=
  .choice <| bareNames [
    ("add", .add), ("assign", .assign), ("max", .max), ("min", .min), ("multiply", .multiply)]

/-- The document of a binary operation. -/
def BinaryOp.toJson : BinaryOp → Json
  | .add => .text "add"
  | .sub => .text "sub"
  | .mul => .text "mul"
  | .div => .text "div"
  | .rem => .text "rem"
  | .xor => .text "xor"
  | .and => .text "and"
  | .or => .text "or"
  | .shl => .text "shl"
  | .shr => .text "shr"

/-- Reads a binary operation. -/
def BinaryOp.schema : Schema BinaryOp :=
  .choice <| bareNames [
    ("add", .add), ("sub", .sub), ("mul", .mul), ("div", .div), ("rem", .rem), ("xor", .xor),
    ("and", .and), ("or", .or), ("shl", .shl), ("shr", .shr)]

/-- The document of a function of one operand. -/
def UnaryOp.toJson : UnaryOp → Json
  | .abs => .text "abs"
  | .ceil => .text "ceil"
  | .neg => .text "neg"
  | .cos => .text "cos"
  | .sin => .text "sin"
  | .tanh => .text "tanh"
  | .sqrt => .text "sqrt"
  | .rsqrt => .text "rsqrt"
  | .exp => .text "exp"
  | .exp2 => .text "exp2"
  | .log => .text "log"
  | .log2 => .text "log2"
  | .log10 => .text "log10"

/-- Reads a function of one operand. -/
def UnaryOp.schema : Schema UnaryOp :=
  .choice <| bareNames [
    ("abs", .abs), ("ceil", .ceil), ("neg", .neg), ("cos", .cos), ("sin", .sin), ("tanh", .tanh),
    ("sqrt", .sqrt), ("rsqrt", .rsqrt), ("exp", .exp), ("exp2", .exp2), ("log", .log),
    ("log2", .log2), ("log10", .log10)]

/-- The document of a comparison of floating-point numbers. -/
def CmpFPredicate.toJson : CmpFPredicate → Json
  | .alwaysFalse => .text "false"
  | .oeq => .text "oeq"
  | .ogt => .text "ogt"
  | .oge => .text "oge"
  | .olt => .text "olt"
  | .ole => .text "ole"
  | .one => .text "one"
  | .ord => .text "ord"
  | .ueq => .text "ueq"
  | .ugt => .text "ugt"
  | .uge => .text "uge"
  | .ult => .text "ult"
  | .ule => .text "ule"
  | .une => .text "une"
  | .uno => .text "uno"
  | .alwaysTrue => .text "true"

/-- Reads a comparison of floating-point numbers. -/
def CmpFPredicate.schema : Schema CmpFPredicate :=
  .choice <| bareNames [
    ("false", .alwaysFalse), ("oeq", .oeq), ("ogt", .ogt), ("oge", .oge), ("olt", .olt),
    ("ole", .ole), ("one", .one), ("ord", .ord), ("ueq", .ueq), ("ugt", .ugt), ("uge", .uge),
    ("ult", .ult), ("ule", .ule), ("une", .une), ("uno", .uno), ("true", .alwaysTrue)]

/-- The document of a comparison of integers. -/
def CmpIPredicate.toJson : CmpIPredicate → Json
  | .eq => .text "eq"
  | .ne => .text "ne"
  | .slt => .text "slt"
  | .sle => .text "sle"
  | .sgt => .text "sgt"
  | .sge => .text "sge"
  | .ult => .text "ult"
  | .ule => .text "ule"
  | .ugt => .text "ugt"
  | .uge => .text "uge"

/-- Reads a comparison of integers. -/
def CmpIPredicate.schema : Schema CmpIPredicate :=
  .choice <| bareNames [
    ("eq", .eq), ("ne", .ne), ("slt", .slt), ("sle", .sle), ("sgt", .sgt), ("sge", .sge),
    ("ult", .ult), ("ule", .ule), ("ugt", .ugt), ("uge", .uge)]

/-- The document of a conversion. -/
def CastKind.toJson : CastKind → Json
  | .indexCast => .text "index_cast"
  | .uiToFp => .text "ui_to_fp"
  | .siToFp => .text "si_to_fp"
  | .fpToUi => .text "fp_to_ui"
  | .fpToSi => .text "fp_to_si"
  | .truncI => .text "trunc_i"
  | .zextI => .text "zext_i"
  | .sextI => .text "sext_i"

/-- Reads a conversion. -/
def CastKind.schema : Schema CastKind :=
  .choice <| bareNames [
    ("index_cast", .indexCast), ("ui_to_fp", .uiToFp), ("si_to_fp", .siToFp),
    ("fp_to_ui", .fpToUi), ("fp_to_si", .fpToSi), ("trunc_i", .truncI), ("zext_i", .zextI),
    ("sext_i", .sextI)]

/-- The document of an accelerator block. -/
def IpKind.toJson : IpKind → Json
  | .amax => .text "amax"
  | .amin => .text "amin"
  | .asum => .text "asum"
  | .axpy => .text "axpy"
  | .dot => .text "dot"
  | .gbmv => .text "gbmv"
  | .gemm => .text "gemm"
  | .gemv => .text "gemv"
  | .nrm2 => .text "nrm2"
  | .scal => .text "scal"
  | .swap => .text "swap"
  | .symv => .text "symv"
  | .trmv => .text "trmv"
  | .fft => .text "fft"
  | .pseudoSqrt => .text "pseudo_sqrt"

/-- Reads an accelerator block. -/
def IpKind.schema : Schema IpKind :=
  .choice <| bareNames [
    ("amax", .amax), ("amin", .amin), ("asum", .asum), ("axpy", .axpy), ("dot", .dot),
    ("gbmv", .gbmv), ("gemm", .gemm), ("gemv", .gemv), ("nrm2", .nrm2), ("scal", .scal),
    ("swap", .swap), ("symv", .symv), ("trmv", .trmv), ("fft", .fft),
    ("pseudo_sqrt", .pseudoSqrt)]

/-! ## Values -/

/-- The document of a value number. -/
def ValueId.toJson (id : ValueId) : Json :=
  ofUInt32 id.number

/-- Reads a value number. -/
def ValueId.schema : Schema ValueId :=
  .mapped ValueId.mk .uint32

/-- The document of an element type. -/
def ElemType.toJson : ElemType → Json
  | .f16 => .text "f16"
  | .bf16 => .text "bf16"
  | .f32 => .text "f32"
  | .f64 => .text "f64"
  | .bool => .text "bool"
  | .index => .text "index"
  | .int width unsigned =>
    tagged "int" (.object [("width", ofUInt32 width), ("unsigned", .bool unsigned)])

/-- Reads an element type. -/
def ElemType.schema : Schema ElemType :=
  .choice <|
    .bare "f16" .f16 <| .bare "bf16" .bf16 <| .bare "f32" .f32 <| .bare "f64" .f64 <|
    .bare "bool" .bool <| .bare "index" .index <|
    .record "int" "struct variant ElemType::Int"
      (.cons "width" .uint32 none <| .cons "unsigned" .flag none .nil)
      (fun (width, unsigned, ()) => .int width unsigned)
      .nil

/-- The document of a shape. -/
def Shape.toJson : Shape → Json
  | .scalar => .text "scalar"
  | .ranked extents => tagged "ranked" (ofList (ofOption ofInt64) extents)
  | .unranked => .text "unranked"

/-- Reads a shape. -/
def Shape.schema : Schema Shape :=
  .choice <|
    .bare "scalar" .scalar <|
    .holding "ranked" (.list (.optional .int64)) .ranked <|
    .bare "unranked" .unranked .nil

/-- The document of the partition of one dimension. -/
def DimPartition.toJson (part : DimPartition) : Json :=
  .object [("kind", part.kind.toJson), ("factor", ofInt64 part.factor)]

/-- Reads the partition of one dimension. -/
def DimPartition.schema : Schema DimPartition :=
  .record "struct DimPartition"
    (.cons "kind" PartitionKind.schema none <| .cons "factor" .int64 none .nil)
    fun (kind, factor, ()) => { kind, factor }

/-- The document of a partition. -/
def PartitionLayout.toJson (layout : PartitionLayout) : Json :=
  .object [("dims", ofList DimPartition.toJson layout.dims)]

/-- Reads a partition. -/
def PartitionLayout.schema : Schema PartitionLayout :=
  .record "struct PartitionLayout" (.cons "dims" (.list DimPartition.schema) none .nil)
    fun (dims, ()) => { dims }

mutual

/-- The document of a constant's content. -/
def Literal.toJson : Literal → Json
  | .float value => tagged "float" (.real value)
  | .int value => tagged "int" (ofInt64 value)
  | .bool value => tagged "bool" (.bool value)
  | .dense elements => tagged "dense" (.list (literalsToJson elements))
  | .str value => tagged "str" (.text value)
termination_by structural literal => literal

/-- The documents of some contents. -/
def literalsToJson : List Literal → List Json
  | [] => []
  | literal :: rest => literal.toJson :: literalsToJson rest
termination_by structural literals => literals

end

/-- Reads a constant's content that is nested at most `depth` deep. -/
def Literal.schema : (depth : Nat) → Schema Literal
  | 0 => .beyondLimit
  | depth + 1 =>
    .choice <|
      .holding "float" .real .float <| .holding "int" .int64 .int <| .holding "bool" .flag .bool <|
      .holding "dense" (.list (Literal.schema depth)) .dense <|
      .holding "str" .text .str .nil

/-- The document of an entry of the value table. -/
def ValueInfo.toJson (info : ValueInfo) : Json :=
  .object [
    ("elem", info.elem.toJson),
    ("shape", info.shape.toJson),
    ("memory", info.memory.toJson),
    ("layout", ofOption PartitionLayout.toJson info.layout),
    ("constant", ofOption Literal.toJson info.constant)]

/-- Reads an entry of the value table. -/
def ValueInfo.schema : Schema ValueInfo :=
  .record "struct ValueInfo"
    (.cons "elem" ElemType.schema none <|
      .cons "shape" Shape.schema none <|
      .cons "memory" MemoryKind.schema (some .none) <|
      .cons "layout" (.optional PartitionLayout.schema) (some none) <|
      .cons "constant" (.optional (Literal.schema Json.nestingLimit)) (some none) .nil)
    fun (elem, shape, memory, layout, constant, ()) => { elem, shape, memory, layout, constant }

/-! ## Affine expressions, maps and sets -/

/-- The document of an affine expression. -/
def AffineExpr.toJson : AffineExpr → Json
  | .dim position => tagged "dim" (ofUInt32 position)
  | .symbol position => tagged "symbol" (ofUInt32 position)
  | .constant value => tagged "constant" (ofInt64 value)
  | .add lhs rhs => tagged "add" (.list [lhs.toJson, rhs.toJson])
  | .mul lhs rhs => tagged "mul" (.list [lhs.toJson, rhs.toJson])
  | .mod lhs rhs => tagged "mod" (.list [lhs.toJson, rhs.toJson])
  | .floorDiv lhs rhs => tagged "floor_div" (.list [lhs.toJson, rhs.toJson])
  | .ceilDiv lhs rhs => tagged "ceil_div" (.list [lhs.toJson, rhs.toJson])

/-- Reads an affine expression that is nested at most `depth` deep. -/
def AffineExpr.schema : (depth : Nat) → Schema AffineExpr
  | 0 => .beyondLimit
  | depth + 1 =>
    let operands :=
      Fields.cons "lhs" (AffineExpr.schema depth) none <|
      .cons "rhs" (AffineExpr.schema depth) none .nil
    .choice <|
      .holding "dim" .uint32 .dim <| .holding "symbol" .uint32 .symbol <|
      .holding "constant" .int64 .constant <|
      .tuple "add" "tuple variant AffineExpr::Add" operands (fun (a, b, ()) => .add a b) <|
      .tuple "mul" "tuple variant AffineExpr::Mul" operands (fun (a, b, ()) => .mul a b) <|
      .tuple "mod" "tuple variant AffineExpr::Mod" operands (fun (a, b, ()) => .mod a b) <|
      .tuple "floor_div" "tuple variant AffineExpr::FloorDiv" operands
        (fun (a, b, ()) => .floorDiv a b) <|
      .tuple "ceil_div" "tuple variant AffineExpr::CeilDiv" operands
        (fun (a, b, ()) => .ceilDiv a b) .nil

/-- Reads an affine expression. -/
def AffineExpr.anySchema : Schema AffineExpr :=
  AffineExpr.schema Json.nestingLimit

/-- The document of an affine map. -/
def AffineMap.toJson (map : AffineMap) : Json :=
  .object [
    ("num_dims", ofUInt32 map.dims),
    ("num_symbols", ofUInt32 map.symbols),
    ("results", ofList AffineExpr.toJson map.results)]

/-- Reads an affine map. -/
def AffineMap.schema : Schema AffineMap :=
  .record "struct AffineMap"
    (.cons "num_dims" .uint32 (some 0) <|
      .cons "num_symbols" .uint32 (some 0) <|
      .cons "results" (.list AffineExpr.anySchema) none .nil)
    fun (dims, symbols, results, ()) => { dims, symbols, results }

/-- The document of a bound. -/
def AffineBound.toJson (bound : AffineBound) : Json :=
  .object [("map", bound.map.toJson), ("operands", ofList ValueId.toJson bound.operands)]

/-- Reads a bound. -/
def AffineBound.schema : Schema AffineBound :=
  .record "struct AffineBound"
    (.cons "map" AffineMap.schema none <|
      .cons "operands" (.list ValueId.schema) (some []) .nil)
    fun (map, operands, ()) => { map, operands }

/-- The document of an integer set. -/
def IntegerSet.toJson (set : IntegerSet) : Json :=
  .object [
    ("num_dims", ofUInt32 set.dims),
    ("num_symbols", ofUInt32 set.symbols),
    ("constraints", ofList AffineExpr.toJson set.constraints),
    ("eq_flags", ofList Json.bool set.equalities)]

/-- Reads an integer set. -/
def IntegerSet.schema : Schema IntegerSet :=
  .record "struct IntegerSet"
    (.cons "num_dims" .uint32 (some 0) <|
      .cons "num_symbols" .uint32 (some 0) <|
      .cons "constraints" (.list AffineExpr.anySchema) none <|
      .cons "eq_flags" (.list .flag) none .nil)
    fun (dims, symbols, constraints, equalities, ()) =>
      { dims, symbols, constraints, equalities }

/-! ## Operations -/

/-- The document of an operation kind. -/
def OpKind.toJson : OpKind → Json
  | .scfFor => .text "scf_for"
  | .scfIf => .text "scf_if"
  | .scfYield => .text "scf_yield"
  | .affineFor lower upper step =>
    tagged "affine_for" <| .object [
      ("lower", lower.toJson), ("upper", upper.toJson), ("step", ofInt64 step)]
  | .affineIf set => tagged "affine_if" (.object [("set", set.toJson)])
  | .affineParallel lower upper steps =>
    tagged "affine_parallel" <| .object [
      ("lower", lower.toJson), ("upper", upper.toJson), ("steps", ofList ofInt64 steps)]
  | .affineApply map => tagged "affine_apply" (.object [("map", map.toJson)])
  | .affineMax map => tagged "affine_max" (.object [("map", map.toJson)])
  | .affineMin map => tagged "affine_min" (.object [("map", map.toJson)])
  | .affineLoad map => tagged "affine_load" (.object [("map", map.toJson)])
  | .affineStore map => tagged "affine_store" (.object [("map", map.toJson)])
  | .affineYield => .text "affine_yield"
  | .alloc => .text "alloc"
  | .alloca => .text "alloca"
  | .dealloc => .text "dealloc"
  | .load => .text "load"
  | .store => .text "store"
  | .tensorLoad => .text "tensor_load"
  | .tensorStore => .text "tensor_store"
  | .tensorToMemref => .text "tensor_to_memref"
  | .dim => .text "dim"
  | .rank => .text "rank"
  | .binary op => tagged "binary" (.object [("op", op.toJson)])
  | .unary op => tagged "unary" (.object [("op", op.toJson)])
  | .cmpF predicate => tagged "cmp_f" (.object [("predicate", predicate.toJson)])
  | .cmpI predicate => tagged "cmp_i" (.object [("predicate", predicate.toJson)])
  | .select => .text "select"
  | .constant => .text "constant"
  | .cast kind => tagged "cast" (.object [("kind", kind.toJson)])
  | .call callee => tagged "call" (.object [("callee", .text callee)])
  | .ret => .text "return"
  | .assign => .text "assign"
  | .finish => .text "end"
  | .ip kind => tagged "ip" (.object [("kind", kind.toJson)])
  | .ipCall name => tagged "ip_call" (.object [("name", .text name)])
  | .other name => tagged "other" (.object [("name", .text name)])

/-- The one field of an operation kind that has a map. -/
def mapField : Fields (Option AffineMap × Unit) (AffineMap × Unit) :=
  .cons "map" AffineMap.schema none .nil

/-- Reads an operation kind. -/
def OpKind.schema : Schema OpKind :=
  .choice <|
    .bare "scf_for" .scfFor <| .bare "scf_if" .scfIf <| .bare "scf_yield" .scfYield <|
    .record "affine_for" "struct variant OpKind::AffineFor"
      (.cons "lower" AffineBound.schema none <| .cons "upper" AffineBound.schema none <|
        .cons "step" .int64 none .nil)
      (fun (lower, upper, step, ()) => .affineFor lower upper step) <|
    .record "affine_if" "struct variant OpKind::AffineIf"
      (.cons "set" IntegerSet.schema none .nil) (fun (set, ()) => .affineIf set) <|
    .record "affine_parallel" "struct variant OpKind::AffineParallel"
      (.cons "lower" AffineBound.schema none <| .cons "upper" AffineBound.schema none <|
        .cons "steps" (.list .int64) none .nil)
      (fun (lower, upper, steps, ()) => .affineParallel lower upper steps) <|
    .record "affine_apply" "struct variant OpKind::AffineApply" mapField
      (fun (map, ()) => .affineApply map) <|
    .record "affine_max" "struct variant OpKind::AffineMax" mapField
      (fun (map, ()) => .affineMax map) <|
    .record "affine_min" "struct variant OpKind::AffineMin" mapField
      (fun (map, ()) => .affineMin map) <|
    .record "affine_load" "struct variant OpKind::AffineLoad" mapField
      (fun (map, ()) => .affineLoad map) <|
    .record "affine_store" "struct variant OpKind::AffineStore" mapField
      (fun (map, ()) => .affineStore map) <|
    .bare "affine_yield" .affineYield <| .bare "alloc" .alloc <| .bare "alloca" .alloca <|
    .bare "dealloc" .dealloc <| .bare "load" .load <| .bare "store" .store <|
    .bare "tensor_load" .tensorLoad <| .bare "tensor_store" .tensorStore <|
    .bare "tensor_to_memref" .tensorToMemref <| .bare "dim" .dim <| .bare "rank" .rank <|
    .record "binary" "struct variant OpKind::Binary"
      (.cons "op" BinaryOp.schema none .nil) (fun (op, ()) => .binary op) <|
    .record "unary" "struct variant OpKind::Unary"
      (.cons "op" UnaryOp.schema none .nil) (fun (op, ()) => .unary op) <|
    .record "cmp_f" "struct variant OpKind::CmpF"
      (.cons "predicate" CmpFPredicate.schema none .nil)
      (fun (predicate, ()) => .cmpF predicate) <|
    .record "cmp_i" "struct variant OpKind::CmpI"
      (.cons "predicate" CmpIPredicate.schema none .nil)
      (fun (predicate, ()) => .cmpI predicate) <|
    .bare "select" .select <| .bare "constant" .constant <|
    .record "cast" "struct variant OpKind::Cast"
      (.cons "kind" CastKind.schema none .nil) (fun (kind, ()) => .cast kind) <|
    .record "call" "struct variant OpKind::Call"
      (.cons "callee" .text none .nil) (fun (callee, ()) => .call callee) <|
    .bare "return" .ret <| .bare "assign" .assign <| .bare "end" .finish <|
    .record "ip" "struct variant OpKind::Ip"
      (.cons "kind" IpKind.schema none .nil) (fun (kind, ()) => .ip kind) <|
    .record "ip_call" "struct variant OpKind::IpCall"
      (.cons "name" .text none .nil) (fun (name, ()) => .ipCall name) <|
    .record "other" "struct variant OpKind::Other"
      (.cons "name" .text none .nil) (fun (name, ()) => .other name) .nil

/-- The document of an operation's attributes. -/
def OpAttrs.toJson (attrs : OpAttrs) : Json :=
  .object [
    ("pipeline", .bool attrs.pipeline),
    ("target_ii", ofOption ofInt64 attrs.targetInterval),
    ("unroll", .bool attrs.unroll),
    ("flatten", ofOption Json.bool attrs.flatten),
    ("schedule_begin", ofOption ofInt64 attrs.scheduleBegin),
    ("schedule_end", ofOption ofInt64 attrs.scheduleEnd),
    ("iter_latency", ofOption ofInt64 attrs.iterationLatency),
    ("ii", ofOption ofInt64 attrs.interval),
    ("reduction_kind", ofList ReductionKind.toJson attrs.reductions)]

/-- Reads an operation's attributes. -/
def OpAttrs.schema : Schema OpAttrs :=
  .record "struct OpAttrs"
    (.cons "pipeline" .flag (some false) <|
      .cons "target_ii" (.optional .int64) (some none) <|
      .cons "unroll" .flag (some false) <|
      .cons "flatten" (.optional .flag) (some none) <|
      .cons "schedule_begin" (.optional .int64) (some none) <|
      .cons "schedule_end" (.optional .int64) (some none) <|
      .cons "iter_latency" (.optional .int64) (some none) <|
      .cons "ii" (.optional .int64) (some none) <|
      .cons "reduction_kind" (.list ReductionKind.schema) (some []) .nil)
    fun (pipeline, targetInterval, unroll, flatten, scheduleBegin, scheduleEnd, iterationLatency,
        interval, reductions, ()) =>
      { pipeline, targetInterval, unroll, flatten, scheduleBegin, scheduleEnd, iterationLatency,
        interval, reductions }

/-- The document of a function's attributes. -/
def FuncAttrs.toJson (attrs : FuncAttrs) : Json :=
  .object [
    ("top_function", .bool attrs.topFunction),
    ("dataflow", .bool attrs.dataflow),
    ("pipeline", .bool attrs.pipeline),
    ("target_ii", ofOption ofInt64 attrs.targetInterval),
    ("latency", ofOption ofInt64 attrs.latency),
    ("ii", ofOption ofInt64 attrs.interval),
    ("dsp", ofOption ofInt64 attrs.dsp)]

/-- Reads a function's attributes. -/
def FuncAttrs.schema : Schema FuncAttrs :=
  .record "struct FuncAttrs"
    (.cons "top_function" .flag (some false) <|
      .cons "dataflow" .flag (some false) <|
      .cons "pipeline" .flag (some false) <|
      .cons "target_ii" (.optional .int64) (some none) <|
      .cons "latency" (.optional .int64) (some none) <|
      .cons "ii" (.optional .int64) (some none) <|
      .cons "dsp" (.optional .int64) (some none) .nil)
    fun (topFunction, dataflow, pipeline, targetInterval, latency, interval, dsp, ()) =>
      { topFunction, dataflow, pipeline, targetInterval, latency, interval, dsp }

mutual

/-- The document of an operation. -/
def Op.toJson : Op → Json
  | ⟨kind, operands, results, attrs, regions, line⟩ =>
    .object [
      ("kind", kind.toJson),
      ("operands", ofList ValueId.toJson operands),
      ("results", ofList ValueId.toJson results),
      ("attrs", attrs.toJson),
      ("regions", .list (blocksToJson regions)),
      ("line", ofOption ofUInt32 line)]
termination_by structural op => op

/-- The documents of some blocks. -/
def blocksToJson : List (BlockOf Op) → List Json
  | [] => []
  | block :: rest => blockToJson block :: blocksToJson rest
termination_by structural blocks => blocks

/-- The document of a block. -/
def blockToJson : BlockOf Op → Json
  | ⟨args, ops⟩ =>
    .object [("args", ofList ValueId.toJson args), ("ops", .list (opsToJson ops))]
termination_by structural block => block

/-- The documents of some operations. -/
def opsToJson : List Op → List Json
  | [] => []
  | op :: rest => op.toJson :: opsToJson rest
termination_by structural ops => ops

end

/-- Reads a block of operations. -/
def blockSchema (op : Schema Op) : Schema Block :=
  .record "struct Block"
    (.cons "args" (.list ValueId.schema) (some []) <| .cons "ops" (.list op) (some []) .nil)
    fun (args, ops, ()) => { args, ops }

/-- Reads an operation whose regions are nested at most `depth` deep. -/
def Op.schema : (depth : Nat) → Schema Op
  | 0 => .beyondLimit
  | depth + 1 =>
    .record "struct Op"
      (.cons "kind" OpKind.schema none <|
        .cons "operands" (.list ValueId.schema) (some []) <|
        .cons "results" (.list ValueId.schema) (some []) <|
        .cons "attrs" OpAttrs.schema (some {}) <|
        .cons "regions" (.list (blockSchema (Op.schema depth))) (some []) <|
        .cons "line" (.optional .uint32) (some none) .nil)
      fun (kind, operands, results, attrs, regions, line, ()) =>
        { kind, operands, results, attrs, regions, line }

/-- Reads an operation. -/
def Op.anySchema : Schema Op :=
  Op.schema Json.nestingLimit

/-! ## Functions and modules -/

/-- The document of a function. -/
def Function.toJson (function : Function) : Json :=
  .object [
    ("name", .text function.name),
    ("args", ofList ValueId.toJson function.args),
    ("attrs", function.attrs.toJson),
    ("blocks", .list (blocksToJson function.blocks)),
    ("line", ofOption ofUInt32 function.line)]

/-- Reads a function. -/
def Function.schema : Schema Function :=
  .record "struct Function"
    (.cons "name" .text none <|
      .cons "args" (.list ValueId.schema) (some []) <|
      .cons "attrs" FuncAttrs.schema (some {}) <|
      .cons "blocks" (.list (blockSchema Op.anySchema)) none <|
      .cons "line" (.optional .uint32) (some none) .nil)
    fun (name, args, attrs, blocks, line, ()) => { name, args, attrs, blocks, line }

namespace Module

/-- The document of a module. -/
def toJson (module : Module) : Json :=
  .object [
    ("values", ofList ValueInfo.toJson module.values.toList),
    ("functions", ofList Function.toJson module.functions)]

/-- Reads a module. -/
def schema : Schema Module :=
  .record "struct Module"
    (.cons "values" (.list ValueInfo.schema) none <|
      .cons "functions" (.list Function.schema) none .nil)
    fun (values, functions, ()) => { values := values.toArray, functions }

/-- The module that a text describes. -/
def parse (source : String) : Except Json.Fault Module :=
  schema.parse source

/-- The canonical text: compact, every field written, in declaration order. -/
def canonical (module : Module) : String :=
  module.toJson.compact

/-- The indented text. -/
def pretty (module : Module) : String :=
  module.toJson.pretty

end Module

end HlsEmit
