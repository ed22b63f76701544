import HlsEmit.Decimal.Layout
import HlsEmit.Model.Affine

/-!
# Values: element types, shapes, placement and constants

A module lists the values that it computes with. Each has an element type, a shape, a placement in
memory with an optional partition into banks, and possibly a constant content.

`PartitionLayout.ofMap` derives the partition of an array from a layout map, whose results give the
bank of an element in each dimension.
-/

namespace HlsEmit

/-! ## Element types -/

/-- The type of one element of a value. -/
inductive ElemType where
  | f16
  | bf16
  | f32
  | f64
  | bool
  /-- The native integer that counts loops and indexes arrays. -/
  | index
  | int (width : UInt32) (unsigned : Bool)
deriving DecidableEq, Repr, Inhabited

namespace ElemType

/-- The C++ type, for those element types that have one. Integers of one bit are truth values. -/
def cppName? : ElemType → Option String
  | .f16 | .bf16 => none
  | .f32 => some "float"
  | .f64 => some "double"
  | .bool => some "bool"
  | .index => some "int"
  | .int width unsigned =>
    if width = 1 then some "bool"
    else if unsigned then some ("ap_uint<" ++ toString width.toNat ++ ">")
    else some ("ap_int<" ++ toString width.toNat ++ ">")

/-- The name that messages use. -/
def label : ElemType → String
  | .f16 => "F16"
  | .bf16 => "Bf16"
  | .f32 => "F32"
  | .f64 => "F64"
  | .bool => "Bool"
  | .index => "Index"
  | .int _ _ => "Int"

end ElemType

/-! ## Shapes -/

/-- The shape of a value. -/
inductive Shape where
  | scalar
  /-- One extent for each dimension; `none` where it is not known before run time. -/
  | ranked (extents : List (Option Int64))
  | unranked
deriving DecidableEq, Repr, Inhabited

namespace Shape

/-- The shape with these known extents. -/
def fixed (extents : List Int64) : Shape :=
  .ranked (extents.map some)

/-- Everything but a scalar, also an array of no dimension. -/
def isShaped : Shape → Bool
  | .scalar => false
  | _ => true

/-- The number of dimensions, if it is known. -/
def rank? : Shape → Option Nat
  | .scalar => some 0
  | .ranked extents => some extents.length
  | .unranked => none

/-- All extents, if every one of them is known. -/
def extents? : Shape → Option (List Int64)
  | .scalar => some []
  | .ranked extents => extents.mapM id
  | .unranked => none

end Shape

/-! ## Memory -/

/-- Where an array is placed. -/
inductive MemoryKind where
  | bram1p
  | bramS2p
  | bramT2p
  | uram1p
  | uramS2p
  | uramT2p
  | dram
  | none
deriving DecidableEq, Repr, Inhabited

namespace MemoryKind

/-- Block and ultra memory are on the chip. -/
def isOnChip : MemoryKind → Bool
  | .dram | .none => false
  | _ => true

/-- The name that messages use. -/
def label : MemoryKind → String
  | .bram1p => "Bram1p"
  | .bramS2p => "BramS2p"
  | .bramT2p => "BramT2p"
  | .uram1p => "Uram1p"
  | .uramS2p => "UramS2p"
  | .uramT2p => "UramT2p"
  | .dram => "Dram"
  | .none => "None"

end MemoryKind

/-- How one dimension of an array is spread over banks. -/
inductive PartitionKind where
  | cyclic
  | block
  | none
deriving DecidableEq, Repr, Inhabited

/-- The partition of one dimension. -/
structure DimPartition where
  kind : PartitionKind
  /-- The number of banks. -/
  factor : Int64
deriving DecidableEq, Repr, Inhabited

namespace DimPartition

/-- Neighbouring elements go to different banks in turn. -/
def cyclic (factor : Int64) : DimPartition := ⟨.cyclic, factor⟩

/-- Neighbouring elements share a bank up to its end. -/
def block (factor : Int64) : DimPartition := ⟨.block, factor⟩

/-- One bank. -/
def whole : DimPartition := ⟨.none, 1⟩

end DimPartition

/-- The partition of an array, dimension by dimension. -/
structure PartitionLayout where
  dims : List DimPartition
deriving DecidableEq, Repr, Inhabited

namespace PartitionLayout

/-- The partition of a dimension whose bank is given by this expression. A division by a positive
constant makes blocks of that size, the last of them possibly shorter, and a remainder by a
positive constant deals the elements out in turn. -/
def ofResult (extent : Int64) : Option AffineExpr → DimPartition
  | some (.floorDiv _ rhs) =>
    match rhs.constant? with
    | some size =>
      if 0 < size then .block (extent / size + if extent % size = 0 then 0 else 1) else .whole
    | none => .whole
  | some (.mod _ rhs) =>
    match rhs.constant? with
    | some banks => if 0 < banks then .cyclic banks else .whole
    | none => .whole
  | _ => .whole

/-- The partition of an array with these extents by a layout map, whose results give the bank in
each dimension. Dimensions without a result are not partitioned. -/
def ofMap (map : AffineMap) (extents : List Int64) : PartitionLayout :=
  ⟨extents.mapIdx fun dim extent => ofResult extent map.results[dim]?⟩

end PartitionLayout

/-! ## Constants -/

/-- The content of a constant. -/
inductive Literal where
  | float (value : Binary64)
  | int (value : Int64)
  | bool (value : Bool)
  | dense (elements : List Literal)
  /-- Kept in the model, never rendered. -/
  | str (value : String)
deriving Repr, Inhabited

/-- Fractions in C++: positional from `0.0001` up to sixteen digits before the point, no sign on a
positive exponent, and a tie between two digit strings goes up. -/
def cppRealLayout : DecimalLayout := ⟨.up, -4, 15, false⟩

/-- The C++ text of a floating-point constant. What is not finite is an infinity of its sign. -/
def cppRealText (x : Binary64) : String :=
  if x.isFinite then cppRealLayout.render x
  else if x.isNegative then "-INFINITY" else "INFINITY"

/-- The C++ text of a constant of one element. -/
def Literal.scalarText? : Literal → Option String
  | .float value => some (cppRealText value)
  | .int value => some (toString value.toInt)
  | .bool value => some (if value then "1" else "0")
  | .dense _ | .str _ => none

/-! ## The value table -/

/-- One entry of the value table. -/
structure ValueInfo where
  elem : ElemType
  shape : Shape := .scalar
  memory : MemoryKind := .none
  layout : Option PartitionLayout := none
  constant : Option Literal := none
deriving Repr, Inhabited

namespace ValueInfo

/-- Whether the value is an array. -/
def isShaped (info : ValueInfo) : Bool :=
  info.shape.isShaped

/-- The text that stands for a constant scalar wherever it is used. -/
def constantText? (info : ValueInfo) : Option String :=
  if info.isShaped then none else info.constant.bind Literal.scalarText?

end ValueInfo

/-- The value table of a module; the number of a value is its position. -/
abbrev Arena := Array ValueInfo

namespace Arena

/-- The entry of a value, if the table is long enough. -/
def info? (arena : Arena) (id : ValueId) : Option ValueInfo :=
  arena[id.index]?

/-- The entry of a value. Emission looks up only values that are in the table; an absent one counts
as a scalar. -/
def info (arena : Arena) (id : ValueId) : ValueInfo :=
  (arena.info? id).getD { elem := .f32 }

end Arena

end HlsEmit
