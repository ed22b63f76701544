/-!
# Affine expressions, maps and sets

Loop bounds, subscripts and conditions are expressions over two groups of inputs: dimensions
(loop indices) and symbols (values that do not change in the loop). Inputs are named by position;
an operand list binds them, dimensions first.
-/

namespace HlsEmit

/-- The number of a value in the value table of a module. -/
structure ValueId where
  /-- Position in the table. -/
  number : UInt32
deriving DecidableEq, Repr, Inhabited

/-- The position in the value table. -/
def ValueId.index (id : ValueId) : Nat :=
  id.number.toNat

/-- An expression over dimensions and symbols. -/
inductive AffineExpr where
  | dim (position : UInt32)
  | symbol (position : UInt32)
  | constant (value : Int64)
  | add (lhs rhs : AffineExpr)
  | mul (lhs rhs : AffineExpr)
  /-- Remainder of a division that rounds down. -/
  | mod (lhs rhs : AffineExpr)
  /-- Division that rounds down. -/
  | floorDiv (lhs rhs : AffineExpr)
  /-- Division that rounds up. -/
  | ceilDiv (lhs rhs : AffineExpr)
deriving DecidableEq, Repr, Inhabited

/-- The value of an expression that is a constant as it stands. -/
def AffineExpr.constant? : AffineExpr → Option Int64
  | .constant value => some value
  | _ => none

/-- Several expressions over the same dimensions and symbols. -/
structure AffineMap where
  dims : UInt32 := 0
  symbols : UInt32 := 0
  results : List AffineExpr
deriving DecidableEq, Repr, Inhabited

namespace AffineMap

/-- The map without inputs whose only result is a constant. -/
def constant (value : Int64) : AffineMap :=
  { results := [.constant value] }

/-- The map that gives back each of its dimensions. -/
def identity (rank : UInt32) : AffineMap :=
  { dims := rank
    results := (List.range rank.toNat).map fun position => .dim (UInt32.ofNat position) }

/-- How many operands bind all dimensions and symbols. -/
def inputs (map : AffineMap) : Nat :=
  map.dims.toNat + map.symbols.toNat

/-- Whether this many operands bind every dimension and symbol, with none left over. -/
def accepts (map : AffineMap) (operands : Nat) : Bool :=
  map.inputs = operands

end AffineMap

/-- A map with the values that are bound to its inputs. Several results stand for the greatest of
them in a lower bound and for the least in an upper bound. -/
structure AffineBound where
  map : AffineMap
  operands : List ValueId := []
deriving DecidableEq, Repr, Inhabited

/-- A bound that is the same number always. -/
def AffineBound.constant (value : Int64) : AffineBound :=
  { map := .constant value }

/-- A conjunction of constraints on expressions. -/
structure IntegerSet where
  dims : UInt32 := 0
  symbols : UInt32 := 0
  constraints : List AffineExpr
  /-- By position: the constraint says that the expression is zero. The others, and those beyond
  the end of this list, say that it is not negative. -/
  equalities : List Bool
deriving DecidableEq, Repr, Inhabited

/-- How many operands bind all dimensions and symbols. -/
def IntegerSet.inputs (set : IntegerSet) : Nat :=
  set.dims.toNat + set.symbols.toNat

end HlsEmit
