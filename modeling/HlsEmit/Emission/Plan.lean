import HlsEmit.Code.Affine
import HlsEmit.Model.Operation

/-!
# Plans

What is written for an operation, before it is written. A `Plan` holds exactly the parts of an
operation that its code is made of, so that nothing can be missing once there is a plan.

`HlsEmit.Emission.Admission` finds the plan of an operation or the problem that is in the way, and
`HlsEmit.Emission.Statement` carries it out.
-/

namespace HlsEmit

/-- An affine expression over values. -/
structure AffineValue where
  expr : AffineExpr
  /-- The number of dimensions, behind which the symbols start. -/
  dims : Nat
  operands : List ValueId
deriving DecidableEq, Repr

/-- The results of a bound, each over the operands of the bound. -/
def AffineBound.values (bound : AffineBound) : List AffineValue :=
  bound.map.results.map fun result => ⟨result, bound.map.dims.toNat, bound.operands⟩

/-- One part of a statement. -/
inductive Term where
  /-- A mention of a value. -/
  | value (id : ValueId)
  /-- Code that was there before the statement. -/
  | code (code : Code.Expr)
  /-- Nested calls of a function of two arguments over affine expressions. Their operands are used
  as they stand, without declaring any. -/
  | affine (function : String) (values : List AffineValue)
deriving Repr

/-- A scalar, or an element of an array. -/
structure Place where
  base : Term
  subscripts : List Term := []
deriving Repr

namespace Place

/-- The scalar that a value is. -/
def scalar (id : ValueId) : Place :=
  ⟨.value id, []⟩

/-- A number. -/
def number (n : Int) : Place :=
  ⟨.code (.integer n), []⟩

/-- An element of an array at indices that are values. -/
def element (array : ValueId) (indices : List ValueId) : Place :=
  ⟨.value array, indices.map .value⟩

/-- An element of an array at indices that are code. -/
def elementAt (array : ValueId) (indices : List Code.Expr) : Place :=
  ⟨.value array, indices.map .code⟩

end Place

/-- How an element of the result is computed from the elements of the operands at the same
indices. -/
inductive Formula where
  | copy (source : ValueId)
  | binary (operator : Code.Operator) (lhs rhs : ValueId)
  /-- A function; `head` is what stands in front of the parenthesized operand. -/
  | function (head : String) (operand : ValueId)
  /-- A scalar condition decides for all elements. -/
  | select (condition onTrue onFalse : ValueId)
deriving DecidableEq, Repr

/-- One loop of a nest. -/
structure NestLoop where
  index : ValueId
  lower : AffineValue
  upper : AffineValue
  step : Int64
deriving DecidableEq, Repr

/-- What is written for an operation. -/
inductive Plan where
  | nothing
  /-- One statement inside of loops over all elements of the target. -/
  | compute (target : ValueId) (formula : Formula)
  /-- One statement that sets a scalar or one element. -/
  | assign (target source : Place)
  /-- A declaration without a content. -/
  | allocate (array : ValueId)
  /-- A declaration with a content. -/
  | define (array : ValueId) (elements : List String)
  /-- The result takes the name of the source. -/
  | share (source result : ValueId)
  /-- A call whose results are passed by reference behind the operands. -/
  | call (callee : String)
  /-- A call of an accelerator block by its name alone. -/
  | blockCall (name : String)
  /-- The lines of a call of an accelerator block, with the operands that stand in them. -/
  | accelerator (operands : List Use) (lines : List String)
  | loop (index : ValueId) (lower upper step : Term)
  | branch (condition : Term)
  | nest (loops : List NestLoop)
  /-- The operands are assigned to the results of the conditional around. -/
  | deliver (results : List ValueId)
  /-- The operands are combined into the results of the nest around. -/
  | reduce (owner : Op)
deriving Repr

end HlsEmit
