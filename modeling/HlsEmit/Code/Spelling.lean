import HlsEmit.Code.Tree

/-!
# Operators and functions of the generated code

Which operator or function of C++ computes an operation of the model.
-/

namespace HlsEmit

open Code (Operator)

/-- The operator of a binary operation. -/
def BinaryOp.operator : BinaryOp → Operator
  | .add => .add
  | .sub => .sub
  | .mul => .mul
  | .div => .div
  | .rem => .rem
  | .xor => .xor
  | .and => .bitAnd
  | .or => .bitOr
  | .shl => .shl
  | .shr => .shr

/-- The operator of a comparison of integers. The operands' types decide about their sign. -/
def CmpIPredicate.operator : CmpIPredicate → Operator
  | .eq => .eq
  | .ne => .ne
  | .slt | .ult => .lt
  | .sle | .ule => .le
  | .sgt | .ugt => .gt
  | .sge | .uge => .ge

/-- The operator of a comparison of floating-point numbers, if there is one. -/
def CmpFPredicate.operator? : CmpFPredicate → Option Operator
  | .oeq | .ueq => some .eq
  | .one | .une => some .ne
  | .olt | .ult => some .lt
  | .ole | .ule => some .le
  | .ogt | .ugt => some .gt
  | .oge | .uge => some .ge
  | .alwaysFalse | .alwaysTrue | .ord | .uno => none

/-- What is written in front of the parenthesized operand. -/
def UnaryOp.head : UnaryOp → String
  | .abs => "abs"
  | .ceil => "ceil"
  | .neg => "-"
  | .cos => "cos"
  | .sin => "sin"
  | .tanh => "tanh"
  | .sqrt => "sqrt"
  | .rsqrt => "1.0 / sqrt"
  | .exp => "exp"
  | .exp2 => "exp2"
  | .log => "log"
  | .log2 => "log2"
  | .log10 => "log10"

end HlsEmit
