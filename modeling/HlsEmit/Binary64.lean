/-!
# Double-precision numbers by their bits

A `Binary64` is the 64-bit pattern of a double: sign, eleven exponent bits, 52 fraction bits. The
model stores its floating-point literals in this form, so equality of literals is equality of
patterns (`0.0` and `-0.0` differ, a NaN equals itself) and every decision about a literal is
exact integer arithmetic.

`significand` and `scale` are the exact value of a finite number, `significand * 2 ^ scale`;
`ofDecimal` goes the other way and rounds a decimal fraction to the nearest double.
-/

namespace HlsEmit

/-- A double-precision number, given by its bit pattern. -/
structure Binary64 where
  /-- Sign bit, exponent field and fraction field, from the top. -/
  bits : UInt64
deriving DecidableEq, Repr, Inhabited

namespace Binary64

/-- The sign bit. -/
def isNegative (x : Binary64) : Bool :=
  1 <<< 63 ≤ x.bits.toNat

/-- The eleven exponent bits. -/
def exponentField (x : Binary64) : Nat :=
  (x.bits.toNat >>> 52) % 1 <<< 11

/-- The 52 fraction bits. -/
def fractionField (x : Binary64) : Nat :=
  x.bits.toNat % 1 <<< 52

/-- Infinities and NaNs have all exponent bits set; everything else is finite. -/
def isFinite (x : Binary64) : Bool :=
  x.exponentField != 2047

/-- The integer factor of a finite number's magnitude. Normal numbers have a hidden leading bit. -/
def significand (x : Binary64) : Nat :=
  if x.exponentField = 0 then x.fractionField else 1 <<< 52 + x.fractionField

/-- The power of two of a finite number's magnitude. -/
def scale (x : Binary64) : Int :=
  if x.exponentField = 0 then -1074 else (x.exponentField : Int) - 1075

/-- The pattern with the given sign whose other 63 bits are `magnitude`. -/
def ofMagnitude (negative : Bool) (magnitude : Nat) : Binary64 :=
  ⟨UInt64.ofNat (if negative then 1 <<< 63 + magnitude else magnitude)⟩

/-- Zero of the given sign. -/
def zero (negative : Bool) : Binary64 :=
  ofMagnitude negative 0

/-- Infinity of the given sign. -/
def infinity (negative : Bool) : Binary64 :=
  ofMagnitude negative (2047 <<< 52)

/-- The quiet NaN of the given sign. -/
def nan (negative : Bool) : Binary64 :=
  ofMagnitude negative (2047 <<< 52 + 1 <<< 51)

/-! ## Rounding a fraction -/

/-- `num / den` rounded to the nearest integer, a half going to the even neighbour. -/
def roundHalfEven (num den : Nat) : Nat :=
  let low := num / den
  let twice := 2 * (num % den)
  if twice < den then low
  else if den < twice then low + 1
  else low + low % 2

/-- `num / den / 2 ^ scale` as a quotient of naturals. -/
def scaled (num den : Nat) (scale : Int) : Nat × Nat :=
  if 0 ≤ scale then (num, den <<< scale.toNat) else (num <<< (-scale).toNat, den)

/-- The power of two by which a positive `num / den` is measured: the quotient then has 53 binary
digits, except below the normal range, where the power stays at its least value. -/
def scaleOf (num den : Nat) : Int :=
  let guess : Int := max ((num.log2 : Int) - den.log2 - 53) (-1074)
  let (n, d) := scaled num den guess
  if n / d < 1 <<< 53 then guess else guess + 1

/-- The positive fraction `num / den` rounded to the nearest double, ties to even; `none` when it
is too large for a finite one. Since a significand of `2 ^ 53` carries into the exponent field, one
sum covers subnormal numbers, normal numbers and the carry between two powers of two. -/
def ofFraction (negative : Bool) (num den : Nat) : Option Binary64 :=
  let s := scaleOf num den
  let (n, d) := scaled num den s
  let magnitude := (s + 1074).toNat <<< 52 + roundHalfEven n d
  if magnitude < 2047 <<< 52 then some (ofMagnitude negative magnitude) else none

/-- The number of decimal digits of `n`; one for zero. -/
def digitCount (n : Nat) : Nat :=
  (Nat.toDigits 10 n).length

/-- `digits * 10 ^ exponent` rounded to the nearest double, ties to even; `none` when it is too
large for a finite one. Values outside `10 ^ -400 .. 10 ^ 400` are settled by their size alone, so
the power of ten stays small however long the exponent is. -/
def ofDecimal (negative : Bool) (digits : Nat) (exponent : Int) : Option Binary64 :=
  if digits = 0 then some (zero negative)
  else
    let top := exponent + digitCount digits
    if 400 < top then none
    else if top < -400 then some (zero negative)
    else if 0 ≤ exponent then ofFraction negative (digits * Nat.pow 10 exponent.toNat) 1
    else ofFraction negative digits (Nat.pow 10 (-exponent).toNat)

end Binary64

end HlsEmit
