import HlsEmit.Decimal.Shortest

/-!
# Laying out decimal digits

Which digits a number has is settled by `Binary64.shortest`; how they are written is settled by a
`DecimalLayout`, one record of the decisions an output format takes.
-/

namespace HlsEmit

/-- The decisions of one output format for finite numbers. Both notations are written with the
fewest digits, positional notation always has a digit on either side of the point, and zero is
`0.0` with its sign. -/
structure DecimalLayout where
  /-- Which of two equally near digit strings is taken. -/
  tie : TieRule
  /-- The least power of ten of the first digit that is written positionally. -/
  leastPositional : Int
  /-- The greatest power of ten of the first digit that is written positionally. -/
  greatestPositional : Int
  /-- Whether an exponent that is not negative carries a plus sign. -/
  plusSign : Bool
deriving Repr

namespace DecimalLayout

/-- A point with digits on both sides; `lead` is the power of ten of the first digit. -/
def positional (digits : List Char) (lead : Int) : List Char :=
  if lead < 0 then '0' :: '.' :: List.replicate (-lead - 1).toNat '0' ++ digits
  else
    let whole := lead.toNat + 1
    let padded := digits ++ List.replicate (whole - digits.length) '0'
    let fraction := digits.drop whole
    padded.take whole ++ '.' :: (if fraction.isEmpty then ['0'] else fraction)

/-- One digit, the others behind a point if there are any, and the power of ten. -/
def scientific (layout : DecimalLayout) (digits : List Char) (lead : Int) : List Char :=
  let fraction := digits.drop 1
  let sign := if lead < 0 then ['-'] else if layout.plusSign then ['+'] else []
  digits.take 1 ++ (if fraction.isEmpty then [] else '.' :: fraction)
    ++ 'e' :: sign ++ Nat.toDigits 10 lead.natAbs

/-- The text of a finite number. -/
def render (layout : DecimalLayout) (x : Binary64) : String :=
  let d := x.shortest layout.tie
  let digits := Nat.toDigits 10 d.digits
  let lead := if d.digits = 0 then 0 else d.exponent + digits.length - 1
  let magnitude :=
    if layout.leastPositional ≤ lead ∧ lead ≤ layout.greatestPositional
    then positional digits lead
    else scientific layout digits lead
  String.ofList (if x.isNegative then '-' :: magnitude else magnitude)

end DecimalLayout

end HlsEmit
