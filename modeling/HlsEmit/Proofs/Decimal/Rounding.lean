import HlsEmit.Decimal.Shortest
import Mathlib

/-!
# Rounding gives the double that owns a fraction

Every finite double owns an interval of rationals (`Owns`). Rounding a fraction to the nearest
double, ties to even, gives the double that owns it.

The power of two by which a fraction is measured is the only one that brings the quotient to 53
binary digits (`scaleOf_spec`, `scale_unique`). It is the scale of the owner, except just below a
power of two, where the doubles are twice as dense: the fraction is measured by the finer scale
there, and the quotient rounds up to `2 ^ 53`, which carries into the exponent field.

## Key results

- `scaleOf_spec`: the quotient has 53 binary digits, or the scale is the least one
- `roundHalfEven_eq`: the integer within a half, the even one at a half
- `ofFraction_of_owns`, `ofDecimal_of_owns`: what a double owns rounds to it
-/

namespace HlsEmit.Binary64

/-! ## Fields and magnitude -/

/-- The fraction field has 52 bits. -/
theorem fractionField_lt (x : Binary64) : x.fractionField < 2 ^ 52 :=
  Nat.mod_lt _ (by decide)

/-- The exponent field has 11 bits. -/
theorem exponentField_lt (x : Binary64) : x.exponentField < 2 ^ 11 :=
  Nat.mod_lt _ (by decide)

/-- The pattern is made of its three fields. -/
theorem toNat_bits (x : Binary64) :
    x.bits.toNat =
      (if x.isNegative then 2 ^ 63 else 0) + x.exponentField * 2 ^ 52 + x.fractionField := by
  have hbits : x.bits.toNat < 2 ^ 64 := x.bits.toNat_lt
  simp only [isNegative, exponentField, fractionField, Nat.shiftRight_eq_div_pow, Nat.one_shiftLeft,
    decide_eq_true_eq]
  split <;> omega

/-- The pattern without its sign is the significand, carried into the field of the scale. -/
theorem magnitude_bits (x : Binary64) :
    (x.scale + 1074).toNat * 2 ^ 52 + x.significand
      = x.exponentField * 2 ^ 52 + x.fractionField := by
  unfold scale significand
  split
  · rename_i hzero
    simp [hzero]
  · rw [Nat.one_shiftLeft]
    omega

/-- A number is determined by its sign, scale and significand. -/
theorem ofMagnitude_self (x : Binary64) :
    ofMagnitude x.isNegative ((x.scale + 1074).toNat * 2 ^ 52 + x.significand) = x := by
  have hbits := toNat_bits x
  rw [magnitude_bits]
  have hpattern : (if x.isNegative then 1 <<< 63 + (x.exponentField * 2 ^ 52 + x.fractionField)
      else x.exponentField * 2 ^ 52 + x.fractionField) = x.bits.toNat := by
    rw [hbits, Nat.one_shiftLeft]
    split <;> omega
  rw [ofMagnitude, hpattern, UInt64.ofNat_toNat]

/-- The significand has 53 bits, the leading one included. -/
theorem significand_lt (x : Binary64) : x.significand < 2 ^ 53 := by
  have := fractionField_lt x
  unfold significand
  rw [Nat.one_shiftLeft]
  split <;> omega

/-- No double is finer than the least one. -/
theorem neg_1074_le_scale (x : Binary64) : -1074 ≤ x.scale := by
  unfold scale
  split <;> omega

/-- Above the least scale every significand has all 53 digits. -/
theorem le_significand {x : Binary64} (h : -1074 < x.scale) : 2 ^ 52 ≤ x.significand := by
  unfold scale at h
  unfold significand
  split at h
  · omega
  · rename_i hnormal
    rw [if_neg hnormal, Nat.one_shiftLeft]
    omega

/-- The scale of a finite double is that of the greatest at most. -/
theorem scale_le {x : Binary64} (h : x.isFinite = true) : x.scale ≤ 971 := by
  have hfield := exponentField_lt x
  simp only [isFinite, bne_iff_ne, ne_eq] at h
  unfold scale
  split <;> omega

/-- The powers of two above the least scale, below which the doubles are twice as dense. -/
theorem step_eq_one_iff {x : Binary64} :
    (x.fractionField = 0 && decide (1 < x.exponentField)) = true
      ↔ x.significand = 2 ^ 52 ∧ -1074 < x.scale := by
  have hfraction := fractionField_lt x
  unfold significand scale
  simp only [Bool.and_eq_true, decide_eq_true_eq, Nat.one_shiftLeft]
  split <;> omega

/-! ## The scale of a fraction -/

/-- A power of two is positive. -/
theorem two_zpow_pos (s : ℤ) : (0 : ℚ) < 2 ^ s :=
  zpow_pos (by norm_num) s

/-- A scaled fraction has a positive denominator. -/
theorem scaled_snd_pos (num : Nat) {den : Nat} (hden : 0 < den) (s : Int) :
    0 < (scaled num den s).2 := by
  unfold scaled
  split
  · simpa [Nat.shiftLeft_eq] using hden
  · exact hden

/-- Scaling divides by the power of two. -/
theorem scaled_eq (num : Nat) {den : Nat} (hden : 0 < den) (s : Int) :
    ((scaled num den s).1 : ℚ) = (num / den / 2 ^ s : ℚ) * (scaled num den s).2 := by
  have hden' : (den : ℚ) ≠ 0 := by positivity
  unfold scaled
  split
  · rename_i hs
    obtain ⟨k, rfl⟩ := Int.eq_ofNat_of_zero_le hs
    simp only [Int.toNat_natCast, Nat.shiftLeft_eq, Nat.cast_mul, Nat.cast_pow,
      Nat.cast_ofNat, zpow_natCast]
    field_simp
  · rename_i hs
    obtain ⟨k, rfl⟩ : ∃ k : Nat, s = -k := ⟨(-s).toNat, by omega⟩
    simp only [neg_neg, Int.toNat_natCast, Nat.shiftLeft_eq, Nat.cast_mul, Nat.cast_pow,
      Nat.cast_ofNat, zpow_neg, zpow_natCast]
    field_simp

/-- Comparing the whole part of the scaled quotient with a natural number. -/
theorem scaled_div_lt {num den k : Nat} (hden : 0 < den) (s : Int) :
    (scaled num den s).1 / (scaled num den s).2 < k ↔ (num / den : ℚ) < k * 2 ^ s := by
  have hpos := scaled_snd_pos num hden s
  have hpos' : (0 : ℚ) < (scaled num den s).2 := by exact_mod_cast hpos
  rw [Nat.div_lt_iff_lt_mul hpos, ← @Nat.cast_lt ℚ, Nat.cast_mul, scaled_eq num hden s,
    mul_lt_mul_iff_left₀ hpos', div_lt_iff₀ (two_zpow_pos s)]

/-- The quotient by the scale of a fraction has 53 binary digits, or fewer at the least scale. -/
theorem scaleOf_spec {num den : Nat} (hnum : 0 < num) (hden : 0 < den) :
    -1074 ≤ scaleOf num den ∧ (num / den : ℚ) < 2 ^ 53 * 2 ^ scaleOf num den ∧
      (scaleOf num den = -1074 ∨ 2 ^ 52 * 2 ^ scaleOf num den ≤ (num / den : ℚ)) := by
  have hden' : (0 : ℚ) < den := by exact_mod_cast hden
  have two_ne : (2 : ℚ) ≠ 0 := by norm_num
  -- the binary logarithms give the quotient up to a factor of two on either side
  have hlow : (2 : ℚ) ^ ((num.log2 : Int) - den.log2 - 1) ≤ num / den := by
    have h1 : (2 : ℚ) ^ num.log2 ≤ num := by exact_mod_cast Nat.log2_self_le hnum.ne'
    have h2 : (den : ℚ) ≤ 2 ^ (den.log2 + 1) := by exact_mod_cast Nat.lt_log2_self.le
    rw [le_div_iff₀ hden']
    calc (2 : ℚ) ^ ((num.log2 : Int) - den.log2 - 1) * den
        ≤ 2 ^ ((num.log2 : Int) - den.log2 - 1) * 2 ^ (den.log2 + 1) := by gcongr
      _ = 2 ^ num.log2 := by
        rw [← zpow_natCast, ← zpow_natCast, ← zpow_add₀ two_ne]
        push_cast
        congr 1
        omega
      _ ≤ num := h1
  have hhigh : (num / den : ℚ) < 2 ^ ((num.log2 : Int) - den.log2 + 1) := by
    have h1 : (num : ℚ) < 2 ^ (num.log2 + 1) := by exact_mod_cast Nat.lt_log2_self
    have h2 : (2 : ℚ) ^ den.log2 ≤ den := by exact_mod_cast Nat.log2_self_le hden.ne'
    rw [div_lt_iff₀ hden']
    calc (num : ℚ) < 2 ^ (num.log2 + 1) := h1
      _ = 2 ^ ((num.log2 : Int) - den.log2 + 1) * 2 ^ den.log2 := by
        rw [← zpow_natCast, ← zpow_natCast, ← zpow_add₀ two_ne]
        push_cast
        congr 1
        omega
      _ ≤ 2 ^ ((num.log2 : Int) - den.log2 + 1) * den := by gcongr
  have hpow (a b : ℤ) (k : ℕ) (h : a = k + b) : (2 : ℚ) ^ a = 2 ^ k * 2 ^ b := by
    rw [h, zpow_add₀ two_ne, zpow_natCast]
  unfold scaleOf
  set guess : Int := max ((num.log2 : Int) - den.log2 - 53) (-1074) with hguess
  simp only [show (1 <<< 53 : Nat) = 2 ^ 53 from by decide, scaled_div_lt hden, Nat.cast_pow,
    Nat.cast_ofNat]
  split
  · rename_i hsmall
    refine ⟨by omega, hsmall, ?_⟩
    rcases le_total ((num.log2 : Int) - den.log2 - 53) (-1074) with hle | hle
    · exact .inl (by omega)
    · right
      rw [← hpow ((num.log2 : Int) - den.log2 - 1) guess 52 (by omega)]
      exact hlow
  · rename_i hlarge
    have hlarge := not_lt.1 hlarge
    -- a quotient measured by the least scale alone would be too small for the second guess
    have hguess' : guess = (num.log2 : Int) - den.log2 - 53 := by
      rcases lt_or_ge ((num.log2 : Int) - den.log2 - 53) (-1074) with hlt | hge
      · have hbound : (2 : ℚ) ^ ((num.log2 : Int) - den.log2 + 1) ≤ 2 ^ (53 + guess) :=
          zpow_le_zpow_right₀ (by norm_num) (by omega)
        rw [hpow (53 + guess) guess 53 (by omega)] at hbound
        exact absurd (hhigh.trans_le hbound) (not_lt.2 hlarge)
      · omega
    refine ⟨by omega, ?_, .inr ?_⟩
    · rw [← hpow ((num.log2 : Int) - den.log2 + 1) (guess + 1) 53 (by omega)]
      exact hhigh
    · rw [← hpow (53 + guess) (guess + 1) 52 (by omega), hpow (53 + guess) guess 53 (by omega)]
      exact hlarge

/-- The scale is determined by what `scaleOf_spec` says of it. -/
theorem scale_unique {q : ℚ} {s t : ℤ} (hs : -1074 ≤ s) (hhigh : q < 2 ^ 53 * 2 ^ t)
    (hlow : s = -1074 ∨ 2 ^ 52 * 2 ^ s ≤ q) (ht : -1074 ≤ t) : s ≤ t := by
  by_contra hlt
  have hlt := not_le.1 hlt
  rcases hlow with rfl | hlow
  · omega
  · have hstep : (2 : ℚ) ^ (t + 1) ≤ 2 ^ s := zpow_le_zpow_right₀ (by norm_num) hlt
    rw [zpow_add_one₀ (by norm_num)] at hstep
    linarith

/-! ## Rounding the quotient -/

/-- The integer within a half of the quotient, an odd one only if it is nearer than that. -/
theorem roundHalfEven_eq {num den r : Nat} (hden : 0 < den) (hlow : 2 * (r * den) ≤ 2 * num + den)
    (hhigh : 2 * num ≤ 2 * (r * den) + den)
    (hodd : r % 2 = 1 → 2 * (r * den) < 2 * num + den ∧ 2 * num < 2 * (r * den) + den) :
    roundHalfEven num den = r := by
  have hsplit := Nat.div_add_mod num den
  have hrest := Nat.mod_lt num hden
  simp only [roundHalfEven]
  set low := num / den
  set rest := num % den
  -- Within a half of the quotient lie at most its floor and the integer above.
  have hcase : r = low ∨ r = low + 1 := by
    have hle : r ≤ low + 1 := by
      by_contra h
      have : (low + 2) * den ≤ r * den := Nat.mul_le_mul_right _ (by omega)
      nlinarith
    have hge : low ≤ r := by
      by_contra h
      have : (r + 1) * den ≤ low * den := Nat.mul_le_mul_right _ (by omega)
      nlinarith
    omega
  rcases hcase with rfl | rfl
  · rw [Nat.mul_comm low den] at hlow hhigh hodd
    split_ifs <;> omega
  · rw [show (low + 1) * den = den * low + den by ring] at hlow hhigh hodd
    split_ifs <;> omega

/-- Rounding a fraction at a scale: the integer within half a unit, an odd one only if it is nearer
than that. -/
theorem roundHalfEven_scaled {num den r : Nat} (hden : 0 < den) {s : Int}
    (hlow : (2 * r - 1 : ℚ) * 2 ^ s ≤ 2 * (num / den)) (hhigh : 2 * (num / den : ℚ) ≤ (2 * r + 1) * 2 ^ s)
    (hodd : r % 2 = 1 →
      (2 * r - 1 : ℚ) * 2 ^ s < 2 * (num / den) ∧ 2 * (num / den : ℚ) < (2 * r + 1) * 2 ^ s) :
    roundHalfEven (scaled num den s).1 (scaled num den s).2 = r := by
  have hpos := scaled_snd_pos num hden s
  have hscaled := scaled_eq num hden s
  set n := (scaled num den s).1
  set d := (scaled num den s).2
  have hd : (0 : ℚ) < d := by exact_mod_cast hpos
  have hunit : (0 : ℚ) < d / 2 ^ s := div_pos hd (two_zpow_pos s)
  -- in units of the common denominator all terms are natural numbers
  have hleft : (2 * r - 1 : ℚ) * 2 ^ s * (d / 2 ^ s) = 2 * (r * d) - d := by
    field_simp
  have hmid : 2 * (num / den : ℚ) * (d / 2 ^ s) = 2 * n := by
    rw [hscaled]
    field_simp
  have hright : (2 * r + 1 : ℚ) * 2 ^ s * (d / 2 ^ s) = 2 * (r * d) + d := by
    field_simp
  have hle {a b : ℚ} (h : a ≤ b) := mul_le_mul_of_nonneg_right h hunit.le
  have hlt {a b : ℚ} (h : a < b) := mul_lt_mul_of_pos_right h hunit
  refine roundHalfEven_eq hpos ?_ ?_ fun hr => ⟨?_, ?_⟩
  · have := hle hlow
    rw [hleft, hmid] at this
    exact_mod_cast (show (2 * (r * d) : ℚ) ≤ 2 * n + d by linarith)
  · have := hle hhigh
    rw [hmid, hright] at this
    exact_mod_cast this
  · have := hlt (hodd hr).1
    rw [hleft, hmid] at this
    exact_mod_cast (show (2 * (r * d) : ℚ) < 2 * n + d by linarith)
  · have := hlt (hodd hr).2
    rw [hmid, hright] at this
    exact_mod_cast this

/-! ## A double owns what rounds to it -/

/-- The rationals that a positive double owns: its interval, with the ends only if its significand
is even. -/
structure Owns (x : Binary64) (q : ℚ) : Prop where
  low : x.interval.low * (2 : ℚ) ^ (x.scale - 2) ≤ q
  high : q ≤ x.interval.high * (2 : ℚ) ^ (x.scale - 2)
  inner : x.interval.closed = false →
    x.interval.low * (2 : ℚ) ^ (x.scale - 2) < q ∧ q < x.interval.high * (2 : ℚ) ^ (x.scale - 2)

/-- The upper end is half way to the next double. -/
theorem interval_high (x : Binary64) :
    (x.interval.high : ℚ) * 2 ^ (x.scale - 2) = (2 * x.significand + 1) * 2 ^ x.scale / 2 := by
  rw [zpow_sub₀ (by norm_num)]
  simp only [interval]
  push_cast
  ring

/-- The lower end is half way to the previous double, which is half as far below a power of two. -/
theorem interval_low {x : Binary64} (hx : x.significand ≠ 0) :
    (x.interval.low : ℚ) * 2 ^ (x.scale - 2) =
      if x.significand = 2 ^ 52 ∧ -1074 < x.scale then (2 ^ 53 - 1 / 2 : ℚ) * 2 ^ (x.scale - 1)
      else (2 * x.significand - 1) * 2 ^ x.scale / 2 := by
  have hstep := @step_eq_one_iff x
  rw [zpow_sub₀ (by norm_num), zpow_sub₀ (by norm_num)]
  simp only [interval]
  split_ifs with h1 h2 h2
  · rw [h2.1]
    norm_num
    ring
  · exact absurd (hstep.1 h1) h2
  · exact absurd (hstep.2 h2) h1
  · rw [Nat.cast_sub (by omega)]
    push_cast
    ring

/-- What a double owns is measured by its scale, except just below a power of two. -/
theorem Owns.scaleOf_eq {x : Binary64} {num den : Nat} (h : x.Owns (num / den)) (hnum : 0 < num)
    (hden : 0 < den) (hregular : x.scale = -1074 ∨ 2 ^ 52 * 2 ^ x.scale ≤ (num / den : ℚ)) :
    scaleOf num den = x.scale := by
  obtain ⟨hleast, hbelow, habove⟩ := scaleOf_spec hnum hden
  have hhigh := h.high
  rw [interval_high] at hhigh
  have hsignificand : (x.significand : ℚ) + 1 ≤ 2 ^ 53 := by exact_mod_cast significand_lt x
  have hunit := two_zpow_pos x.scale
  have hlt : (num / den : ℚ) < 2 ^ 53 * 2 ^ x.scale := by nlinarith
  exact le_antisymm (scale_unique hleast hlt habove (neg_1074_le_scale x))
    (scale_unique (neg_1074_le_scale x) hbelow hregular hleast)

/-- Rounded at its own scale, what a double owns gives its significand. -/
theorem Owns.round_eq {x : Binary64} {num den : Nat} (h : x.Owns (num / den)) (hx : x.significand ≠ 0)
    (hden : 0 < den) (hregular : x.scale = -1074 ∨ 2 ^ 52 * 2 ^ x.scale ≤ (num / den : ℚ)) :
    roundHalfEven (scaled num den x.scale).1 (scaled num den x.scale).2 = x.significand := by
  -- The lower half of a power of two is narrower, but such a fraction is above it.
  have hlow : (2 * x.significand - 1 : ℚ) * 2 ^ x.scale / 2 ≤ num / den := by
    have := h.low
    rw [interval_low hx] at this
    split_ifs at this with hpower
    · have hlarge := hregular.resolve_left (by omega)
      rw [hpower.1]
      push_cast
      linarith [two_zpow_pos x.scale]
    · exact this
  have hhigh := h.high
  rw [interval_high] at hhigh
  refine roundHalfEven_scaled hden (by linarith) (by linarith) fun hodd => ?_
  have hopen : x.interval.closed = false := by simp [interval, hodd]
  obtain ⟨hlow', hhigh'⟩ := h.inner hopen
  rw [interval_low hx, if_neg (by omega)] at hlow'
  rw [interval_high] at hhigh'
  constructor <;> linarith

/-- Just below a power of two the finer scale measures, and the quotient rounds up to `2 ^ 53`. -/
theorem Owns.carry {x : Binary64} {num den : Nat} (h : x.Owns (num / den)) (hx : x.significand ≠ 0)
    (hnum : 0 < num) (hden : 0 < den) (hscale : x.scale ≠ -1074)
    (hbelow : (num / den : ℚ) < 2 ^ 52 * 2 ^ x.scale) :
    x.significand = 2 ^ 52 ∧ scaleOf num den = x.scale - 1 ∧
      roundHalfEven (scaled num den (x.scale - 1)).1 (scaled num den (x.scale - 1)).2 = 2 ^ 53 := by
  have hleast := neg_1074_le_scale x
  have hlarge := le_significand (x := x) (by omega)
  have hlow := h.low
  have hunit := two_zpow_pos x.scale
  have hhalf : (2 : ℚ) ^ x.scale = 2 * 2 ^ (x.scale - 1) := by
    rw [← zpow_one_add₀ (by norm_num)]
    congr 1
    omega
  -- Below `2 ^ 52` units only the least significand owns anything.
  have hpower : x.significand = 2 ^ 52 := by
    by_contra hne
    rw [interval_low hx, if_neg (by omega)] at hlow
    have : (2 ^ 52 + 1 : ℚ) ≤ x.significand := by exact_mod_cast (show 2 ^ 52 + 1 ≤ x.significand by omega)
    nlinarith
  rw [interval_low hx, if_pos ⟨hpower, by omega⟩] at hlow
  obtain ⟨hfirst, hbelow', habove'⟩ := scaleOf_spec hnum hden
  -- The scale below measures the fraction with 53 bits, and no other scale does.
  have hscaleOf : scaleOf num den = x.scale - 1 := by
    refine le_antisymm (scale_unique hfirst ?_ habove' (by omega))
      (scale_unique (by omega) hbelow' (.inr ?_) hfirst)
    · rw [hhalf] at hbelow
      linarith
    · linarith [two_zpow_pos (x.scale - 1)]
  refine ⟨hpower, hscaleOf, roundHalfEven_scaled hden ?_ ?_ fun hodd => absurd hodd (by decide)⟩
  · push_cast
    linarith
  · rw [hhalf] at hbelow
    push_cast
    linarith [two_zpow_pos (x.scale - 1)]

/-- A fraction that a finite double owns rounds to it. -/
theorem ofFraction_of_owns {x : Binary64} (hfinite : x.isFinite = true) (hx : x.significand ≠ 0)
    {num den : Nat} (hnum : 0 < num) (hden : 0 < den) (h : x.Owns (num / den)) :
    ofFraction x.isNegative num den = some x := by
  -- At the own scale the significand comes out; just below it the carry moves the exponent on.
  have hmagnitude : (scaleOf num den + 1074).toNat * 2 ^ 52
      + roundHalfEven (scaled num den (scaleOf num den)).1 (scaled num den (scaleOf num den)).2
      = (x.scale + 1074).toNat * 2 ^ 52 + x.significand := by
    by_cases hregular : x.scale = -1074 ∨ 2 ^ 52 * 2 ^ x.scale ≤ (num / den : ℚ)
    · rw [h.scaleOf_eq hnum hden hregular, h.round_eq hx hden hregular]
    · obtain ⟨hscale, hbelow⟩ := not_or.1 hregular
      obtain ⟨hpower, hscaleOf, hround⟩ := h.carry hx hnum hden hscale (not_le.1 hbelow)
      have hleast := neg_1074_le_scale x
      rw [hscaleOf, hround, hpower]
      omega
  have hfit : (x.scale + 1074).toNat * 2 ^ 52 + x.significand < 2047 * 2 ^ 52 := by
    have hexponent := exponentField_lt x
    have hfraction := fractionField_lt x
    simp only [isFinite, bne_iff_ne, ne_eq] at hfinite
    rw [magnitude_bits]
    omega
  simp only [ofFraction, Nat.shiftLeft_eq, hmagnitude, if_pos hfit]
  rw [ofMagnitude_self]

/-! ## Decimals -/

/-- Every number has a digit. -/
theorem digitCount_pos (n : Nat) : 0 < digitCount n :=
  List.length_pos_iff.2 Nat.toDigits_ne_nil

/-- A number is below the power of ten of its digits. -/
theorem lt_ten_pow_digitCount (n : Nat) : n < 10 ^ digitCount n :=
  (Nat.length_toDigits_le_iff (by decide) (digitCount_pos n)).1 le_rfl

/-- The first digit of a number is not zero. -/
theorem ten_pow_digitCount_le {n : Nat} (hn : 0 < n) : 10 ^ (digitCount n - 1) ≤ n := by
  by_cases hone : digitCount n - 1 = 0
  · rw [hone]
    omega
  · by_contra hlt
    have hle := (Nat.length_toDigits_le_iff (by decide) (by omega)).2 (not_le.1 hlt)
    rw [← digitCount] at hle
    omega

/-- What a finite double owns is within the range of the format. -/
theorem Owns.range {x : Binary64} {q : ℚ} (h : x.Owns q) (hfinite : x.isFinite = true)
    (hx : x.significand ≠ 0) : 2 ^ (-1075 : ℤ) ≤ q ∧ q < 2 ^ (1024 : ℤ) := by
  have hlow := h.low
  have hhigh := h.high
  have hunit := two_zpow_pos x.scale
  rw [interval_low hx] at hlow
  rw [interval_high] at hhigh
  constructor
  -- The least double owns nothing below half of itself.
  · refine le_trans ?_ hlow
    split_ifs with hpower
    · have : (2 : ℚ) ^ (-1075 : ℤ) ≤ 2 ^ (x.scale - 1) := zpow_le_zpow_right₀ (by norm_num) (by omega)
      linarith [two_zpow_pos (x.scale - 1)]
    · have hleast := neg_1074_le_scale x
      have hone : (1 : ℚ) ≤ x.significand := by exact_mod_cast Nat.one_le_iff_ne_zero.2 hx
      calc (2 : ℚ) ^ (-1075 : ℤ) ≤ 2 ^ (x.scale - 1) := zpow_le_zpow_right₀ (by norm_num) (by omega)
        _ = 1 * 2 ^ x.scale / 2 := by rw [zpow_sub_one₀ (by norm_num)]; ring
        _ ≤ (2 * x.significand - 1) * 2 ^ x.scale / 2 := by
          have : (1 : ℚ) ≤ 2 * x.significand - 1 := by linarith
          gcongr
  -- The greatest double owns nothing above half a unit more.
  · have hsignificand : (x.significand : ℚ) + 1 ≤ 2 ^ 53 := by exact_mod_cast significand_lt x
    calc q ≤ (2 * x.significand + 1) * 2 ^ x.scale / 2 := hhigh
      _ < 2 ^ 53 * 2 ^ x.scale := by nlinarith
      _ = 2 ^ (53 + x.scale) := by rw [zpow_add₀ (by norm_num)]; norm_cast
      _ ≤ 2 ^ (1024 : ℤ) := zpow_le_zpow_right₀ (by norm_num) (by have := scale_le hfinite; omega)

/-- The decimals beyond four hundred digits are beyond every double. -/
theorem two_pow_le_ten_pow : (2 : ℚ) ^ (1075 : ℤ) ≤ 10 ^ (400 : ℤ) := by
  calc (2 : ℚ) ^ (1075 : ℤ) ≤ 2 ^ (3 * 400 : ℤ) := zpow_le_zpow_right₀ (by norm_num) (by norm_num)
    _ = 8 ^ (400 : ℤ) := by rw [zpow_mul]; norm_num
    _ ≤ 10 ^ (400 : ℤ) := zpow_le_zpow_left₀ (by norm_num) (by norm_num) (by norm_num)

/-- A decimal that a finite double owns rounds to it. -/
theorem ofDecimal_of_owns {x : Binary64} (hfinite : x.isFinite = true) (hx : x.significand ≠ 0)
    {digits : Nat} (hdigits : 0 < digits) {exponent : Int}
    (h : x.Owns (digits * 10 ^ exponent)) : ofDecimal x.isNegative digits exponent = some x := by
  obtain ⟨hleast, hmost⟩ := h.range hfinite hx
  have hlow := ten_pow_digitCount_le hdigits
  have hhigh := lt_ten_pow_digitCount digits
  have hten : (0 : ℚ) < 10 ^ exponent := zpow_pos (by norm_num) _
  -- the position of the first digit tells the size of the number
  have htop : exponent + digitCount digits ≤ 400 := by
    by_contra hlt
    have hsize : (10 : ℚ) ^ (400 : ℤ) ≤ 10 ^ ((digitCount digits - 1 : ℕ) + exponent) :=
      zpow_le_zpow_right₀ (by norm_num) (by omega)
    rw [zpow_add₀ (by norm_num), zpow_natCast] at hsize
    have hlow' : (10 : ℚ) ^ (digitCount digits - 1) ≤ digits := by exact_mod_cast hlow
    have hrange : (2 : ℚ) ^ (1024 : ℤ) ≤ 10 ^ (400 : ℤ) :=
      (zpow_le_zpow_right₀ (by norm_num) (by norm_num)).trans two_pow_le_ten_pow
    have hvalue : (10 : ℚ) ^ (digitCount digits - 1) * 10 ^ exponent ≤ digits * 10 ^ exponent := by gcongr
    exact absurd hmost (not_lt.2 (hrange.trans (hsize.trans hvalue)))
  have hbottom : -400 ≤ exponent + digitCount digits := by
    by_contra hlt
    have hsize : (10 : ℚ) ^ (digitCount digits + exponent) ≤ 10 ^ (-400 : ℤ) :=
      zpow_le_zpow_right₀ (by norm_num) (by omega)
    rw [zpow_add₀ (by norm_num), zpow_natCast] at hsize
    have hhigh' : (digits : ℚ) < 10 ^ digitCount digits := by exact_mod_cast hhigh
    have hrange : (10 : ℚ) ^ (-400 : ℤ) ≤ 2 ^ (-1075 : ℤ) := by
      rw [zpow_neg, zpow_neg]
      exact inv_anti₀ (two_zpow_pos _) two_pow_le_ten_pow
    have hvalue : digits * 10 ^ exponent < (10 : ℚ) ^ digitCount digits * 10 ^ exponent := by gcongr
    exact absurd hleast (not_le.2 (hvalue.trans_le (hsize.trans hrange)))
  unfold ofDecimal
  rw [if_neg hdigits.ne', if_neg (by omega), if_neg (by omega)]
  split_ifs with hsign
  · obtain ⟨k, rfl⟩ := Int.eq_ofNat_of_zero_le hsign
    refine ofFraction_of_owns hfinite hx (Nat.mul_pos hdigits (Nat.pow_pos (by decide))) one_pos ?_
    simpa using h
  · obtain ⟨k, rfl⟩ : ∃ k : Nat, exponent = -k := ⟨(-exponent).toNat, by omega⟩
    refine ofFraction_of_owns hfinite hx hdigits (Nat.pow_pos (by decide)) ?_
    simpa [div_eq_mul_inv] using h

/-- The zero of a sign is the double of that sign without a significand. -/
theorem zero_of_significand {x : Binary64} (hx : x.significand = 0) : zero x.isNegative = x := by
  have hscale : x.scale = -1074 := by
    by_contra hne
    have hleast := neg_1074_le_scale x
    have := le_significand (x := x) (by omega)
    omega
  have hself := ofMagnitude_self x
  rwa [hx, hscale] at hself

end HlsEmit.Binary64
