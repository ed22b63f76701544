import HlsEmit.Proofs.Decimal.Rounding

/-!
# Rounding never gives an infinity

A decimal that is too large for a finite double has no rounding at all, and the whole numbers of 64
bits are not too large.

## Key results

- `ofDecimal_isFinite`: what a decimal rounds to is finite
- `exists_ofDecimal`: whole numbers of 64 bits round to a double
-/

namespace HlsEmit.Binary64

/-- A magnitude below that of infinity is finite. -/
theorem ofMagnitude_isFinite (negative : Bool) {magnitude : Nat} (h : magnitude < 2047 * 2 ^ 52) :
    (ofMagnitude negative magnitude).isFinite = true := by
  have hbits : (ofMagnitude negative magnitude).bits.toNat
      = if negative then 2 ^ 63 + magnitude else magnitude := by
    rw [ofMagnitude, Nat.one_shiftLeft]
    exact UInt64.toNat_ofNat_of_lt' (by split <;> simp only [UInt64.size] <;> omega)
  rw [isFinite, exponentField, hbits, Nat.shiftRight_eq_div_pow, Nat.one_shiftLeft, bne_iff_ne]
  split <;> omega

/-- Zero is finite. -/
theorem zero_isFinite (negative : Bool) : (zero negative).isFinite = true :=
  ofMagnitude_isFinite negative (by decide)

/-- A fraction that rounds to a double rounds to a finite one. -/
theorem ofFraction_isFinite {negative : Bool} {num den : Nat} {x : Binary64}
    (h : ofFraction negative num den = some x) : x.isFinite = true := by
  unfold ofFraction at h
  simp only at h
  split at h
  · rename_i hmagnitude
    cases h
    exact ofMagnitude_isFinite negative (by simpa [Nat.shiftLeft_eq] using hmagnitude)
  · cases h

/-- A decimal is rounded to a finite double, if to any. -/
theorem ofDecimal_isFinite {negative : Bool} {digits : Nat} {exponent : Int} {x : Binary64}
    (h : ofDecimal negative digits exponent = some x) : x.isFinite = true := by
  unfold ofDecimal at h
  simp only at h
  split_ifs at h
  · cases h
    exact zero_isFinite negative
  · cases h
    exact zero_isFinite negative
  · exact ofFraction_isFinite h
  · exact ofFraction_isFinite h

/-- Rounding goes up by less than one. -/
theorem roundHalfEven_le (num den : Nat) : roundHalfEven num den ≤ num / den + 1 := by
  unfold roundHalfEven
  simp only
  split_ifs <;> omega

/-- Whole numbers of 64 bits are in the range of the doubles. -/
theorem exists_ofFraction (negative : Bool) {n : Nat} (hpos : 0 < n) (hn : n < 2 ^ 64) :
    ∃ x, ofFraction negative n 1 = some x := by
  obtain ⟨hleast, hhigh, hlow⟩ := scaleOf_spec hpos one_pos
  -- The number is below `2 ^ 64`, so a unit of the last place is at most `2 ^ 11`.
  have hscale : scaleOf n 1 < 12 := by
    rcases hlow with hleast | hlow
    · omega
    · have hsize : (2 : ℚ) ^ 52 * 2 ^ scaleOf n 1 < 2 ^ 52 * 2 ^ (12 : ℤ) := by
        refine hlow.trans_lt ?_
        have : (n : ℚ) < 2 ^ 64 := by exact_mod_cast hn
        norm_num at this ⊢
        exact this
      exact (zpow_lt_zpow_iff_right₀ (by norm_num)).1 (lt_of_mul_lt_mul_left hsize (by norm_num))
  have hquotient := (scaled_div_lt (k := 2 ^ 53) one_pos (scaleOf n 1)).2 (by exact_mod_cast hhigh)
  have hround := roundHalfEven_le (scaled n 1 (scaleOf n 1)).1 (scaled n 1 (scaleOf n 1)).2
  have hmagnitude : (scaleOf n 1 + 1074).toNat <<< 52
      + roundHalfEven (scaled n 1 (scaleOf n 1)).1 (scaled n 1 (scaleOf n 1)).2 < 2047 <<< 52 := by
    rw [Nat.shiftLeft_eq, Nat.shiftLeft_eq]
    omega
  exact ⟨_, if_pos hmagnitude⟩

/-- A whole number of 64 bits is rounded to a double. -/
theorem exists_ofDecimal (negative : Bool) {n : Nat} (hn : n < 2 ^ 64) :
    ∃ x, ofDecimal negative n 0 = some x := by
  rcases Nat.eq_zero_or_pos n with rfl | hpos
  · exact ⟨zero negative, if_pos rfl⟩
  · have hcount : digitCount n ≤ 20 := by
      by_contra hlong
      have hlow := (Nat.pow_le_pow_right (by decide) (by omega : 20 ≤ digitCount n - 1)).trans
        (ten_pow_digitCount_le hpos)
      omega
    have hone : n * Nat.pow 10 (0 : Int).toNat = n := Nat.mul_one n
    unfold ofDecimal
    simp only
    rw [if_neg hpos.ne', if_neg (by omega), if_neg (by omega), if_pos le_rfl, hone]
    exact exists_ofFraction negative hpos hn

end HlsEmit.Binary64
