import HlsEmit.Proofs.Decimal.Rounding

/-!
# The shortest decimal reads back

The decimal that `Binary64.shortest` finds lies in the interval of the double, so it rounds to it.
The search goes over grids of powers of ten and takes only grid points of the interval. It always
ends with one: the last grid has seventeen digits, and its step is less than the interval is long.

## Key results

- `owns_of_nearestOnGrid`: what the search takes is in the interval
- `exists_nearestOnGrid`: seventeen digits suffice
- `shortest_owns`, `ofDecimal_of_value`: the shortest decimal reads back
-/

namespace HlsEmit

/-- The number that a decimal stands for. -/
def Decimal.value (d : Decimal) : ℚ :=
  d.digits * 10 ^ d.exponent

/-- Zeros at the end of the digits count in the exponent as well. -/
theorem Decimal.value_stripZeros (steps : Nat) (d : Decimal) :
    (d.stripZeros steps).value = d.value := by
  induction steps generalizing d with
  | zero => rfl
  | succ steps ih =>
    unfold stripZeros
    split
    · rename_i hzero
      have hdigits : (d.digits : ℚ) = 10 * (d.digits / 10 : ℕ) := by
        exact_mod_cast (show d.digits = 10 * (d.digits / 10) by omega)
      rw [ih, value, value, hdigits, zpow_add_one₀ (by norm_num)]
      ring
    · rfl

/-- Stripping zeros leaves a digit. -/
theorem Decimal.stripZeros_pos {steps : Nat} {d : Decimal} (h : 0 < d.digits) :
    0 < (d.stripZeros steps).digits := by
  induction steps generalizing d with
  | zero => exact h
  | succ steps ih =>
    unfold stripZeros
    split
    · exact ih (by dsimp only; omega)
    · exact h

namespace Binary64

/-- The exact magnitude of a finite double. -/
def magnitude (x : Binary64) : ℚ :=
  x.significand * 2 ^ x.scale

/-- A power of ten is positive. -/
theorem ten_zpow_pos (p : ℤ) : (0 : ℚ) < 10 ^ p :=
  zpow_pos (by norm_num) p

/-! ## The search on one grid -/

/-- The common unit of a binary and a decimal grid is positive. -/
theorem commonUnits_pos (x : Binary64) (p : Int) : 0 < (x.commonUnits p).2 := by
  simp only [commonUnits, Nat.shiftLeft_eq]
  exact Nat.mul_pos (Nat.pow_pos (by decide)) (Nat.pow_pos (by decide))

/-- The two units are in the ratio of the powers that they stand for. -/
theorem commonUnits_ratio (x : Binary64) (p : Int) :
    ((x.commonUnits p).1 : ℚ) * 10 ^ p = (x.commonUnits p).2 * 2 ^ (x.scale - 2) := by
  have hpower (b : ℚ) (hb : b ≠ 0) (k : ℤ) : b ^ k * b ^ (-k).toNat = b ^ k.toNat := by
    rw [← zpow_natCast, ← zpow_natCast, ← zpow_add₀ hb]
    congr 1
    omega
  have htens := hpower 10 (by norm_num) p
  have htwos := hpower 2 (by norm_num) (x.scale - 2)
  simp only [commonUnits, Nat.shiftLeft_eq, Nat.pow_eq]
  push_cast
  rw [← htens, ← htwos]
  ring

section Comparisons

variable (x : Binary64) (p : Int) (a b : Nat)

/-- A point of the interval against a point of the grid, in the common unit. -/
theorem mul_unit_le_mul_grid :
    a * (x.commonUnits p).1 ≤ b * (x.commonUnits p).2
      ↔ (a : ℚ) * 2 ^ (x.scale - 2) ≤ b * 10 ^ p := by
  have hgrid : (0 : ℚ) < (x.commonUnits p).2 := by exact_mod_cast x.commonUnits_pos p
  have hratio := x.commonUnits_ratio p
  rw [← @Nat.cast_le ℚ, ← mul_le_mul_iff_left₀ (ten_zpow_pos p),
    ← mul_le_mul_iff_left₀ (b := (a : ℚ) * 2 ^ (x.scale - 2)) hgrid]
  push_cast
  rw [mul_assoc (a : ℚ), hratio]
  ring_nf

/-- A point of the grid is at most a multiple of the unit just if it is so in common units. -/
theorem mul_grid_le_mul_unit :
    b * (x.commonUnits p).2 ≤ a * (x.commonUnits p).1
      ↔ b * 10 ^ p ≤ (a : ℚ) * 2 ^ (x.scale - 2) := by
  have hgrid : (0 : ℚ) < (x.commonUnits p).2 := by exact_mod_cast x.commonUnits_pos p
  have hratio := x.commonUnits_ratio p
  rw [← @Nat.cast_le ℚ, ← mul_le_mul_iff_left₀ (ten_zpow_pos p),
    ← mul_le_mul_iff_left₀ (c := (a : ℚ) * 2 ^ (x.scale - 2)) hgrid]
  push_cast
  rw [mul_assoc (a : ℚ), hratio]
  ring_nf

/-- A multiple of the unit is below a point of the grid just if it is so in common units. -/
theorem mul_unit_lt_mul_grid :
    a * (x.commonUnits p).1 < b * (x.commonUnits p).2
      ↔ (a : ℚ) * 2 ^ (x.scale - 2) < b * 10 ^ p := by
  rw [← not_le, ← not_le, mul_grid_le_mul_unit]

/-- A point of the grid is below a multiple of the unit just if it is so in common units. -/
theorem mul_grid_lt_mul_unit :
    b * (x.commonUnits p).2 < a * (x.commonUnits p).1
      ↔ b * 10 ^ p < (a : ℚ) * 2 ^ (x.scale - 2) := by
  rw [← not_le, ← not_le, mul_unit_le_mul_grid]

end Comparisons

/-- The test of the search says whether a point of the grid is in the interval. -/
theorem inside_iff (x : Binary64) (p : Int) (point : Nat) :
    (if x.interval.closed then
        decide (x.interval.low * (x.commonUnits p).1 ≤ point * (x.commonUnits p).2)
          && decide (point * (x.commonUnits p).2 ≤ x.interval.high * (x.commonUnits p).1)
      else decide (x.interval.low * (x.commonUnits p).1 < point * (x.commonUnits p).2)
        && decide (point * (x.commonUnits p).2 < x.interval.high * (x.commonUnits p).1)) = true
      ↔ x.Owns (point * 10 ^ p) := by
  cases hclosed : x.interval.closed
  · simp only [Bool.false_eq_true, if_false, Bool.and_eq_true, decide_eq_true_eq,
      mul_unit_lt_mul_grid, mul_grid_lt_mul_unit]
    exact ⟨fun h => ⟨h.1.le, h.2.le, fun _ => h⟩, fun h => h.inner hclosed⟩
  · simp only [if_true, Bool.and_eq_true, decide_eq_true_eq, mul_unit_le_mul_grid,
      mul_grid_le_mul_unit]
    refine ⟨fun h => ⟨h.1, h.2, fun hopen => ?_⟩, fun h => ⟨h.low, h.high⟩⟩
    rw [hclosed] at hopen
    cases hopen

/-- Whatever the search on a grid takes is in the interval. -/
theorem owns_of_nearestOnGrid {tie : TieRule} {x : Binary64} {p : Int} {point : Nat}
    (h : x.nearestOnGrid? tie p = some point) : x.Owns (point * 10 ^ p) := by
  simp only [nearestOnGrid?] at h
  rw [← inside_iff]
  set below := x.interval.mid * (x.commonUnits p).1 / (x.commonUnits p).2
  split at h
  · cases h
  · rw [← Option.some.inj h]
    assumption
  · rw [← Option.some.inj h]
    assumption
  · rename_i hbelow habove
    -- With both neighbours inside, the nearer one is taken, or either on a tie.
    have heither : point = below ∨ point = below + 1 := by
      split_ifs at h
      · exact .inl (Option.some.inj h).symm
      · exact .inr (Option.some.inj h).symm
      · cases tie
        · exact .inr (Option.some.inj h).symm
        · have := Option.some.inj h
          omega
    rcases heither with rfl | rfl
    · exact hbelow
    · exact habove

/-! ## Seventeen digits suffice -/

/-- A grid that is finer than the interval is long has a point in it. -/
theorem exists_nearestOnGrid (tie : TieRule) {x : Binary64} {p : Int}
    (hfine : (10 : ℚ) ^ p
      < x.interval.high * 2 ^ (x.scale - 2) - x.interval.low * 2 ^ (x.scale - 2)) :
    ∃ point, x.nearestOnGrid? tie p = some point := by
  have hgrid := x.commonUnits_pos p
  have hunit := two_zpow_pos (x.scale - 2)
  have hlow : (x.interval.low : ℚ) * 2 ^ (x.scale - 2) ≤ x.interval.mid * 2 ^ (x.scale - 2) := by
    gcongr
    exact Nat.sub_le _ _
  have hhigh : (x.interval.mid : ℚ) * 2 ^ (x.scale - 2) < x.interval.high * 2 ^ (x.scale - 2) := by
    gcongr
    exact Nat.lt_add_of_pos_right (by decide)
  simp only [nearestOnGrid?]
  set below := x.interval.mid * (x.commonUnits p).1 / (x.commonUnits p).2 with hbelow
  -- the double lies between the two grid points that are tried
  have hleft : (below : ℚ) * 10 ^ p ≤ x.interval.mid * 2 ^ (x.scale - 2) :=
    (mul_grid_le_mul_unit x p _ _).1 (Nat.div_mul_le_self _ _)
  have hright : (x.interval.mid : ℚ) * 2 ^ (x.scale - 2) < (below + 1 : ℕ) * 10 ^ p := by
    refine (mul_unit_lt_mul_grid x p _ _).1 ?_
    rw [Nat.mul_comm (below + 1)]
    exact Nat.lt_mul_div_succ _ hgrid
  have hstep : ((below + 1 : ℕ) : ℚ) * 10 ^ p = below * 10 ^ p + 10 ^ p := by
    push_cast
    ring
  split
  · rename_i hoff hoff'
    exfalso
    -- both are outside, so the interval lies strictly between them
    have hbelow_out : ¬ x.Owns (below * 10 ^ p) := by rw [← inside_iff, hoff]; decide
    have habove_out : ¬ x.Owns ((below + 1 : ℕ) * 10 ^ p) := by rw [← inside_iff, hoff']; decide
    have hunder : (below : ℚ) * 10 ^ p ≤ x.interval.low * 2 ^ (x.scale - 2) := by
      by_contra hlt
      have hlt := not_le.1 hlt
      have hinner := hleft.trans_lt hhigh
      exact hbelow_out ⟨hlt.le, hinner.le, fun _ => ⟨hlt, hinner⟩⟩
    have hover : (x.interval.high : ℚ) * 2 ^ (x.scale - 2) ≤ (below + 1 : ℕ) * 10 ^ p := by
      by_contra hlt
      have hlt := not_le.1 hlt
      exact habove_out ⟨hlow.trans hright.le, hlt.le, fun _ => ⟨hlow.trans_lt hright, hlt⟩⟩
    linarith
  · exact ⟨_, rfl⟩
  · exact ⟨_, rfl⟩
  · split_ifs
    · exact ⟨_, rfl⟩
    · exact ⟨_, rfl⟩
    · cases tie <;> exact ⟨_, rfl⟩

/-- The interval of a double other than zero is positive. -/
theorem interval_low_pos {x : Binary64} (hx : x.significand ≠ 0) : 0 < x.interval.low := by
  simp only [interval]
  split <;> omega

/-- The power of ten of the first digit is at most the number. -/
theorem ten_pow_leadingPower_le {x : Binary64} (hx : x.significand ≠ 0) :
    (10 : ℚ) ^ x.leadingPower ≤ x.magnitude := by
  have hnum : 0 < x.significand <<< x.scale.toNat := by
    rw [Nat.shiftLeft_eq]
    exact Nat.mul_pos (Nat.pos_of_ne_zero hx) (by positivity)
  have hden : 0 < 1 <<< (-x.scale).toNat := by
    rw [Nat.shiftLeft_eq]
    positivity
  -- The magnitude as a quotient of integers, of which the digits are counted.
  have hquotient : x.magnitude = (x.significand <<< x.scale.toNat : ℕ) / (1 <<< (-x.scale).toNat : ℕ) := by
    have hpower : (2 : ℚ) ^ x.scale = 2 ^ x.scale.toNat / 2 ^ (-x.scale).toNat := by
      rw [eq_div_iff (by positivity), ← zpow_natCast, ← zpow_natCast, ← zpow_add₀ (by norm_num)]
      congr 1
      omega
    rw [magnitude, hpower, Nat.shiftLeft_eq, Nat.shiftLeft_eq]
    push_cast
    ring
  simp only [leadingPower]
  set num := x.significand <<< x.scale.toNat
  set den := 1 <<< (-x.scale).toNat
  have hden' : (0 : ℚ) < den := by exact_mod_cast hden
  rw [hquotient]
  split
  -- At least one: the digits of the quotient.
  · rename_i hle
    have hone : 0 < num / den := Nat.div_pos hle hden
    have hdigits := ten_pow_digitCount_le hone
    have hcount := digitCount_pos (num / den)
    rw [show (digitCount (num / den) : Int) - 1 = (digitCount (num / den) - 1 : ℕ) by omega,
      zpow_natCast, le_div_iff₀ hden']
    exact_mod_cast (Nat.mul_le_mul_right den hdigits).trans (Nat.div_mul_le_self _ _)
  -- Below one: the digits of the inverse, from below.
  · rename_i hlt
    rw [zpow_neg, zpow_natCast, inv_eq_one_div, div_le_div_iff₀ (by positivity) hden', one_mul]
    have hbound := lt_ten_pow_digitCount ((den - 1) / num)
    rw [Nat.div_lt_iff_lt_mul hnum, Nat.mul_comm] at hbound
    exact_mod_cast (show den ≤ num * 10 ^ digitCount ((den - 1) / num) by omega)

/-- The interval is longer than the step of the grid of seventeen digits. -/
theorem seventeen_digits {x : Binary64} (hx : x.significand ≠ 0) :
    (10 : ℚ) ^ (x.leadingPower - 16)
      < x.interval.high * 2 ^ (x.scale - 2) - x.interval.low * 2 ^ (x.scale - 2) := by
  have hleading := ten_pow_leadingPower_le hx
  have hunit := two_zpow_pos x.scale
  have hhalf : (2 : ℚ) ^ (x.scale - 1) = 2 ^ x.scale / 2 := by rw [zpow_sub_one₀ (by norm_num)]; ring
  have hmost : (x.significand : ℚ) * 2 ^ x.scale < 2 ^ 53 * 2 ^ x.scale := by
    gcongr
    exact_mod_cast significand_lt x
  rw [interval_high, interval_low hx, zpow_sub₀ (by norm_num)]
  rw [magnitude] at hleading
  -- a unit of the significand, or three quarters of one below a power of two, are more than the
  -- significand over `10 ^ 16`
  split_ifs with hpower
  · rw [hpower.1] at hleading ⊢
    rw [hhalf]
    norm_num at hleading ⊢
    linarith
  · norm_num at hleading hmost ⊢
    linarith

/-- The shortest decimal lies in the interval of the double, and it is not zero. -/
theorem shortest_owns (tie : TieRule) {x : Binary64} (hx : x.significand ≠ 0) :
    x.Owns (x.shortest tie).value ∧ 0 < (x.shortest tie).digits := by
  obtain ⟨point, hpoint⟩ := exists_nearestOnGrid tie (seventeen_digits hx)
  simp only [shortest, if_neg hx]
  set search := fun k : Nat => (x.nearestOnGrid? tie (x.leadingPower - k)).map fun digits =>
    (⟨digits, x.leadingPower - k⟩ : Decimal) with hsearch
  -- The search takes the first grid with a point inside; the last of them, at seventeen digits, has
  -- one.
  cases hfound : (List.range 17).findSome? search with
  | none =>
    have hlast := List.findSome?_eq_none_iff.1 hfound 16 (by decide)
    simp [hsearch, hpoint] at hlast
  | some d =>
    obtain ⟨k, -, hk⟩ := List.exists_of_findSome?_eq_some hfound
    obtain ⟨digits, hdigits, rfl⟩ := Option.map_eq_some_iff.1 hk
    have howns : x.Owns (Decimal.value ⟨digits, x.leadingPower - k⟩) := owns_of_nearestOnGrid hdigits
    rw [Option.getD_some, Decimal.value_stripZeros]
    refine ⟨howns, Decimal.stripZeros_pos (Nat.pos_of_ne_zero fun hzero => ?_)⟩
    have hlow := howns.low
    have hpos := interval_low_pos hx
    rw [Decimal.value, hzero, Nat.cast_zero, zero_mul] at hlow
    exact absurd hlow (not_le.2 (mul_pos (by exact_mod_cast hpos) (two_zpow_pos _)))

/-- A decimal with the value of the shortest one rounds to the double. -/
theorem ofDecimal_of_value {x : Binary64} (hfinite : x.isFinite = true) {tie : TieRule} {d : Decimal}
    (h : d.value = (x.shortest tie).value) :
    ofDecimal x.isNegative d.digits d.exponent = some x := by
  by_cases hx : x.significand = 0
  · have hdigits : d.digits = 0 := by
      simpa [Decimal.value, shortest, hx, zpow_ne_zero] using h
    rw [ofDecimal, if_pos hdigits, zero_of_significand hx]
  · obtain ⟨howns, hpos⟩ := shortest_owns tie hx
    rw [← h] at howns
    have hdigits : 0 < d.digits := by
      have hvalue : 0 < (x.shortest tie).value := mul_pos (by exact_mod_cast hpos) (ten_zpow_pos _)
      rw [← h, Decimal.value] at hvalue
      exact_mod_cast (pos_of_mul_pos_left hvalue (ten_zpow_pos _).le)
    exact ofDecimal_of_owns hfinite hx hdigits howns

end Binary64

end HlsEmit
