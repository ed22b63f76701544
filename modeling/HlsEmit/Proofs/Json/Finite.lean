import HlsEmit.Proofs.Decimal.Finite
import HlsEmit.Proofs.Json.Depth
import HlsEmit.Proofs.Json.Derivation

/-!
# Numbers that are read are finite

A number that no finite double is near is refused, so no infinity is read.

## Key results

- `readNumber_inRange`: whole numbers have 64 bits, and fractions are finite
- `real_yields_finite`: every double that is read is finite
-/

namespace HlsEmit.Json

open Reader

variable {α : Type}

/-- Whole numbers have 64 bits, and fractions are finite. -/
def Number.InRange : Number → Prop
  | .integer n => n.natAbs < 2 ^ 64
  | .real x => x.isFinite = true

/-- A number is made of parts in range only. -/
theorem numberOfParts_inRange {negative : Bool} {whole : List Char} {fraction : Option (List Char)}
    {exponent : Option Int} {number : Number}
    (h : numberOfParts negative whole fraction exponent = .ok number) : number.InRange := by
  unfold numberOfParts at h
  simp only at h
  split at h
  · -- a whole number that is too large for 64 bits is read as a fraction
    split_ifs at h with hsmall hnegative
    · cases h
      simp only [Bool.and_eq_true, decide_eq_true_eq, UInt64.size] at hsmall
      exact hsmall.2
    · cases h
      simp only [Bool.and_eq_true, decide_eq_true_eq, Nat.one_shiftLeft] at hnegative
      show (-(natOfDigits whole : Int)).natAbs < 2 ^ 64
      omega
    · split at h
      · cases h
        exact Binary64.ofDecimal_isFinite ‹_›
      · cases h
  · split at h
    · cases h
      exact Binary64.ofDecimal_isFinite ‹_›
    · cases h

/-- A number that is read is in range. -/
theorem readNumber_inRange {number : Number} {input rest : List Char}
    (h : readNumber.run input = .ok (number, rest)) : number.InRange := by
  simp only [readNumber, run_bind_eq_ok, run_peek] at h
  obtain ⟨_, _, -, h⟩ := h
  split at h
  · simp only [run_bind_eq_ok, run_lift_eq_ok] at h
    obtain ⟨_, _, -, _, _, -, _, _, -, _, _, -, hparts, -⟩ := h
    exact numberOfParts_inRange hparts
  · simp only [run_bind_eq_ok, run_lift_eq_ok] at h
    obtain ⟨_, _, -, _, _, -, _, _, -, hparts, -⟩ := h
    exact numberOfParts_inRange hparts

/-- A value that is read from a number is converted from one in range. -/
theorem readNumberAs_inRange {fuel : Nat} {expected : String} {convert : Number → Except DataFault α}
    {value : α} {input rest : List Char}
    (h : (readNumberAs fuel expected convert).run input = .ok (value, rest)) :
    ∃ number, number.InRange ∧ convert number = .ok value := by
  rw [readNumberAs, run_bind_eq_ok] at h
  obtain ⟨next, mid, -, h⟩ := h
  -- Only a digit or a sign starts a number; anything else is a mismatch.
  split at h
  · cases h
  · split at h
    · rw [run_bind_eq_ok] at h
      obtain ⟨number, _, hnumber, h⟩ := h
      split at h
      · rename_i hconvert
        rw [run_pure_eq_ok, Prod.mk.injEq] at h
        obtain ⟨rfl, -⟩ := h
        exact ⟨number, readNumber_inRange hnumber, hconvert⟩
      · cases h
    · rw [run_failExpecting_eq_ok] at h
      cases h

/-- An integer of 64 bits converts to a finite double. -/
theorem realOfInteger_isFinite {n : Int} (hn : n.natAbs < 2 ^ 64) :
    (realOfInteger n).isFinite = true := by
  obtain ⟨x, hx⟩ := Binary64.exists_ofDecimal (n < 0) hn
  rw [realOfInteger, hx]
  exact Binary64.ofDecimal_isFinite hx

/-- Every double that is read is finite. -/
theorem real_yields_finite : Schema.real.Yields fun _ x => x.isFinite = true := by
  refine ⟨fun {tree x n} hdecode _ => ?_⟩
  rw [Schema.decode] at hdecode
  obtain ⟨token, -, hvalue⟩ := Option.bind_eq_some_iff.1 hdecode
  unfold Reader.whole? at hvalue
  split at hvalue
  · rename_i value hrun
    cases hvalue
    obtain ⟨number, hrange, hconvert⟩ := readNumberAs_inRange hrun
    cases number with
    | integer m =>
      -- a whole number of 64 bits is rounded to a double
      cases hconvert
      exact realOfInteger_isFinite hrange
    | real y =>
      cases hconvert
      exact hrange
  · cases hvalue

end HlsEmit.Json
