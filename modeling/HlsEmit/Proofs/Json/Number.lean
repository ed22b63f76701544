import HlsEmit.Proofs.Decimal.Shortest
import HlsEmit.Proofs.Json.Pieces

/-!
# Reading back numbers

A whole number is written by its digits, a fraction by the shortest digits that read back, laid out
around a point or with an exponent. The layout keeps the value of the digits, and a number ends where
nothing follows that could continue it (`Ends`).

## Key results

- `readNumber_integer`: whole numbers of 64 bits read back
- `readNumber_real`: finite doubles read back, bit for bit
-/

namespace HlsEmit.Json

open Reader

/-! ## Digits -/

/-- A run of decimal digits. -/
def Digits (cs : List Char) : Prop :=
  ∀ c ∈ cs, isDigit c = true

/-- The digits before a point: there is one, and a zero stands alone. -/
structure Whole (cs : List Char) : Prop where
  digits : Digits cs
  nonempty : cs ≠ []
  zero : cs.head? = some '0' → cs = ['0']

/-- What follows does not continue a number. -/
def Ends (rest : List Char) : Prop :=
  ∀ c, rest.head? = some c → isDigit c = false ∧ c ≠ '.' ∧ c ≠ 'e' ∧ c ≠ 'E'

/-- The end of the text ends a number. -/
theorem ends_nil : Ends [] := by
  simp [Ends]

/-- The digits of the format are those of the library. -/
theorem isDigit_eq (c : Char) : isDigit c = c.isDigit := by
  simp [isDigit, Char.isDigit, Char.le_def]

/-- The digits of a number are digits. -/
theorem digits_toDigits (n : Nat) : Digits (Nat.toDigits 10 n) := fun c hc => by
  rw [isDigit_eq]
  exact Nat.isDigit_of_mem_toDigits (b := 10) (by decide) (by decide) hc

/-- The value of digits is that of the library. -/
theorem natOfDigits_eq (cs : List Char) : natOfDigits cs = Nat.ofDigitChars 10 cs 0 := by
  simp [natOfDigits, Nat.ofDigitChars, Nat.mul_comm]

/-- A number is the value of its digits. -/
@[simp] theorem natOfDigits_toDigits (n : Nat) : natOfDigits (Nat.toDigits 10 n) = n := by
  rw [natOfDigits_eq, Nat.ofDigitChars_ten_toDigits]

/-- Digits in front are worth a power of ten more. -/
theorem natOfDigits_append (front behind : List Char) :
    natOfDigits (front ++ behind) = natOfDigits front * 10 ^ behind.length + natOfDigits behind := by
  rw [natOfDigits_eq, natOfDigits_eq, natOfDigits_eq, Nat.ofDigitChars_append,
    Nat.ofDigitChars_eq_ofDigitChars_zero, Nat.mul_comm]

/-- Zeros have no value. -/
theorem natOfDigits_replicate (k : Nat) : natOfDigits (List.replicate k '0') = 0 := by
  rw [natOfDigits_eq, Nat.ofDigitChars_replicate_zero]
  simp

/-- Only zero starts with the digit zero. -/
theorem head?_toDigits {n : Nat} (h : (Nat.toDigits 10 n).head? = some '0') : n = 0 := by
  induction n using Nat.strongRecOn with
  | ind n ih =>
    by_cases hsmall : n < 10
    · rw [Nat.toDigits_of_lt_base hsmall] at h
      have hdigit : Nat.digitChar n = '0' := by simpa using h
      have hinjective : ∀ k < 10, Nat.digitChar k = '0' → k = 0 := by decide
      exact hinjective n hsmall hdigit
    · rw [Nat.toDigits_of_base_le (by decide) (by omega),
        List.head?_append_of_ne_nil _ Nat.toDigits_ne_nil] at h
      have := ih (n / 10) (by omega) h
      omega

/-- The digits of a number are a whole number. -/
theorem whole_toDigits (n : Nat) : Whole (Nat.toDigits 10 n) where
  digits := digits_toDigits n
  nonempty := Nat.toDigits_ne_nil
  zero h := by
    rw [head?_toDigits h]
    rfl

/-! ## Reading the parts of a number -/

/-- Digits are split off where something else begins. -/
theorem takeWhile_digits {cs rest : List Char} (hcs : Digits cs)
    (hrest : ∀ c, rest.head? = some c → isDigit c = false) :
    (cs ++ rest).takeWhile isDigit = cs ∧ (cs ++ rest).dropWhile isDigit = rest := by
  rw [List.takeWhile_append_of_pos hcs, List.dropWhile_append_of_pos hcs]
  cases rest with
  | nil => simp
  | cons c rest =>
    have hc := hrest c rfl
    rw [List.takeWhile_cons_of_neg (by simp [hc]), List.dropWhile_cons_of_neg (by simp [hc])]
    simp

/-- Digits are read as far as they go. -/
theorem run_takeWhile_digits {cs rest : List Char} (hcs : Digits cs)
    (hrest : ∀ c, rest.head? = some c → isDigit c = false) :
    (Reader.takeWhile isDigit).run (cs ++ rest) = .ok (cs, rest) := by
  rw [run_takeWhile, (takeWhile_digits hcs hrest).1, (takeWhile_digits hcs hrest).2]

/-- A whole number is read where no digit follows. -/
theorem readWhole_run {cs rest : List Char} (hcs : Whole cs)
    (hrest : ∀ c, rest.head? = some c → isDigit c = false) :
    readWhole.run (cs ++ rest) = .ok (cs, rest) := by
  obtain ⟨c, cs, rfl⟩ := List.exists_cons_of_ne_nil hcs.nonempty
  have hdigit := hcs.digits c (by simp)
  have hbehind : Digits cs := fun d hd => hcs.digits d (List.mem_cons_of_mem _ hd)
  rw [readWhole, List.cons_append, run_bind_ok (run_next _)]
  -- A zero must stand alone, so it is the whole number.
  by_cases hzero : c = '0'
  · obtain rfl : cs = [] := by simpa [hzero] using hcs.zero (by simp [hzero])
    have hpeek : rest.head?.any isDigit = false := by
      cases rest with
      | nil => rfl
      | cons d rest => exact hrest d rfl
    subst hzero
    simp only [List.nil_append, List.head?_cons, List.tail_cons]
    rw [run_bind_ok (run_peek _), if_neg (by simp [hpeek])]
    rfl
  · simp only [List.head?_cons, List.tail_cons]
    rw [if_pos hdigit, run_bind_ok (run_takeWhile_digits hbehind hrest)]
    rfl

/-- A point and its digits are read. -/
theorem readFraction_run {digits rest : List Char} (hdigits : Digits digits) (hne : digits ≠ [])
    (hrest : ∀ c, rest.head? = some c → isDigit c = false) :
    readFraction.run ('.' :: digits ++ rest) = .ok (some digits, rest) := by
  rw [readFraction, List.cons_append, run_bind_ok (run_peek _)]
  simp only [List.head?_cons]
  rw [run_bind_ok (run_drop _), List.tail_cons, run_bind_ok (run_takeWhile_digits hdigits hrest)]
  simp [hne]
  rfl

/-- Without a point there is no fraction. -/
theorem readFraction_run_none {rest : List Char} (hrest : rest.head? ≠ some '.') :
    readFraction.run rest = .ok (none, rest) := by
  rw [readFraction, run_bind_ok (run_peek _)]
  split
  · contradiction
  · rfl

/-- Without its letter there is no exponent. -/
theorem readExponent_run_none {rest : List Char} (h : rest.head? ≠ some 'e')
    (h' : rest.head? ≠ some 'E') : readExponent.run rest = .ok (none, rest) := by
  rw [readExponent, run_bind_ok (run_peek _), if_neg (by simp [h, h'])]
  rfl

/-- A letter, a sign and digits are read as an exponent. -/
theorem readExponent_run {sign : Char} (hsign : sign = '+' ∨ sign = '-') {digits rest : List Char}
    (hdigits : Digits digits) (hne : digits ≠ [])
    (hrest : ∀ c, rest.head? = some c → isDigit c = false) :
    readExponent.run ('e' :: sign :: digits ++ rest) =
      .ok (some (if sign = '-' then -(natOfDigits digits : Int) else natOfDigits digits), rest) := by
  obtain ⟨c, cs, rfl⟩ := List.exists_cons_of_ne_nil hne
  have hbehind : Digits cs := fun d hd => hdigits d (List.mem_cons_of_mem _ hd)
  have htake := run_takeWhile_digits hbehind hrest
  have hc := hdigits c (by simp)
  rw [readExponent, List.cons_append, run_bind_ok (run_peek _), if_pos (.inl rfl),
    run_bind_ok (run_drop _), List.tail_cons, run_bind_ok (run_peek _)]
  -- Both signs are read the same way; the minus turns the value around.
  rcases hsign with rfl | rfl
  · rw [if_pos (.inl rfl), run_bind_ok (run_drop _)]
    show (if isDigit c then _ else _ : Reader (Option Int)).run (cs ++ rest) = _
    rw [if_pos hc, run_bind_ok htake]
    rfl
  · rw [if_pos (.inr rfl), run_bind_ok (run_drop _)]
    show (if isDigit c then _ else _ : Reader (Option Int)).run (cs ++ rest) = _
    rw [if_pos hc, run_bind_ok htake]
    rfl

/-! ## Reading a whole number text -/

/-- A number is read in parts: its sign, the whole number, the fraction and the exponent. -/
theorem readNumber_run {negative : Bool} {whole behind behind' rest : List Char}
    {fraction : Option (List Char)} {exponent : Option Int} {number : Number} (hwhole : Whole whole)
    (hbehind : ∀ c, behind.head? = some c → isDigit c = false)
    (hfraction : readFraction.run behind = .ok (fraction, behind'))
    (hexponent : readExponent.run behind' = .ok (exponent, rest))
    (hparts : numberOfParts negative whole fraction exponent = .ok number) :
    readNumber.run ((if negative then ['-'] else []) ++ whole ++ behind) = .ok (number, rest) := by
  have hbody : ((do
      let whole ← readWhole
      let fraction ← readFraction
      let exponent ← readExponent
      numberOfParts negative whole fraction exponent) : Reader Number).run (whole ++ behind)
        = .ok (number, rest) := by
    rw [run_bind_ok (readWhole_run hwhole hbehind), run_bind_ok hfraction, run_bind_ok hexponent,
      hparts]
    rfl
  cases negative with
  | true => exact hbody
  | false =>
    -- Without a sign the first character is a digit, so none is taken for one.
    have hminus : ¬ (whole ++ behind).head? = some '-' := by
      obtain ⟨c, cs, rfl⟩ := List.exists_cons_of_ne_nil hwhole.nonempty
      have hdigit := hwhole.digits c (by simp)
      intro hhead
      obtain rfl : c = '-' := by simpa using hhead
      exact absurd hdigit (by decide)
    rw [readNumber, run_bind_ok (run_peek _)]
    simp only [Bool.false_eq_true, if_false, List.nil_append, hminus, decide_false]
    exact hbody

/-- No digit follows where a number ends. -/
theorem Ends.digit {rest : List Char} (h : Ends rest) (c : Char) (hc : rest.head? = some c) :
    isDigit c = false :=
  (h c hc).1

/-- No fraction follows where a number ends. -/
theorem Ends.readFraction {rest : List Char} (h : Ends rest) :
    readFraction.run rest = .ok (none, rest) :=
  readFraction_run_none fun hc => (h _ hc).2.1 rfl

/-- No exponent follows where a number ends. -/
theorem Ends.readExponent {rest : List Char} (h : Ends rest) :
    readExponent.run rest = .ok (none, rest) :=
  readExponent_run_none (fun hc => (h _ hc).2.2.1 rfl) fun hc => (h _ hc).2.2.2 rfl

/-- An integer is written with its sign in front of its digits. -/
theorem integerChars_eq (n : Int) :
    integerChars n = (if decide (n < 0) then ['-'] else []) ++ Nat.toDigits 10 n.natAbs := by
  simp only [integerChars, decide_eq_true_eq]
  split <;> rfl

/-- Whole numbers of 64 bits, signed or unsigned, are read back. -/
theorem readNumber_integer {n : Int} (hlow : -2 ^ 63 ≤ n) (hhigh : n < 2 ^ 64) {rest : List Char}
    (hends : Ends rest) : readNumber.run (integerChars n ++ rest) = .ok (.integer n, rest) := by
  have hparts : numberOfParts (decide (n < 0)) (Nat.toDigits 10 n.natAbs) none none
      = .ok (.integer n) := by
    simp only [numberOfParts, natOfDigits_toDigits]
    -- A negative integer is read if its size fits, any other one as unsigned.
    by_cases hsign : n < 0
    · have hsize : 0 < n.natAbs ∧ n.natAbs ≤ 1 <<< 63 := by
        rw [Nat.one_shiftLeft]
        omega
      have hvalue : -(n.natAbs : Int) = n := by omega
      rw [decide_eq_true hsign, if_neg (by simp), if_pos (by simpa using hsize), hvalue]
    · have hsize : n.natAbs < UInt64.size := by
        rw [UInt64.size]
        omega
      have hvalue : (n.natAbs : Int) = n := by omega
      rw [decide_eq_false hsign, if_pos (by simpa using hsize), hvalue]
  rw [integerChars_eq]
  exact readNumber_run (whole_toDigits _) hends.digit hends.readFraction hends.readExponent hparts

/-! ## The layout of a fraction -/

/-- The value of a number's parts. -/
def partsValue (whole fraction : List Char) (power : Int) : ℚ :=
  natOfDigits (whole ++ fraction) * 10 ^ (power - fraction.length)

/-- Zeros are digits. -/
theorem digits_zeros (k : Nat) : Digits (List.replicate k '0') := fun c hc => by
  rw [(List.mem_replicate.1 hc).2]
  decide

/-- Two lists of digits are digits. -/
theorem Digits.append {front behind : List Char} (hfront : Digits front) (hbehind : Digits behind) :
    Digits (front ++ behind) :=
  fun c hc => (List.mem_append.1 hc).elim (hfront c) (hbehind c)

/-- Positional digits around a point have the value of the digits. -/
theorem positional_parts {digits : List Char} (hdigits : Digits digits) (hne : digits ≠ [])
    {lead : Int} (hzero : digits.head? = some '0' → digits = ['0'] ∧ lead = 0) :
    ∃ whole fraction, DecimalLayout.positional digits lead = whole ++ '.' :: fraction ∧ Whole whole ∧
      Digits fraction ∧ fraction ≠ [] ∧
      partsValue whole fraction 0 = natOfDigits digits * 10 ^ (lead + 1 - digits.length) := by
  unfold DecimalLayout.positional
  split
  · -- zeros between the point and the digits
    rename_i hlead
    refine ⟨['0'], List.replicate (-lead - 1).toNat '0' ++ digits, rfl, whole_toDigits 0,
      (digits_zeros _).append hdigits, by simp [hne], ?_⟩
    have hvalue : natOfDigits (['0'] ++ (List.replicate (-lead - 1).toNat '0' ++ digits))
        = natOfDigits digits := by
      rw [natOfDigits_append, natOfDigits_append, natOfDigits_replicate, show natOfDigits ['0'] = 0 from rfl]
      simp
    rw [partsValue, hvalue, List.length_append, List.length_replicate]
    congr 2
    omega
  · rename_i hlead
    obtain ⟨k, rfl⟩ := Int.eq_ofNat_of_zero_le (not_lt.1 hlead)
    simp only [Int.toNat_natCast]
    by_cases hlong : k + 1 < digits.length
    · -- the point stands among the digits
      have hdrop : digits.drop (k + 1) ≠ [] := by simpa using hlong
      have hvalue : natOfDigits (digits.take (k + 1) ++ digits.drop (k + 1)) = natOfDigits digits := by
        rw [List.take_append_drop]
      refine ⟨digits.take (k + 1), digits.drop (k + 1), ?_, ⟨?_, ?_, ?_⟩, ?_, hdrop, ?_⟩
      · rw [show k + 1 - digits.length = 0 by omega, List.replicate_zero, List.append_nil,
          if_neg (by simpa using hlong)]
      · exact fun c hc => hdigits c (List.mem_of_mem_take hc)
      · simp [hne]
      · intro hhead
        rw [List.head?_take, if_neg (by omega)] at hhead
        rw [(hzero hhead).1] at hlong
        simp at hlong
      · exact fun c hc => hdigits c (List.mem_of_mem_drop hc)
      · rw [partsValue, hvalue, List.length_drop]
        congr 2
        omega
    · -- zeros between the digits and the point
      have hshort : digits.length ≤ k + 1 := not_lt.1 hlong
      set zeros := List.replicate (k + 1 - digits.length) '0' with hzeros
      have hlength : (digits ++ zeros).length = k + 1 := by
        rw [List.length_append, hzeros, List.length_replicate]
        omega
      refine ⟨digits ++ zeros, ['0'], ?_, ⟨hdigits.append (digits_zeros _), ?_, ?_⟩, digits_zeros 1,
        by simp, ?_⟩
      · rw [List.take_of_length_le hlength.le, List.drop_eq_nil_of_le hshort]
        rfl
      · simp [hne]
      · intro hhead
        rw [List.head?_append_of_ne_nil _ hne] at hhead
        obtain ⟨hsingle, hlead0⟩ := hzero hhead
        obtain rfl : k = 0 := by omega
        simp [hzeros, hsingle]
      · have hvalue : natOfDigits (digits ++ zeros ++ ['0'])
            = natOfDigits digits * 10 ^ (k + 1 - digits.length) * 10 := by
          rw [natOfDigits_append, natOfDigits_append, hzeros, natOfDigits_replicate,
            List.length_replicate]
          simp [natOfDigits]
        rw [partsValue, hvalue, show (k : Int) + 1 - digits.length = ((k + 1 - digits.length : ℕ) : Int) by omega,
          zpow_natCast]
        push_cast
        norm_num
        ring

/-- One digit and the others behind a point, if there are any, have the value of the digits. -/
theorem scientific_parts {digits : List Char} (hdigits : Digits digits) (hne : digits ≠ [])
    (lead : Int) {rest : List Char} (hends : Ends rest) :
    ∃ whole behind behind' fraction, realLayout.scientific digits lead ++ rest = whole ++ behind ∧
      Whole whole ∧ (∀ c, behind.head? = some c → isDigit c = false) ∧
      readFraction.run behind = .ok (fraction, behind') ∧
      readExponent.run behind' = .ok (some lead, rest) ∧
      partsValue whole (fraction.getD []) lead
        = natOfDigits digits * 10 ^ (lead + 1 - digits.length) := by
  obtain ⟨first, others, rfl⟩ := List.exists_cons_of_ne_nil hne
  set sign : Char := if lead < 0 then '-' else '+' with hsign
  set tail := 'e' :: sign :: Nat.toDigits 10 lead.natAbs ++ rest with htail
  -- The exponent is written with its sign, also when it is not negative.
  have hexponent : readExponent.run tail = .ok (some lead, rest) := by
    have hsigns : sign = '+' ∨ sign = '-' := by
      rw [hsign]
      split <;> simp
    have hrun := readExponent_run hsigns
      (digits_toDigits lead.natAbs) Nat.toDigits_ne_nil hends.digit
    rw [natOfDigits_toDigits] at hrun
    have hvalue : (if sign = '-' then -(lead.natAbs : Int) else lead.natAbs) = lead := by
      by_cases hlead : lead < 0
      · rw [hsign, if_pos hlead, if_pos rfl]
        omega
      · rw [hsign, if_neg hlead, if_neg (by decide)]
        omega
    rw [htail, hrun, hvalue]
  have hfirst : Whole [first] :=
    ⟨fun c hc => hdigits c (by simp_all), by simp, fun h => by simpa using h⟩
  have hothers : Digits others := fun c hc => hdigits c (List.mem_cons_of_mem _ hc)
  have htext : realLayout.scientific (first :: others) lead ++ rest
      = [first] ++ ((if others.isEmpty then [] else '.' :: others) ++ tail) := by
    simp only [DecimalLayout.scientific, htail, hsign, realLayout]
    by_cases hlead : lead < 0 <;> simp [hlead]
  have hvalue : partsValue [first] others lead
      = natOfDigits (first :: others) * 10 ^ (lead + 1 - (first :: others).length) := by
    rw [partsValue, List.singleton_append, List.length_cons]
    congr 2
    omega
  -- A single digit has no point behind it.
  by_cases hempty : others = []
  · refine ⟨[first], tail, tail, none, ?_, hfirst, ?_, ?_, hexponent, ?_⟩
    · rw [htext, hempty]
      rfl
    · intro c hc
      obtain rfl : c = 'e' := by simpa [htail] using hc.symm
      decide
    · exact readFraction_run_none (by simp [htail])
    · rw [← hvalue, hempty]
      rfl
  · refine ⟨[first], '.' :: others ++ tail, tail, some others, ?_, hfirst, ?_, ?_, hexponent, hvalue⟩
    · rw [htext, if_neg (by simpa using hempty)]
    · intro c hc
      obtain rfl : c = '.' := by simpa using hc.symm
      decide
    · refine readFraction_run hothers hempty fun c hc => ?_
      obtain rfl : c = 'e' := by simpa [htail] using hc.symm
      decide

/-! ## Reading a fraction -/

/-- Parts with the value of the shortest decimal give the double back. -/
theorem numberOfParts_real {x : Binary64} (hfinite : x.isFinite = true) {whole : List Char}
    {fraction : Option (List Char)} {power : Option Int}
    (hvalue : partsValue whole (fraction.getD []) (power.getD 0) = (x.shortest .even).value)
    (hparts : fraction.isSome = true ∨ power.isSome = true) :
    numberOfParts x.isNegative whole fraction power = .ok (.real x) := by
  have hround := Binary64.ofDecimal_of_value hfinite
    (d := ⟨natOfDigits (whole ++ fraction.getD []), power.getD 0 - (fraction.getD []).length⟩) hvalue
  simp only [numberOfParts]
  split
  · simp at hparts
  · rw [hround]

/-- In either notation a fraction is a whole part and a part behind it, and together they give the
double back. -/
theorem realChars_parts {x : Binary64} (hfinite : x.isFinite = true) {rest : List Char}
    (hends : Ends rest) :
    ∃ whole behind behind' fraction power,
      realChars x ++ rest = (if x.isNegative then ['-'] else []) ++ whole ++ behind ∧ Whole whole ∧
      (∀ c, behind.head? = some c → isDigit c = false) ∧
      readFraction.run behind = .ok (fraction, behind') ∧
      readExponent.run behind' = .ok (power, rest) ∧
      numberOfParts x.isNegative whole fraction power = .ok (.real x) := by
  set d := x.shortest .even with hd
  set digits := Nat.toDigits 10 d.digits with hdigits
  set lead := if d.digits = 0 then 0 else d.exponent + digits.length - 1 with hlead
  have hne : digits ≠ [] := Nat.toDigits_ne_nil
  have hzero (h : digits.head? = some '0') : digits = ['0'] ∧ lead = 0 := by
    have hnone : d.digits = 0 := head?_toDigits h
    rw [hdigits, hlead, hnone]
    exact ⟨rfl, rfl⟩
  have hvalue : (natOfDigits digits * 10 ^ (lead + 1 - digits.length) : ℚ) = d.value := by
    rw [Decimal.value, hlead, hdigits, natOfDigits_toDigits]
    split_ifs with hnone
    · simp [hnone]
    · congr 2
      omega
  have htext : realChars x = (if x.isNegative then ['-'] else []) ++
      (if -5 ≤ lead ∧ lead ≤ 15 then DecimalLayout.positional digits lead
        else realLayout.scientific digits lead) := by
    rw [realChars, if_pos hfinite, DecimalLayout.render, String.toList_ofList]
    split <;> rfl
  -- The notation depends on the power of the first digit.
  by_cases hpositional : -5 ≤ lead ∧ lead ≤ 15
  · obtain ⟨whole, fraction, hlayout, hwhole, hfraction, hfractionNe, hsame⟩ :=
      positional_parts (digits_toDigits d.digits) hne hzero
    refine ⟨whole, '.' :: fraction ++ rest, rest, some fraction, none, ?_, hwhole, ?_,
      readFraction_run hfraction hfractionNe hends.digit, hends.readExponent, ?_⟩
    · rw [htext, if_pos hpositional, hlayout]
      simp only [List.append_assoc]
    · intro c hc
      obtain rfl : c = '.' := by simpa using hc.symm
      decide
    · exact numberOfParts_real hfinite (hsame.trans hvalue) (.inl rfl)
  · obtain ⟨whole, behind, behind', fraction, hlayout, hwhole, hbehind, hfraction, hexponent, hsame⟩ :=
      scientific_parts (digits_toDigits d.digits) hne lead hends
    refine ⟨whole, behind, behind', fraction, some lead, ?_, hwhole, hbehind, hfraction, hexponent,
      numberOfParts_real hfinite (hsame.trans hvalue) (.inr rfl)⟩
    rw [htext, if_neg hpositional, List.append_assoc, hlayout, List.append_assoc]

/-- Finite doubles are read back, bit for bit. -/
theorem readNumber_real {x : Binary64} (hfinite : x.isFinite = true) {rest : List Char}
    (hends : Ends rest) : readNumber.run (realChars x ++ rest) = .ok (.real x, rest) := by
  obtain ⟨whole, behind, behind', fraction, power, htext, hwhole, hbehind, hfraction, hexponent,
    hnumber⟩ := realChars_parts hfinite hends
  rw [htext]
  exact readNumber_run hwhole hbehind hfraction hexponent hnumber

/-! ## The first character of a number -/

/-- The first character of a number: a sign or a digit. -/
def StartsNumber (c : Char) : Prop :=
  c = '-' ∨ isDigit c = true

/-- A number starts with a digit or a sign. -/
theorem Whole.starts {whole : List Char} (h : Whole whole) (negative : Bool) (behind : List Char) :
    ∃ c cs, (if negative then ['-'] else []) ++ whole ++ behind = c :: cs ∧ StartsNumber c := by
  obtain ⟨c, cs, rfl⟩ := List.exists_cons_of_ne_nil h.nonempty
  cases negative with
  | true => exact ⟨'-', c :: cs ++ behind, rfl, .inl rfl⟩
  | false => exact ⟨c, cs ++ behind, rfl, .inr (h.digits c (by simp))⟩

/-- An integer starts with a digit or a sign. -/
theorem integerChars_starts (n : Int) : ∃ c cs, integerChars n = c :: cs ∧ StartsNumber c := by
  have hstarts := (whole_toDigits n.natAbs).starts (decide (n < 0)) []
  rwa [List.append_nil, ← integerChars_eq] at hstarts

/-- A finite double starts with a digit or a sign. -/
theorem realChars_starts {x : Binary64} (hfinite : x.isFinite = true) :
    ∃ c cs, realChars x = c :: cs ∧ StartsNumber c := by
  obtain ⟨whole, behind, -, -, -, htext, hwhole, -⟩ :=
    realChars_parts hfinite ends_nil
  rw [List.append_nil] at htext
  rw [htext]
  exact hwhole.starts x.isNegative behind

end HlsEmit.Json
