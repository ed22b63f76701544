import HlsEmit.Proofs.Json.Meaning

/-!
# What a reader has consumed

The converse of reading back: from a reader that succeeds to the grammar. If a reader of a piece
returns a value, the text in front of what it left is a written form of that piece.

## Key results

- `readText_consumed`, `skipText_consumed`: the inside of a text
- `readNumber_consumed`, `skipNumber_consumed`: a number
- `skipValue_consumed`: a whole value
-/

namespace HlsEmit.Json

open Reader

variable {α β : Type}

/-! ## Runs that succeed -/

/-- Two readers succeed if the second does where the first stops. -/
theorem run_bind_eq_ok {first : Reader α} {next : α → Reader β} {text : List Char}
    {result : β × List Char} : (first >>= next).run text = .ok result ↔
      ∃ value mid, first.run text = .ok (value, mid) ∧ (next value).run mid = .ok result := by
  rw [StateT.run_bind]
  cases first.run text with
  | error fault => simp [bind, Except.bind]
  | ok pair =>
    obtain ⟨value, mid⟩ := pair
    constructor
    · exact fun h => ⟨value, mid, rfl, h⟩
    · rintro ⟨_, _, hfirst, h⟩
      cases hfirst
      exact h

/-- A value alone is read from any text and takes nothing of it. -/
theorem run_pure_eq_ok {value : α} {text : List Char} {result : α × List Char} :
    (pure value : Reader α).run text = .ok result ↔ (value, text) = result := by
  rw [StateT.run_pure]
  simp [pure, Except.pure]

/-- A checked value takes nothing of the text. -/
theorem run_lift_eq_ok {value : Except Fault α} {text : List Char} {result : α × List Char} :
    (liftM value : Reader α).run text = .ok result ↔ value = .ok result.1 ∧ text = result.2 := by
  obtain ⟨value', rest⟩ := result
  cases value with
  | error fault =>
    constructor
    · nofun
    · rintro ⟨⟨⟩, -⟩
  | ok value =>
    constructor
    · intro h
      cases h
      exact ⟨rfl, rfl⟩
    · rintro ⟨hvalue, rfl⟩
      cases hvalue
      rfl

/-- A flaw is no result. -/
theorem run_flaw_eq_ok {cause : SyntaxFault} {text : List Char} {result : α × List Char} :
    (flaw cause : Reader α).run text = .ok result ↔ False :=
  ⟨nofun, False.elim⟩

/-- A mismatch is no result. -/
theorem run_mismatch_eq_ok {cause : DataFault} {text : List Char} {result : α × List Char} :
    (mismatch cause : Reader α).run text = .ok result ↔ False :=
  ⟨nofun, False.elim⟩

/-! ## Words, blanks and colons -/

/-- No blank at all is a gap. -/
theorem Gap.refl (input : List Char) : Gap input input :=
  ⟨[], blank_nil, rfl⟩

/-- Two gaps in a row are one. -/
theorem Gap.trans {input mid rest : List Char} (h : Gap input mid) (h' : Gap mid rest) :
    Gap input rest := by
  obtain ⟨gap, hgap, rfl⟩ := h
  obtain ⟨gap', hgap', rfl⟩ := h'
  exact ⟨gap ++ gap', hgap.append hgap', (List.append_assoc _ _ _).symm⟩

/-- What is dropped in front of a token is a gap. -/
theorem gap_dropWhile (input : List Char) : Gap input (input.dropWhile isBlank) :=
  ⟨input.takeWhile isBlank, fun _ hc => (List.all_eq_true.1 (List.all_takeWhile)) _ hc,
    (List.takeWhile_append_dropWhile).symm⟩

/-- Looking at the next token takes the gap in front of it. -/
theorem peekToken_consumed {next : Option Char} {input mid : List Char}
    (h : peekToken.run input = .ok (next, mid)) : Gap input mid ∧ mid.head? = next := by
  simp only [peekToken, run_bind_eq_ok, run_modify, run_peek, Except.ok.injEq, Prod.mk.injEq] at h
  obtain ⟨_, _, ⟨-, rfl⟩, rfl, rfl⟩ := h
  exact ⟨gap_dropWhile input, rfl⟩

/-- The token that is looked at stands next. -/
theorem peekToken_consumed_some {c : Char} {input mid : List Char}
    (h : peekToken.run input = .ok (some c, mid)) : ∃ rest, mid = c :: rest ∧ Gap input mid := by
  obtain ⟨hgap, hhead⟩ := peekToken_consumed h
  obtain ⟨rest, rfl⟩ := List.head?_eq_some_iff.1 hhead
  exact ⟨rest, rfl, hgap⟩

/-- A word is taken as it is. -/
theorem readWord_consumed {word input rest : List Char}
    (h : (readWord word).run input = .ok ((), rest)) : input = word ++ rest := by
  induction word generalizing input with
  | nil =>
    rw [readWord, run_pure_eq_ok] at h
    exact (Prod.mk.inj h).2
  | cons c word ih =>
    simp only [readWord, run_bind_eq_ok, run_next, Except.ok.injEq, Prod.mk.injEq] at h
    obtain ⟨next, _, ⟨rfl, rfl⟩, h⟩ := h
    cases input with
    | nil => cases h
    | cons d input =>
      by_cases hd : d = c
      · simp only [List.head?_cons, hd, if_true, List.tail_cons] at h
        rw [hd, ih h, List.cons_append]
      · simp only [List.head?_cons, hd, if_false, run_flaw_eq_ok] at h

/-- A colon is taken with the gap in front of it. -/
theorem readColon_consumed {input rest : List Char} (h : readColon.run input = .ok ((), rest)) :
    Gap input (':' :: rest) := by
  simp only [readColon, run_bind_eq_ok] at h
  obtain ⟨next, mid, hpeek, h⟩ := h
  split at h
  · obtain ⟨behind, rfl, hgap⟩ := peekToken_consumed_some hpeek
    cases h
    exact hgap
  · cases h
  · cases h

/-! ## Texts -/

/-- A unit outside of the surrogates is one character. -/
theorem charsOf?_unit {unit : Nat} (htrail : isTrailSurrogate unit = false)
    (hlead : isLeadSurrogate unit = false) (units : CodeUnits) :
    charsOf? (unit :: units) = (charsOf? units).map (Char.ofNat unit :: ·) := by
  cases units <;> simp [charsOf?, htrail, hlead]

/-- Two surrogates are one character. -/
theorem charsOf?_pair {unit second : Nat} (htrail : isTrailSurrogate unit = false)
    (hlead : isLeadSurrogate unit = true) (hsecond : isTrailSurrogate second = true)
    (units : CodeUnits) : charsOf? (unit :: second :: units) = (charsOf? units).map
      (Char.ofNat (0x10000 + (unit - 0xd800) * 0x400 + (second - 0xdc00)) :: ·) := by
  simp [charsOf?, htrail, hlead, hsecond]

/-- A character has the code units that stand for it. -/
theorem charsOf?_unitsOf (c : Char) (units : CodeUnits) :
    charsOf? (unitsOf c ++ units) = (charsOf? units).map (c :: ·) := by
  have hvalid : c.toNat < 0xd800 ∨ 0xdfff < c.toNat ∧ c.toNat < 0x110000 := c.valid
  unfold unitsOf
  -- Below `0x10000` one unit, above it a pair whose halves are taken apart and put together again.
  split
  · have htrail : isTrailSurrogate c.toNat = false := by simp [isTrailSurrogate]; omega
    have hlead : isLeadSurrogate c.toNat = false := by simp [isLeadSurrogate]; omega
    rw [List.singleton_append, charsOf?_unit htrail hlead, Char.ofNat_toNat]
  · have htrail : isTrailSurrogate (0xd800 + (c.toNat - 0x10000) / 0x400) = false := by
      simp [isTrailSurrogate]; omega
    have hlead : isLeadSurrogate (0xd800 + (c.toNat - 0x10000) / 0x400) = true := by
      simp [isLeadSurrogate]; omega
    have hsecond : isTrailSurrogate (0xdc00 + (c.toNat - 0x10000) % 0x400) = true := by
      simp [isTrailSurrogate]; omega
    have hvalue : 0x10000 + (0xd800 + (c.toNat - 0x10000) / 0x400 - 0xd800) * 0x400
        + (0xdc00 + (c.toNat - 0x10000) % 0x400 - 0xdc00) = c.toNat := by omega
    rw [List.cons_append, List.singleton_append, charsOf?_pair htrail hlead hsecond, hvalue,
      Char.ofNat_toNat]

/-- The escapes by a letter stand for characters of one code unit. -/
theorem unitsOf_simpleEscape {c d : Char} (h : simpleEscape? c = some d) :
    unitsOf d = [d.toNat] := by
  have hsmall : d.toNat < 0x10000 := by
    unfold simpleEscape? at h
    split at h <;> cases h <;> decide
  rw [unitsOf, if_pos hsmall]

/-- The text itself is read without taking any of it. -/
theorem run_get_eq_ok {text : List Char} {result : List Char × List Char} :
    (get : Reader (List Char)).run text = .ok result ↔ (text, text) = result := by
  rw [StateT.run_get]
  simp [pure, Except.pure]

/-- Four digits with these values stand at the front. -/
theorem mapM_take_four {digit : Char → Option Nat} {input : List Char} {v w x y : Nat}
    (h : (input.take 4).mapM digit = some [v, w, x, y]) :
    ∃ a b c d rest, input = a :: b :: c :: d :: rest ∧
      digit a = some v ∧ digit b = some w ∧ digit c = some x ∧ digit d = some y := by
  match input with
  | [] => simp at h
  | [_] | [_, _] | [_, _, _] => simp [Option.bind_eq_some_iff] at h
  | a :: b :: c :: d :: rest =>
    exact ⟨a, b, c, d, rest, rfl, by simpa [Option.bind_eq_some_iff] using h⟩

/-- Four hexadecimal digits are one code unit. -/
theorem readHex4_consumed {unit : Nat} {input rest : List Char}
    (h : readHex4.run input = .ok (unit, rest)) :
    ∃ a b c d, input = a :: b :: c :: d :: rest ∧ unitOf? a b c d = some unit := by
  simp only [readHex4, run_bind_eq_ok, run_get_eq_ok, Prod.mk.injEq] at h
  obtain ⟨_, _, ⟨rfl, rfl⟩, h⟩ := h
  split at h
  · rename_i hdigits
    obtain ⟨a, b, c, d, behind, rfl, ha, hb, hc, hd⟩ := mapM_take_four hdigits
    cases h
    exact ⟨a, b, c, d, rfl, by simp [unitOf?, ha, hb, hc, hd]⟩
  · split at h <;> cases h

/-- One character of an escape is taken as it is. -/
theorem readPairCharacter_consumed {c : Char} {input rest : List Char}
    (h : (readPairCharacter c).run input = .ok ((), rest)) : input = c :: rest := by
  simp only [readPairCharacter, run_bind_eq_ok, run_peek, Except.ok.injEq, Prod.mk.injEq] at h
  obtain ⟨next, _, ⟨rfl, rfl⟩, h⟩ := h
  cases input with
  | nil => cases h
  | cons d input =>
    by_cases hd : d = c
    · simp only [List.head?_cons, hd, if_true, run_drop, List.tail_cons, Except.ok.injEq,
        Prod.mk.injEq, true_and] at h
      rw [hd, h]
    · simp only [List.head?_cons, hd, if_false, run_flaw_eq_ok] at h

/-- A numeric escape is one code unit, or two that form a pair. -/
theorem readUnicodeEscape_consumed {c : Char} {input rest : List Char}
    (h : readUnicodeEscape.run input = .ok (c, rest)) {units : CodeUnits} {cs front : List Char}
    (hunits : Quoted units rest front) (hcs : charsOf? units = some cs) :
    ∃ units', Quoted units' ('\\' :: 'u' :: input) front ∧ charsOf? units' = some (c :: cs) := by
  simp only [readUnicodeEscape, run_bind_eq_ok] at h
  obtain ⟨unit, mid, hhex, h⟩ := h
  obtain ⟨a₁, a₂, a₃, a₄, rfl, hunit⟩ := readHex4_consumed hhex
  cases htrail : isTrailSurrogate unit with
  | true => simp only [htrail, if_true, run_flaw_eq_ok] at h
  | false =>
    -- only a leading surrogate asks for a second escape
    cases hlead : isLeadSurrogate unit with
    | false =>
      simp only [htrail, hlead, Bool.false_eq_true, if_false, run_pure_eq_ok, Prod.mk.injEq] at h
      obtain ⟨rfl, rfl⟩ := h
      exact ⟨unit :: units, .numeric hunit hunits, by rw [charsOf?_unit htrail hlead, hcs]; rfl⟩
    | true =>
      simp only [htrail, hlead, Bool.false_eq_true, if_false, if_true, run_bind_eq_ok] at h
      obtain ⟨_, _, hslash, _, _, hu, second, mid', hhex', h⟩ := h
      obtain rfl := readPairCharacter_consumed hslash
      obtain rfl := readPairCharacter_consumed hu
      obtain ⟨b₁, b₂, b₃, b₄, rfl, hunit'⟩ := readHex4_consumed hhex'
      cases hsecond : isTrailSurrogate second with
      | false => simp only [hsecond, Bool.false_eq_true, if_false, run_flaw_eq_ok] at h
      | true =>
        simp only [hsecond, if_true, run_pure_eq_ok, Prod.mk.injEq] at h
        obtain ⟨rfl, rfl⟩ := h
        exact ⟨unit :: second :: units, .numeric hunit (.numeric hunit' hunits), by
          rw [charsOf?_pair htrail hlead hsecond, hcs]; rfl⟩

/-- An escape is quoted in front of what is quoted behind it. -/
theorem readEscape_consumed {c : Char} {input rest : List Char}
    (h : readEscape.run input = .ok (c, rest)) {units : CodeUnits} {cs front : List Char}
    (hunits : Quoted units rest front) (hcs : charsOf? units = some cs) :
    ∃ units', Quoted units' ('\\' :: input) front ∧ charsOf? units' = some (c :: cs) := by
  simp only [readEscape, run_bind_eq_ok, run_next, Except.ok.injEq, Prod.mk.injEq] at h
  obtain ⟨next, _, ⟨rfl, rfl⟩, h⟩ := h
  cases input with
  | nil => cases h
  | cons d input =>
    simp only [List.head?_cons, List.tail_cons] at h
    -- At the end of the text, a numeric escape, or one of the single letters.
    split at h
    · cases ‹some d = none›
    · cases ‹some d = some 'u'›
      exact readUnicodeEscape_consumed h hunits hcs
    · cases ‹some d = some _›
      split at h
      · rename_i escaped hescape
        rw [run_pure_eq_ok, Prod.mk.injEq] at h
        obtain ⟨rfl, rfl⟩ := h
        refine ⟨escaped.toNat :: units, .simple hescape hunits, ?_⟩
        have hchars := charsOf?_unitsOf escaped units
        rwa [unitsOf_simpleEscape hescape, hcs] at hchars
      · cases h

/-- The characters that are read are those that are quoted. -/
theorem readTextChars_consumed {fuel : Nat} {cs input rest : List Char}
    (h : (readTextChars fuel).run input = .ok (cs, rest)) :
    ∃ units, Quoted units input rest ∧ charsOf? units = some cs := by
  -- each character takes one unit of fuel, an escape of any length included
  induction fuel generalizing cs input with
  | zero => cases h
  | succ fuel ih =>
    simp only [readTextChars, run_bind_eq_ok, run_next, Except.ok.injEq, Prod.mk.injEq] at h
    obtain ⟨next, _, ⟨rfl, rfl⟩, h⟩ := h
    cases input with
    | nil => cases h
    | cons c input =>
      simp only [List.head?_cons, List.tail_cons] at h
      split at h
      · cases ‹some c = none›
      · cases ‹some c = some '"'›
        rw [run_pure_eq_ok, Prod.mk.injEq] at h
        obtain ⟨rfl, rfl⟩ := h
        exact ⟨[], .close, rfl⟩
      · cases ‹some c = some '\\'›
        simp only [run_bind_eq_ok, run_pure_eq_ok, Prod.mk.injEq] at h
        obtain ⟨first, mid, hescape, behind, _, hbehind, rfl, rfl⟩ := h
        obtain ⟨units, hunits, hcs⟩ := ih hbehind
        exact readEscape_consumed hescape hunits hcs
      · rename_i hquote hslash hsome
        cases hsome
        split at h
        · cases h
        · simp only [run_bind_eq_ok, run_pure_eq_ok, Prod.mk.injEq] at h
          obtain ⟨behind, _, hbehind, rfl, rfl⟩ := h
          obtain ⟨units, hunits, hcs⟩ := ih hbehind
          refine ⟨unitsOf c ++ units, .plain ?_ ?_ (by omega) hunits, ?_⟩
          · rintro rfl
            exact hquote rfl
          · rintro rfl
            exact hslash rfl
          · rw [charsOf?_unitsOf, hcs]
            rfl

/-- The text that is read is the one that is quoted. -/
theorem readText_consumed {fuel : Nat} {s : String} {input rest : List Char}
    (h : (readText fuel).run input = .ok (s, rest)) :
    ∃ units, Quoted units input rest ∧ textOf? units = some s := by
  simp only [readText, run_bind_eq_ok, run_pure_eq_ok, Prod.mk.injEq] at h
  obtain ⟨cs, _, hcs, rfl, rfl⟩ := h
  obtain ⟨units, hquoted, hunits⟩ := readTextChars_consumed hcs
  exact ⟨units, hquoted, by rw [textOf?, hunits]; rfl⟩

/-- A skipped escape is one, though its unit may stand for no character. -/
theorem skipEscape_consumed {input rest front : List Char} {units : CodeUnits}
    (h : skipEscape.run input = .ok ((), rest)) (hunits : Quoted units rest front) :
    ∃ units', Quoted units' ('\\' :: input) front := by
  simp only [skipEscape, run_bind_eq_ok, run_next, Except.ok.injEq, Prod.mk.injEq] at h
  obtain ⟨next, _, ⟨rfl, rfl⟩, h⟩ := h
  cases input with
  | nil => cases h
  | cons d input =>
    simp only [List.head?_cons, List.tail_cons] at h
    -- The cases are those of a read escape; the units are not asked to be characters.
    split at h
    · cases ‹some d = none›
    · cases ‹some d = some 'u'›
      simp only [run_bind_eq_ok, run_pure_eq_ok, Prod.mk.injEq, true_and] at h
      obtain ⟨unit, mid, hhex, rfl⟩ := h
      obtain ⟨a, b, c, d, rfl, hunit⟩ := readHex4_consumed hhex
      exact ⟨unit :: units, .numeric hunit hunits⟩
    · cases ‹some d = some _›
      split at h
      · rename_i hescape
        obtain ⟨escaped, hescape⟩ := Option.isSome_iff_exists.1 hescape
        rw [run_pure_eq_ok, Prod.mk.injEq] at h
        obtain ⟨-, rfl⟩ := h
        exact ⟨escaped.toNat :: units, .simple hescape hunits⟩
      · cases h

/-- Skipped text is quoted. -/
theorem skipText_consumed {fuel : Nat} {input rest : List Char}
    (h : (skipText fuel).run input = .ok ((), rest)) : ∃ units, Quoted units input rest := by
  induction fuel generalizing input with
  | zero => cases h
  | succ fuel ih =>
    simp only [skipText, run_bind_eq_ok, run_next, Except.ok.injEq, Prod.mk.injEq] at h
    obtain ⟨next, _, ⟨rfl, rfl⟩, h⟩ := h
    cases input with
    | nil => cases h
    | cons c input =>
      simp only [List.head?_cons, List.tail_cons] at h
      -- At the end of the text, the closing quote, an escape, or a plain character.
      split at h
      · cases ‹some c = none›
      · cases ‹some c = some '"'›
        rw [run_pure_eq_ok, Prod.mk.injEq] at h
        obtain ⟨-, rfl⟩ := h
        exact ⟨[], .close⟩
      · cases ‹some c = some '\\'›
        simp only [run_bind_eq_ok] at h
        obtain ⟨_, mid, hescape, hbehind⟩ := h
        obtain ⟨units, hunits⟩ := ih hbehind
        exact skipEscape_consumed hescape hunits
      · rename_i hquote hslash hsome
        cases hsome
        split at h
        · cases h
        · obtain ⟨units, hunits⟩ := ih h
          refine ⟨unitsOf c ++ units, .plain ?_ ?_ (by omega) hunits⟩
          · rintro rfl
            exact hquote rfl
          · rintro rfl
            exact hslash rfl

/-! ## Numbers -/

/-- Digits are taken as far as they go. -/
theorem takeWhile_consumed {digits input rest : List Char}
    (h : (Reader.takeWhile isDigit).run input = .ok (digits, rest)) :
    Digits digits ∧ input = digits ++ rest := by
  rw [run_takeWhile, Except.ok.injEq, Prod.mk.injEq] at h
  obtain ⟨rfl, rfl⟩ := h
  exact ⟨fun c hc => List.all_eq_true.1 List.all_takeWhile c hc, List.takeWhile_append_dropWhile.symm⟩

/-- A digit in front of digits. -/
theorem Digits.cons {c : Char} {digits : List Char} (hc : isDigit c = true) (h : Digits digits) :
    Digits (c :: digits) :=
  List.forall_mem_cons.2 ⟨hc, h⟩

/-- A whole number may start with any digit but zero. -/
theorem whole_cons {c : Char} {digits : List Char} (hc : isDigit c = true) (hzero : c ≠ '0')
    (h : Digits digits) : Whole (c :: digits) :=
  ⟨h.cons hc, by simp, fun hhead => absurd (Option.some.inj hhead) hzero⟩

/-- A whole number is taken from the front. -/
theorem readWhole_consumed {whole input rest : List Char}
    (h : readWhole.run input = .ok (whole, rest)) : Whole whole ∧ input = whole ++ rest := by
  simp only [readWhole, run_bind_eq_ok, run_next, Except.ok.injEq, Prod.mk.injEq] at h
  obtain ⟨next, _, ⟨rfl, rfl⟩, h⟩ := h
  cases input with
  | nil => cases h
  | cons c input =>
    simp only [List.head?_cons, List.tail_cons] at h
    -- A zero stands alone, any other first digit is followed by all digits there are.
    split at h
    · cases ‹some c = none›
    · cases ‹some c = some '0'›
      simp only [run_bind_eq_ok, run_peek, Except.ok.injEq, Prod.mk.injEq] at h
      obtain ⟨_, _, ⟨rfl, rfl⟩, h⟩ := h
      split at h
      · cases h
      · cases h
        exact ⟨whole_toDigits 0, rfl⟩
    · rename_i hzero hsome
      cases hsome
      split at h
      · rename_i hc
        simp only [run_bind_eq_ok, run_pure_eq_ok, Prod.mk.injEq] at h
        obtain ⟨digits, _, htake, rfl, rfl⟩ := h
        obtain ⟨hdigits, rfl⟩ := takeWhile_consumed htake
        exact ⟨whole_cons hc hzero hdigits, rfl⟩
      · cases h

/-- A fraction is taken from the front, and read the same in front of anything that does not go on
with it. -/
theorem readFraction_consumed {fraction : Option (List Char)} {input rest : List Char}
    (h : readFraction.run input = .ok (fraction, rest)) :
    ∃ part, Fraction part ∧ input = part ++ rest ∧
      ∀ behind, (∀ c, behind.head? = some c → isDigit c = false ∧ c ≠ '.') →
        readFraction.run (part ++ behind) = .ok (fraction, behind) := by
  simp only [readFraction, run_bind_eq_ok, run_peek, Except.ok.injEq, Prod.mk.injEq] at h
  obtain ⟨_, _, ⟨rfl, rfl⟩, h⟩ := h
  split at h
  · rename_i hpoint
    obtain ⟨input, rfl⟩ := List.head?_eq_some_iff.1 hpoint
    simp only [run_bind_eq_ok, run_drop, List.tail_cons, Except.ok.injEq, Prod.mk.injEq] at h
    obtain ⟨_, _, ⟨-, rfl⟩, digits, mid, htake, h⟩ := h
    obtain ⟨hdigits, rfl⟩ := takeWhile_consumed htake
    by_cases hne : digits = []
    · -- a point without digits is refused, with either message
      simp only [hne, List.isEmpty_nil, if_true, run_bind_eq_ok, run_peek] at h
      obtain ⟨_, _, -, h⟩ := h
      split at h <;> cases h
    · simp only [List.isEmpty_iff, hne, if_false, run_pure_eq_ok, Prod.mk.injEq] at h
      obtain ⟨rfl, rfl⟩ := h
      exact ⟨'.' :: digits, .inr ⟨digits, hne, hdigits, rfl⟩, rfl, fun behind hbehind =>
        readFraction_run hdigits hne fun c hc => (hbehind c hc).1⟩
  · cases h
    exact ⟨[], .inl rfl, rfl, fun behind hbehind =>
      readFraction_run_none fun hpoint => (hbehind _ hpoint).2 rfl⟩

/-- A text that starts with one of two characters. -/
theorem head?_eq_either {a b : Char} {input : List Char}
    (h : input.head? = some a ∨ input.head? = some b) :
    ∃ c rest, input = c :: rest ∧ (c = a ∨ c = b) := by
  cases input with
  | nil => simp at h
  | cons c rest => exact ⟨c, rest, rfl, by simpa using h⟩

/-- The digits of a power of ten, behind their sign. -/
def readPower (sign : Option Char) : Reader (Option Int) := do
  match ← next with
  | none => flaw .endInValue
  | some c =>
    if isDigit c then do
      let size := natOfDigits (c :: (← takeWhile isDigit))
      return some (if sign = some '-' then -(size : Int) else size)
    else flaw .badNumber

/-- An exponent: its letter, a sign that may be left out, and its digits. -/
theorem readExponent_eq : readExponent = (do
    let mark ← peek
    if mark = some 'e' ∨ mark = some 'E' then do
      drop
      let sign ← peek
      if sign = some '+' ∨ sign = some '-' then do
        drop
        readPower sign
      else readPower sign
    else return none) := rfl

/-- The digits of an exponent are taken from the front, and read the same when they stand alone. -/
theorem readPower_consumed {sign : Option Char} {exponent : Option Int} {input rest : List Char}
    (h : (readPower sign).run input = .ok (exponent, rest)) :
    ∃ digits, digits ≠ [] ∧ Digits digits ∧ input = digits ++ rest ∧
      (readPower sign).run digits = .ok (exponent, []) := by
  simp only [readPower, run_bind_eq_ok, run_next, Except.ok.injEq, Prod.mk.injEq] at h
  obtain ⟨next, _, ⟨rfl, rfl⟩, h⟩ := h
  cases input with
  | nil => cases h
  | cons c input =>
    simp only [List.head?_cons, List.tail_cons] at h
    split at h
    · rename_i hc
      simp only [run_bind_eq_ok, run_pure_eq_ok, Prod.mk.injEq] at h
      obtain ⟨digits, _, htake, rfl, rfl⟩ := h
      obtain ⟨hdigits, rfl⟩ := takeWhile_consumed htake
      refine ⟨c :: digits, by simp, hdigits.cons hc, rfl, ?_⟩
      -- The first digit is read apart from the rest.
      have halone : (Reader.takeWhile isDigit).run (digits ++ []) = .ok (digits, []) :=
        run_takeWhile_digits hdigits (by simp)
      rw [List.append_nil] at halone
      rw [readPower, run_bind_ok (run_next _)]
      simp only [List.head?_cons, List.tail_cons, hc, if_true]
      rw [run_bind_ok halone]
      rfl
    · cases h

/-- An exponent is taken from the front, and read the same when it stands alone. -/
theorem readExponent_consumed {exponent : Option Int} {input rest : List Char}
    (h : readExponent.run input = .ok (exponent, rest)) :
    ∃ part, Exponent part ∧ input = part ++ rest ∧
      readExponent.run part = .ok (exponent, []) := by
  simp only [readExponent_eq, run_bind_eq_ok, run_peek, Except.ok.injEq, Prod.mk.injEq] at h
  obtain ⟨_, _, ⟨rfl, rfl⟩, h⟩ := h
  -- With a letter or without; behind the letter with a sign or without.
  by_cases hmark : input.head? = some 'e' ∨ input.head? = some 'E'
  · obtain ⟨mark, input, rfl, hletter⟩ := head?_eq_either hmark
    simp only [if_pos hmark, run_bind_eq_ok, run_drop, run_peek, List.tail_cons, Except.ok.injEq,
      Prod.mk.injEq] at h
    obtain ⟨_, _, ⟨-, rfl⟩, _, _, ⟨rfl, rfl⟩, h⟩ := h
    have hstart (behind : List Char) : (mark :: behind).head? = some 'e' ∨
        (mark :: behind).head? = some 'E' := by simpa using hletter
    split at h
    · rename_i hsign
      obtain ⟨sign, input, rfl, hsigns⟩ := head?_eq_either hsign
      simp only [run_bind_eq_ok, run_drop, List.tail_cons, Except.ok.injEq, Prod.mk.injEq] at h
      obtain ⟨_, _, ⟨-, rfl⟩, h⟩ := h
      obtain ⟨digits, hne, hdigits, rfl, halone⟩ := readPower_consumed h
      have hsign' : (sign :: digits).head? = some '+' ∨ (sign :: digits).head? = some '-' := hsign
      refine ⟨mark :: ([sign] ++ digits), .inr ⟨mark, [sign], digits, hletter, ?_, hne, hdigits, rfl⟩,
        rfl, ?_⟩
      · rcases hsigns with rfl | rfl <;> simp
      · rw [readExponent_eq, List.singleton_append, run_bind_ok (run_peek _), if_pos (hstart _),
          run_bind_ok (run_drop _), List.tail_cons, run_bind_ok (run_peek _), if_pos hsign',
          run_bind_ok (run_drop _)]
        exact halone
    · rename_i hsign
      obtain ⟨digits, hne, hdigits, rfl, halone⟩ := readPower_consumed h
      rw [List.head?_append_of_ne_nil _ hne] at hsign halone
      refine ⟨mark :: digits, .inr ⟨mark, [], digits, hletter, .inl rfl, hne, hdigits, rfl⟩, rfl, ?_⟩
      rw [readExponent_eq, run_bind_ok (run_peek _), if_pos (hstart _), run_bind_ok (run_drop _),
        List.tail_cons, run_bind_ok (run_peek _), if_neg hsign]
      exact halone
  · rw [if_neg hmark] at h
    cases h
    exact ⟨[], .inl rfl, rfl, rfl⟩

/-- An exponent goes on neither with a digit nor with a point. -/
theorem Exponent.ends {part : List Char} (h : Exponent part) (c : Char) (hc : part.head? = some c) :
    isDigit c = false ∧ c ≠ '.' := by
  rcases h with rfl | ⟨mark, sign, digits, hmark, -, -, -, rfl⟩
  · cases hc
  · cases hc
    rcases hmark with rfl | rfl <;> decide

/-- A fraction, or the exponent behind it, ends the digits in front. -/
theorem Fraction.ends {part behind : List Char} (h : Fraction part) (hbehind : Exponent behind)
    (c : Char) (hc : (part ++ behind).head? = some c) : isDigit c = false := by
  rcases h with rfl | ⟨digits, -, -, rfl⟩
  · exact (hbehind.ends c hc).1
  · cases hc
    decide

/-- The characters that a number takes are a number, and alone they are read as the same one. -/
theorem readNumber_consumed {number : Number} {input rest : List Char}
    (h : readNumber.run input = .ok (number, rest)) :
    ∃ token, Numeral token ∧ input = token ++ rest ∧ readNumber.run token = .ok (number, []) := by
  simp only [readNumber, run_bind_eq_ok, run_peek, Except.ok.injEq, Prod.mk.injEq] at h
  obtain ⟨_, _, ⟨rfl, rfl⟩, h⟩ := h
  obtain ⟨negative, behind, hinput, hbody⟩ : ∃ (negative : Bool) (behind : List Char),
      input = (if negative then ['-'] else []) ++ behind ∧ (do
        let whole ← readWhole
        let fraction ← readFraction
        let exponent ← readExponent
        numberOfParts negative whole fraction exponent : Reader Number).run behind
          = .ok (number, rest) := by
    by_cases hsign : input.head? = some '-'
    · obtain ⟨input, rfl⟩ := List.head?_eq_some_iff.1 hsign
      exact ⟨true, input, rfl, h⟩
    · rw [if_neg (by simpa using hsign), decide_eq_false hsign] at h
      exact ⟨false, input, rfl, h⟩
  simp only [run_bind_eq_ok, run_lift_eq_ok] at hbody
  -- the parts of the number, each with the characters that it takes
  obtain ⟨whole, _, hfirst, fraction, _, hsecond, exponent, _, hthird, hparts, rfl⟩ := hbody
  obtain ⟨hwhole, rfl⟩ := readWhole_consumed hfirst
  obtain ⟨fractionPart, hfractionPart, rfl, hfraction⟩ := readFraction_consumed hsecond
  obtain ⟨exponentPart, hexponentPart, rfl, hexponent⟩ := readExponent_consumed hthird
  refine ⟨(if negative then ['-'] else []) ++ (whole ++ (fractionPart ++ exponentPart)),
    ⟨_, whole, fractionPart, exponentPart, ?_, hwhole, hfractionPart, hexponentPart, rfl⟩, ?_, ?_⟩
  · cases negative
    · exact .inl rfl
    · exact .inr rfl
  · rw [hinput, List.append_assoc, List.append_assoc, List.append_assoc]
  · rw [← List.append_assoc]
    exact readNumber_run hwhole (hfractionPart.ends hexponentPart)
      (hfraction _ hexponentPart.ends) hexponent hparts

/-- Skips the sign of a number. -/
def skipSign : Reader Unit := do
  if (← peek) = some '-' then drop

/-- Skips the digits before the point. -/
def skipWhole : Reader Unit := do
  match ← next with
  | some '0' => if (← peek).any isDigit then flaw .badNumber
  | some c => if isDigit c then do let _ ← takeWhile isDigit else flaw .badNumber
  | none => flaw .badNumber

/-- Skips the digits behind the point, if there is one. -/
def skipFraction : Reader Unit := do
  if (← peek) = some '.' then do
    drop
    skipDigits

/-- Skips the power of ten, if there is one. -/
def skipExponent : Reader Unit := do
  let mark ← peek
  if mark = some 'e' ∨ mark = some 'E' then do
    drop
    let sign ← peek
    if sign = some '+' ∨ sign = some '-' then drop
    skipDigits

/-- What follows a choice follows both of its cases. -/
theorem ite_bind {condition : Prop} [Decidable condition] (first first' : Reader α)
    (next : α → Reader β) : (if condition then first else first') >>= next =
      if condition then first >>= next else first' >>= next := by
  split <;> rfl

/-- A skipped sign and what follows. -/
theorem skipSign_then (next : Reader α) : (do
    skipSign
    next) = (do
      if (← peek) = some '-' then drop
      next) := by
  rw [skipSign, bind_assoc]
  refine bind_congr fun sign => ?_
  rw [ite_bind, pure_bind]

/-- A skipped whole number and what follows. -/
theorem skipWhole_then (following : Reader α) : (do
    skipWhole
    following) = (do
      match ← next with
      | some '0' => if (← peek).any isDigit then flaw .badNumber
      | some c => if isDigit c then do let _ ← takeWhile isDigit else flaw .badNumber
      | none => flaw .badNumber
      following) := by
  rw [skipWhole, bind_assoc]
  -- On the first character, as the reader itself.
  refine bind_congr fun c => ?_
  split
  · rw [bind_assoc]
    refine bind_congr fun d => ?_
    rw [ite_bind, pure_bind]
  · split
    · rw [bind_assoc]
      rfl
    · rfl
  · rfl

/-- A skipped fraction and what follows. -/
theorem skipFraction_then (next : Reader α) : (do
    skipFraction
    next) = (do
      if (← peek) = some '.' then do
        drop
        skipDigits
      next) := by
  rw [skipFraction, bind_assoc]
  refine bind_congr fun point => ?_
  rw [ite_bind, bind_assoc, pure_bind]

/-- A number is skipped in four parts. -/
theorem skipNumber_eq : skipNumber = (do
    skipSign
    skipWhole
    skipFraction
    skipExponent) := by
  rw [skipSign_then, skipWhole_then, skipFraction_then]
  rfl

/-- At least one digit is skipped. -/
theorem skipDigits_consumed {input rest : List Char} (h : skipDigits.run input = .ok ((), rest)) :
    ∃ digits, digits ≠ [] ∧ Digits digits ∧ input = digits ++ rest := by
  simp only [skipDigits, run_bind_eq_ok] at h
  obtain ⟨digits, _, htake, h⟩ := h
  obtain ⟨hdigits, rfl⟩ := takeWhile_consumed htake
  split at h
  · cases h
  · rename_i hne
    cases h
    exact ⟨digits, by simpa using hne, hdigits, rfl⟩

/-- A sign is skipped if it is there. -/
theorem skipSign_consumed {input rest : List Char} (h : skipSign.run input = .ok ((), rest)) :
    ∃ sign, (sign = [] ∨ sign = ['-']) ∧ input = sign ++ rest := by
  simp only [skipSign, run_bind_eq_ok, run_peek, Except.ok.injEq, Prod.mk.injEq] at h
  obtain ⟨_, _, ⟨rfl, rfl⟩, h⟩ := h
  split at h
  · rename_i hsign
    obtain ⟨input, rfl⟩ := List.head?_eq_some_iff.1 hsign
    cases h
    exact ⟨['-'], .inr rfl, rfl⟩
  · cases h
    exact ⟨[], .inl rfl, rfl⟩

/-- A skipped whole number is one. -/
theorem skipWhole_consumed {input rest : List Char} (h : skipWhole.run input = .ok ((), rest)) :
    ∃ whole, Whole whole ∧ input = whole ++ rest := by
  simp only [skipWhole, run_bind_eq_ok, run_next, Except.ok.injEq, Prod.mk.injEq] at h
  obtain ⟨next, _, ⟨rfl, rfl⟩, h⟩ := h
  cases input with
  | nil => cases h
  | cons c input =>
    simp only [List.head?_cons, List.tail_cons] at h
    -- The cases are those of a read one.
    split at h
    · cases ‹some c = some '0'›
      simp only [run_bind_eq_ok, run_peek, Except.ok.injEq, Prod.mk.injEq] at h
      obtain ⟨_, _, ⟨rfl, rfl⟩, h⟩ := h
      split at h
      · cases h
      · cases h
        exact ⟨['0'], whole_toDigits 0, rfl⟩
    · rename_i hzero hsome
      cases hsome
      split at h
      · rename_i hc
        simp only [run_bind_eq_ok, run_pure_eq_ok, Prod.mk.injEq, true_and] at h
        obtain ⟨digits, _, htake, rfl⟩ := h
        obtain ⟨hdigits, rfl⟩ := takeWhile_consumed htake
        exact ⟨c :: digits, whole_cons hc hzero hdigits, rfl⟩
      · cases h
    · cases ‹some c = none›

/-- A skipped fraction is one. -/
theorem skipFraction_consumed {input rest : List Char}
    (h : skipFraction.run input = .ok ((), rest)) : ∃ part, Fraction part ∧ input = part ++ rest := by
  simp only [skipFraction, run_bind_eq_ok, run_peek, Except.ok.injEq, Prod.mk.injEq] at h
  obtain ⟨_, _, ⟨rfl, rfl⟩, h⟩ := h
  split at h
  · rename_i hpoint
    obtain ⟨input, rfl⟩ := List.head?_eq_some_iff.1 hpoint
    simp only [run_bind_eq_ok, run_drop, List.tail_cons, Except.ok.injEq, Prod.mk.injEq] at h
    obtain ⟨_, _, ⟨-, rfl⟩, h⟩ := h
    obtain ⟨digits, hne, hdigits, rfl⟩ := skipDigits_consumed h
    exact ⟨'.' :: digits, .inr ⟨digits, hne, hdigits, rfl⟩, rfl⟩
  · cases h
    exact ⟨[], .inl rfl, rfl⟩

/-- A skipped exponent is one. -/
theorem skipExponent_consumed {input rest : List Char}
    (h : skipExponent.run input = .ok ((), rest)) : ∃ part, Exponent part ∧ input = part ++ rest := by
  simp only [skipExponent, run_bind_eq_ok, run_peek, Except.ok.injEq, Prod.mk.injEq] at h
  obtain ⟨_, _, ⟨rfl, rfl⟩, h⟩ := h
  -- With a letter or without; behind the letter with a sign or without.
  split at h
  · rename_i hmark
    obtain ⟨mark, input, rfl, hletter⟩ := head?_eq_either hmark
    simp only [run_bind_eq_ok, run_drop, run_peek, List.tail_cons, Except.ok.injEq,
      Prod.mk.injEq] at h
    obtain ⟨_, _, ⟨-, rfl⟩, _, _, ⟨rfl, rfl⟩, h⟩ := h
    split at h
    · rename_i hsign
      obtain ⟨sign, input, rfl, hsigns⟩ := head?_eq_either hsign
      simp only [run_bind_eq_ok, run_drop, List.tail_cons, Except.ok.injEq, Prod.mk.injEq] at h
      obtain ⟨_, _, ⟨-, rfl⟩, h⟩ := h
      obtain ⟨digits, hne, hdigits, rfl⟩ := skipDigits_consumed h
      refine ⟨_, .inr ⟨mark, [sign], digits, hletter, ?_, hne, hdigits, rfl⟩, rfl⟩
      rcases hsigns with rfl | rfl <;> simp
    · obtain ⟨digits, hne, hdigits, rfl⟩ := skipDigits_consumed h
      exact ⟨_, .inr ⟨mark, [], digits, hletter, .inl rfl, hne, hdigits, rfl⟩, rfl⟩
  · cases h
    exact ⟨[], .inl rfl, rfl⟩

/-- A skipped number is a numeral. -/
theorem skipNumber_consumed {input rest : List Char} (h : skipNumber.run input = .ok ((), rest)) :
    ∃ token, Numeral token ∧ input = token ++ rest := by
  simp only [skipNumber_eq, run_bind_eq_ok] at h
  obtain ⟨_, _, hfirst, _, _, hsecond, _, _, hthird, hfourth⟩ := h
  obtain ⟨sign, hsign, rfl⟩ := skipSign_consumed hfirst
  obtain ⟨whole, hwhole, rfl⟩ := skipWhole_consumed hsecond
  obtain ⟨fraction, hfraction, rfl⟩ := skipFraction_consumed hthird
  obtain ⟨exponent, hexponent, rfl⟩ := skipExponent_consumed hfourth
  exact ⟨_, ⟨sign, whole, fraction, exponent, hsign, hwhole, hfraction, hexponent, rfl⟩, by
    simp only [List.append_assoc]⟩

/-! ## Skipped values -/

/-- A separator may be followed by another gap. -/
theorem Separator.trans {first : Bool} {input mid rest : List Char} (h : Separator first input mid)
    (hgap : Gap mid rest) : Separator first input rest := by
  cases first with
  | true => exact Gap.trans h hgap
  | false =>
    obtain ⟨behind, hcomma, hbehind⟩ := h
    exact ⟨behind, hcomma, hbehind.trans hgap⟩

mutual

/-- A skipped value is written as some document. -/
theorem skipValue_consumed : {fuel : Nat} → {input rest : List Char} →
    (skipValue fuel).run input = .ok ((), rest) →
    ∃ tree front, Gap input front ∧ Written tree front rest
  | 0, _, _, h => by cases h
  | fuel + 1, input, rest, h => by
    rw [skipValue, run_bind_eq_ok] at h
    obtain ⟨next, mid, hpeek, h⟩ := h
    obtain ⟨hgap, hhead⟩ := peekToken_consumed hpeek
    -- On the character the value starts with.
    split at h
    · cases h
    · obtain ⟨mid, rfl⟩ := List.head?_eq_some_iff.1 hhead
      obtain ⟨units, hunits⟩ := skipText_consumed h
      exact ⟨.text units, _, hgap, .text hunits⟩
    · obtain ⟨mid, rfl⟩ := List.head?_eq_some_iff.1 hhead
      obtain ⟨items, hitems⟩ := skipItems_consumed h
      exact ⟨.list items, _, hgap, .list hitems⟩
    · obtain ⟨mid, rfl⟩ := List.head?_eq_some_iff.1 hhead
      obtain ⟨members, hmembers⟩ := skipMembers_consumed h
      exact ⟨.object members, _, hgap, .object hmembers⟩
    · obtain ⟨mid, rfl⟩ := List.head?_eq_some_iff.1 hhead
      obtain rfl := readWord_consumed h
      exact ⟨.null, _, hgap, .null⟩
    · obtain ⟨mid, rfl⟩ := List.head?_eq_some_iff.1 hhead
      obtain rfl := readWord_consumed h
      exact ⟨.bool true, _, hgap, .boolTrue⟩
    · obtain ⟨mid, rfl⟩ := List.head?_eq_some_iff.1 hhead
      obtain rfl := readWord_consumed h
      exact ⟨.bool false, _, hgap, .boolFalse⟩
    · split at h
      · obtain ⟨token, htoken, hinput⟩ := skipNumber_consumed h
        exact ⟨.number token, mid, hgap, .number htoken hinput⟩
      · cases h

/-- The skipped items of a list are written as such. -/
theorem skipItems_consumed : {fuel : Nat} → {first : Bool} → {input rest : List Char} →
    (skipItems fuel first).run input = .ok ((), rest) →
    ∃ items, WrittenItems first items input rest
  | 0, _, _, _, h => by cases h
  | fuel + 1, first, input, rest, h => by
    rw [skipItems, run_bind_eq_ok] at h
    obtain ⟨next, mid, hpeek, h⟩ := h
    obtain ⟨hgap, hhead⟩ := peekToken_consumed hpeek
    split at h
    · cases h
    · obtain ⟨mid, rfl⟩ := List.head?_eq_some_iff.1 hhead
      cases h
      exact ⟨[], .nil hgap⟩
    · rename_i c _
      -- The first item needs no comma, every other one does.
      obtain ⟨behind, hlead, h⟩ : ∃ behind, Separator first input behind ∧
          (do skipValue fuel; skipItems fuel false : Reader Unit).run behind = .ok ((), rest) := by
        cases first with
        | true => exact ⟨mid, hgap, h⟩
        | false =>
          by_cases hcomma : c = ','
          · obtain ⟨mid, rfl⟩ := List.head?_eq_some_iff.1 hhead
            simp only [hcomma] at h hgap
            exact ⟨mid, ⟨mid, hgap, .refl mid⟩, h⟩
          · have hcomma' : (!false && c != ',') = true := by simpa using hcomma
            simp only [hcomma', if_true, run_bind_eq_ok, run_flaw_eq_ok, false_and, exists_false] at h
      rw [run_bind_eq_ok] at h
      obtain ⟨_, behind', hvalue, h⟩ := h
      obtain ⟨item, front, hgap', hitem⟩ := skipValue_consumed hvalue
      obtain ⟨items, hitems⟩ := skipItems_consumed h
      exact ⟨item :: items, .cons (hlead.trans hgap') hitem hitems⟩

/-- The skipped members of an object are written as such. -/
theorem skipMembers_consumed : {fuel : Nat} → {first : Bool} → {input rest : List Char} →
    (skipMembers fuel first).run input = .ok ((), rest) →
    ∃ members, WrittenMembers first members input rest
  | 0, _, _, _, h => by cases h
  | fuel + 1, first, input, rest, h => by
    rw [skipMembers, run_bind_eq_ok] at h
    obtain ⟨next, mid, hpeek, h⟩ := h
    obtain ⟨hgap, hhead⟩ := peekToken_consumed hpeek
    split at h
    · cases h
    · obtain ⟨mid, rfl⟩ := List.head?_eq_some_iff.1 hhead
      cases h
      exact ⟨[], .nil hgap⟩
    · rename_i c _
      -- The first member needs no comma, every other one does.
      obtain ⟨behind, hlead, h⟩ : ∃ behind, Separator first input behind ∧ (do
          match ← peekToken with
          | none => flaw .endInObject
          | some '"' => do
            drop
            skipText fuel
            readColon
            skipValue fuel
            skipMembers fuel false
          | some _ => flaw .keyNotText : Reader Unit).run behind = .ok ((), rest) := by
        cases first with
        | true => exact ⟨mid, hgap, h⟩
        | false =>
          by_cases hcomma : c = ','
          · obtain ⟨mid, rfl⟩ := List.head?_eq_some_iff.1 hhead
            simp only [hcomma] at h hgap
            exact ⟨mid, ⟨mid, hgap, .refl mid⟩, h⟩
          · have hcomma' : (!false && c != ',') = true := by simpa using hcomma
            simp only [hcomma', if_true, run_bind_eq_ok, run_flaw_eq_ok, false_and, exists_false] at h
      rw [run_bind_eq_ok] at h
      obtain ⟨_, behind', hquote, h⟩ := h
      obtain ⟨hgap', hhead'⟩ := peekToken_consumed hquote
      split at h
      · cases h
      · obtain ⟨quoted, rfl⟩ := List.head?_eq_some_iff.1 hhead'
        simp only [run_bind_eq_ok, run_drop, List.tail_cons, Except.ok.injEq, Prod.mk.injEq] at h
        -- The parts of a member, in order: the key, the colon, the content.
        obtain ⟨_, _, ⟨-, rfl⟩, _, colon, htext, _, value, hcolon, _, more, hvalue, h⟩ := h
        obtain ⟨key, hkey⟩ := skipText_consumed htext
        obtain ⟨content, front, hgap'', hcontent⟩ := skipValue_consumed hvalue
        obtain ⟨members, hmembers⟩ := skipMembers_consumed h
        exact ⟨(key, content) :: members, .cons (hlead.trans hgap') hkey
          (.colon (readColon_consumed hcolon) hgap'' hcontent) hmembers⟩
      · cases h

end

end HlsEmit.Json
