import HlsEmit.Proofs.Json.Spelling
import HlsEmit.Json.Schema
import Mathlib

/-!
# Reading back the pieces of a document

What a reader does to a text that starts with a piece of a document: it consumes exactly the piece
and returns what the piece stands for. Each result is about a text with anything behind the piece.

## Key results

- `readWord_run`, `peekToken_run`, `readColon_run`: words, blanks and colons
- `readText_run`: a text between quotes
-/

namespace HlsEmit.Json

open Reader

variable {α β : Type}

/-! ## Running a reader -/

/-- What follows a reader that succeeds runs on the rest of the text. -/
theorem run_bind_ok {first : Reader α} {next : α → Reader β} {text rest : List Char} {value : α}
    (h : first.run text = .ok (value, rest)) :
    (first >>= next).run text = (next value).run rest := by
  rw [StateT.run_bind, h]
  rfl

/-- Looking at the next character takes nothing. -/
@[simp] theorem run_peek (text : List Char) : peek.run text = .ok (text.head?, text) := rfl

/-- The next character is taken. -/
@[simp] theorem run_next (text : List Char) : next.run text = .ok (text.head?, text.tail) := rfl

/-- One character is dropped. -/
@[simp] theorem run_drop (text : List Char) : drop.run text = .ok ((), text.tail) := rfl

/-- The text is changed as a whole. -/
@[simp] theorem run_modify (f : List Char → List Char) (text : List Char) :
    (modify f : Reader PUnit).run text = .ok ((), f text) := rfl

/-- Characters are taken while they have the property. -/
@[simp] theorem run_takeWhile (p : Char → Bool) (text : List Char) :
    (Reader.takeWhile p).run text = .ok (text.takeWhile p, text.dropWhile p) := rfl

/-! ## Words, blanks and colons -/

/-- A word that stands at the front is consumed. -/
theorem readWord_run (word rest : List Char) :
    (readWord word).run (word ++ rest) = .ok ((), rest) := by
  induction word with
  | nil => rfl
  | cons c word ih =>
    rw [readWord, List.cons_append, run_bind_ok (run_next _)]
    simpa using ih

/-- Blanks at the front are consumed; the character behind them stays. -/
theorem peekToken_run {gap : List Char} (hgap : Blank gap) {c : Char} (hc : isBlank c = false)
    (rest : List Char) : peekToken.run (gap ++ c :: rest) = .ok (some c, c :: rest) := by
  have hdrop : (gap ++ c :: rest).dropWhile isBlank = c :: rest := by
    rw [List.dropWhile_append_of_pos hgap, List.dropWhile_cons_of_neg (by simp [hc])]
  rw [peekToken, run_bind_ok (run_modify _ _), hdrop]
  rfl

/-- Behind a gap at the end there is no token. -/
theorem peekToken_run_end {gap : List Char} (hgap : Blank gap) :
    peekToken.run gap = .ok (none, []) := by
  have hdrop : gap.dropWhile isBlank = [] := List.dropWhile_eq_nil_iff.2 hgap
  rw [peekToken, run_bind_ok (run_modify _ _), hdrop]
  rfl

/-- A colon is read behind a gap. -/
theorem readColon_run {gap : List Char} (hgap : Blank gap) (rest : List Char) :
    readColon.run (gap ++ ':' :: rest) = .ok ((), rest) := by
  rw [readColon, run_bind_ok (peekToken_run hgap (by decide) rest)]
  rfl

/-! ## Texts -/

/-- Hexadecimal digits have their value. -/
theorem hexValue?_digitChar : ∀ n < 16, hexValue? (Nat.digitChar n) = some n := by
  decide

/-- A character that needs no escape stands for itself. -/
theorem readTextChars_plain {c : Char} (hquote : c ≠ '"') (hescape : c ≠ '\\')
    (hcontrol : ¬ c.toNat < 0x20) (fuel : Nat) (rest : List Char) :
    (readTextChars (fuel + 1)).run (c :: rest) =
      (do return c :: (← readTextChars fuel) : Reader (List Char)).run rest := by
  rw [readTextChars, run_bind_ok (run_next _)]
  simp only [List.head?_cons, List.tail_cons]
  split
  · contradiction
  · rfl

/-- An escape stands for the character that it was written for. -/
theorem readTextChars_escape {c : Char} {escape rest : List Char}
    (h : readEscape.run (escape ++ rest) = .ok (c, rest)) (fuel : Nat) :
    (readTextChars (fuel + 1)).run ('\\' :: escape ++ rest) =
      (do return c :: (← readTextChars fuel) : Reader (List Char)).run rest := by
  rw [readTextChars, List.cons_append, run_bind_ok (run_next _)]
  exact run_bind_ok h

/-- A control character is written by its code. -/
theorem readEscape_control {c : Char} (h : c.toNat < 0x20) (rest : List Char) :
    readEscape.run (['u', '0', '0', Nat.digitChar (c.toNat / 16), Nat.digitChar (c.toNat % 16)]
      ++ rest) = .ok (c, rest) := by
  have hhigh := hexValue?_digitChar (c.toNat / 16) (by omega)
  have hlow := hexValue?_digitChar (c.toNat % 16) (by omega)
  have hzero : hexValue? '0' = some 0 := by decide
  -- The code of a control character needs the last two of the four digits.
  have hhex : readHex4.run (['0', '0', Nat.digitChar (c.toNat / 16), Nat.digitChar (c.toNat % 16)]
      ++ rest) = .ok (c.toNat, rest) := by
    simp [readHex4, hzero, hhigh, hlow, Nat.div_add_mod']
    rfl
  have hescape : readUnicodeEscape.run (['0', '0', Nat.digitChar (c.toNat / 16),
      Nat.digitChar (c.toNat % 16)] ++ rest) = .ok (c, rest) := by
    have hlead : isLeadSurrogate c.toNat = false := by simp [isLeadSurrogate]; omega
    have htrail : isTrailSurrogate c.toNat = false := by simp [isTrailSurrogate]; omega
    rw [readUnicodeEscape, run_bind_ok hhex]
    simp only [hlead, htrail, Bool.false_eq_true, if_false]
    show Except.ok (Char.ofNat c.toNat, rest) = _
    rw [Char.ofNat_toNat]
  rw [readEscape, List.cons_append, run_bind_ok (run_next _)]
  exact hescape

/-- One written character is read back. -/
theorem readTextChars_escapeChar (c : Char) (fuel : Nat) (rest : List Char) :
    (readTextChars (fuel + 1)).run (escapeChar c ++ rest) =
      (do return c :: (← readTextChars fuel) : Reader (List Char)).run rest := by
  unfold escapeChar
  -- Seven characters have a letter of their own, control characters their code, all others stand as
  -- they are.
  split_ifs with h1 h2 h3 h4 h5 h6 h7 h8
  · rw [h1]
    exact readTextChars_escape rfl fuel
  · rw [h2]
    exact readTextChars_escape rfl fuel
  · rw [h3]
    exact readTextChars_escape rfl fuel
  · rw [h4]
    exact readTextChars_escape rfl fuel
  · rw [h5]
    exact readTextChars_escape rfl fuel
  · rw [h6]
    exact readTextChars_escape rfl fuel
  · rw [h7]
    exact readTextChars_escape rfl fuel
  · exact readTextChars_escape (readEscape_control h8 rest) fuel
  · exact readTextChars_plain h1 h2 h8 fuel rest

/-- The characters of a text are read up to its closing quote. -/
theorem readTextChars_run (cs : List Char) {fuel : Nat} (hfuel : cs.length < fuel)
    (rest : List Char) :
    (readTextChars fuel).run (cs.flatMap escapeChar ++ '"' :: rest) = .ok (cs, rest) := by
  induction cs generalizing fuel with
  | nil =>
    obtain ⟨fuel, rfl⟩ : ∃ k, fuel = k + 1 := ⟨fuel - 1, by simp at hfuel; omega⟩
    rfl
  | cons c cs ih =>
    obtain ⟨fuel, rfl⟩ : ∃ k, fuel = k + 1 := ⟨fuel - 1, by simp at hfuel; omega⟩
    have hcs := ih (show cs.length < fuel by simpa using hfuel)
    rw [List.flatMap_cons, List.append_assoc, readTextChars_escapeChar, run_bind_ok hcs]
    rfl

/-- A text is read back, from behind its opening quote. -/
theorem readText_run (s : String) {fuel : Nat} (hfuel : s.length < fuel) (rest : List Char) :
    (readText fuel).run (s.toList.flatMap escapeChar ++ '"' :: rest) = .ok (s, rest) := by
  rw [readText, run_bind_ok (readTextChars_run s.toList (by rwa [String.length_toList]) rest)]
  show Except.ok (String.ofList s.toList, rest) = _
  rw [String.ofList_toList]

end HlsEmit.Json
