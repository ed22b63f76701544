import HlsEmit.Proofs.AcceleratorCalls

/-!
# A line with placeholders is read once

A line is an alternation of literal text and placeholders: text up to an opening brace, a placeholder
up to the next closing brace, and so on behind it. Every line is one alternation and no other, however
its braces stand. There may be opening braces in a key and closing ones in the text, and the last
opening brace may not be closed at all.

The placeholders are replaced from left to right, and what stands in their places is not read again.
The first one without a text stops the replacement, or else the brace that is not closed.

## Key results

- `Accelerator.Alternation.text_injective`, `Accelerator.Alternation.exists_text`: how a line is read
- `Accelerator.Alternation.substitute_cases`: what comes of an alternation
- `Accelerator.substitute_single_pass`: both, for every line
-/

namespace HlsEmit.Accelerator

/-! ## Alternations -/

/-- A placeholder, with the text in front of it. -/
structure Piece where
  literal : List Char
  /-- What stands between the braces. -/
  key : List Char
  literal_plain : '\x7b' ∉ literal
  key_plain : '\x7d' ∉ key

namespace Piece

/-- The key as it is looked up. -/
def name (piece : Piece) : String :=
  String.ofList piece.key

/-- How a piece stands in a line. -/
def text (piece : Piece) : List Char :=
  piece.literal ++ '\x7b' :: (piece.key ++ ['\x7d'])

/-- A piece with a text in the place of its placeholder. -/
def replaced (piece : Piece) (text : String) : List Char :=
  piece.literal ++ text.toList

end Piece

/-- A line as it is read from left to right. -/
structure Alternation where
  pieces : List Piece
  /-- The text behind the last placeholder. -/
  tail : List Char
  /-- What stands behind a brace that is not closed. -/
  unclosed : Option (List Char)
  tail_plain : '\x7b' ∉ tail
  unclosed_plain : ∀ rest, unclosed = some rest → '\x7d' ∉ rest

namespace Alternation

/-- The part of a line behind its placeholders. -/
def ending (a : Alternation) : List Char :=
  a.tail ++ a.unclosed.elim [] ('\x7b' :: ·)

/-- The line that is read as an alternation. -/
def text (a : Alternation) : List Char :=
  a.pieces.flatMap Piece.text ++ a.ending

/-- A line with texts in the places of its placeholders. -/
def replaced (a : Alternation) (texts : List String) : List Char :=
  (List.zipWith Piece.replaced a.pieces texts).flatten ++ a.tail

/-- An alternation behind one more piece. -/
def cons (piece : Piece) (a : Alternation) : Alternation :=
  { a with pieces := piece :: a.pieces }

/-- The text with one more piece in front. -/
theorem text_cons (piece : Piece) (a : Alternation) : (cons piece a).text = piece.text ++ a.text :=
  List.append_assoc _ _ _

/-! ### Every line is one alternation -/

/-- A list is cut in one way at its first occurrence of an element. -/
theorem cut_unique {α : Type} {c : α} {xs xs' ys ys' : List α} (h : c ∉ xs) (h' : c ∉ xs')
    (heq : xs ++ c :: ys = xs' ++ c :: ys') : xs = xs' ∧ ys = ys' := by
  induction xs generalizing xs' with
  | nil =>
    cases xs' with
    | nil => exact ⟨rfl, List.tail_eq_of_cons_eq heq⟩
    | cons x xs' => exact absurd (List.head_eq_of_cons_eq heq ▸ List.mem_cons_self ..) h'
  | cons x xs ih =>
    cases xs' with
    | nil => exact absurd (List.head_eq_of_cons_eq heq ▸ List.mem_cons_self ..) h
    | cons x' xs' =>
      rw [List.mem_cons, not_or] at h h'
      obtain ⟨rfl, rfl⟩ := ih h.2 h'.2 (List.tail_eq_of_cons_eq heq)
      exact ⟨congrArg (· :: xs) (List.head_eq_of_cons_eq heq), rfl⟩

/-- Every text is an alternation. -/
theorem exists_text (cs : List Char) : ∃ a : Alternation, a.text = cs := by
  -- a piece is read as a whole, so the induction is on the length of what is left
  induction hlength : cs.length using Nat.strongRecOn generalizing cs with
  | _ n ih =>
    by_cases hopen : '\x7b' ∈ cs
    · obtain ⟨literal, behind, rfl, hliteral⟩ := List.eq_append_cons_of_mem hopen
      by_cases hclose : '\x7d' ∈ behind
      · obtain ⟨key, rest, rfl, hkey⟩ := List.eq_append_cons_of_mem hclose
        simp only [List.length_append, List.length_cons] at hlength
        obtain ⟨a, rfl⟩ := ih rest.length (by omega) rest rfl
        exact ⟨cons ⟨literal, key, hliteral, hkey⟩ a, by simp [text_cons, Piece.text]⟩
      · refine ⟨⟨[], literal, some behind, hliteral, ?_⟩, rfl⟩
        rintro _ ⟨⟩
        exact hclose
    · exact ⟨⟨[], cs, none, hopen, fun _ h => nomatch h⟩, List.append_nil cs⟩

/-- A piece does not stand at the start of what is behind the placeholders. -/
theorem ending_ne_piece (a : Alternation) (piece : Piece) (rest : List Char) :
    a.ending ≠ piece.text ++ rest := by
  intro heq
  rw [ending, Piece.text, List.append_assoc, List.cons_append] at heq
  cases hunclosed : a.unclosed with
  | none =>
    rw [hunclosed, Option.elim_none, List.append_nil] at heq
    exact a.tail_plain (heq ▸ by simp)
  | some behind =>
    rw [hunclosed, Option.elim_some] at heq
    obtain ⟨-, rfl⟩ := cut_unique a.tail_plain piece.literal_plain heq
    exact a.unclosed_plain _ hunclosed (by simp)

/-- The end of an alternation tells its parts. -/
theorem ending_injective {a b : Alternation} (h : a.ending = b.ending) :
    a.tail = b.tail ∧ a.unclosed = b.unclosed := by
  unfold ending at h
  -- A brace that is not closed stands in one of the ends if and only if it stands in the
  -- other.
  cases hunclosed : a.unclosed with
  | none =>
    cases hunclosed' : b.unclosed with
    | none => simpa [hunclosed, hunclosed'] using h
    | some behind =>
      rw [hunclosed, hunclosed', Option.elim_none, Option.elim_some, List.append_nil] at h
      exact absurd (h ▸ by simp) a.tail_plain
  | some behind =>
    cases hunclosed' : b.unclosed with
    | none =>
      rw [hunclosed, hunclosed', Option.elim_none, Option.elim_some, List.append_nil] at h
      exact absurd (h ▸ by simp) b.tail_plain
    | some behind' =>
      rw [hunclosed, hunclosed', Option.elim_some, Option.elim_some] at h
      obtain ⟨htail, rfl⟩ := cut_unique a.tail_plain b.tail_plain h
      exact ⟨htail, rfl⟩

/-- The first piece of a line is read in one way. -/
theorem piece_unique {piece piece' : Piece} {rest rest' : List Char}
    (h : piece.text ++ rest = piece'.text ++ rest') : piece = piece' ∧ rest = rest' := by
  simp only [Piece.text, List.append_assoc, List.cons_append, List.nil_append] at h
  obtain ⟨hliteral, h⟩ := cut_unique piece.literal_plain piece'.literal_plain h
  obtain ⟨hkey, hrest⟩ := cut_unique piece.key_plain piece'.key_plain h
  cases piece
  cases piece'
  cases hliteral
  cases hkey
  exact ⟨rfl, hrest⟩

/-- A line is no two alternations. -/
theorem text_injective {a b : Alternation} (h : a.text = b.text) : a = b := by
  obtain ⟨pieces, tail, unclosed, htail, hunclosed⟩ := a
  induction pieces generalizing b with
  | nil =>
    obtain ⟨_ | ⟨piece, pieces⟩, tail', unclosed', htail', hunclosed'⟩ := b
    · obtain ⟨rfl, rfl⟩ := ending_injective h
      rfl
    · have hcons := text_cons piece ⟨pieces, tail', unclosed', htail', hunclosed'⟩
      exact absurd (h.trans hcons) (ending_ne_piece _ _ _)
  | cons piece pieces ih =>
    have hcons := text_cons piece ⟨pieces, tail, unclosed, htail, hunclosed⟩
    obtain ⟨_ | ⟨piece', pieces'⟩, tail', unclosed', htail', hunclosed'⟩ := b
    · exact absurd (h.symm.trans hcons) (ending_ne_piece _ _ _)
    · have hcons' := text_cons piece' ⟨pieces', tail', unclosed', htail', hunclosed'⟩
      obtain ⟨rfl, hrest⟩ := piece_unique (hcons.symm.trans (h.trans hcons'))
      exact congrArg (cons piece) (ih hrest)

end Alternation

/-! ## Replacing -/

section Replacing

variable (lookup : String → Option String)

/-- Text without an opening brace stays as it is. -/
theorem substituteChars_literal {literal : List Char} (h : '\x7b' ∉ literal) (rest : List Char) :
    substituteChars lookup none (literal ++ rest) =
      (substituteChars lookup none rest).map (literal ++ ·) := by
  induction literal with
  | nil =>
    rw [List.nil_append]
    cases substituteChars lookup none rest <;> rfl
  | cons c literal ih =>
    rw [List.mem_cons, not_or] at h
    rw [List.cons_append, substituteChars, if_neg (Ne.symm h.1), ih h.2]
    cases substituteChars lookup none rest <;> rfl

/-- A brace that is not closed stops the replacement with all that is behind it. -/
theorem substituteChars_unclosed (read : List Char) {cs : List Char} (h : '\x7d' ∉ cs) :
    substituteChars lookup (some read) cs = .error (String.ofList (read.reverse ++ cs)) := by
  induction cs generalizing read with
  | nil => simp [substituteChars]
  | cons c cs ih =>
    rw [List.mem_cons, not_or] at h
    rw [substituteChars, if_neg (Ne.symm h.1), ih (c :: read) h.2]
    simp

/-- A piece is replaced, and then the rest of the line. -/
theorem substituteChars_piece (piece : Piece) (rest : List Char) :
    substituteChars lookup none (piece.text ++ rest) =
      match lookup piece.name with
      | none => .error piece.name
      | some text => (substituteChars lookup none rest).map (piece.replaced text ++ ·) := by
  rw [Piece.text, List.append_assoc, List.cons_append, List.append_assoc, List.singleton_append,
    substituteChars_literal lookup piece.literal_plain, substituteChars, if_pos rfl,
    substituteChars_key lookup [] piece.key_plain]
  show (match lookup piece.name with | none => _ | some text => _ : Except String _).map _ = _
  cases lookup piece.name with
  | none => rfl
  | some text =>
    cases substituteChars lookup none rest with
    | error key => rfl
    | ok out => simp [Except.map, Piece.replaced]

/-- Each placeholder stands for its text. -/
def Resolve (pieces : List Piece) (texts : List String) : Prop :=
  List.Forall₂ (fun piece text => lookup piece.name = some text) pieces texts

variable {lookup}

/-- Pieces that stand for texts are replaced, and then the rest of the line. -/
theorem substituteChars_pieces {pieces : List Piece} {texts : List String}
    (h : Resolve lookup pieces texts) (rest : List Char) :
    substituteChars lookup none (pieces.flatMap Piece.text ++ rest) =
      (substituteChars lookup none rest).map
        ((List.zipWith Piece.replaced pieces texts).flatten ++ ·) := by
  induction h with
  | nil =>
    rw [List.flatMap_nil, List.nil_append]
    cases substituteChars lookup none rest <;> rfl
  | cons hfirst _ ih =>
    rw [List.flatMap_cons, List.append_assoc, substituteChars_piece, hfirst]
    dsimp only
    rw [ih]
    cases substituteChars lookup none rest <;> simp [Except.map]

/-- All placeholders stand for texts, or one is the first that does not. -/
theorem resolve_cases (lookup : String → Option String) (pieces : List Piece) :
    (∃ texts, Resolve lookup pieces texts) ∨
      ∃ front piece back texts, pieces = front ++ piece :: back ∧ Resolve lookup front texts ∧
        lookup piece.name = none := by
  induction pieces with
  | nil => exact .inl ⟨[], .nil⟩
  | cons piece rest ih =>
    cases hpiece : lookup piece.name with
    | none => exact .inr ⟨[], piece, rest, [], rfl, .nil, hpiece⟩
    | some text =>
      rcases ih with ⟨texts, hrest⟩ | ⟨front, other, back, texts, rfl, hfront, hother⟩
      · exact .inl ⟨text :: texts, .cons hpiece hrest⟩
      · exact .inr ⟨piece :: front, other, back, text :: texts, rfl, .cons hpiece hfront, hother⟩

end Replacing

namespace Alternation

/-- An alternation becomes a text: all braces are closed and all placeholders stand for texts. -/
inductive Gives (lookup : String → Option String) (a : Alternation) : String → Prop
  | intro {texts : List String} : Resolve lookup a.pieces texts → a.unclosed = none →
      Gives lookup a (String.ofList (a.replaced texts))

/-- The replacement stops: at the first placeholder without a text, with its key, or behind all
placeholders at a brace that is not closed, with all that stands behind it. -/
inductive Stops (lookup : String → Option String) (a : Alternation) : String → Prop
  | unresolved {front back : List Piece} {piece : Piece} {texts : List String} :
      a.pieces = front ++ piece :: back → Resolve lookup front texts → lookup piece.name = none →
      Stops lookup a piece.name
  | unclosed {rest : List Char} {texts : List String} : Resolve lookup a.pieces texts →
      a.unclosed = some rest → Stops lookup a (String.ofList rest)

variable {lookup : String → Option String} {a : Alternation} {line : String}

/-- What is given is the line that is filled in. -/
theorem Gives.substitute (hline : a.text = line.toList) {out : String} (h : a.Gives lookup out) :
    substitute lookup line = .ok out := by
  obtain ⟨hpieces, hclosed⟩ := h
  have htail := substituteChars_literal lookup a.tail_plain []
  rw [Accelerator.substitute, ← hline, text, ending, hclosed, Option.elim_none,
    substituteChars_pieces hpieces, htail]
  simp [substituteChars, Except.map, replaced]

/-- Where it stops is the key that is reported. -/
theorem Stops.substitute (hline : a.text = line.toList) {key : String} (h : a.Stops lookup key) :
    substitute lookup line = .error key := by
  rw [Accelerator.substitute, ← hline, text]
  cases h with
  | unresolved hpieces hfront hpiece =>
    rw [hpieces, List.flatMap_append, List.flatMap_cons, List.append_assoc, List.append_assoc,
      substituteChars_pieces hfront, substituteChars_piece, hpiece]
    rfl
  | unclosed hpieces hunclosed =>
    rw [substituteChars_pieces hpieces, ending, hunclosed, Option.elim_some,
      substituteChars_literal lookup a.tail_plain, substituteChars, if_pos rfl,
      substituteChars_unclosed lookup [] (a.unclosed_plain _ hunclosed)]
    rfl

/-- An alternation becomes a text, or its replacement stops. -/
theorem gives_or_stops (lookup : String → Option String) (a : Alternation) :
    (∃ out, a.Gives lookup out) ∨ ∃ key, a.Stops lookup key := by
  rcases resolve_cases lookup a.pieces with
    ⟨texts, hpieces⟩ | ⟨front, piece, back, texts, hpieces, hfront, hpiece⟩
  · cases hunclosed : a.unclosed with
    | none => exact .inl ⟨_, .intro hpieces hunclosed⟩
    | some rest => exact .inr ⟨_, .unclosed hpieces hunclosed⟩
  · exact .inr ⟨_, .unresolved hpieces hfront hpiece⟩

/-- What comes of a line, told by the alternation that it is read as. -/
theorem substitute_cases (hline : a.text = line.toList) :
    (∀ out, substitute lookup line = .ok out ↔ a.Gives lookup out) ∧
      ∀ key, substitute lookup line = .error key ↔ a.Stops lookup key := by
  rcases a.gives_or_stops lookup with ⟨out, hgives⟩ | ⟨key, hstops⟩
  · have hok := hgives.substitute hline
    refine ⟨fun out' => ⟨fun h => ?_, fun h => h.substitute hline⟩,
      fun key => ⟨fun h => ?_, fun h => h.substitute hline⟩⟩
    · cases hok.symm.trans h
      exact hgives
    · cases hok.symm.trans h
  · have herror := hstops.substitute hline
    refine ⟨fun out => ⟨fun h => ?_, fun h => h.substitute hline⟩,
      fun key' => ⟨fun h => ?_, fun h => h.substitute hline⟩⟩
    · cases herror.symm.trans h
    · cases herror.symm.trans h
      exact hstops

end Alternation

/-- Every line is read as one alternation. It becomes a text if all its braces are closed and all its
placeholders stand for texts, and else the first failure is the result. -/
theorem substitute_single_pass (lookup : String → Option String) (line : String) :
    ∃ a : Alternation, (∀ b : Alternation, b.text = line.toList ↔ b = a) ∧
      (∀ out, substitute lookup line = .ok out ↔ a.Gives lookup out) ∧
      ∀ key, substitute lookup line = .error key ↔ a.Stops lookup key := by
  obtain ⟨a, hline⟩ := Alternation.exists_text line.toList
  refine ⟨a, fun b => ⟨fun h => Alternation.text_injective (h.trans hline.symm), ?_⟩,
    Alternation.substitute_cases hline⟩
  rintro rfl
  exact hline

/-- A key with an opening brace in it, a closing brace in the text, and a text with braces that is not
read again. -/
example :
    let lookup (key : String) := if key = "a\x7bb" then some "\x7bc\x7d" else none
    substitute lookup "x\x7d\x7ba\x7bb\x7d\x7d" = .ok "x\x7d\x7bc\x7d\x7d" ∧
      substitute lookup "\x7ba\x7bb\x7d\x7b\u00e9" = .error "\u00e9" := by decide +kernel

end HlsEmit.Accelerator
