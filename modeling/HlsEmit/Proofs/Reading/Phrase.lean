import HlsEmit.Cpp.Token

/-!
# Tokens of texts that are put together

A text is read from left to right, and the token at its end may go on with what comes next. `Lexes`
follows the reading of a piece of text from the token that was begun in front of it to the one that
is begun at its end. A `Phrase` is a piece that neither merges with what is in front of it nor with a
separator behind it, so that phrases and separators can be put together (`Phrase.append`).

## Key results

- `Lexes.append`: pieces of text, one behind the other
- `Phrase.append`, `Phrase.close`: a separator between phrases, or behind one
- `tokenize_of_lexes`: a text of whole lines
-/

namespace HlsEmit.Cpp

/-- Reading a text behind something that has been begun yields tokens, and leaves something begun. -/
def Lexes (p : Pending) (text : String) (tokens : List Token) (q : Pending) : Prop :=
  readChars (p, []) text.toList = some (q, tokens)

/-! ## Reading piece by piece -/

/-- The tokens in front do not matter. -/
theorem readChar_behind (p : Pending) (front ts : List Token) (c : Char) :
    readChar (p, front ++ ts) c = (readChar (p, ts) c).map fun behind =>
      (behind.1, front ++ behind.2) := by
  unfold readChar
  cases hextend : p.extend? c with
  | some q => simp
  | none => cases hstart : Pending.start c <;> simp

/-- Tokens in front of what has been begun stay in front. -/
theorem readChars_behind (p : Pending) (front ts : List Token) (text : List Char) :
    readChars (p, front ++ ts) text = (readChars (p, ts) text).map fun behind =>
      (behind.1, front ++ behind.2) := by
  induction text generalizing p ts with
  | nil => rfl
  | cons c text ih =>
    show ((readChar (p, front ++ ts) c).bind fun behind => readChars behind text) =
      ((readChar (p, ts) c).bind fun behind => readChars behind text).map _
    rw [readChar_behind]
    cases readChar (p, ts) c with
    | none => rfl
    | some behind => exact ih behind.1 behind.2

namespace Lexes

variable {p q r : Pending} {text text' : String} {ts ts' : List Token}

/-- Texts one behind the other are read one behind the other. -/
theorem append (h : Lexes p text ts q) (h' : Lexes q text' ts' r) :
    Lexes p (text ++ text') (ts ++ ts') r := by
  have hbehind := readChars_behind q ts [] text'.toList
  rw [List.append_nil, show readChars (q, []) text'.toList = _ from h'] at hbehind
  rw [Lexes, String.toList_append, readChars_append, show readChars (p, []) text.toList = _ from h]
  exact hbehind

/-- Nothing is read from the empty text. -/
theorem nil (p : Pending) : Lexes p "" [] p := rfl

/-- The first character does not belong to what has been begun. -/
theorem cons {c : Char} {rest : List Char} (hextend : p.extend? c = none)
    (hstart : Pending.start c = some q) (h : Lexes q (String.ofList rest) ts r) :
    Lexes p (String.ofList (c :: rest)) (p.tokens ++ ts) r := by
  have hbehind := readChars_behind q p.tokens [] rest
  rw [Lexes, String.toList_ofList] at h
  rw [List.append_nil, h] at hbehind
  rw [Lexes, String.toList_ofList]
  show ((readChar (p, []) c).bind fun behind => readChars behind rest) = _
  rw [readChar, hextend, hstart]
  exact hbehind

/-- Reading goes on with what has been begun. -/
theorem extend {c : Char} {rest : List Char} (hextend : p.extend? c = some q)
    (h : Lexes q (String.ofList rest) ts r) : Lexes p (String.ofList (c :: rest)) ts r := by
  rw [Lexes, String.toList_ofList] at h ⊢
  show ((readChar (p, []) c).bind fun behind => readChars behind rest) = _
  rw [readChar, hextend]
  exact h

end Lexes

/-- A text consists of the tokens that it yields and of the one that is begun at its end. -/
theorem tokenize_of_lexes {text : String} {ts : List Token} {q : Pending}
    (h : Lexes .blank text ts q) (hq : ∀ starred, q ≠ .enclosed starred) :
    tokenize text = some (ts ++ q.tokens) := by
  unfold tokenize
  rw [show readChars (.blank, []) text.toList = _ from h]
  cases q with
  | enclosed starred => exact absurd rfl (hq starred)
  | _ => rfl

/-! ## Phrases -/

/-- A character that a phrase begins with. -/
def Begins (c : Char) : Prop :=
  isLetter c = true ∨ c.isDigit = true ∨ c = '-' ∨ c = '(' ∨ c = '*'

/-- What has been begun ends where a phrase begins. -/
def Pending.Ready (p : Pending) : Prop :=
  ∀ c, Begins c → p.extend? c = none

/-- The characters that may stand behind a phrase. -/
def closers : List Char := [' ', ']', ')', ';', ',', '[', '(', '\n', '\t']

/-- What has been begun ends where a separator begins. -/
def Pending.Closed (p : Pending) : Prop :=
  ∀ c ∈ closers, p.extend? c = none

/-- A piece of text with these tokens that merges neither with what is in front of it nor with what
is behind it. -/
def Phrase (text : String) (tokens : List Token) : Prop :=
  ∃ c rest, text.toList = c :: rest ∧ Begins c ∧ ∀ p : Pending, p.extend? c = none →
    ∃ q front, Lexes p text (p.tokens ++ front) q ∧ front ++ q.tokens = tokens ∧ q.Closed

/-- A separator: some characters behind a phrase, with the tokens that are whole at their end and
what they leave begun. -/
def Separator (text : String) (tokens : List Token) (q : Pending) : Prop :=
  ∀ p : Pending, p.Closed → Lexes p text (p.tokens ++ tokens) q

/-- What a separator is can be computed. -/
theorem separator_of {text : String} {c : Char} {rest : List Char} {p q : Pending}
    {tokens : List Token} (htext : text.toList = c :: rest) (hc : c ∈ closers)
    (hstart : Pending.start c = some p) (h : readChars (p, []) rest = some (q, tokens)) :
    Separator text tokens q := by
  intro p' hp'
  have hlexes := Lexes.cons (hp' c hc) hstart
    (show Lexes p (String.ofList rest) tokens q by rwa [Lexes, String.toList_ofList])
  rwa [← htext, String.ofList_toList] at hlexes

/-! ## Symbols -/

/-- The characters that may go on with an operator. -/
def followers : List Char := [':', '>', '*', '=', '&', '|', '<', '+', '-']

/-- What goes on with a symbol is one of the characters that can. -/
theorem mem_followers {text : List Char} {c : Char} (htext : text ≠ [])
    (h : isSymbol (text ++ [c]) = true) : c ∈ followers := by
  have hlast : ∀ s ∈ symbols,
      2 ≤ s.toList.length → s.toList.getLast?.all (fun d => decide (d ∈ followers)) = true := by
    decide
  obtain ⟨s, hs, heq⟩ := List.any_eq_true.1 h
  have heq := of_decide_eq_true heq
  have hpos := List.length_pos_iff.2 htext
  have hlong : 2 ≤ s.toList.length := by
    rw [heq, List.length_append, List.length_singleton]
    omega
  simpa [heq] using hlast s hs hlong

/-- Every operator ends where a separator begins. -/
theorem closed_symbol {text : List Char} (htext : text ≠ []) : (Pending.symbol text).Closed := by
  intro c hc
  have hfollowers : ∀ c ∈ closers, c ∉ followers ∧ c ≠ '/' ∧ c ≠ '*' := by decide
  obtain ⟨hfollower, hslash, hstar⟩ := hfollowers c hc
  have hsymbol : isSymbol (text ++ [c]) ≠ true := fun h => hfollower (mem_followers htext h)
  simp [Pending.extend?, hslash, hstar, hsymbol]

/-- Of these, a phrase begins with a minus sign or a star only. -/
theorem begins_followers {c : Char} (hc : Begins c) (h : c ∈ followers) : c = '-' ∨ c = '*' := by
  have hothers : ∀ c ∈ followers, c = '-' ∨ c = '*' ∨ isLetter c = false ∧ c.isDigit = false ∧ c ≠ '(' := by
    decide
  rcases hothers c h with rfl | rfl | ⟨hletter, hdigit, hparen⟩
  · exact .inl rfl
  · exact .inr rfl
  · rcases hc with hc | hc | hc | hc | hc
    · rw [hletter] at hc; cases hc
    · rw [hdigit] at hc; cases hc
    · exact .inl hc
    · exact absurd hc hparen
    · exact .inr hc

/-- An operator ends where an expression begins, unless it goes on with a sign or a star. -/
theorem extend?_symbol {text : List Char} {c : Char} (htext : text ≠ []) (hslash : text ≠ ['/'])
    (hc : Begins c) (hminus : c = '-' → isSymbol (text ++ ['-']) = false)
    (hstar : isSymbol (text ++ ['*']) = false) : (Pending.symbol text).extend? c = none := by
  have hsymbol : isSymbol (text ++ [c]) ≠ true := by
    intro h
    rcases begins_followers hc (mem_followers htext h) with rfl | rfl
    · rw [hminus rfl] at h; cases h
    · rw [hstar] at h; cases h
  simp [Pending.extend?, hslash, hsymbol]

/-- A phrase does not go on with a symbol that has none longer by a minus sign or a star. -/
theorem ready_symbol {text : List Char} (htext : text ≠ []) (hslash : text ≠ ['/'])
    (hminus : isSymbol (text ++ ['-']) = false) (hstar : isSymbol (text ++ ['*']) = false) :
    (Pending.symbol text).Ready :=
  fun _ hc => extend?_symbol htext hslash hc (fun _ => hminus) hstar

/-- A phrase may stand behind a blank. -/
theorem ready_blank : Pending.blank.Ready := fun _ _ => rfl

/-- A blank goes on with nothing. -/
theorem closed_blank : Pending.blank.Closed := fun _ _ => rfl

/-! ## Putting phrases together -/

namespace Phrase

variable {text text' sep : String} {ts ts' us : List Token} {q : Pending}

/-- A separator between two phrases. -/
theorem append (h : Phrase text ts) (hsep : Separator sep us q) (hq : q.Ready)
    (h' : Phrase text' ts') : Phrase (text ++ sep ++ text') (ts ++ (us ++ (q.tokens ++ ts'))) := by
  obtain ⟨c, rest, htext, hc, hlexes⟩ := h
  obtain ⟨c', rest', -, hc', hlexes'⟩ := h'
  refine ⟨c, rest ++ sep.toList ++ text'.toList, by simp [htext], hc, fun p hp => ?_⟩
  obtain ⟨q₁, front, hfirst, rfl, hclosed⟩ := hlexes p hp
  obtain ⟨q₂, front', hsecond, rfl, hclosed'⟩ := hlexes' q (hq c' hc')
  refine ⟨q₂, front ++ q₁.tokens ++ us ++ q.tokens ++ front', ?_, by simp, hclosed'⟩
  simpa using (hfirst.append (hsep q₁ hclosed)).append hsecond

/-- A separator behind a phrase that ends it. -/
theorem close (h : Phrase text ts) (hsep : Separator sep us q) (hq : q.Closed) :
    Phrase (text ++ sep) (ts ++ (us ++ q.tokens)) := by
  obtain ⟨c, rest, htext, hc, hlexes⟩ := h
  refine ⟨c, rest ++ sep.toList, by simp [htext], hc, fun p hp => ?_⟩
  obtain ⟨q₁, front, hfirst, rfl, hclosed⟩ := hlexes p hp
  refine ⟨q, front ++ q₁.tokens ++ us, ?_, by simp, hq⟩
  simpa using hfirst.append (hsep q₁ hclosed)

/-- A phrase between other text and a separator. -/
theorem between {p r : Pending} {front : String} {vs : List Token} (hfront : Lexes p front us r)
    (hr : r.Ready) (h : Phrase text ts) (hsep : Separator sep vs q) :
    Lexes p (front ++ text ++ sep) (us ++ (r.tokens ++ (ts ++ vs))) q := by
  obtain ⟨c, rest, -, hc, hlexes⟩ := h
  obtain ⟨q₁, tokens, hlex, rfl, hclosed⟩ := hlexes r (hr c hc)
  have hall := (hfront.append hlex).append (hsep q₁ hclosed)
  rwa [List.append_assoc, List.append_assoc, ← List.append_assoc tokens] at hall

/-- A symbol in front of a phrase. -/
theorem behind {front : String} {c : Char} (hfront : front.toList = [c])
    (hc : c = '-' ∨ c = '(' ∨ c = '*') (h : Phrase text ts)
    (hready : ∀ d ∈ text.toList.head?, Begins d → (Pending.symbol [c]).extend? d = none) :
    Phrase (front ++ text) (.symbol front :: ts) := by
  obtain ⟨d, rest, htext, hd, hlexes⟩ := h
  obtain ⟨q, tokens, hlex, rfl, hclosed⟩ := hlexes (.symbol [c]) (hready d (by simp [htext]) hd)
  have hstart : Pending.start c = some (.symbol [c]) := by rcases hc with rfl | rfl | rfl <;> rfl
  have hsymbol : (Pending.symbol [c]).tokens = [.symbol front] := by
    rw [Pending.tokens, ← hfront, String.ofList_toList]
  refine ⟨c, text.toList, by simp [hfront], .inr (.inr hc), fun p hp => ?_⟩
  refine ⟨q, .symbol front :: tokens, ?_, rfl, hclosed⟩
  -- The phrase is read behind the symbol that has been begun, which ends there.
  have hlexed : Lexes (.symbol [c]) (String.ofList text.toList) 
      ((Pending.symbol [c]).tokens ++ tokens) q := by
    rwa [String.ofList_toList]
  have hbehind := Lexes.cons hp hstart hlexed
  have hwhole : front ++ text = String.ofList (c :: text.toList) := by
    rw [← String.toList_inj]; simp [hfront]
  rw [hwhole]
  simpa [hsymbol] using hbehind

/-- Parentheses around a phrase. -/
theorem paren (h : Phrase text ts) :
    Phrase ("(" ++ text ++ ")") (.symbol "(" :: (ts ++ [.symbol ")"])) := by
  have hopen : Phrase ("(" ++ text) (.symbol "(" :: ts) :=
    h.behind (c := '(') rfl (.inr (.inl rfl)) fun d _ hd =>
      ready_symbol (by simp) (by simp) (by decide) (by decide) d hd
  have hclose : Separator ")" [] (.symbol [')']) :=
    separator_of (c := ')') (p := .symbol [')']) rfl (by decide) rfl rfl
  simpa [Pending.tokens] using hopen.close hclose (closed_symbol (by simp))

/-- A star in front of a phrase. -/
theorem star (h : Phrase text ts) (hletter : ∀ d ∈ text.toList.head?, isLetter d = true) :
    Phrase ("*" ++ text) (.symbol "*" :: ts) := by
  refine h.behind (c := '*') rfl (.inr (.inr rfl)) fun d hd hbegins => ?_
  have hne : d ≠ '-' := by rintro rfl; exact absurd (hletter _ hd) (by decide)
  exact extend?_symbol (by simp) (by simp) hbegins (fun h => absurd h hne) (by decide)

/-- A minus sign in front of a phrase that has none. -/
theorem minus (h : Phrase text ts) (hsign : text.toList.head? ≠ some '-') :
    Phrase ("-" ++ text) (.symbol "-" :: ts) := by
  refine h.behind (c := '-') rfl (.inl rfl) fun d hd hbegins => ?_
  have hne : d ≠ '-' := by rintro rfl; exact hsign hd
  exact extend?_symbol (by simp) (by simp) hbegins (fun h => absurd h hne) (by decide)

/-! ### Words -/

/-- The characters of a word go on with it. -/
theorem lexes_word (front rest : List Char) (h : ∀ c ∈ rest, isWordChar c = true) :
    Lexes (.word front) (String.ofList rest) [] (.word (front ++ rest)) := by
  induction rest generalizing front with
  | nil => simpa using Lexes.nil (.word front)
  | cons c rest ih =>
    rw [List.forall_mem_cons] at h
    have hrest := ih (front ++ [c]) h.2
    rw [List.append_assoc, List.singleton_append] at hrest
    exact hrest.extend (by simp [Pending.extend?, h.1])

/-- A word ends where no character of a word follows. -/
theorem closed_word (word : List Char) : (Pending.word word).Closed := by
  intro c hc
  have hword : ∀ c ∈ closers, isWordChar c = false := by decide
  simp [Pending.extend?, hword c hc]

/-- A word is begun by a letter. -/
theorem lexes_of_letter {p : Pending} {c : Char} {rest : List Char} (htext : text.toList = c :: rest)
    (hc : isLetter c = true) (hrest : ∀ d ∈ rest, isWordChar d = true)
    (hp : p.extend? c = none) : Lexes p text p.tokens (.word text.toList) := by
  have hblank : c.isWhitespace = false := by
    cases hc' : c.isWhitespace with
    | false => rfl
    | true =>
      have hchars : c = ' ' ∨ c = '\t' ∨ c = '\r' ∨ c = '\n' := by
        simpa [Char.isWhitespace, or_assoc] using hc'
      rcases hchars with rfl | rfl | rfl | rfl <;> exact absurd hc (by decide)
  have hstart : Pending.start c = some (.word [c]) := by simp [Pending.start, hblank, hc]
  have hlexes := Lexes.cons hp hstart (lexes_word [c] rest hrest)
  rwa [← htext, String.ofList_toList, List.append_nil, List.singleton_append, ← htext] at hlexes

/-- A word, which may be reserved. -/
theorem word {c : Char} {rest : List Char} (htext : text.toList = c :: rest)
    (hc : isLetter c = true) (hrest : ∀ d ∈ rest, isWordChar d = true) :
    Phrase text [.ofWord text] := by
  refine ⟨c, rest, htext, .inl hc, fun p hp => ⟨.word text.toList, [], ?_, ?_, closed_word _⟩⟩
  · rw [List.append_nil]
    exact lexes_of_letter htext hc hrest hp
  · rw [Pending.tokens, String.ofList_toList]
    rfl

/-- A word that is not reserved. -/
theorem name {c : Char} {rest : List Char} (htext : text.toList = c :: rest)
    (hc : isLetter c = true) (hrest : ∀ d ∈ rest, isWordChar d = true) (hfree : text ∉ keywords) :
    Phrase text [.name text] := by
  have hword := word htext hc hrest
  rwa [Token.ofWord, if_neg hfree] at hword

/-- The text of a name can be told by looking at it. -/
theorem of_isName (h : isName text = true) : Phrase text [.name text] := by
  unfold isName at h
  split at h
  · next c rest htext =>
    simp only [Bool.and_eq_true, decide_eq_true_eq, List.all_eq_true] at h
    exact name htext h.1.1 h.1.2 h.2
  · cases h

/-! ### Numbers -/

/-- Some characters go on with a number. -/
def GoesOn (front rest : List Char) : Prop :=
  Lexes (.number front) (String.ofList rest) [] (.number (front ++ rest))

/-- What goes on with a number, in two parts. -/
theorem GoesOn.append {front rest rest' : List Char} (h : GoesOn front rest)
    (h' : GoesOn (front ++ rest) rest') : GoesOn front (rest ++ rest') := by
  have happend := Lexes.append h h'
  rwa [← String.ofList_append, List.append_assoc] at happend

/-- Digits, letters and points go on with a number. -/
theorem goesOn_plain (front rest : List Char) (h : ∀ c ∈ rest, isWordChar c = true ∨ c = '.') :
    GoesOn front rest := by
  induction rest generalizing front with
  | nil => simpa [GoesOn] using Lexes.nil (.number front)
  | cons c rest ih =>
    rw [List.forall_mem_cons] at h
    have hrest := ih (front ++ [c]) h.2
    rw [GoesOn, List.append_assoc, List.singleton_append] at hrest
    exact hrest.extend (by rcases h.1 with hc | rfl <;> simp [Pending.extend?, *])

/-- A sign behind the letter of an exponent goes on with a number. -/
theorem goesOn_sign {front : List Char} (h : front.getLast? = some 'e') : GoesOn front ['-'] := by
  refine Lexes.extend (q := .number (front ++ ['-'])) ?_ (Lexes.nil _)
  simp [Pending.extend?, h]

/-- A number ends where no character of a number follows. -/
theorem closed_number (number : List Char) : (Pending.number number).Closed := by
  intro c hc
  have hothers : ∀ c ∈ closers, isWordChar c = false ∧ c ≠ '.' ∧ c ≠ '+' ∧ c ≠ '-' := by decide
  obtain ⟨hword, hpoint, hplus, hminus⟩ := hothers c hc
  simp [Pending.extend?, hword, hpoint, hplus, hminus]

/-- A digit is neither a blank nor a letter. -/
theorem digit_facts {c : Char} (h : c.isDigit = true) :
    c.isWhitespace = false ∧ isLetter c = false := by
  simp only [Char.isDigit, Bool.and_eq_true, decide_eq_true_eq] at h
  have hlow : 48 ≤ c.toNat := UInt32.le_iff_toNat_le.1 h.1
  have hhigh : c.toNat ≤ 57 := UInt32.le_iff_toNat_le.1 h.2
  have hall : ∀ n < 10, (Char.ofNat (48 + n)).isWhitespace = false ∧
      isLetter (Char.ofNat (48 + n)) = false := by decide
  have hchar := hall (c.toNat - 48) (by omega)
  rwa [show 48 + (c.toNat - 48) = c.toNat by omega, Char.ofNat_toNat] at hchar

/-- A number is begun by a digit. -/
theorem lexes_of_digit {p : Pending} {c : Char} {rest : List Char} (htext : text.toList = c :: rest)
    (hc : c.isDigit = true) (hrest : GoesOn [c] rest) (hp : p.extend? c = none) :
    Lexes p text p.tokens (.number text.toList) := by
  have hstart : Pending.start c = some (.number [c]) := by
    simp [Pending.start, digit_facts hc, hc]
  have hlexes := Lexes.cons hp hstart hrest
  rwa [← htext, String.ofList_toList, List.append_nil, List.singleton_append, ← htext] at hlexes

/-- A number that starts with a digit. -/
theorem number {c : Char} {rest : List Char} (htext : text.toList = c :: rest)
    (hc : c.isDigit = true) (hrest : GoesOn [c] rest) : Phrase text [.number text] := by
  refine ⟨c, rest, htext, .inr (.inl hc), fun p hp => ⟨.number text.toList, [], ?_, ?_,
    closed_number _⟩⟩
  · rw [List.append_nil]
    exact lexes_of_digit htext hc hrest hp
  · rw [Pending.tokens, String.ofList_toList]
    rfl

/-- A digit is a character of a word. -/
theorem isWordChar_of_digit {c : Char} (h : c.isDigit = true) : isWordChar c = true := by
  simp [isWordChar, h]

/-- The digits of a number are digits. -/
theorem isDigit_of_mem_toDigits {n : Nat} {c : Char} (h : c ∈ Nat.toDigits 10 n) :
    c.isDigit = true :=
  Nat.isDigit_of_mem_toDigits (by decide) (by decide) h

/-- A number is written with its digits. -/
theorem toList_toString (n : Nat) : (toString n).toList = Nat.toDigits 10 n := by
  simp [toString, Nat.repr]

/-- The digits of a natural number. -/
theorem exists_digits (n : Nat) : ∃ c rest, (toString n).toList = c :: rest ∧ c.isDigit = true ∧
    GoesOn [c] rest := by
  obtain ⟨c, rest, hdigits⟩ := List.exists_cons_of_ne_nil (Nat.toDigits_ne_nil (n := n) (b := 10))
  have hall : ∀ d ∈ c :: rest, d.isDigit = true := fun d hd =>
    isDigit_of_mem_toDigits (n := n) (by rwa [hdigits])
  rw [List.forall_mem_cons] at hall
  refine ⟨c, rest, by rw [toList_toString, hdigits], hall.1, goesOn_plain [c] rest ?_⟩
  exact fun d hd => .inl (isWordChar_of_digit (hall.2 d hd))

/-- A natural number. -/
theorem natural (n : Nat) : Phrase (toString n) [.number (toString n)] := by
  obtain ⟨c, rest, htext, hc, hrest⟩ := exists_digits n
  exact number htext hc hrest

/-- A word that starts with some letters and goes on with a natural number. -/
theorem numbered (front : String) {c : Char} {rest : List Char} (hfront : front.toList = c :: rest)
    (hc : isLetter c = true) (hrest : ∀ d ∈ rest, isWordChar d = true)
    (hfree : ∀ word ∈ keywords, ¬ front.toList <+: word.toList) (n : Nat) :
    Phrase (front ++ toString n) [.name (front ++ toString n)] := by
  have htext : (front ++ toString n).toList = c :: (rest ++ Nat.toDigits 10 n) := by
    rw [String.toList_append, hfront, toList_toString, List.cons_append]
  refine name htext hc ?_ ?_
  · intro d hd
    rcases List.mem_append.1 hd with hd | hd
    · exact hrest d hd
    · exact isWordChar_of_digit (isDigit_of_mem_toDigits hd)
  · intro hword
    exact hfree _ hword (by rw [String.toList_append]; exact List.prefix_append _ _)

/-- A name with a natural number between angle brackets. -/
theorem angled (base : String) {c : Char} {rest : List Char} (htext : base.toList = c :: rest)
    (hc : isLetter c = true) (hrest : ∀ d ∈ rest, isWordChar d = true) (hfree : base ∉ keywords)
    (n : Nat) : Phrase (base ++ "<" ++ toString n ++ ">")
      [.name base, .symbol "<", .number (toString n), .symbol ">"] := by
  obtain ⟨d, digits, hn, hd, hdigits⟩ := exists_digits n
  refine ⟨c, rest ++ '<' :: (toString n).toList ++ ['>'], by simp [htext], .inl hc, fun p hp => ?_⟩
  refine ⟨.symbol ['>'], [.name base, .symbol "<", .number (toString n)], ?_, rfl,
    closed_symbol (by simp)⟩
  -- The name ends at the bracket that opens, the number at the one that closes.
  have hbase := lexes_of_letter htext hc hrest hp
  have hopen : Lexes (.word base.toList) "<" [.name base] (.symbol ['<']) := by
    have hlexes := Lexes.cons (p := .word base.toList) (c := '<') rfl rfl (Lexes.nil (.symbol ['<']))
    simpa [Pending.tokens, Token.ofWord, hfree] using hlexes
  have hready : (Pending.symbol ['<']).extend? d = none := by
    refine extend?_symbol (by simp) (by simp) (.inr (.inl hd)) ?_ (by decide)
    rintro rfl
    cases hd
  have hnumber := lexes_of_digit hn hd hdigits hready
  have hclose : Lexes (.number (toString n).toList) ">" [.number (toString n)] (.symbol ['>']) := by
    have hlexes := Lexes.cons (p := .number (toString n).toList) (c := '>') rfl rfl
      (Lexes.nil (.symbol ['>']))
    rwa [Pending.tokens, String.ofList_toList] at hlexes
  simpa [Pending.tokens] using ((hbase.append hopen).append hnumber).append hclose

end Phrase

/-- A phrase consists of its tokens. -/
theorem Phrase.tokenize {text : String} {ts : List Token} (h : Phrase text ts) :
    tokenize text = some ts := by
  obtain ⟨c, rest, -, -, hlexes⟩ := h
  obtain ⟨q, front, hlex, rfl, hclosed⟩ := hlexes .blank rfl
  refine tokenize_of_lexes (by simpa [Pending.tokens] using hlex) ?_
  rintro starred rfl
  have hopen := hclosed ' ' (by decide)
  cases starred <;> simp [Pending.extend?] at hopen

/-! ## Lines -/

/-- A text of whole lines with these tokens. -/
def Lines (text : String) (tokens : List Token) : Prop :=
  Lexes .blank text tokens .blank

namespace Lines

variable {text text' : String} {ts ts' : List Token}

/-- There are no tokens on no lines. -/
theorem nil : Lines "" [] := Lexes.nil _

/-- Lines one below the other. -/
theorem append (h : Lines text ts) (h' : Lines text' ts') : Lines (text ++ text') (ts ++ ts') :=
  Lexes.append h h'

/-- The tokens of lines are the tokens of their text. -/
theorem tokenize (h : Lines text ts) : tokenize text = some ts := by
  simpa [Pending.tokens] using tokenize_of_lexes h (by simp)

end Lines

/-- Blanks are no tokens. -/
theorem lexes_blanks (rest : List Char) (h : ∀ c ∈ rest, c.isWhitespace = true) :
    Lexes .blank (String.ofList rest) [] .blank := by
  induction rest with
  | nil => exact Lexes.nil _
  | cons c rest ih =>
    rw [List.forall_mem_cons] at h
    exact Lexes.cons (p := .blank) rfl (by simp [Pending.start, h.1]) (ih h.2)

/-- What has been begun as a comment or a directive goes on to the end of the line. -/
theorem lexes_to_end {p : Pending} (hp : p = .comment ∨ p = .directive) {rest : List Char}
    (h : '\n' ∉ rest) : Lexes p (String.ofList (rest ++ ['\n'])) [] .blank := by
  induction rest with
  | nil =>
    rcases hp with rfl | rfl <;> rfl
  | cons c rest ih =>
    rw [List.mem_cons, not_or] at h
    refine Lexes.extend (q := p) ?_ (ih h.2)
    have hc : c ≠ '\n' := fun heq => h.1 heq.symm
    rcases hp with rfl | rfl <;> simp [Pending.extend?, hc]

end HlsEmit.Cpp
