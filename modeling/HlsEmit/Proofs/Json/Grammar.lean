import HlsEmit.Proofs.Json.Schemas

/-!
# The grammar of JSON texts

Which texts are written forms of a document, whatever is to be read from it. Blanks between the
pieces and the escapes in a text are free, so a `Tree` does not hold them; a number is kept as it is
written.

The content of a text is a sequence of UTF-16 code units, as its numeric escapes are. Half of a
surrogate pair may stand alone in it. Such a text is not Unicode and no type reads it, but it may
stand in a value that is skipped.

A relation of the grammar goes from an input to what is left of it behind the written form.

## Key results

- `Written.unique`, `Tree.WrittenAs.unique`: a text is a written form of one document only
-/

namespace HlsEmit.Json

/-! ## Documents as they are written -/

/-- The code units of a text in UTF-16. -/
abbrev CodeUnits := List Nat

/-- A document, up to the blanks and the escapes in its text. -/
inductive Tree where
  | null
  | bool (value : Bool)
  | number (token : List Char)
  | text (units : CodeUnits)
  | list (items : List Tree)
  | object (members : List (CodeUnits × Tree))
deriving Inhabited

/-- The code units of a character. -/
def unitsOf (c : Char) : CodeUnits :=
  if c.toNat < 0x10000 then [c.toNat]
  else [0xd800 + (c.toNat - 0x10000) / 0x400, 0xdc00 + (c.toNat - 0x10000) % 0x400]

/-- The characters of some code units, if these are Unicode. -/
def charsOf? : CodeUnits → Option (List Char)
  | [] => some []
  | unit :: rest =>
    if isTrailSurrogate unit then none
    else if isLeadSurrogate unit then
      match rest with
      | [] => none
      | second :: rest =>
        if isTrailSurrogate second then
          (charsOf? rest).map
            (Char.ofNat (0x10000 + (unit - 0xd800) * 0x400 + (second - 0xdc00)) :: ·)
        else none
    else (charsOf? rest).map (Char.ofNat unit :: ·)

/-- The text that some code units are, if they are Unicode. -/
def textOf? (units : CodeUnits) : Option String :=
  (charsOf? units).map String.ofList

/-! ## Written forms -/

/-- Only blanks stand in front of the rest. -/
def Gap (input rest : List Char) : Prop :=
  ∃ gap, Blank gap ∧ input = gap ++ rest

/-- What stands in front of an element or a member: blanks, and a comma among them unless it is the
first one. -/
def Separator : (first : Bool) → (input rest : List Char) → Prop
  | true, input, rest => Gap input rest
  | false, input, rest => ∃ behind, Gap input (',' :: behind) ∧ Gap behind rest

/-- The digits behind a point, with the point, or nothing. -/
def Fraction (part : List Char) : Prop :=
  part = [] ∨ ∃ digits, digits ≠ [] ∧ Digits digits ∧ part = '.' :: digits

/-- A power of ten, with the letter in front of it, or nothing. -/
def Exponent (part : List Char) : Prop :=
  part = [] ∨ ∃ mark sign digits, (mark = 'e' ∨ mark = 'E') ∧
    (sign = [] ∨ sign = ['+'] ∨ sign = ['-']) ∧ digits ≠ [] ∧ Digits digits ∧
    part = mark :: (sign ++ digits)

/-- The characters of a number. -/
structure Numeral (token : List Char) : Prop where
  parts : ∃ sign whole fraction exponent, (sign = [] ∨ sign = ['-']) ∧ Whole whole ∧
    Fraction fraction ∧ Exponent exponent ∧ token = sign ++ (whole ++ (fraction ++ exponent))

/-- The code unit that four hexadecimal digits write. -/
def unitOf? (a b c d : Char) : Option Nat := do
  let a ← hexValue? a
  let b ← hexValue? b
  let c ← hexValue? c
  let d ← hexValue? d
  return ((a * 16 + b) * 16 + c) * 16 + d

/-- The inside of a text and its closing quote. -/
inductive Quoted : CodeUnits → (input rest : List Char) → Prop
  | close {rest : List Char} : Quoted [] ('"' :: rest) rest
  | plain {c : Char} {units : CodeUnits} {input rest : List Char} :
      c ≠ '"' → c ≠ '\\' → 0x20 ≤ c.toNat → Quoted units input rest →
      Quoted (unitsOf c ++ units) (c :: input) rest
  | simple {c d : Char} {units : CodeUnits} {input rest : List Char} :
      simpleEscape? c = some d → Quoted units input rest →
      Quoted (d.toNat :: units) ('\\' :: c :: input) rest
  | numeric {a b c d : Char} {unit : Nat} {units : CodeUnits} {input rest : List Char} :
      unitOf? a b c d = some unit → Quoted units input rest →
      Quoted (unit :: units) ('\\' :: 'u' :: a :: b :: c :: d :: input) rest

mutual

/-- A written form of a document. -/
inductive Written : Tree → (input rest : List Char) → Prop
  | null {rest : List Char} : Written .null ('n' :: 'u' :: 'l' :: 'l' :: rest) rest
  | boolTrue {rest : List Char} : Written (.bool true) ('t' :: 'r' :: 'u' :: 'e' :: rest) rest
  | boolFalse {rest : List Char} : Written (.bool false) ('f' :: 'a' :: 'l' :: 's' :: 'e' :: rest) rest
  | number {token input rest : List Char} :
      Numeral token → input = token ++ rest → Written (.number token) input rest
  | text {units : CodeUnits} {input rest : List Char} :
      Quoted units input rest → Written (.text units) ('"' :: input) rest
  | list {items : List Tree} {input rest : List Char} :
      WrittenItems true items input rest → Written (.list items) ('[' :: input) rest
  | object {members : List (CodeUnits × Tree)} {input rest : List Char} :
      WrittenMembers true members input rest → Written (.object members) ('\x7b' :: input) rest

/-- The remaining elements of a list and its closing bracket; `first` says that none stands in front
of them. -/
inductive WrittenItems : (first : Bool) → List Tree → (input rest : List Char) → Prop
  | nil {first : Bool} {input rest : List Char} :
      Gap input (']' :: rest) → WrittenItems first [] input rest
  | cons {first : Bool} {item : Tree} {items : List Tree} {input front behind rest : List Char} :
      Separator first input front → Written item front behind →
      WrittenItems false items behind rest → WrittenItems first (item :: items) input rest

/-- The remaining members of an object and its closing brace. -/
inductive WrittenMembers :
    (first : Bool) → List (CodeUnits × Tree) → (input rest : List Char) → Prop
  | nil {first : Bool} {input rest : List Char} :
      Gap input ('\x7d' :: rest) → WrittenMembers first [] input rest
  | cons {first : Bool} {key : CodeUnits} {content : Tree} {members : List (CodeUnits × Tree)}
      {input quoted colon behind rest : List Char} :
      Separator first input ('"' :: quoted) → Quoted key quoted colon →
      WrittenContent content colon behind → WrittenMembers false members behind rest →
      WrittenMembers first ((key, content) :: members) input rest

/-- The value of a member with the colon in front of it. -/
inductive WrittenContent : Tree → (input rest : List Char) → Prop
  | colon {content : Tree} {input behind front rest : List Char} :
      Gap input (':' :: behind) → Gap behind front → Written content front rest →
      WrittenContent content input rest

end

/-- The document that a text is a written form of, with blanks around it. -/
def Tree.WrittenAs (tree : Tree) (source : String) : Prop :=
  ∃ input rest, Gap source.toList input ∧ Written tree input rest ∧ Blank rest

/-! ## Blanks and numbers -/

/-- Dropping blanks ends at the first other character. -/
theorem Gap.dropWhile {c : Char} {input rest : List Char} (h : Gap input (c :: rest))
    (hc : isBlank c = false) : input.dropWhile isBlank = c :: rest := by
  obtain ⟨gap, hgap, rfl⟩ := h
  rw [List.dropWhile_append_of_pos hgap, List.dropWhile_cons_of_neg (by simp [hc])]

/-- Blanks end at one place. -/
theorem Gap.unique {c c' : Char} {input rest rest' : List Char} (h : Gap input (c :: rest))
    (h' : Gap input (c' :: rest')) (hc : isBlank c = false) (hc' : isBlank c' = false) :
    c = c' ∧ rest = rest' := by
  have hsame := h.dropWhile hc
  rw [h'.dropWhile hc'] at hsame
  exact ⟨(List.cons.inj hsame).1.symm, (List.cons.inj hsame).2.symm⟩

/-- The characters of which numbers are made. -/
def isNumeral (c : Char) : Bool :=
  isDigit c || c = '-' || c = '+' || c = '.' || c = 'e' || c = 'E'

/-- What follows is no part of a number. -/
def Apart (rest : List Char) : Prop :=
  ∀ c, rest.head? = some c → isNumeral c = false

/-- A character that no numeral has keeps a numeral apart. -/
theorem apart_cons {c : Char} (hc : isNumeral c = false) (rest : List Char) : Apart (c :: rest) := by
  rintro d hd
  obtain rfl : c = d := by simpa using hd
  exact hc

/-- Digits are characters of a numeral. -/
theorem Digits.isNumeral {cs : List Char} (h : Digits cs) : ∀ c ∈ cs, isNumeral c = true :=
  fun c hc => by simp [Json.isNumeral, h c hc]

/-- A numeral has only characters of numerals. -/
theorem Numeral.isNumeral {token : List Char} (h : Numeral token) :
    ∀ c ∈ token, isNumeral c = true := by
  obtain ⟨sign, whole, fraction, exponent, hsign, hwhole, hfraction, hexponent, rfl⟩ := h.parts
  have hsigns : ∀ c ∈ sign, Json.isNumeral c = true := by
    rcases hsign with rfl | rfl <;> simp [Json.isNumeral]
  have hfractions : ∀ c ∈ fraction, Json.isNumeral c = true := by
    rcases hfraction with rfl | ⟨digits, -, hdigits, rfl⟩
    · simp
    · exact List.forall_mem_cons.2 ⟨by decide, hdigits.isNumeral⟩
  have hexponents : ∀ c ∈ exponent, Json.isNumeral c = true := by
    rcases hexponent with rfl | ⟨mark, sign, digits, hmark, hsign, -, hdigits, rfl⟩
    · simp
    · refine List.forall_mem_cons.2 ⟨?_, List.forall_mem_append.2 ⟨?_, hdigits.isNumeral⟩⟩
      · rcases hmark with rfl | rfl <;> decide
      · rcases hsign with rfl | rfl | rfl <;> simp [Json.isNumeral]
  exact List.forall_mem_append.2 ⟨hsigns, List.forall_mem_append.2 ⟨hwhole.digits.isNumeral,
    List.forall_mem_append.2 ⟨hfractions, hexponents⟩⟩⟩

/-- A numeral starts with a digit or a sign. -/
theorem Numeral.starts {token : List Char} (h : Numeral token) :
    ∃ c cs, token = c :: cs ∧ StartsNumber c := by
  obtain ⟨sign, whole, fraction, exponent, hsign, hwhole, -, -, rfl⟩ := h.parts
  have hstarts := fun negative => hwhole.starts negative (fraction ++ exponent)
  rcases hsign with rfl | rfl
  · simpa using hstarts false
  · simpa using hstarts true

/-- A number is as long as it can be. -/
theorem Numeral.takeWhile {token rest : List Char} (h : Numeral token) (hrest : Apart rest) :
    (token ++ rest).takeWhile Json.isNumeral = token ∧
      (token ++ rest).dropWhile Json.isNumeral = rest := by
  rw [List.takeWhile_append_of_pos h.isNumeral, List.dropWhile_append_of_pos h.isNumeral]
  cases rest with
  | nil => simp
  | cons c rest =>
    have hc := hrest c rfl
    rw [List.takeWhile_cons_of_neg (by simp [hc]), List.dropWhile_cons_of_neg (by simp [hc])]
    simp

/-- It is clear where a numeral ends. -/
theorem Numeral.unique {token token' rest rest' : List Char} (h : Numeral token)
    (h' : Numeral token') (hrest : Apart rest) (hrest' : Apart rest')
    (hsame : token ++ rest = token' ++ rest') : token = token' ∧ rest = rest' := by
  have hleft := h.takeWhile hrest
  rw [hsame, (h'.takeWhile hrest').1, (h'.takeWhile hrest').2] at hleft
  exact ⟨hleft.1.symm, hleft.2.symm⟩

/-! ## A text is a written form of one document -/

/-- The inside of a text determines its code units and where it ends. -/
theorem Quoted.unique {units units' : CodeUnits} {input rest rest' : List Char}
    (h : Quoted units input rest) (h' : Quoted units' input rest') :
    units = units' ∧ rest = rest' := by
  -- the first character tells the cases apart, and behind a backslash the second one
  induction h generalizing units' with
  | close =>
    cases h' with
    | close => exact ⟨rfl, rfl⟩
    | plain hquote => exact absurd rfl hquote
  | plain hquote hescape _ _ ih =>
    cases h' with
    | close => exact absurd rfl hquote
    | plain _ _ _ hinput =>
      obtain ⟨rfl, rfl⟩ := ih hinput
      exact ⟨rfl, rfl⟩
    | simple | numeric => exact absurd rfl hescape
  | simple hescape _ ih =>
    cases h' with
    | plain _ hplain => exact absurd rfl hplain
    | simple hescape' hinput =>
      obtain ⟨rfl, rfl⟩ := ih hinput
      obtain rfl := Option.some.inj (hescape.symm.trans hescape')
      exact ⟨rfl, rfl⟩
    | numeric => cases hescape
  | numeric hunit _ ih =>
    cases h' with
    | plain _ hplain => exact absurd rfl hplain
    | simple hescape => cases hescape
    | numeric hunit' hinput =>
      obtain ⟨rfl, rfl⟩ := ih hinput
      obtain rfl := Option.some.inj (hunit.symm.trans hunit')
      exact ⟨rfl, rfl⟩

/-- A written form starts with a character that is neither blank nor closes or separates anything. -/
theorem Written.opens {tree : Tree} {input rest : List Char} (h : Written tree input rest) :
    ∃ c cs, input = c :: cs ∧ Opens c := by
  have hchar {c : Char} (hc : (isBlank c = false ∧ c ≠ ']') ∧ c ≠ ',') : Opens c :=
    ⟨hc.1.1, hc.1.2, hc.2⟩
  cases h with
  | null => exact ⟨'n', _, rfl, hchar (by decide)⟩
  | boolTrue => exact ⟨'t', _, rfl, hchar (by decide)⟩
  | boolFalse => exact ⟨'f', _, rfl, hchar (by decide)⟩
  | number htoken hinput =>
    obtain ⟨c, cs, rfl, hc⟩ := htoken.starts
    exact ⟨c, _, hinput, hc.not_blank, hc.ne (by decide), hc.ne (by decide)⟩
  | text => exact ⟨'"', _, rfl, hchar (by decide)⟩
  | list => exact ⟨'[', _, rfl, hchar (by decide)⟩
  | object => exact ⟨'\x7b', _, rfl, hchar (by decide)⟩

/-- A gap in front of another token keeps a numeral apart. -/
theorem Gap.apart {c : Char} {input rest : List Char} (h : Gap input (c :: rest))
    (hc : isNumeral c = false) : Apart input := by
  obtain ⟨gap, hgap, rfl⟩ := h
  cases gap with
  | nil => exact apart_cons hc _
  | cons d gap =>
    have hblank := hgap d (by simp)
    simp only [isBlank, Bool.or_eq_true, decide_eq_true_eq] at hblank
    rcases hblank with ((rfl | rfl) | rfl) | rfl <;> exact apart_cons (by decide) _

/-- Further items start with a comma, or the list ends. -/
theorem WrittenItems.apart {items : List Tree} {input rest : List Char}
    (h : WrittenItems false items input rest) : Apart input := by
  cases h with
  | nil hgap => exact hgap.apart (by decide)
  | cons hlead =>
    obtain ⟨_, hgap, -⟩ := hlead
    exact hgap.apart (by decide)

/-- Further members start with a comma, or the object ends. -/
theorem WrittenMembers.apart {members : List (CodeUnits × Tree)} {input rest : List Char}
    (h : WrittenMembers false members input rest) : Apart input := by
  cases h with
  | nil hgap => exact hgap.apart (by decide)
  | cons hlead =>
    obtain ⟨_, hgap, -⟩ := hlead
    exact hgap.apart (by decide)

/-- An element or a member that follows does not close anything. -/
theorem Separator.not_closed {first : Bool} {c d : Char} {input front rest : List Char}
    (h : Separator first input (c :: front)) (hc : isBlank c = false) (hd : isBlank d = false)
    (hne : d ≠ c) (hcomma : d ≠ ',') : ¬ Gap input (d :: rest) := by
  intro hgap
  cases first with
  | true => exact hne (Gap.unique hgap h hd hc).1
  | false =>
    obtain ⟨_, hlead, -⟩ := h
    exact hcomma (Gap.unique hgap hlead hd (by decide)).1

/-- A separator ends at the first character that is not blank. -/
theorem Separator.unique {first : Bool} {c c' : Char} {input front front' : List Char}
    (h : Separator first input (c :: front)) (h' : Separator first input (c' :: front'))
    (hc : isBlank c = false) (hc' : isBlank c' = false) : c = c' ∧ front = front' := by
  cases first with
  | true => exact Gap.unique h h' hc hc'
  | false =>
    obtain ⟨_, hcomma, hgap⟩ := h
    obtain ⟨_, hcomma', hgap'⟩ := h'
    obtain ⟨-, rfl⟩ := Gap.unique hcomma hcomma' (by decide) (by decide)
    exact Gap.unique hgap hgap' hc hc'

/-- A number starts with no letter, bracket or quote. -/
theorem Numeral.not_starts {c : Char} {token behind rest : List Char} (h : Numeral token)
    (hsame : c :: behind = token ++ rest) : StartsNumber c := by
  obtain ⟨d, ds, rfl, hd⟩ := h.starts
  exact (List.cons.inj hsame).1 ▸ hd

mutual

/-- A text is a written form of one document, and it is clear where the form ends. -/
theorem Written.unique : (tree : Tree) → {tree' : Tree} → {input rest rest' : List Char} →
    Written tree input rest → Written tree' input rest' → Apart rest → Apart rest' →
    tree = tree' ∧ rest = rest'
  -- Each form starts with a character of its own, and none of them starts a numeral.
  | .null, _, _, _, _, h, h', _, _ => by
    cases h
    cases h' with
    | null => exact ⟨rfl, rfl⟩
    | number htoken hinput => exact absurd (htoken.not_starts hinput) (by decide)
  | .bool true, _, _, _, _, h, h', _, _ => by
    cases h
    cases h' with
    | boolTrue => exact ⟨rfl, rfl⟩
    | number htoken hinput => exact absurd (htoken.not_starts hinput) (by decide)
  | .bool false, _, _, _, _, h, h', _, _ => by
    cases h
    cases h' with
    | boolFalse => exact ⟨rfl, rfl⟩
    | number htoken hinput => exact absurd (htoken.not_starts hinput) (by decide)
  -- Two numerals in front of the same text end at the same place.
  | .number token, _, _, _, _, h, h', hrest, hrest' => by
    cases h with
    | number htoken hinput =>
      cases h' with
      | number htoken' hinput' =>
        obtain ⟨rfl, rfl⟩ := htoken.unique htoken' hrest hrest' (hinput.symm.trans hinput')
        exact ⟨rfl, rfl⟩
      | _ => exact absurd (htoken.not_starts hinput) (by decide)
  | .text units, _, _, _, _, h, h', _, _ => by
    cases h with
    | text hquoted =>
      cases h' with
      | text hquoted' =>
        obtain ⟨rfl, rfl⟩ := hquoted.unique hquoted'
        exact ⟨rfl, rfl⟩
      | number htoken hinput => exact absurd (htoken.not_starts hinput) (by decide)
  | .list items, _, _, _, _, h, h', _, _ => by
    cases h with
    | list hitems =>
      cases h' with
      | list hitems' =>
        obtain ⟨rfl, rfl⟩ := WrittenItems.unique items hitems hitems'
        exact ⟨rfl, rfl⟩
      | number htoken hinput => exact absurd (htoken.not_starts hinput) (by decide)
  | .object members, _, _, _, _, h, h', _, _ => by
    cases h with
    | object hmembers =>
      cases h' with
      | object hmembers' =>
        obtain ⟨rfl, rfl⟩ := WrittenMembers.unique members hmembers hmembers'
        exact ⟨rfl, rfl⟩
      | number htoken hinput => exact absurd (htoken.not_starts hinput) (by decide)

/-- A text is a written form of one list of items. -/
theorem WrittenItems.unique : (items : List Tree) → {first : Bool} → {items' : List Tree} →
    {input rest rest' : List Char} → WrittenItems first items input rest →
    WrittenItems first items' input rest' → items = items' ∧ rest = rest'
  | [], _, _, _, _, _, h, h' => by
    cases h with
    | nil hgap =>
      cases h' with
      | nil hgap' => exact ⟨rfl, (hgap.unique hgap' (by decide) (by decide)).2⟩
      | cons hlead hitem =>
        obtain ⟨c, cs, rfl, hopens⟩ := hitem.opens
        exact absurd hgap (hlead.not_closed hopens.not_blank (by decide) hopens.not_close.symm
          (by decide))
  | item :: items, _, _, _, _, _, h, h' => by
    cases h with
    | cons hlead hitem hitems =>
      obtain ⟨c, cs, rfl, hopens⟩ := hitem.opens
      cases h' with
      | nil hgap =>
        exact absurd hgap (hlead.not_closed hopens.not_blank (by decide) hopens.not_close.symm
          (by decide))
      | cons hlead' hitem' hitems' =>
        obtain ⟨c', cs', rfl, hopens'⟩ := hitem'.opens
        -- the items start at the same place; what follows keeps a number from going on
        obtain ⟨rfl, rfl⟩ := hlead.unique hlead' hopens.not_blank hopens'.not_blank
        obtain ⟨rfl, rfl⟩ := Written.unique item hitem hitem' hitems.apart hitems'.apart
        obtain ⟨rfl, rfl⟩ := WrittenItems.unique items hitems hitems'
        exact ⟨rfl, rfl⟩

/-- A text is a written form of one list of members. -/
theorem WrittenMembers.unique : (members : List (CodeUnits × Tree)) → {first : Bool} →
    {members' : List (CodeUnits × Tree)} → {input rest rest' : List Char} →
    WrittenMembers first members input rest → WrittenMembers first members' input rest' →
    members = members' ∧ rest = rest'
  | [], _, _, _, _, _, h, h' => by
    cases h with
    | nil hgap =>
      cases h' with
      | nil hgap' => exact ⟨rfl, (hgap.unique hgap' (by decide) (by decide)).2⟩
      | cons hlead =>
        exact absurd hgap (hlead.not_closed (by decide) (by decide) (by decide) (by decide))
  | (_, content) :: members, _, _, _, _, _, h, h' => by
    cases h with
    | cons hlead hkey hcontent hmembers =>
      cases h' with
      | nil hgap =>
        exact absurd hgap (hlead.not_closed (by decide) (by decide) (by decide) (by decide))
      | cons hlead' hkey' hcontent' hmembers' =>
        -- Part by part: the separator, the key, the colon, the content, the members behind.
        obtain ⟨-, rfl⟩ := hlead.unique hlead' (by decide) (by decide)
        obtain ⟨rfl, rfl⟩ := hkey.unique hkey'
        cases hcontent with
        | colon hgap hgap₂ hvalue =>
          cases hcontent' with
          | colon hgap' hgap₂' hvalue' =>
            obtain ⟨-, rfl⟩ := hgap.unique hgap' (by decide) (by decide)
            obtain ⟨c, cs, rfl, hopens⟩ := hvalue.opens
            obtain ⟨c', cs', rfl, hopens'⟩ := hvalue'.opens
            obtain ⟨rfl, rfl⟩ := hgap₂.unique hgap₂' hopens.not_blank hopens'.not_blank
            obtain ⟨rfl, rfl⟩ :=
              Written.unique content hvalue hvalue' hmembers.apart hmembers'.apart
            obtain ⟨rfl, rfl⟩ := WrittenMembers.unique members hmembers hmembers'
            exact ⟨rfl, rfl⟩

end

/-- Blanks keep a numeral apart. -/
theorem Blank.apart {rest : List Char} (h : Blank rest) : Apart rest := by
  cases rest with
  | nil => simp [Apart]
  | cons c rest =>
    have hgap : Gap (c :: rest ++ [']']) [']'] := ⟨c :: rest, h, rfl⟩
    rintro d hd
    exact hgap.apart (by decide) d (by simpa using hd)

/-- A whole text is a written form of one document. -/
theorem Tree.WrittenAs.unique {tree tree' : Tree} {source : String} (h : tree.WrittenAs source)
    (h' : tree'.WrittenAs source) : tree = tree' := by
  obtain ⟨input, rest, hgap, hwritten, hrest⟩ := h
  obtain ⟨input', rest', hgap', hwritten', hrest'⟩ := h'
  obtain ⟨c, cs, rfl, hopens⟩ := hwritten.opens
  obtain ⟨c', cs', rfl, hopens'⟩ := hwritten'.opens
  obtain ⟨rfl, rfl⟩ := hgap.unique hgap' hopens.not_blank hopens'.not_blank
  exact (Written.unique tree hwritten hwritten' hrest.apart hrest'.apart).1

end HlsEmit.Json
