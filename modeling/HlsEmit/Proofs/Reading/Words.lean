import HlsEmit.Model.Value
import HlsEmit.Naming
import HlsEmit.Proofs.Reading.Parse
import HlsEmit.Proofs.Reading.Phrase
import HlsEmit.Code.Cpp
import HlsEmit.Execution.Implements

/-!
# Identifiers, literals and types as they are read

The smallest pieces of the generated code: the identifiers of values and counters, the texts of
constants and the spellings of types. Each is a phrase of its own, with the tokens of the syntax that
it stands for.

## Key results

- `phrase_identifier`, `phrase_counterName`: identifiers are no reserved words
- `exists_magnitude`, `exists_literal`: what the text of a constant is read as
- `ElemType.phrase_typeName`: the spelling of an element type
-/

namespace HlsEmit

open Cpp (Phrase Token)

/-! ## Identifiers -/

/-- A name is a phrase. -/
theorem Name.phrase_identifier (name : Name) : Phrase name.identifier [.name name.identifier] :=
  Phrase.numbered "val" rfl (by decide) (by decide) (by decide) name.number

/-- The counter of a generated loop is a phrase. -/
theorem Code.phrase_counterName (dim : Nat) :
    Phrase (counterName dim) [.name (counterName dim)] :=
  Phrase.numbered "idx" rfl (by decide) (by decide) (by decide) dim

/-- A name is read as the identifier or as what it points to. -/
theorem Name.phrase_text (name : Name) :
    Phrase name.text (if name.pointer then [.symbol "*", .name name.identifier]
      else [.name name.identifier]) := by
  obtain ⟨number, pointer⟩ := name
  cases pointer with
  | false => exact phrase_identifier _
  | true =>
    refine (phrase_identifier ⟨number, true⟩).star fun d hd => ?_
    obtain rfl : 'v' = d := by simpa [identifier, String.toList_append] using hd
    decide

/-! ## Numbers -/

/-- A natural number has no sign in front. -/
theorem head?_natural (n : Nat) : (toString n).toList.head? ≠ some '-' := by
  rw [Phrase.toList_toString]
  intro hsign
  have hdigit := Phrase.isDigit_of_mem_toDigits (List.mem_of_mem_head? hsign)
  cases hdigit

/-- The text of an integer is that of a natural number, perhaps with a sign in front. -/
theorem exists_natural (value : Int) :
    ∃ n : Nat, toString value = toString n ∨ toString value = "-" ++ toString n := by
  cases value with
  | ofNat n => exact ⟨n, .inl rfl⟩
  | negSucc n => exact ⟨n + 1, .inr rfl⟩

/-- An integer is a number, perhaps with a sign in front. -/
theorem Code.phrase_integer (value : Int) : Phrase (toString value) (integerCpp value).tokens := by
  cases value with
  | ofNat n => exact Phrase.natural n
  | negSucc n =>
    have hmagnitude : Phrase ("-" ++ toString (n + 1)) [.symbol "-", .number (toString (n + 1))] :=
      (Phrase.natural (n + 1)).minus (head?_natural (n + 1))
    rw [integerCpp, if_pos (Int.negSucc_lt_zero n)]
    exact hmagnitude

namespace DecimalLayout

/-- The characters of a fraction start with a digit and go on with a number. -/
def IsFraction (cs : List Char) : Prop :=
  ∃ c rest, cs = c :: rest ∧ c.isDigit = true ∧ Phrase.GoesOn [c] rest

variable {digits : List Char} (hdigits : ∀ c ∈ digits, c.isDigit = true) (hne : digits ≠ [])

include hdigits hne

/-- Digits with a point between them are a fraction. -/
theorem isFraction_positional (lead : Int) : IsFraction (positional digits lead) := by
  have hplain : ∀ {cs : List Char}, (∀ c ∈ cs, c.isDigit = true ∨ c = '.') →
      ∀ c ∈ cs, Cpp.isWordChar c = true ∨ c = '.' := fun h c hc =>
    (h c hc).imp_left Phrase.isWordChar_of_digit
  have hzeros : ∀ k, ∀ c ∈ List.replicate k '0', c.isDigit = true := by
    intro k c hc
    rw [List.eq_of_mem_replicate hc]
    decide
  -- The point stands in front of the digits, behind zeros, or among them.
  unfold positional
  split
  · refine ⟨'0', _, rfl, by decide, Phrase.goesOn_plain _ _ (hplain ?_)⟩
    intro c hc
    rcases List.mem_cons.1 hc with rfl | hc
    · exact .inr rfl
    · rcases List.mem_append.1 hc with hc | hc
      · exact .inl (hzeros _ c hc)
      · exact .inl (hdigits c hc)
  · obtain ⟨c, rest, rfl⟩ := List.exists_cons_of_ne_nil hne
    rw [List.forall_mem_cons] at hdigits
    refine ⟨c, _, rfl, hdigits.1, Phrase.goesOn_plain _ _ (hplain ?_)⟩
    intro d hd
    rcases List.mem_append.1 hd with hd | hd
    · rcases List.mem_append.1 (List.mem_of_mem_take hd) with hd | hd
      · exact .inl (hdigits.2 d hd)
      · exact .inl (hzeros _ d hd)
    · rcases List.mem_cons.1 hd with rfl | hd
      · exact .inr rfl
      · split at hd
        · exact .inl (by rw [List.mem_singleton.1 hd]; decide)
        · exact .inl (hdigits.2 d (List.mem_of_mem_drop (i := lead.toNat) hd))

/-- Digits with an exponent are a fraction. -/
theorem isFraction_scientific {layout : DecimalLayout} (hplus : layout.plusSign = false) (lead : Int) :
    IsFraction (scientific layout digits lead) := by
  obtain ⟨c, rest, rfl⟩ := List.exists_cons_of_ne_nil hne
  rw [List.forall_mem_cons] at hdigits
  -- the digits behind the point, the letter, and what is behind the sign
  have hfraction : ∀ d ∈ (if rest.isEmpty then [] else '.' :: rest) ++ ['e'],
      Cpp.isWordChar d = true ∨ d = '.' := by
    intro d hd
    rcases List.mem_append.1 hd with hd | hd
    · split at hd
      · cases hd
      · rcases List.mem_cons.1 hd with rfl | hd
        · exact .inr rfl
        · exact .inl (Phrase.isWordChar_of_digit (hdigits.2 d hd))
    · exact .inl (by rw [List.mem_singleton.1 hd]; decide)
  have hexponent : ∀ front, Phrase.GoesOn front (Nat.toDigits 10 lead.natAbs) := fun front =>
    Phrase.goesOn_plain _ _ fun d hd =>
      .inl (Phrase.isWordChar_of_digit (Phrase.isDigit_of_mem_toDigits hd))
  have hmantissa := Phrase.goesOn_plain [c] _ hfraction
  by_cases hlead : lead < 0
  · have hsign : Phrase.GoesOn ([c] ++ ((if rest.isEmpty then [] else '.' :: rest) ++ ['e'])) ['-'] :=
      Phrase.goesOn_sign (by rw [← List.append_assoc]; exact List.getLast?_concat)
    refine ⟨c, _, ?_, hdigits.1, (hmantissa.append hsign).append (hexponent _)⟩
    simp [scientific, hlead]
  · refine ⟨c, _, ?_, hdigits.1, hmantissa.append (hexponent _)⟩
    simp [scientific, hlead, hplus]

end DecimalLayout

/-- A finite number is written as a fraction, perhaps with a sign in front. -/
theorem exists_fraction (x : Binary64) : ∃ fraction, Phrase fraction [.number fraction] ∧
    fraction.toList.head? ≠ some '-' ∧
    cppRealLayout.render x = if x.isNegative then "-" ++ fraction else fraction := by
  have hdigits (n : Nat) : ∀ c ∈ Nat.toDigits 10 n, c.isDigit = true :=
    fun c hc => Phrase.isDigit_of_mem_toDigits hc
  -- In both layouts the digits are a fraction, and the sign stands in front of it.
  have hmagnitude : ∀ digits, (∀ c ∈ digits, c.isDigit = true) → digits ≠ [] → ∀ lead,
      DecimalLayout.IsFraction (if cppRealLayout.leastPositional ≤ lead ∧
        lead ≤ cppRealLayout.greatestPositional then DecimalLayout.positional digits lead
        else cppRealLayout.scientific digits lead) := by
    intro digits hall hne lead
    split
    · exact DecimalLayout.isFraction_positional hall hne lead
    · exact DecimalLayout.isFraction_scientific hall hne rfl lead
  unfold DecimalLayout.render
  obtain ⟨c, rest, heq, hc, hrest⟩ := hmagnitude _ (hdigits (x.shortest cppRealLayout.tie).digits)
    Nat.toDigits_ne_nil (if (x.shortest cppRealLayout.tie).digits = 0 then 0 else
      (x.shortest cppRealLayout.tie).exponent +
        (Nat.toDigits 10 (x.shortest cppRealLayout.tie).digits).length - 1)
  refine ⟨String.ofList (c :: rest), Phrase.number (by simp) hc hrest, ?_, ?_⟩
  · rintro hsign
    obtain rfl : c = '-' := by simpa using hsign
    cases hc
  · simp only [heq]
    split
    · rw [← String.toList_inj]; simp
    · rfl

/-! ## Literals -/

/-- What the text of a constant is read as: a number or an infinity, perhaps with a sign. -/
inductive IsLiteral : Cpp.Expr → Prop
  | number (text : String) : IsLiteral (.number text)
  | infinity : IsLiteral (.name "INFINITY")
  | negate {e : Cpp.Expr} : IsLiteral e → IsLiteral (.negate e)

/-- A literal needs no parentheses. -/
theorem IsLiteral.grouped {e : Cpp.Expr} (h : IsLiteral e) (alone : Bool) : e.Grouped alone := by
  induction h generalizing alone with
  | number text => trivial
  | infinity => trivial
  | negate _ ih => exact ih false

/-- An infinity is a phrase. -/
theorem phrase_infinity : Phrase "INFINITY" [.name "INFINITY"] :=
  Phrase.name (c := 'I') rfl (by decide) (by decide) (by decide)

/-- The text of a constant is a number or an infinity, perhaps with a sign in front. -/
theorem exists_magnitude {literal : Literal} {text : String} (h : literal.scalarText? = some text) :
    ∃ magnitude e, (e = .number magnitude ∨ e = .name magnitude) ∧ IsLiteral e ∧
      Phrase magnitude e.tokens ∧ magnitude.toList.head? ≠ some '-' ∧
      (text = magnitude ∨ text = "-" ++ magnitude) := by
  -- Integers and truth values are natural numbers, perhaps with a sign.
  have hnatural (n : Nat) (htext : text = toString n ∨ text = "-" ++ toString n) :
      ∃ magnitude e, (e = .number magnitude ∨ e = .name magnitude) ∧ IsLiteral e ∧
        Phrase magnitude e.tokens ∧ magnitude.toList.head? ≠ some '-' ∧
        (text = magnitude ∨ text = "-" ++ magnitude) :=
    ⟨_, .number _, .inl rfl, .number _, Phrase.natural n, head?_natural n, htext⟩
  cases literal with
  | float x =>
    cases h
    unfold cppRealText
    split
    · obtain ⟨fraction, hphrase, hsign, hrender⟩ := exists_fraction x
      refine ⟨fraction, .number fraction, .inl rfl, .number _, hphrase, hsign, ?_⟩
      rw [hrender]
      split
      · exact .inr rfl
      · exact .inl rfl
    · refine ⟨"INFINITY", .name "INFINITY", .inr rfl, .infinity, phrase_infinity, by decide, ?_⟩
      split
      · exact .inr rfl
      · exact .inl rfl
  | int value =>
    cases h
    obtain ⟨n, htext⟩ := exists_natural value.toInt
    exact hnatural n htext
  | bool value =>
    cases h
    cases value
    · exact hnatural 0 (.inl rfl)
    · exact hnatural 1 (.inl rfl)
  | dense elements => cases h
  | str value => cases h

/-- The text of a constant is the text of a literal. -/
theorem exists_literal {literal : Literal} {text : String} (h : literal.scalarText? = some text) :
    ∃ e, IsLiteral e ∧ Phrase text e.tokens := by
  obtain ⟨magnitude, e, -, he, hphrase, hsign, rfl | rfl⟩ := exists_magnitude h
  · exact ⟨e, he, hphrase⟩
  · exact ⟨.negate e, .negate he, hphrase.minus hsign⟩

/-- A phrase with the tokens of an expression is read as that expression. -/
theorem readExpr_of_phrase {text : String} {e : Cpp.Expr} (h : Phrase text e.tokens)
    (hgrouped : e.Grouped true) : Cpp.readExpr text = some e :=
  Cpp.readExpr_of_tokens hgrouped h.tokenize

/-! ## Types -/

/-- A reserved word is a phrase. -/
theorem phrase_keyword {word : String} {c : Char} {rest : List Char} (hword : word.toList = c :: rest)
    (hc : Cpp.isLetter c = true) (hrest : ∀ d ∈ rest, Cpp.isWordChar d = true)
    (hkeyword : word ∈ Cpp.keywords) : Phrase word [.keyword word] := by
  have hphrase := Phrase.word hword hc hrest
  rwa [Token.ofWord, if_pos hkeyword] at hphrase

/-- The spelling of an element type is read as that type. -/
theorem ElemType.phrase_typeName {elem : ElemType} {text : String} (h : elem.cppName? = some text) :
    ∃ type : Cpp.TypeName, elem.typeName? = some type ∧ type.IsProper ∧ Phrase text type.tokens := by
  have hword (word : String) {c : Char} {rest : List Char} (hword : word.toList = c :: rest)
      (hc : Cpp.isLetter c = true) (hrest : ∀ d ∈ rest, Cpp.isWordChar d = true)
      (harithmetic : word ∈ Cpp.arithmeticTypes) (hkeyword : word ∈ Cpp.keywords) :
      (⟨word, none⟩ : Cpp.TypeName).IsProper ∧
        Phrase word (⟨word, none⟩ : Cpp.TypeName).tokens :=
    ⟨harithmetic, phrase_keyword hword hc hrest hkeyword⟩
  have hbool := hword "bool" rfl (by decide) (by decide) (by decide) (by decide)
  cases elem with
  | f16 | bf16 => cases h
  | f32 =>
    cases h
    exact ⟨_, rfl, hword _ rfl (by decide) (by decide) (by decide) (by decide)⟩
  | f64 =>
    cases h
    exact ⟨_, rfl, hword _ rfl (by decide) (by decide) (by decide) (by decide)⟩
  | bool =>
    cases h
    exact ⟨_, rfl, hbool⟩
  | index =>
    cases h
    exact ⟨_, rfl, hword _ rfl (by decide) (by decide) (by decide) (by decide)⟩
  | int width unsigned =>
    unfold cppName? at h
    unfold typeName?
    by_cases hone : width = 1
    · simp only [hone, if_true] at h ⊢
      cases h
      exact ⟨_, rfl, hbool⟩
    · simp only [hone, if_false] at h ⊢
      -- the names of integers with a width are not reserved
      cases unsigned with
      | true =>
        cases h
        exact ⟨_, rfl, (by decide : "ap_uint" ∉ Cpp.keywords),
          Phrase.angled "ap_uint" rfl (by decide) (by decide) (by decide) _⟩
      | false =>
        cases h
        exact ⟨_, rfl, (by decide : "ap_int" ∉ Cpp.keywords),
          Phrase.angled "ap_int" rfl (by decide) (by decide) (by decide) _⟩

/-- The type in front of a declaration is read. -/
theorem Code.typeCpp_eq {elem : ElemType} {text : String} (h : elem.cppName? = some text) :
    elem.typeName? = some (typeCpp text) ∧ (typeCpp text).IsProper ∧
      Phrase text (typeCpp text).tokens := by
  obtain ⟨type, htype, hproper, hphrase⟩ := ElemType.phrase_typeName h
  have hparsed := Cpp.parseType_tokens hproper []
  rw [List.append_nil] at hparsed
  have heq : typeCpp text = type := by simp [typeCpp, hphrase.tokenize, hparsed]
  rw [heq]
  exact ⟨htype, hproper, hphrase⟩

end HlsEmit
