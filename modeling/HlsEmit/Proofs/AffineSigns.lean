import HlsEmit.Proofs.AffineValue

/-!
# Minus signs in affine expressions

An affine expression is written with a minus sign in three places: in front of what is multiplied by
minus one, between a minuend and what is subtracted from it, and in front of a literal that is
negative, be it a constant of the expression or one that an operand stands for.

A sign in front of a literal that has a sign itself is read with it as one token, the decrement. That
is the only place where two signs meet: a subtraction has blanks on both sides, and whatever else is
negated starts with a name or a parenthesis.

## Key results

- `AffineExpr.unsigned_code_iff`: which expressions have a text with a sign in front
- `AffineExpr.doubles_code`: the decrements in the text of an expression
- `AffineExpr.decrement_mem_tokens_iff`: the same over the operands of a name table
-/

namespace HlsEmit

open Cpp (Phrase Token Pending Lexes)
open Code (Expr)

/-! ## Texts with doubled signs -/

/-- Two minus signs in front of a phrase are one token. -/
theorem Cpp.Phrase.decrement {text : String} {ts : List Token} (h : Phrase text ts) :
    Phrase ("-" ++ ("-" ++ text)) (.symbol "--" :: ts) := by
  obtain ⟨c, rest, htext, hc, hlexes⟩ := h
  have hready : (Pending.symbol ['-', '-']).Ready :=
    Cpp.ready_symbol (by simp) (by simp) (by decide) (by decide)
  obtain ⟨q, front, hlex, rfl, hclosed⟩ := hlexes _ (hready c hc)
  refine ⟨'-', '-' :: text.toList, by simp, .inr (.inr (.inl rfl)), fun p hp => ?_⟩
  refine ⟨q, .symbol "--" :: front, ?_, rfl, hclosed⟩
  -- the second sign goes on with the first one
  have hsecond : Lexes (.symbol ['-']) (String.ofList ('-' :: text.toList)) (.symbol "--" :: front) q :=
    Lexes.extend (q := .symbol ['-', '-']) rfl (by rwa [String.ofList_toList])
  have hboth := Lexes.cons hp rfl hsecond
  have hwhole : "-" ++ ("-" ++ text) = String.ofList ('-' :: '-' :: text.toList) := by
    rw [← String.toList_inj]
    simp
  rwa [hwhole]

/-- A text is a phrase without an increment, and with a decrement just if something holds. -/
def Doubles (text : String) (decrement : Prop) : Prop :=
  ∃ ts, Phrase text ts ∧ .symbol "++" ∉ ts ∧ (.symbol "--" ∈ ts ↔ decrement)

namespace Doubles

variable {text : String} {lhs rhs inner : Expr} {p q : Prop}

/-- What doubles a sign may be said in another way. -/
theorem congr (h : Doubles text p) (hiff : p ↔ q) : Doubles text q := by
  obtain ⟨ts, hphrase, hplus, hminus⟩ := h
  exact ⟨ts, hphrase, hplus, hminus.trans hiff⟩

/-- A single token that is no symbol, or the star of a pointer and a name. -/
theorem of_plain {ts : List Token} (h : Phrase text ts)
    (hplain : ∀ s, .symbol s ∈ ts → s ≠ "++" ∧ s ≠ "--") : Doubles text False :=
  ⟨ts, h, fun hplus => (hplain _ hplus).1 rfl, iff_false_intro fun hminus => (hplain _ hminus).2 rfl⟩

/-- An operation doubles a sign if a side of it does. -/
theorem operation (operator : Code.Operator) (hlhs : Doubles lhs.text p) (hrhs : Doubles rhs.text q) :
    Doubles (Expr.operation operator lhs rhs).text (p ∨ q) := by
  obtain ⟨ts, hts, hplus, hminus⟩ := hlhs
  obtain ⟨us, hus, hplus', hminus'⟩ := hrhs
  have hphrase := hts.append (Code.separator_operator operator) Cpp.ready_blank hus
  have hsingle : "++" ≠ operator.symbol ∧ "--" ≠ operator.symbol := by cases operator <;> decide
  refine ⟨ts ++ .symbol operator.symbol :: us, ?_, ?_, ?_⟩
  · simpa [Expr.text, Pending.tokens, String.append_assoc] using hphrase
  · simp [hplus, hplus', hsingle.1]
  · simp [hminus, hminus', hsingle.2]

/-- Parentheses add no sign. -/
theorem paren (h : Doubles inner.text p) : Doubles (Expr.paren inner).text p := by
  obtain ⟨ts, hts, hplus, hminus⟩ := h
  exact ⟨_, hts.paren, by simp [hplus], by simp [hminus]⟩

/-- Two operands between parentheses. -/
theorem parenthesized (operator : Code.Operator) (hlhs : Doubles lhs.text p)
    (hrhs : Doubles rhs.text q) : Doubles (Expr.paren (.operation operator lhs rhs)).text (p ∨ q) :=
  (hlhs.operation operator hrhs).paren

/-- A sign in front of an unsigned text doubles none. -/
theorem minus (h : Doubles text p) (hsign : Unsigned text) : Doubles ("-" ++ text) p := by
  obtain ⟨ts, hts, hplus, hminus⟩ := h
  exact ⟨_, hts.minus hsign, by simp [hplus], by simp [hminus]⟩

/-- Two signs in a row are doubled. -/
theorem minusMinus (h : Doubles text p) : Doubles ("-" ++ ("-" ++ text)) True := by
  obtain ⟨ts, hts, hplus, -⟩ := h
  exact ⟨_, hts.decrement, by simp [hplus], by simp⟩

end Doubles

/-- A text without doubled signs that has one minus sign in front of it or none. -/
inductive SingleSigned : String → Prop
  | unsigned {text : String} (h : Doubles text False) (hsign : Unsigned text) : SingleSigned text
  | signed {magnitude : String} (h : Doubles magnitude False) (hsign : Unsigned magnitude) :
      SingleSigned ("-" ++ magnitude)

namespace SingleSigned

variable {text : String}

/-- A single-signed text doubles no sign. -/
theorem doubles (h : SingleSigned text) : Doubles text False := by
  cases h with
  | unsigned h hsign => exact h
  | signed h hsign => exact h.minus hsign

/-- A sign in front of a text is doubled just if there is one already. -/
theorem minus (h : SingleSigned text) : Doubles ("-" ++ text) (¬ Unsigned text) := by
  cases h with
  | unsigned h hsign => exact (h.minus hsign).congr (by simp [hsign])
  | signed h hsign => exact h.minusMinus.congr (by simp [Unsigned])

/-- An integer literal has at most one sign. -/
theorem integer (value : Int) : SingleSigned (Expr.integer value).text := by
  obtain ⟨n, htext⟩ := exists_natural value
  have hmagnitude : Doubles (toString n) False := .of_plain (Phrase.natural n) (by simp)
  rw [Expr.text]
  rcases htext with htext | htext <;> rw [htext]
  · exact .unsigned hmagnitude (head?_natural n)
  · exact .signed hmagnitude (head?_natural n)

/-- What stands for a value has one sign at most. -/
theorem designator {d : Designator} (h : d.Readable) : SingleSigned d.text := by
  cases d with
  | named name =>
    refine .unsigned (.of_plain name.phrase_text fun s hs => ?_) name.unsigned_text
    cases hpointer : name.pointer <;> rw [hpointer] at hs <;> simp_all
  | literal text =>
    obtain ⟨literal, htext⟩ := h
    obtain ⟨magnitude, e, hform, -, hphrase, hsign, htext⟩ := exists_magnitude htext
    have hmagnitude : Doubles magnitude False := by
      refine .of_plain hphrase fun s hs => ?_
      rcases hform with rfl | rfl <;> simp [Cpp.Expr.tokens] at hs
    rcases htext with rfl | rfl
    · exact .unsigned hmagnitude hsign
    · exact .signed hmagnitude hsign
  | missing => exact h.elim

end SingleSigned

/-! ## Doubled signs in the text of an expression -/

section Code

variable {operand : Nat → Expr} {dims : Nat}

/-- An expression whose text has a sign in front is a literal. -/
theorem AffineExpr.singleSigned_code (e : AffineExpr)
    (hoperand : ∀ position ∈ e.positions dims, SingleSigned (operand position).text)
    (hsign : ¬ Unsigned (e.code operand dims).text) :
    SingleSigned (e.code operand dims).text ∧ e.negated = [] := by
  rcases e.code_form operand dims with ⟨position, hposition, hnone, hcode, -⟩ | ⟨value, rfl⟩ |
    ⟨inner, hcode, -⟩
  · rw [hcode]
    exact ⟨hoperand position (by simp [hposition]), hnone⟩
  · exact ⟨.integer _, rfl⟩
  · rw [hcode] at hsign
    exact absurd (unsigned_paren inner) hsign

/-- There is a decrement in the text of an expression just if something with a sign is negated. -/
theorem AffineExpr.doubles_code (e : AffineExpr)
    (hoperand : ∀ position ∈ e.positions dims, SingleSigned (operand position).text) :
    Doubles (e.code operand dims).text
      (∃ x ∈ e.negated, ¬ Unsigned (x.code operand dims).text) := by
  have hinteger (value : Int) : Doubles (Expr.integer value).text False :=
    (SingleSigned.integer value).doubles
  induction e using AffineExpr.code.induct operand dims with
  | case1 position | case2 position =>
    exact (hoperand _ (List.mem_singleton_self _)).doubles.congr (by simp [negated])
  | case3 value => exact (hinteger _).congr (by simp [negated])
  | case4 lhs c hc ih =>
    simp only [positions, List.append_nil] at hoperand
    rw [code, if_pos hc]
    exact ((ih hoperand).parenthesized _ (hinteger _)).congr (by simp [negated])
  | case5 lhs c hc ih =>
    simp only [positions, List.append_nil] at hoperand
    rw [code, if_neg hc]
    exact ((ih hoperand).parenthesized _ (hinteger _)).congr (by simp [negated])
  | case6 lhs y factor hfactor ih ihy =>
    simp only [positions, List.forall_mem_append] at hoperand
    rw [code, if_pos hfactor]
    cases eq_of_isMinusOne hfactor
    exact ((ih hoperand.1).parenthesized _ (ihy hoperand.2.1)).congr
      (by simp only [negated, List.append_nil, List.mem_append, or_and_right, exists_or])
  | case7 lhs y factor hfactor ih ihy ihfactor =>
    simp only [positions, List.forall_mem_append] at hoperand
    rw [code, if_neg hfactor]
    exact ((ih hoperand.1).parenthesized _
      ((ihy hoperand.2.1).parenthesized _ (ihfactor hoperand.2.2))).congr
        (by simp only [negated, List.mem_append, or_and_right, exists_or])
  | case8 lhs rhs hconstant hmul ih ihrhs =>
    simp only [positions, List.forall_mem_append] at hoperand
    rw [code.eq_6 operand dims lhs rhs hconstant hmul, negated.eq_6 lhs rhs hmul]
    exact ((ih hoperand.1).parenthesized _ (ihrhs hoperand.2)).congr
      (by simp only [List.mem_append, or_and_right, exists_or])
  | case9 lhs rhs hrhs ih =>
    simp only [positions, List.forall_mem_append] at hoperand
    rw [code, if_pos hrhs, negated, if_pos hrhs]
    -- only here may two signs meet
    have hnegated : Doubles ("-" ++ (lhs.code operand dims).text)
        (∃ x ∈ lhs :: lhs.negated, ¬ Unsigned (x.code operand dims).text) := by
      by_cases hsign : Unsigned (lhs.code operand dims).text
      · exact ((ih hoperand.1).minus hsign).congr (by simp [hsign])
      · obtain ⟨hsingle, hnone⟩ := lhs.singleSigned_code hoperand.1 hsign
        exact hsingle.minus.congr (by simp [hnone])
    exact Doubles.paren hnegated
  | case10 lhs rhs hrhs ih ihrhs =>
    simp only [positions, List.forall_mem_append] at hoperand
    rw [code, if_neg hrhs, negated, if_neg hrhs]
    exact ((ih hoperand.1).parenthesized _ (ihrhs hoperand.2)).congr
      (by simp only [List.mem_append, or_and_right, exists_or])
  | case11 lhs rhs ih ihrhs | case12 lhs rhs ih ihrhs =>
    simp only [positions, List.forall_mem_append] at hoperand
    exact ((ih hoperand.1).parenthesized _ (ihrhs hoperand.2)).congr
      (by simp only [negated, List.mem_append, or_and_right, exists_or])
  | case13 lhs rhs ihrhs ih =>
    simp only [positions, List.forall_mem_append] at hoperand
    -- the divisor is written twice
    have hsum := ((ih hoperand.1).operation .add (ihrhs hoperand.2)).operation .sub (hinteger 1)
    refine (hsum.paren.parenthesized .div (ihrhs hoperand.2)).congr ?_
    simp only [negated, List.mem_append, or_and_right, exists_or, or_false, or_assoc, or_self]

end Code

/-! ## Over the operands of a name table -/

section Operands

variable {arena : Arena} {table : NameTable} {operands : List ValueId} {dims : Nat}

/-- What stands for an operand has a readable designator, if its text is not empty. -/
theorem Arena.exists_use_of_text {position : Nat}
    (h : (arena.operandAt table operands position).text ≠ "") :
    ∃ u : Use, arena.operandAt table operands position = .mention (.use u) ∧
      u.designator.Readable := by
  cases hid : operands[position]? with
  | none => simp [operandAt, hid, Expr.text] at h
  | some id =>
    refine ⟨arena.use table id, by rw [operandAt, hid], designator_readable fun hmissing => h ?_⟩
    rw [operandAt, hid]
    show (arena.designator table id).text = ""
    rw [hmissing]
    rfl

/-- What stands for an operand is read as an operand, if its text is not empty. -/
theorem Arena.hasRank_operandAt_of_text {position : Nat}
    (h : (arena.operandAt table operands position).text ≠ "") :
    (arena.operandAt table operands position).HasRank .unary := by
  obtain ⟨u, hcode, hreadable⟩ := exists_use_of_text h
  rw [hcode]
  exact .use hreadable

/-- The text of an operand has a sign in front just if it is a literal with a sign. -/
theorem Arena.unsigned_operandAt_iff (position : Nat) :
    Unsigned (arena.operandAt table operands position).text ↔
      arena.isNegative operands position = false := by
  cases hid : operands[position]? with
  | none => simp [operandAt, isNegative, hid, Unsigned, Expr.text]
  | some id =>
    have htext : (arena.operandAt table operands position).text = (arena.designator table id).text := by
      rw [operandAt, hid]
      rfl
    rw [htext, isNegative, hid, Option.bind_some]
    cases hconst : arena.constantText? id with
    | some text => simp [designator, hconst, Unsigned, Designator.text]
    | none =>
      simp only [designator, hconst, iff_true]
      cases table.name? id with
      | some name => exact name.unsigned_text
      | none => simp [Unsigned, Designator.text]

/-- The text of an expression has a sign in front just if it is a literal with a sign. -/
theorem AffineExpr.unsigned_code_iff (x : AffineExpr) :
    Unsigned (x.code (arena.operandAt table operands) dims).text ↔
      x.isNegative (arena.isNegative operands) dims = false := by
  rcases x.code_form (arena.operandAt table operands) dims with ⟨position, -, -, hcode, hnegative⟩ |
    ⟨value, rfl⟩ | ⟨inner, hcode, hnegative⟩
  · rw [hcode, hnegative]
    exact Arena.unsigned_operandAt_iff position
  · rw [isNegative, decide_eq_false_iff_not, Int64.not_lt, Int64.le_iff_toInt_le]
    exact unsigned_integer_iff
  · rw [hcode, hnegative]
    exact iff_of_true (unsigned_paren inner) rfl

/-- Over operands all of which have a text: there is no increment in the text of an expression, and a
decrement just if a literal with a sign is negated. -/
theorem AffineExpr.decrement_mem_tokens_iff (e : AffineExpr)
    (hoperand : ∀ position ∈ e.positions dims,
      (arena.operandAt table operands position).text ≠ "") :
    ∃ ts, Cpp.tokenize (e.code (arena.operandAt table operands) dims).text = some ts ∧
      .symbol "++" ∉ ts ∧
      (.symbol "--" ∈ ts ↔
        ∃ x ∈ e.negated, x.isNegative (arena.isNegative operands) dims = true) := by
  have hsingle : ∀ position ∈ e.positions dims,
      SingleSigned (arena.operandAt table operands position).text := by
    intro position hposition
    obtain ⟨u, hcode, hreadable⟩ := Arena.exists_use_of_text (hoperand position hposition)
    rw [hcode]
    exact .designator hreadable
  obtain ⟨ts, hphrase, hplus, hminus⟩ := e.doubles_code hsingle
  refine ⟨ts, hphrase.tokenize, hplus, ?_⟩
  simpa only [unsigned_code_iff, Bool.not_eq_false] using hminus

end Operands

/-- The operand is a constant that is negative. -/
example : ((AffineExpr.mul (.dim 0) (.constant (-1))).code
    (Arena.operandAt #[{ elem := .index, constant := some (.int (-5)) }] .empty [⟨0⟩]) 1).text =
      "(--5)" := by decide +kernel

end HlsEmit
