import HlsEmit.Proofs.Meaning.Expression
import HlsEmit.Proofs.NameCalls
import HlsEmit.Proofs.Reading.Arithmetic

/-!
# The code of an affine expression has its value

Read as C++, with the precedence of its operators, the text of an affine expression computes what the
expression stands for: over any integers, and whatever quotient and remainder are. So the parentheses
are where they are needed, and `(-x)`, `(x - |c|)` and `(x - y)` are the product or the sum that they
stand for.

The only text that is read as something else is that of a negative constant times minus one, where
the two signs are one token.

## Key results

- `AffineExpr.hasRank_code_of_unsigned`: the text is read as the syntax of the code, if no text with a
  sign in front is written behind another sign
- `AffineExpr.eval_code_of_positions`: the syntax has the value of the expression
- `AffineExpr.readArithmetic_code`: both, behind any calls of a name table
-/

namespace HlsEmit

open Cpp (Derives Rank Machine Phrase Object)

/-! ## Values of expressions -/

namespace AffineExpr

/-- The value of an expression over inputs by position, with any functions for the quotient and the
remainder. A division that rounds up is one that rounds down, of a greater number. -/
def value (quotient remainder : Int → Int → Int) (input : Nat → Int) (dims : Nat) :
    AffineExpr → Int
  | .dim position => input position.toNat
  | .symbol position => input (dims + position.toNat)
  | .constant c => c.toInt
  | .add lhs rhs =>
    lhs.value quotient remainder input dims + rhs.value quotient remainder input dims
  | .mul lhs rhs =>
    lhs.value quotient remainder input dims * rhs.value quotient remainder input dims
  | .mod lhs rhs =>
    remainder (lhs.value quotient remainder input dims) (rhs.value quotient remainder input dims)
  | .floorDiv lhs rhs =>
    quotient (lhs.value quotient remainder input dims) (rhs.value quotient remainder input dims)
  | .ceilDiv lhs rhs =>
    quotient (lhs.value quotient remainder input dims + rhs.value quotient remainder input dims - 1)
      (rhs.value quotient remainder input dims)

/-- The expression with all expressions that it is made of. -/
def parts : AffineExpr → List AffineExpr
  | .dim position => [.dim position]
  | .symbol position => [.symbol position]
  | .constant c => [.constant c]
  | .add lhs rhs => .add lhs rhs :: (lhs.parts ++ rhs.parts)
  | .mul lhs rhs => .mul lhs rhs :: (lhs.parts ++ rhs.parts)
  | .mod lhs rhs => .mod lhs rhs :: (lhs.parts ++ rhs.parts)
  | .floorDiv lhs rhs => .floorDiv lhs rhs :: (lhs.parts ++ rhs.parts)
  | .ceilDiv lhs rhs => .ceilDiv lhs rhs :: (lhs.parts ++ rhs.parts)

/-- The positions in the list of operands that an expression uses. -/
def positions (dims : Nat) : AffineExpr → List Nat
  | .dim position => [position.toNat]
  | .symbol position => [dims + position.toNat]
  | .constant _ => []
  | .add lhs rhs | .mul lhs rhs | .mod lhs rhs | .floorDiv lhs rhs | .ceilDiv lhs rhs =>
    lhs.positions dims ++ rhs.positions dims

/-- The expressions that are written right behind a minus sign: those that are multiplied by minus
one, unless the product is subtracted from something. -/
def negated : AffineExpr → List AffineExpr
  | .dim _ | .symbol _ | .constant _ => []
  | .add lhs (.mul y factor) => lhs.negated ++ (y.negated ++ factor.negated)
  | .mul lhs rhs => if rhs.isMinusOne then lhs :: lhs.negated else lhs.negated ++ rhs.negated
  | .add lhs rhs | .mod lhs rhs | .floorDiv lhs rhs | .ceilDiv lhs rhs =>
    lhs.negated ++ rhs.negated

/-- An expression uses positions of some kind only, and does not negate a negative constant. -/
structure Proper (usable : Nat → Prop) (dims : Nat) (e : AffineExpr) : Prop where
  dim : ∀ position, .dim position ∈ e.parts → usable position.toNat
  symbol : ∀ position, .symbol position ∈ e.parts → usable (dims + position.toNat)
  signs : ∀ c < 0, .mul (.constant c) (.constant (-1)) ∉ e.parts

/-- Whether an expression is a negative constant. -/
def isNegativeConstant (e : AffineExpr) : Prop :=
  ∃ c < 0, e = .constant c

/-- An expression is a part of itself. -/
theorem mem_parts_self (e : AffineExpr) : e ∈ e.parts := by
  cases e <;> simp [parts]

variable {usable : Nat → Prop} {dims : Nat} {e e' lhs rhs : AffineExpr}

/-- An expression whose parts are all parts of a proper one is proper. -/
theorem Proper.mono (h : e.Proper usable dims) (hparts : ∀ part ∈ e'.parts, part ∈ e.parts) :
    e'.Proper usable dims where
  dim position hposition := h.dim position (hparts _ hposition)
  symbol position hposition := h.symbol position (hparts _ hposition)
  signs c hc hpart := h.signs c hc (hparts _ hpart)

/-- Both operands of a proper expression are proper. -/
theorem Proper.operands (h : e.Proper usable dims) (hparts : e.parts = e :: (lhs.parts ++ rhs.parts)) :
    lhs.Proper usable dims ∧ rhs.Proper usable dims := by
  refine ⟨h.mono fun part hpart => ?_, h.mono fun part hpart => ?_⟩ <;> rw [hparts]
  · exact List.mem_cons_of_mem _ (List.mem_append_left _ hpart)
  · exact List.mem_cons_of_mem _ (List.mem_append_right _ hpart)

/-- What is negated is no negative constant. -/
theorem Proper.not_negative (h : (AffineExpr.mul lhs (.constant (-1))).Proper usable dims) :
    ¬ lhs.isNegativeConstant := by
  rintro ⟨c, hc, rfl⟩
  exact h.signs c hc (mem_parts_self _)

/-- A proper expression uses positions that may be used. -/
theorem Proper.usable_of_mem (h : e.Proper usable dims) : ∀ position ∈ e.positions dims, usable position := by
  induction e with
  | dim position => exact List.forall_mem_singleton.2 (h.dim position (mem_parts_self _))
  | symbol position => exact List.forall_mem_singleton.2 (h.symbol position (mem_parts_self _))
  | constant => exact fun _ hposition => nomatch hposition
  | add _ _ ihlhs ihrhs | mul _ _ ihlhs ihrhs | mod _ _ ihlhs ihrhs | floorDiv _ _ ihlhs ihrhs
  | ceilDiv _ _ ihlhs ihrhs =>
    obtain ⟨hlhs, hrhs⟩ := h.operands rfl
    exact List.forall_mem_append.2 ⟨ihlhs hlhs, ihrhs hrhs⟩

/-- What a proper expression negates is proper, and no negative constant. -/
theorem Proper.of_mem_negated (h : e.Proper usable dims) :
    ∀ x ∈ e.negated, x.Proper usable dims ∧ ¬ x.isNegativeConstant := by
  induction e using negated.induct with
  | case1 | case2 | case3 => exact fun _ hx => nomatch hx
  | case4 lhs y factor ihlhs ihy ihfactor =>
    obtain ⟨hlhs, hproduct⟩ := h.operands rfl
    obtain ⟨hy, hfactor⟩ := hproduct.operands rfl
    exact List.forall_mem_append.2 ⟨ihlhs hlhs, List.forall_mem_append.2 ⟨ihy hy, ihfactor hfactor⟩⟩
  -- The factor is minus one: the left side is negated, and it is no negative constant since the
  -- product would be a sign in front of a sign.
  | case5 lhs rhs hrhs ih =>
    rw [negated, if_pos hrhs]
    cases eq_of_isMinusOne hrhs
    exact List.forall_mem_cons.2 ⟨⟨(h.operands rfl).1, h.not_negative⟩, ih (h.operands rfl).1⟩
  | case6 lhs rhs hrhs ihlhs ihrhs =>
    rw [negated, if_neg hrhs]
    obtain ⟨hlhs, hrhs⟩ := h.operands rfl
    exact List.forall_mem_append.2 ⟨ihlhs hlhs, ihrhs hrhs⟩
  | case7 lhs rhs hmul ihlhs ihrhs =>
    rw [negated.eq_6 lhs rhs hmul]
    obtain ⟨hlhs, hrhs⟩ := h.operands rfl
    exact List.forall_mem_append.2 ⟨ihlhs hlhs, ihrhs hrhs⟩
  | case8 lhs rhs ihlhs ihrhs | case9 lhs rhs ihlhs ihrhs | case10 lhs rhs ihlhs ihrhs =>
    obtain ⟨hlhs, hrhs⟩ := h.operands rfl
    exact List.forall_mem_append.2 ⟨ihlhs hlhs, ihrhs hrhs⟩

end AffineExpr

/-! ## Code that is read as an expression of a rank -/

/-- What the text of a constant is read as is an operand. -/
theorem IsLiteral.derives {e : Cpp.Expr} (h : IsLiteral e) : Derives .unary e.tokens e := by
  induction h with
  | number text => exact .number text
  | infinity => exact .name _
  | negate _ ih => exact .negate ih

namespace Code

/-- An operator between two phrases. -/
theorem Expr.phrase_operation (operator : Operator) {lhs rhs : Expr}
    (hlhs : Phrase lhs.text lhs.cpp.tokens) (hrhs : Phrase rhs.text rhs.cpp.tokens) :
    Phrase (Expr.operation operator lhs rhs).text (Expr.operation operator lhs rhs).cpp.tokens := by
  have hphrase := hlhs.append (separator_operator operator) Cpp.ready_blank hrhs
  simpa [Expr.text, Expr.cpp, Cpp.Expr.tokens, Cpp.Pending.tokens, String.append_assoc] using hphrase

/-- The text of some code is an expression of a rank: the one that the code stands for. -/
structure Expr.HasRank (rank : Rank) (e : Expr) : Prop where
  phrase : Phrase e.text e.cpp.tokens
  derives : Derives rank e.cpp.tokens e.cpp

namespace Expr.HasRank

variable {rank : Rank} {e lhs rhs : Expr} {operator : Operator}

/-- An operand is an expression of every rank. -/
theorem ofUnary (h : e.HasRank .unary) : (rank : Rank) → e.HasRank rank
  | .unary => h
  | .product => ⟨h.phrase, .tighter h.derives⟩
  | .sum => ⟨h.phrase, .tighter (.tighter h.derives)⟩

/-- An operation stands at the rank of its operator. -/
theorem operation (hoperator : operator.symbol ∈ rank.operators) (hlhs : lhs.HasRank rank)
    (hrhs : rhs.HasRank .unary) : (Expr.operation operator lhs rhs).HasRank rank where
  phrase := phrase_operation operator hlhs.phrase hrhs.phrase
  derives := .binary hoperator hlhs.derives (hrhs.ofUnary rank.tighter).derives

/-- Parentheses make a unary expression. -/
theorem paren (h : e.HasRank rank) : (Expr.paren e).HasRank .unary where
  phrase := h.phrase.paren
  derives := by
    have hsum : Derives .sum e.cpp.tokens e.cpp := by
      cases rank with
      | sum => exact h.derives
      | product => exact .tighter h.derives
      | unary => exact .tighter (.tighter h.derives)
    exact .paren hsum

/-- A negated unary expression is unary, if no two signs meet. -/
theorem negate (h : e.HasRank .unary) (hsign : Unsigned e.text) : (Expr.negate e).HasRank .unary where
  phrase := h.phrase.minus hsign
  derives := .negate h.derives

/-- An integer literal is unary, its sign included. -/
theorem integer (value : Int) : (Expr.integer value).HasRank .unary where
  phrase := phrase_integer value
  derives := by
    show Derives .unary (integerCpp value).tokens (integerCpp value)
    unfold integerCpp
    split
    · exact .negate (.number _)
    · exact .number _

/-- What stands for a value is an operand: its name, that of a pointer as well, or a literal. -/
theorem use {u : Use} (h : u.designator.Readable) : (Expr.mention (.use u)).HasRank .unary where
  phrase := (designatorCpp_readable h).2
  derives := by
    show Derives .unary (designatorCpp u.designator).tokens (designatorCpp u.designator)
    cases hdesignator : u.designator with
    | named name =>
      rw [designatorCpp]
      split
      · exact .target _
      · exact .name _
    -- A literal is read from its text as one unary expression.
    | literal text =>
      rw [hdesignator] at h
      obtain ⟨literal, htext⟩ := h
      obtain ⟨e, he, hphrase⟩ := exists_literal htext
      rw [designatorCpp, readExpr_of_phrase hphrase (he.grouped true)]
      exact he.derives
    | missing =>
      rw [hdesignator] at h
      exact h.elim

end Expr.HasRank

end Code

/-- The text of a name has no sign. -/
theorem Name.unsigned_text (name : Name) : Unsigned name.text := by
  cases hpointer : name.pointer <;> simp [Unsigned, text, identifier, hpointer]

/-! ## The text is read as the syntax of the code -/

section Code

open Code (Expr)

variable {operand : Nat → Expr} {usable : Nat → Prop} {dims : Nat}

/-- Two operands between parentheses. -/
theorem hasRank_parenthesized {operator : Code.Operator} (rank : Rank) {lhs rhs : Expr}
    (hoperator : operator.symbol ∈ rank.operators) (hlhs : lhs.HasRank .unary)
    (hrhs : rhs.HasRank .unary) : (Expr.paren (.operation operator lhs rhs)).HasRank .unary :=
  (Expr.HasRank.operation hoperator (hlhs.ofUnary rank) hrhs).paren

/-- The code of an affine expression is that of an operand, an integer, or between parentheses. -/
theorem AffineExpr.code_form (operand : Nat → Expr) (dims : Nat) (e : AffineExpr) :
    (∃ position, e.positions dims = [position] ∧ e.negated = [] ∧
      e.code operand dims = operand position ∧
      ∀ negative, e.isNegative negative dims = negative position) ∨
    (∃ value, e = .constant value) ∨
    ∃ inner, e.code operand dims = .paren inner ∧ ∀ negative, e.isNegative negative dims = false := by
  cases e with
  | dim position | symbol position => exact .inl ⟨_, rfl, rfl, rfl, fun _ => rfl⟩
  | constant value => exact .inr (.inl ⟨value, rfl⟩)
  | add lhs rhs =>
    refine .inr (.inr ?_)
    -- what stands between the parentheses depends on the second summand
    cases rhs with
    | constant c => rw [code]; split <;> exact ⟨_, rfl, fun _ => rfl⟩
    | mul y factor => rw [code]; split <;> exact ⟨_, rfl, fun _ => rfl⟩
    | _ => exact ⟨_, rfl, fun _ => rfl⟩
  | mul lhs rhs => refine .inr (.inr ?_); rw [code]; split <;> exact ⟨_, rfl, fun _ => rfl⟩
  | mod | floorDiv | ceilDiv => exact .inr (.inr ⟨_, rfl, fun _ => rfl⟩)

/-- The text of an affine expression starts with a sign only if it is that of a constant, or of an
operand. -/
theorem AffineExpr.unsigned_code (e : AffineExpr)
    (hoperand : ∀ position ∈ e.positions dims, Unsigned (operand position).text)
    (hconstant : ¬ e.isNegativeConstant) : Unsigned (e.code operand dims).text := by
  rcases e.code_form operand dims with ⟨position, hposition, -, hcode, -⟩ | ⟨value, rfl⟩ |
    ⟨inner, hcode, -⟩
  · rw [hcode]
    exact hoperand position (by simp [hposition])
  · have hnot : ¬ value < 0 := fun hneg => hconstant ⟨value, hneg, rfl⟩
    exact unsigned_integer_iff.2 (Int64.le_iff_toInt_le.1 (Int64.not_lt.1 hnot))
  · rw [hcode]
    exact unsigned_paren inner

/-- The text of an affine expression is an operand, if those that it uses are, and if no text with a
sign in front is negated. -/
theorem AffineExpr.hasRank_code_of_unsigned (e : AffineExpr)
    (hoperand : ∀ position ∈ e.positions dims, (operand position).HasRank .unary)
    (hsigns : ∀ x ∈ e.negated, Unsigned (x.code operand dims).text) :
    (e.code operand dims).HasRank .unary := by
  induction e using AffineExpr.code.induct operand dims with
  | case1 position | case2 position => exact hoperand _ (List.mem_singleton_self _)
  | case3 value => exact .integer _
  | case4 lhs c hc ih =>
    simp only [positions, negated, List.append_nil] at hoperand hsigns
    rw [code, if_pos hc]
    exact hasRank_parenthesized .sum (by decide) (ih hoperand hsigns) (.integer _)
  | case5 lhs c hc ih =>
    simp only [positions, negated, List.append_nil] at hoperand hsigns
    rw [code, if_neg hc]
    exact hasRank_parenthesized .sum (by decide) (ih hoperand hsigns) (.integer _)
  | case6 lhs y factor hfactor ih ihy =>
    simp only [positions, negated, List.forall_mem_append] at hoperand hsigns
    rw [code, if_pos hfactor]
    exact hasRank_parenthesized .sum (by decide) (ih hoperand.1 hsigns.1)
      (ihy hoperand.2.1 hsigns.2.1)
  | case7 lhs y factor hfactor ih ihy ihfactor =>
    simp only [positions, negated, List.forall_mem_append] at hoperand hsigns
    rw [code, if_neg hfactor]
    exact hasRank_parenthesized .sum (by decide) (ih hoperand.1 hsigns.1)
      (hasRank_parenthesized .product (by decide) (ihy hoperand.2.1 hsigns.2.1)
        (ihfactor hoperand.2.2 hsigns.2.2))
  | case8 lhs rhs hconstant hmul ih ihrhs =>
    rw [negated.eq_6 lhs rhs hmul] at hsigns
    simp only [positions, List.forall_mem_append] at hoperand hsigns
    rw [code.eq_6 operand dims lhs rhs hconstant hmul]
    exact hasRank_parenthesized .sum (by decide) (ih hoperand.1 hsigns.1) (ihrhs hoperand.2 hsigns.2)
  | case9 lhs rhs hrhs ih =>
    rw [negated, if_pos hrhs] at hsigns
    simp only [positions, List.forall_mem_append, List.forall_mem_cons] at hoperand hsigns
    rw [code, if_pos hrhs]
    exact ((ih hoperand.1 hsigns.2).negate hsigns.1).paren
  | case10 lhs rhs hrhs ih ihrhs =>
    rw [negated, if_neg hrhs] at hsigns
    simp only [positions, List.forall_mem_append] at hoperand hsigns
    rw [code, if_neg hrhs]
    exact hasRank_parenthesized .product (by decide) (ih hoperand.1 hsigns.1)
      (ihrhs hoperand.2 hsigns.2)
  | case11 lhs rhs ih ihrhs | case12 lhs rhs ih ihrhs =>
    simp only [positions, negated, List.forall_mem_append] at hoperand hsigns
    exact hasRank_parenthesized .product (by decide) (ih hoperand.1 hsigns.1)
      (ihrhs hoperand.2 hsigns.2)
  | case13 lhs rhs ihrhs ih =>
    simp only [positions, negated, List.forall_mem_append] at hoperand hsigns
    have hlhs := ih hoperand.1 hsigns.1
    have hrhs := ihrhs hoperand.2 hsigns.2
    -- the sum is grouped to the left, without parentheses of its own
    have hsum : (Expr.operation .add (lhs.code operand dims) (rhs.code operand dims)).HasRank .sum :=
      .operation (by decide) (hlhs.ofUnary .sum) hrhs
    have hless : (Expr.operation .sub (.operation .add (lhs.code operand dims)
        (rhs.code operand dims)) (.integer 1)).HasRank .sum :=
      .operation (by decide) hsum (.integer 1)
    exact hasRank_parenthesized .product (by decide) hless.paren hrhs

/-- The text of a proper affine expression is an operand, and starts with a sign only if it is that of
a constant. -/
theorem AffineExpr.hasRank_code
    (hoperand : ∀ position, usable position →
      (operand position).HasRank .unary ∧ Unsigned (operand position).text)
    (e : AffineExpr) (h : e.Proper usable dims) :
    (e.code operand dims).HasRank .unary ∧
      (¬ e.isNegativeConstant → Unsigned (e.code operand dims).text) := by
  have hunsigned {x : AffineExpr} (hx : x.Proper usable dims) (hconstant : ¬ x.isNegativeConstant) :
      Unsigned (x.code operand dims).text :=
    x.unsigned_code (fun _ hposition => (hoperand _ (hx.usable_of_mem _ hposition)).2) hconstant
  have hreads := e.hasRank_code_of_unsigned
    (fun _ hposition => (hoperand _ (h.usable_of_mem _ hposition)).1)
    fun x hx => hunsigned (h.of_mem_negated x hx).1 (h.of_mem_negated x hx).2
  exact ⟨hreads, hunsigned h⟩

end Code

/-! ## The syntax has the value of the expression -/

/-- The numeral of a number stands for it. -/
theorem Cpp.decimal?_toString (n : Nat) : decimal? (toString n) = some (n : Int) := by
  simp [decimal?]

section Value

variable {quotient remainder : Int → Int → Int} {env : Cpp.Env Int}

/-- An integer is read as itself. -/
theorem eval_integer (value : Int) :
    (Machine.integers quotient remainder).eval env (Code.Expr.integer value).cpp = some value := by
  show (Machine.integers quotient remainder).eval env (Code.integerCpp value) = some value
  cases value with
  | ofNat n => exact Cpp.decimal?_toString n
  | negSucc n =>
    have hmagnitude : (Machine.integers quotient remainder).eval env
        (.number (toString (n + 1))) = some ((n + 1 : Nat) : Int) := Cpp.decimal?_toString (n + 1)
    rw [Code.integerCpp, if_pos (Int.negSucc_lt_zero n), Machine.eval, Int.natAbs_negSucc, hmagnitude]
    rfl

/-- The operators of arithmetic have both of their operands' values. -/
theorem eval_operation (operator : Code.Operator) {lhs rhs : Code.Expr} {x y : Int}
    (hlhs : (Machine.integers quotient remainder).eval env lhs.cpp = some x)
    (hrhs : (Machine.integers quotient remainder).eval env rhs.cpp = some y) :
    (Machine.integers quotient remainder).eval env (Code.Expr.operation operator lhs rhs).cpp =
      (Machine.integers quotient remainder).binary operator.symbol x y := by
  rw [Code.Expr.cpp, Machine.eval, hlhs, hrhs]
  rfl

variable {operand : Nat → Code.Expr} {input : Nat → Int} {usable : Nat → Prop} {dims : Nat}

/-- The syntax of the code of an affine expression has its value. -/
theorem AffineExpr.eval_code_of_positions (e : AffineExpr)
    (hoperand : ∀ position ∈ e.positions dims,
      (Machine.integers quotient remainder).eval env (operand position).cpp = some (input position)) :
    (Machine.integers quotient remainder).eval env (e.code operand dims).cpp =
      some (e.value quotient remainder input dims) := by
  -- One case per rendering; the rewritten sums differ from the plain ones in the arithmetic alone.
  induction e using AffineExpr.code.induct operand dims with
  | case1 position | case2 position => exact hoperand _ (List.mem_singleton_self _)
  | case3 value => exact eval_integer value.toInt
  | case4 lhs c hc ih =>
    simp only [positions, List.append_nil] at hoperand
    rw [code, if_pos hc]
    have hneg : c.toInt < 0 := Int64.lt_iff_toInt_lt.1 hc
    have hdifference := eval_operation .sub (ih hoperand) (eval_integer c.toInt.natAbs)
    refine hdifference.trans (congrArg some ?_)
    show _ - (c.toInt.natAbs : Int) = _ + c.toInt
    omega
  | case5 lhs c hc ih =>
    simp only [positions, List.append_nil] at hoperand
    rw [code, if_neg hc]
    exact eval_operation .add (ih hoperand) (eval_integer _)
  | case6 lhs y factor hfactor ih ihy =>
    simp only [positions, List.forall_mem_append] at hoperand
    rw [code, if_pos hfactor]
    cases eq_of_isMinusOne hfactor
    have hdifference := eval_operation .sub (ih hoperand.1) (ihy hoperand.2.1)
    refine hdifference.trans (congrArg some ?_)
    show _ - _ = _ + _ * (-1 : Int)
    omega
  | case7 lhs y factor hfactor ih ihy ihfactor =>
    simp only [positions, List.forall_mem_append] at hoperand
    rw [code, if_neg hfactor]
    exact eval_operation .add (ih hoperand.1)
      (eval_operation .mul (ihy hoperand.2.1) (ihfactor hoperand.2.2))
  | case8 lhs rhs hconstant hmul ih ihrhs =>
    simp only [positions, List.forall_mem_append] at hoperand
    rw [code.eq_6 operand dims lhs rhs hconstant hmul]
    exact eval_operation .add (ih hoperand.1) (ihrhs hoperand.2)
  -- A factor of minus one is written as a sign.
  | case9 lhs rhs hrhs ih =>
    simp only [positions, List.forall_mem_append] at hoperand
    rw [code, if_pos hrhs]
    cases eq_of_isMinusOne hrhs
    have hnegated : (Machine.integers quotient remainder).eval env
        (Code.Expr.negate (lhs.code operand dims)).cpp =
          some (-lhs.value quotient remainder input dims) := by
      rw [Code.Expr.cpp, Machine.eval, ih hoperand.1]
      rfl
    refine hnegated.trans (congrArg some ?_)
    show -_ = _ * (-1 : Int)
    omega
  | case10 lhs rhs hrhs ih ihrhs =>
    simp only [positions, List.forall_mem_append] at hoperand
    rw [code, if_neg hrhs]
    exact eval_operation .mul (ih hoperand.1) (ihrhs hoperand.2)
  | case11 lhs rhs ih ihrhs =>
    simp only [positions, List.forall_mem_append] at hoperand
    exact eval_operation .rem (ih hoperand.1) (ihrhs hoperand.2)
  | case12 lhs rhs ih ihrhs =>
    simp only [positions, List.forall_mem_append] at hoperand
    exact eval_operation .div (ih hoperand.1) (ihrhs hoperand.2)
  -- A quotient that rounds up is written as a sum that rounds down.
  | case13 lhs rhs ihrhs ih =>
    simp only [positions, List.forall_mem_append] at hoperand
    have hsum := eval_operation .add (ih hoperand.1) (ihrhs hoperand.2)
    have hless : (Machine.integers quotient remainder).eval env (Code.Expr.paren
        (.operation .sub (.operation .add (lhs.code operand dims) (rhs.code operand dims))
          (.integer 1))).cpp = some (lhs.value quotient remainder input dims +
            rhs.value quotient remainder input dims - 1) :=
      eval_operation .sub hsum (eval_integer 1)
    exact eval_operation .div hless (ihrhs hoperand.2)

/-- The syntax of the code of a proper affine expression has its value. -/
theorem AffineExpr.eval_code
    (hoperand : ∀ position, usable position →
      (Machine.integers quotient remainder).eval env (operand position).cpp = some (input position))
    (e : AffineExpr) (h : e.Proper usable dims) :
    (Machine.integers quotient remainder).eval env (e.code operand dims).cpp =
      some (e.value quotient remainder input dims) :=
  e.eval_code_of_positions fun _ hposition => hoperand _ (h.usable_of_mem _ hposition)

end Value

/-! ## Names for integers -/

namespace NameTable

/-- The object of a value: what its declaration stands for, or what that points to. -/
def object (name : Name) (number : Int) : Object Int :=
  if name.pointer then .pointer ⟨"int", none⟩ (some number) else .scalar ⟨"int", none⟩ (some number)

/-- The objects of all declarations, if the values are these numbers. -/
def objects (table : NameTable) (value : ValueId → Int) : Cpp.Env Int :=
  table.entries.filterMap fun entry =>
    match entry.2 with
    | .declared name => some (name.identifier, object name (value entry.1))
    | .shared _ => none

/-- The number that an operand stands for: that of the value whose declaration names it. -/
def input (table : NameTable) (operands : List ValueId) (value : ValueId → Int)
    (position : Nat) : Int :=
  ((operands[position]?).bind table.owner?).elim 0 value

/-- There is an operand in a position that has a name and is no constant. -/
def Named (arena : Arena) (table : NameTable) (operands : List ValueId) (position : Nat) : Prop :=
  ∃ id, operands[position]? = some id ∧ table.isDeclared id = true ∧ arena.constantText? id = none

variable {arena : Arena} {table : NameTable}

/-- Every declaration stands for the object of its value. -/
theorem Valid.lookup_objects (hv : Valid arena table) (value : ValueId → Int) {id : ValueId}
    {name : Name} (hname : table.binding? id = some (.declared name)) :
    (table.objects value).lookup name.identifier = some (object name (value id)) := by
  induction hv with
  | refl => simp [binding?, empty] at hname
  | @declare t i pointer hg _ _ _ ih =>
    have hobjects : (t.insert i (.declared ⟨t.size, pointer⟩)).objects value =
      (Name.identifier ⟨t.size, pointer⟩, object ⟨t.size, pointer⟩ (value i)) :: t.objects value := rfl
    rw [binding?_insert] at hname
    rw [hobjects, List.lookup_cons]
    split at hname
    · next heq =>
      cases hname
      subst heq
      simp
    · -- the new name has a number that no other has
      have hne : name.identifier ≠ Name.identifier ⟨t.size, pointer⟩ := fun heq =>
        absurd (Name.number_eq_of_identifier heq) (Nat.ne_of_lt (number_lt hg hname))
      rw [beq_false_of_ne hne]
      exact ih hname
  | @share t i owner name' hg _ _ _ _ ih =>
    rw [binding?_insert] at hname
    split at hname
    · cases hname
    · exact ih hname

end NameTable

/-- What stands for an operand that has a name. -/
theorem NameTable.Valid.operandAt_eq {arena : Arena} {table : NameTable} (hv : table.Valid noValues)
    {operands : List ValueId} {position : Nat} (h : table.Named arena operands position) :
    ∃ u name owner, arena.operandAt table operands position = .mention (.use u) ∧
      u.designator = .named name ∧ table.Owns owner name ∧
      ∀ value, table.input operands value position = value owner := by
  obtain ⟨id, hid, hdeclared, hconst⟩ := h
  obtain ⟨owner, name, howner, hname, hnamed⟩ := hv.exists_named hdeclared hconst
  refine ⟨arena.use table id, name, owner, ?_, hnamed, hname, fun value => ?_⟩
  · rw [Arena.operandAt, hid]
  · simp [input, hid, howner]

/-- What stands for an operand that has a name is read as an operand. -/
theorem NameTable.Valid.hasRank_operandAt {arena : Arena} {table : NameTable}
    (hv : table.Valid noValues) {operands : List ValueId} {position : Nat}
    (h : table.Named arena operands position) :
    (arena.operandAt table operands position).HasRank .unary ∧
      Unsigned (arena.operandAt table operands position).text := by
  obtain ⟨u, name, owner, hcode, hnamed, -, -⟩ := hv.operandAt_eq h
  rw [hcode]
  refine ⟨.use (by rw [hnamed]; trivial), ?_⟩
  show Unsigned u.designator.text
  rw [hnamed]
  exact name.unsigned_text

/-- What stands for an operand that has a name has the number of the operand. -/
theorem NameTable.Valid.eval_operandAt {arena : Arena} {table : NameTable}
    (hv : table.Valid noValues) {operands : List ValueId} {position : Nat}
    (h : table.Named arena operands position) (quotient remainder : Int → Int → Int)
    (value : ValueId → Int) :
    (Machine.integers quotient remainder).eval (table.objects value)
      (arena.operandAt table operands position).cpp = some (table.input operands value position) := by
  obtain ⟨u, name, owner, hcode, hnamed, hname, hinput⟩ := hv.operandAt_eq h
  have hlookup := hv.lookup_objects value (hv.owns_iff.1 hname)
  rw [hcode, hinput]
  show Machine.eval _ _ (Code.designatorCpp u.designator) = _
  rw [hnamed, Code.designatorCpp]
  unfold NameTable.object at hlookup
  split at hlookup
  · next hpointer => rw [if_pos hpointer, Machine.eval, Cpp.Env.targetValue, hlookup]
  · next hpointer => rw [if_neg hpointer, Machine.eval, Machine.nameValue, hlookup]

/-- The text of an affine expression over named operands is read as C++, and as an expression with
its value: whatever numbers the operands are, and whatever quotient and remainder are. -/
theorem AffineExpr.readArithmetic_code (arena : Arena) (calls : List NameTable.Call)
    (operands : List ValueId) (dims : Nat) (e : AffineExpr)
    (h : e.Proper ((NameTable.empty.after calls).Named arena operands) dims) :
    ∃ code, Cpp.readArithmetic
        (e.code (arena.operandAt (NameTable.empty.after calls) operands) dims).text = some code ∧
      ∀ quotient remainder value, (Machine.integers quotient remainder).eval
          ((NameTable.empty.after calls).objects value) code =
        some (e.value quotient remainder ((NameTable.empty.after calls).input operands value) dims) := by
  have hv := NameTable.valid_reached calls
  have hreads := (e.hasRank_code (fun _ => hv.hasRank_operandAt) h).1
  refine ⟨_, Cpp.readArithmetic_eq_some_iff.2
    ⟨_, hreads.phrase.tokenize, (hreads.ofUnary .sum).derives⟩, fun quotient remainder value => ?_⟩
  exact e.eval_code (fun _ hposition => hv.eval_operandAt hposition quotient remainder value) h

/-! ### Three minus signs in a division that rounds up -/

/-- A name that is shared, and a pointer. -/
def sharedAndPointer : List NameTable.Call :=
  [.declare ⟨0⟩ false, .declare ⟨1⟩ true, .share ⟨0⟩ ⟨2⟩]

/-- All forms that are written with a minus sign, one in the other. -/
def minusSigns : AffineExpr :=
  .ceilDiv (.add (.dim 0) (.mul (.mul (.symbol 0) (.constant (-1))) (.constant (-1))))
    (.add (.symbol 0) (.constant Int64.minValue))

/-- Signs before a shared value, a pointer and the least integer, all kept apart. -/
theorem minusSigns_proper :
    minusSigns.Proper ((NameTable.empty.after sharedAndPointer).Named #[] [⟨2⟩, ⟨1⟩]) 1 where
  dim position hposition := by
    obtain rfl : position = 0 := by simpa [minusSigns, AffineExpr.parts] using hposition
    exact ⟨⟨2⟩, rfl, by decide, rfl⟩
  symbol position hposition := by
    obtain rfl : position = 0 := by simpa [minusSigns, AffineExpr.parts] using hposition
    exact ⟨⟨1⟩, rfl, by decide, rfl⟩
  signs c _ hpart := by simp [minusSigns, AffineExpr.parts] at hpart

/-- The text of the signs and its value. -/
theorem minusSigns_readArithmetic :
    minusSigns.Proper ((NameTable.empty.after sharedAndPointer).Named #[] [⟨2⟩, ⟨1⟩]) 1 ∧
      (minusSigns.code (Arena.operandAt #[] (NameTable.empty.after sharedAndPointer) [⟨2⟩, ⟨1⟩])
        1).text = "(((val0 - (-*val1)) + (*val1 - 9223372036854775808) - 1) / " ++
          "(*val1 - 9223372036854775808))" ∧
      ∃ code, Cpp.readArithmetic (minusSigns.code
          (Arena.operandAt #[] (NameTable.empty.after sharedAndPointer) [⟨2⟩, ⟨1⟩]) 1).text =
            some code ∧
        ∀ quotient remainder value, (Machine.integers quotient remainder).eval
            ((NameTable.empty.after sharedAndPointer).objects value) code =
          some (minusSigns.value quotient remainder
            ((NameTable.empty.after sharedAndPointer).input [⟨2⟩, ⟨1⟩] value) 1) :=
  ⟨minusSigns_proper, by decide +kernel,
    AffineExpr.readArithmetic_code #[] sharedAndPointer [⟨2⟩, ⟨1⟩] 1 minusSigns minusSigns_proper⟩

/-- Two signs in front of a number are one token. -/
example : (Cpp.readArithmetic ((AffineExpr.mul (.constant (-5)) (.constant (-1))).code
    (fun _ => .absent) 0).text).isNone := by decide +kernel

end HlsEmit
