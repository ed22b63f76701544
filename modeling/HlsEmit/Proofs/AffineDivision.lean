import HlsEmit.Proofs.AffineSigns

/-!
# Divisions of negative numbers in affine expressions

The quotient and the remainder of an affine expression round down, those of C++ towards zero. By a
positive divisor they are the same where what is divided is not negative or a multiple of the
divisor, and nowhere else: the truncated quotient of any other negative number is greater by one.

So an expression is written as code with its value as long as nothing else is divided in it, and a
part that divides something else has another value (`AffineExpr.Exact`). A quotient that rounds up is
written as one of a number that is greater by the divisor less one, and it is this number that must
not be negative.

## Key results

- `AffineExpr.truncated_iff_exact`: all parts have their values just if nothing else is divided
- `AffineExpr.eval_truncating_code`: the same of the text as C++ reads it
-/

namespace HlsEmit

open Cpp (Machine)
open Code (Expr)

/-! ## What expressions mean -/

namespace AffineExpr

/-- What an expression stands for: the quotients round down or up, and no remainder by a positive
divisor is negative. -/
def meaning (input : Nat → Int) (dims : Nat) : AffineExpr → Int
  | .dim position => input position.toNat
  | .symbol position => input (dims + position.toNat)
  | .constant c => c.toInt
  | .add lhs rhs => lhs.meaning input dims + rhs.meaning input dims
  | .mul lhs rhs => lhs.meaning input dims * rhs.meaning input dims
  | .mod lhs rhs => (lhs.meaning input dims).fmod (rhs.meaning input dims)
  | .floorDiv lhs rhs => (lhs.meaning input dims).fdiv (rhs.meaning input dims)
  | .ceilDiv lhs rhs => -(-lhs.meaning input dims).fdiv (rhs.meaning input dims)

/-- What an expression divides by. -/
def divisor? : AffineExpr → Option AffineExpr
  | .mod _ rhs | .floorDiv _ rhs | .ceilDiv _ rhs => some rhs
  | _ => none

/-- All divisors in an expression are positive constants. -/
def PositiveDivisors (e : AffineExpr) : Prop :=
  ∀ part ∈ e.parts, ∀ divisor ∈ part.divisor?, ∃ c > 0, divisor = .constant c

/-- What is written in front of the sign of a division or of a remainder, and behind it. -/
def fraction? (input : Nat → Int) (dims : Nat) : AffineExpr → Option (Int × Int)
  | .mod lhs rhs | .floorDiv lhs rhs => some (lhs.meaning input dims, rhs.meaning input dims)
  | .ceilDiv lhs rhs =>
    some (lhs.meaning input dims + rhs.meaning input dims - 1, rhs.meaning input dims)
  | _ => none

/-- What an expression divides itself is not negative, or a multiple of the divisor. -/
def DividesExactly (input : Nat → Int) (dims : Nat) (e : AffineExpr) : Prop :=
  ∀ fraction ∈ e.fraction? input dims, 0 ≤ fraction.1 ∨ fraction.2 ∣ fraction.1

/-- Nothing else is divided anywhere in an expression. -/
def Exact (input : Nat → Int) (dims : Nat) (e : AffineExpr) : Prop :=
  ∀ part ∈ e.parts, part.DividesExactly input dims

end AffineExpr

/-! ## Truncation -/

section Truncation

variable {n d : Int}

/-- The truncated quotient is the one that rounds down just for these numbers. -/
theorem tdiv_eq_fdiv_iff (hd : 0 < d) : n.tdiv d = n.fdiv d ↔ 0 ≤ n ∨ d ∣ n := by
  rw [Int.tdiv_eq_ediv, Int.fdiv_eq_ediv_of_nonneg n (Int.le_of_lt hd), Int.sign_eq_one_of_pos hd]
  split
  · next h => exact iff_of_true (Int.add_zero _) h
  · next h => exact iff_of_false (by omega) h

/-- The truncated remainder is the one that is not negative just for these numbers. -/
theorem tmod_eq_fmod_iff (hd : 0 < d) : n.tmod d = n.fmod d ↔ 0 ≤ n ∨ d ∣ n := by
  rw [Int.tmod_eq_emod, Int.fmod_eq_emod_of_nonneg n (Int.le_of_lt hd)]
  split
  · next h => exact iff_of_true (Int.sub_zero _) h
  · next h => exact iff_of_false (by omega) h

/-- A quotient that rounds up is one that rounds down, of a greater number. -/
theorem neg_neg_fdiv (hd : 0 < d) : -(-n).fdiv d = (n + d - 1).fdiv d := by
  rw [Int.fdiv_eq_ediv_of_nonneg _ (Int.le_of_lt hd), Int.fdiv_eq_ediv_of_nonneg _ (Int.le_of_lt hd)]
  have hsum := Int.emod_add_mul_ediv (-n) d
  have hnonneg := Int.emod_nonneg (-n) (Int.ne_of_gt hd)
  have hless := Int.emod_lt_of_pos (-n) hd
  have hup : d - 1 - -n % d + d * -(-n / d) = n + d - 1 := by rw [Int.mul_neg]; omega
  exact ((Int.ediv_emod_unique hd).2 ⟨hup, by omega, by omega⟩).1.symm

end Truncation

/-! ## Parts that have their values -/

namespace AffineExpr

variable {input : Nat → Int} {dims : Nat} {e lhs rhs : AffineExpr}

/-- A constant divisor that is positive. -/
theorem PositiveDivisors.pos (h : e.PositiveDivisors) (hdivisor : e.divisor? = some rhs) :
    0 < rhs.meaning input dims := by
  obtain ⟨c, hc, rfl⟩ := h e (mem_parts_self e) rhs hdivisor
  exact Int64.lt_iff_toInt_lt.1 hc

/-- Both operands have positive divisors. -/
theorem PositiveDivisors.operands (h : e.PositiveDivisors)
    (hparts : e.parts = e :: (lhs.parts ++ rhs.parts)) :
    lhs.PositiveDivisors ∧ rhs.PositiveDivisors := by
  rw [PositiveDivisors, hparts, List.forall_mem_cons, List.forall_mem_append] at h
  exact h.2

/-- The value of a part with truncating operators is what the part means. -/
def Truncated (input : Nat → Int) (dims : Nat) (e : AffineExpr) : Prop :=
  e.value Int.tdiv Int.tmod input dims = e.meaning input dims

/-- One step: if the operands have their values, the expression has its own just if it divides
exactly. -/
theorem all_truncated_iff (hparts : e.parts = e :: (lhs.parts ++ rhs.parts))
    (hlhs : (∀ part ∈ lhs.parts, part.Truncated input dims) ↔ lhs.Exact input dims)
    (hrhs : (∀ part ∈ rhs.parts, part.Truncated input dims) ↔ rhs.Exact input dims)
    (hown : lhs.Truncated input dims → rhs.Truncated input dims →
      (e.Truncated input dims ↔ e.DividesExactly input dims)) :
    (∀ part ∈ e.parts, part.Truncated input dims) ↔ e.Exact input dims := by
  have hexact : e.Exact input dims ↔
      e.DividesExactly input dims ∧ lhs.Exact input dims ∧ rhs.Exact input dims := by
    rw [Exact, hparts, List.forall_mem_cons, List.forall_mem_append, Exact, Exact]
  rw [hexact, ← hlhs, ← hrhs, hparts, List.forall_mem_cons, List.forall_mem_append]
  exact and_congr_left fun ⟨hall, hall'⟩ =>
    hown (hall lhs (mem_parts_self lhs)) (hall' rhs (mem_parts_self rhs))

/-- All parts of an expression have their values just if nothing else is divided than what truncation
agrees on. -/
theorem truncated_iff_exact (e : AffineExpr) (h : e.PositiveDivisors) :
    (∀ part ∈ e.parts, part.Truncated input dims) ↔ e.Exact input dims := by
  induction e with
  | dim | symbol | constant =>
    exact iff_of_true (List.forall_mem_singleton.2 rfl)
      (List.forall_mem_singleton.2 fun _ hfraction => nomatch hfraction)
  | add lhs rhs ihlhs ihrhs =>
    obtain ⟨hlhs, hrhs⟩ := h.operands rfl
    refine all_truncated_iff rfl (ihlhs hlhs) (ihrhs hrhs) fun hlhs hrhs => iff_of_true ?_ ?_
    · rw [Truncated, value, meaning, hlhs, hrhs]
    · exact fun _ hfraction => nomatch hfraction
  | mul lhs rhs ihlhs ihrhs =>
    obtain ⟨hlhs, hrhs⟩ := h.operands rfl
    refine all_truncated_iff rfl (ihlhs hlhs) (ihrhs hrhs) fun hlhs hrhs => iff_of_true ?_ ?_
    · rw [Truncated, value, meaning, hlhs, hrhs]
    · exact fun _ hfraction => nomatch hfraction
  | mod lhs rhs ihlhs ihrhs =>
    obtain ⟨hlhs, hrhs⟩ := h.operands rfl
    refine all_truncated_iff rfl (ihlhs hlhs) (ihrhs hrhs) fun hlhs hrhs => ?_
    rw [Truncated, value, meaning, hlhs, hrhs, tmod_eq_fmod_iff (h.pos rfl)]
    simp [DividesExactly, fraction?]
  | floorDiv lhs rhs ihlhs ihrhs =>
    obtain ⟨hlhs, hrhs⟩ := h.operands rfl
    refine all_truncated_iff rfl (ihlhs hlhs) (ihrhs hrhs) fun hlhs hrhs => ?_
    rw [Truncated, value, meaning, hlhs, hrhs, tdiv_eq_fdiv_iff (h.pos rfl)]
    simp [DividesExactly, fraction?]
  | ceilDiv lhs rhs ihlhs ihrhs =>
    obtain ⟨hlhs, hrhs⟩ := h.operands rfl
    refine all_truncated_iff rfl (ihlhs hlhs) (ihrhs hrhs) fun hlhs hrhs => ?_
    have hpos : 0 < rhs.meaning input dims := h.pos rfl
    -- what is divided is greater by the divisor less one
    rw [Truncated, value, meaning, hlhs, hrhs, neg_neg_fdiv hpos, tdiv_eq_fdiv_iff hpos]
    simp [DividesExactly, fraction?]

/-- The parts of an expression use no other positions. -/
theorem positions_subset_of_mem_parts (e : AffineExpr) :
    ∀ part ∈ e.parts, ∀ position ∈ part.positions dims, position ∈ e.positions dims := by
  induction e with
  | dim | symbol | constant => exact List.forall_mem_singleton.2 fun _ hposition => hposition
  | add lhs rhs ihlhs ihrhs | mul lhs rhs ihlhs ihrhs | mod lhs rhs ihlhs ihrhs
  | floorDiv lhs rhs ihlhs ihrhs | ceilDiv lhs rhs ihlhs ihrhs =>
    refine List.forall_mem_cons.2 ⟨fun _ hposition => hposition, List.forall_mem_append.2 ⟨?_, ?_⟩⟩
    · exact fun part hpart position hposition =>
        List.mem_append_left _ (ihlhs part hpart position hposition)
    · exact fun part hpart position hposition =>
        List.mem_append_right _ (ihrhs part hpart position hposition)

end AffineExpr

/-! ## The text as C++ reads it -/

/-- The integer that an operand stands for: that of its literal, or that of the value whose
declaration names it. -/
inductive NameTable.Stands (arena : Arena) (table : NameTable) (operands : List ValueId)
    (value : ValueId → Int) (position : Nat) : Int → Prop
  | literal {id : ValueId} {n : Int} (hid : operands[position]? = some id)
      (htext : arena.constantText? id = some (toString n)) : Stands arena table operands value position n
  | named {id owner : ValueId} (hid : operands[position]? = some id)
      (hconst : arena.constantText? id = none) (howner : table.owner? id = some owner) :
      Stands arena table operands value position (value owner)

/-- What stands for an operand has its integer. -/
theorem NameTable.Valid.eval_of_stands {arena : Arena} {table : NameTable} (hv : table.Valid noValues)
    {operands : List ValueId} {value : ValueId → Int} {position : Nat} {n : Int}
    (h : table.Stands arena operands value position n) (quotient remainder : Int → Int → Int) :
    (Machine.integers quotient remainder).eval (table.objects value)
      (arena.operandAt table operands position).cpp = some n := by
  cases h with
  | @literal id _ hid htext =>
    have hdesignator : (arena.use table id).designator = .literal (toString n) :=
      Arena.designator_of_literal htext
    rw [Arena.operandAt, hid]
    show Machine.eval _ _ (Code.designatorCpp (arena.use table id).designator) = _
    rw [hdesignator, integerCpp_eq]
    exact eval_integer n
  -- A named operand is not a literal, so the name of its owner stands in the code.
  | @named id owner hid hconst howner =>
    have hdeclared : table.isDeclared id = true := by
      rw [← Bool.not_eq_false, isDeclared_eq_false_iff, ← owner?_eq_none_iff, howner]
      exact Option.some_ne_none owner
    rw [hv.eval_operandAt ⟨id, hid, hdeclared, hconst⟩, input, hid, Option.bind_some, howner]
    rfl

/-- By positive constants, truncating operators compute the value of the text of an expression as long
as nothing negative is divided but multiples of the divisor; and if anything else is, they do not
compute that of all parts. -/
theorem AffineExpr.eval_truncating_code (arena : Arena) (calls : List NameTable.Call)
    (operands : List ValueId) (dims : Nat) (e : AffineExpr)
    (hoperand : ∀ position ∈ e.positions dims,
      (arena.operandAt (NameTable.empty.after calls) operands position).text ≠ "")
    (hsigns : ∀ x ∈ e.negated, x.isNegative (arena.isNegative operands) dims = false)
    (hdivisors : e.PositiveDivisors) :
    ∃ code, Cpp.readArithmetic
        (e.code (arena.operandAt (NameTable.empty.after calls) operands) dims).text = some code ∧
      ∀ value input, (∀ position ∈ e.positions dims,
        (NameTable.empty.after calls).Stands arena operands value position (input position)) →
        (e.Exact input dims → (Machine.integers Int.tdiv Int.tmod).eval
            ((NameTable.empty.after calls).objects value) code = some (e.meaning input dims)) ∧
        ((∀ part ∈ e.parts, (Machine.integers Int.tdiv Int.tmod).eval
            ((NameTable.empty.after calls).objects value)
            (part.code (arena.operandAt (NameTable.empty.after calls) operands) dims).cpp =
              some (part.meaning input dims)) ↔ e.Exact input dims) := by
  have hv := NameTable.valid_reached calls
  have hreads := e.hasRank_code_of_unsigned
    (fun position hposition => Arena.hasRank_operandAt_of_text (hoperand position hposition))
    fun x hx => x.unsigned_code_iff.2 (hsigns x hx)
  refine ⟨_, Cpp.readArithmetic_eq_some_iff.2
    ⟨_, hreads.phrase.tokenize, (hreads.ofUnary .sum).derives⟩, fun value input hinput => ?_⟩
  -- Each part has the value C++ computes for it, which truncates.
  have heval : ∀ part ∈ e.parts, (Machine.integers Int.tdiv Int.tmod).eval
      ((NameTable.empty.after calls).objects value)
      (part.code (arena.operandAt (NameTable.empty.after calls) operands) dims).cpp =
        some (part.value Int.tdiv Int.tmod input dims) := fun part hpart =>
    part.eval_code_of_positions fun position hposition =>
      hv.eval_of_stands (hinput position (e.positions_subset_of_mem_parts part hpart _ hposition)) _ _
  have hexact : (∀ part ∈ e.parts, part.Truncated input dims) ↔ e.Exact input dims :=
    e.truncated_iff_exact hdivisors
  -- Truncated and exact values agree on all parts just if every division is exact or rounds the
  -- same way.
  constructor
  · intro h
    rw [heval e (mem_parts_self e)]
    exact congrArg some (hexact.2 h e (mem_parts_self e))
  · rw [← hexact]
    refine forall₂_congr fun part hpart => ?_
    rw [heval part hpart, Option.some.injEq]
    rfl

/-! ### Negative numbers -/

/-- A pointer, and a value that shares its name. -/
def pointerAndShared : List NameTable.Call :=
  [.declare ⟨1⟩ true, .share ⟨1⟩ ⟨2⟩]

/-- The values of the two, behind a negative constant. -/
def behindMinusFive : Arena :=
  #[{ elem := .index, constant := some (.int (-5)) }, { elem := .index }, { elem := .index }]

/-- A division of each kind; a multiple of the divisor is negative in two of them. -/
def threeDivisions : AffineExpr :=
  .add (.floorDiv (.add (.dim 0) (.symbol 0)) (.constant 4))
    (.add (.mod (.dim 0) (.constant 3))
      (.ceilDiv (.mul (.dim 0) (.constant (-1))) (.constant 4)))

/-- Minus three, and what the constant is. -/
def minusThreeAndFive (position : Nat) : Int :=
  if position = 0 then -3 else -5

/-- The divisors of the example are positive. -/
theorem threeDivisions_positive : threeDivisions.PositiveDivisors := by
  simp [AffineExpr.PositiveDivisors, threeDivisions, AffineExpr.parts, AffineExpr.divisor?]

/-- At these inputs truncation is the right rounding. -/
theorem threeDivisions_exact : threeDivisions.Exact minusThreeAndFive 1 := by
  simp [AffineExpr.Exact, AffineExpr.DividesExactly, threeDivisions, AffineExpr.parts,
    AffineExpr.fraction?, AffineExpr.meaning, minusThreeAndFive]

/-- The operands of the example are a pointer and a literal. -/
theorem threeDivisions_stands : ∀ position ∈ threeDivisions.positions 1,
    (NameTable.empty.after pointerAndShared).Stands behindMinusFive [⟨2⟩, ⟨0⟩] (fun _ => -3) position
      (minusThreeAndFive position) := by
  have hshared : (NameTable.empty.after pointerAndShared).Stands behindMinusFive [⟨2⟩, ⟨0⟩]
      (fun _ => -3) 0 (-3) := @NameTable.Stands.named _ _ _ _ _ ⟨2⟩ ⟨1⟩ rfl rfl rfl
  have hconstant : (NameTable.empty.after pointerAndShared).Stands behindMinusFive [⟨2⟩, ⟨0⟩]
      (fun _ => -3) 1 (-5) := @NameTable.Stands.literal _ _ _ _ _ ⟨0⟩ _ rfl (by decide)
  intro position hposition
  have hpositions : position = 0 ∨ position = 1 ∨ position = 0 := by
    simpa [threeDivisions, AffineExpr.positions] using hposition
  rcases hpositions with rfl | rfl | rfl
  · exact hshared
  · exact hconstant
  · exact hshared

/-- Three divisions, a remainder among them, at negative and positive inputs. -/
theorem threeDivisions_truncated :
    (threeDivisions.code (Arena.operandAt behindMinusFive (NameTable.empty.after pointerAndShared)
        [⟨2⟩, ⟨0⟩]) 1).text = "(((*val0 + -5) / 4) + ((*val0 % 3) + (((-*val0) + 4 - 1) / 4)))" ∧
      threeDivisions.meaning minusThreeAndFive 1 = -1 ∧
      ∃ code, Cpp.readArithmetic (threeDivisions.code (Arena.operandAt behindMinusFive
          (NameTable.empty.after pointerAndShared) [⟨2⟩, ⟨0⟩]) 1).text = some code ∧
        (Machine.integers Int.tdiv Int.tmod).eval
          ((NameTable.empty.after pointerAndShared).objects fun _ => -3) code = some (-1) := by
  obtain ⟨code, hread, heval⟩ := AffineExpr.eval_truncating_code behindMinusFive pointerAndShared
    [⟨2⟩, ⟨0⟩] 1 threeDivisions (by decide +kernel) (by decide +kernel) threeDivisions_positive
  exact ⟨by decide +kernel, by decide +kernel, code, hread,
    (heval (fun _ => -3) minusThreeAndFive threeDivisions_stands).1 threeDivisions_exact⟩

/-- Minus five by four: C++ computes minus one, minus one and zero, which are neither the quotient that
rounds down nor the remainder nor the quotient that rounds up. -/
theorem minusFive_by_four :
    let names := NameTable.empty.after [.declare ⟨0⟩ false]
    let truncated (e : AffineExpr) : Option Int :=
      (Cpp.readArithmetic (e.code (Arena.operandAt #[] names [⟨0⟩]) 1).text).bind
        ((Machine.integers Int.tdiv Int.tmod).eval (names.objects fun _ => -5))
    let rounded (e : AffineExpr) : Int := e.meaning (fun _ => -5) 1
    let quotient := AffineExpr.floorDiv (.dim 0) (.constant 4)
    let remainder := AffineExpr.mod (.dim 0) (.constant 4)
    let ceiling := AffineExpr.ceilDiv (.dim 0) (.constant 4)
    truncated quotient = some (-1) ∧ rounded quotient = -2 ∧
      truncated remainder = some (-1) ∧ rounded remainder = 3 ∧
      truncated ceiling = some 0 ∧ rounded ceiling = -1 := by
  decide +kernel

end HlsEmit
