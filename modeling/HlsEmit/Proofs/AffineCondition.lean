import HlsEmit.Proofs.AffineDivision
import HlsEmit.Proofs.AffineInputs
import HlsEmit.Proofs.Reading.Condition

/-!
# Conditions over affine expressions

The condition of a conditional is a set of constraints on affine expressions, each of which is to be
zero or not negative. What is written between the parentheses is a comparison for each constraint,
joined by `&&`. Read as C++, it holds just if all constraints do: over any integers, and whatever
quotient and remainder are.

A set without constraints is always satisfied, but nothing at all is written for it, and that is no
condition of C++.

## Key results

- `IntegerSet.condition_decides`: the text of a condition, and when it holds
- `IntegerSet.isSome_readCondition_iff`: which sets have a condition
- `Emission.ofOp_decides`: the condition of a conditional without errors
-/

namespace HlsEmit

open Cpp (Condition ComparisonDerives ConditionDerives Machine Phrase)
open Code (Expr Stmt)

/-! ## Code that is read as a condition -/

namespace Code.Expr

/-- The text of some code is a comparison. -/
structure IsComparison (e : Expr) (comparison : Cpp.Comparison) : Prop where
  phrase : Phrase e.text e.cpp.tokens
  derives : ComparisonDerives e.cpp.tokens comparison

/-- The text of some code is a condition. -/
structure IsCondition (e : Expr) (c : Condition) : Prop where
  phrase : Phrase e.text e.cpp.tokens
  derives : ConditionDerives e.cpp.tokens c

/-- A comparison of two sums is read as that comparison. -/
theorem isComparison {operator : Operator} {lhs rhs : Expr}
    (hoperator : operator.symbol ∈ Cpp.comparisons) (hlhs : lhs.HasRank .sum)
    (hrhs : rhs.HasRank .sum) :
    (operation operator lhs rhs).IsComparison ⟨operator.symbol, lhs.cpp, rhs.cpp⟩ where
  phrase := phrase_operation operator hlhs.phrase hrhs.phrase
  derives := .mk hoperator hlhs.derives hrhs.derives

/-- The text of a condition is read as its comparisons. -/
theorem IsCondition.read {e : Expr} {c : Condition} (h : e.IsCondition c) :
    Cpp.readCondition e.text = some c :=
  Cpp.readCondition_eq_some_iff.2 ⟨_, h.phrase.tokenize, h.derives⟩

/-- Comparisons are joined to a condition, one after the other. -/
theorem IsCondition.chain {first : Expr} {c : Condition} {rest : List Expr}
    {cs : List Cpp.Comparison} (hfirst : first.IsCondition c)
    (hrest : List.Forall₂ IsComparison rest cs) :
    ∃ whole, (Expr.chain (operation .and) first rest).IsCondition whole ∧
      whole.comparisons = c.comparisons ++ cs := by
  induction hrest generalizing first c with
  | nil => exact ⟨c, hfirst, (List.append_nil _).symm⟩
  | @cons next comparison rest cs hnext _ ih =>
    have hboth : (operation .and first next).IsCondition (.both c comparison) :=
      ⟨phrase_operation .and hfirst.phrase hnext.phrase, .both hfirst.derives hnext.derives⟩
    obtain ⟨whole, hwhole, hcomparisons⟩ := ih hboth
    refine ⟨whole, hwhole, ?_⟩
    rw [hcomparisons, Condition.comparisons, List.append_assoc, List.singleton_append]

/-- Some comparisons joined are a condition, if there are any. -/
theorem exists_condition {codes : List Expr} {cs : List Cpp.Comparison}
    (h : List.Forall₂ IsComparison codes cs) (hsome : codes ≠ []) :
    ∃ c, (all codes).IsCondition c ∧ c.comparisons = cs := by
  cases h with
  | nil => exact absurd rfl hsome
  | cons hfirst hrest =>
    have hcompare := IsCondition.mk hfirst.phrase (.compare hfirst.derives)
    exact hcompare.chain hrest

end Code.Expr

/-! ## Sets of constraints -/

namespace IntegerSet

/-- All constraints hold, if the expressions have these values. -/
def Satisfied (set : IntegerSet) (value : AffineExpr → Int) : Prop :=
  ∀ (i : Nat) (constraint : AffineExpr), set.constraints[i]? = some constraint →
    if set.equalities.getD i false then value constraint = 0 else 0 ≤ value constraint

/-- A constraint as C++ compares it. -/
def comparison (set : IntegerSet) (operand : Nat → Expr) (i : Nat) (constraint : AffineExpr) :
    Cpp.Comparison where
  operator := if set.equalities.getD i false then "==" else ">="
  lhs := (constraint.code operand set.dims.toNat).cpp
  rhs := .number "0"

/-- Satisfied sets have satisfied constraints, whatever else has other values. -/
theorem satisfied_congr {set : IntegerSet} {value value' : AffineExpr → Int}
    (h : ∀ constraint ∈ set.constraints, value constraint = value' constraint) :
    set.Satisfied value ↔ set.Satisfied value' := by
  refine forall_congr' fun i => forall_congr' fun constraint => forall_congr' fun hconstraint => ?_
  rw [h constraint (List.mem_of_getElem? hconstraint)]

variable {set : IntegerSet} {operand : Nat → Expr}

/-- A constraint is written as its comparison. -/
theorem isComparison_relation {i : Nat} {constraint : AffineExpr}
    (h : (constraint.code operand set.dims.toNat).HasRank .unary) :
    (set.relation i (constraint.code operand set.dims.toNat)).IsComparison
      (set.comparison operand i constraint) := by
  have hzero : (Expr.integer 0).HasRank .sum := (Expr.HasRank.integer 0).ofUnary .sum
  unfold relation comparison
  cases set.equalities.getD i false with
  | true => exact Expr.isComparison (by decide) (h.ofUnary .sum) hzero
  | false => exact Expr.isComparison (by decide) (h.ofUnary .sum) hzero

/-- The comparison of a constraint holds just if the constraint does. -/
theorem holds?_comparison {m : Machine Int} {env : Cpp.Env Int} {i : Nat} {constraint : AffineExpr}
    {n : Int} (hzero : m.eval env (.number "0") = some 0)
    (h : m.eval env (constraint.code operand set.dims.toNat).cpp = some n) :
    ∃ answer, (set.comparison operand i constraint).holds? m env = some answer ∧
      (answer = true ↔ if set.equalities.getD i false then n = 0 else 0 ≤ n) := by
  unfold Cpp.Comparison.holds? comparison
  rw [h, hzero]
  cases set.equalities.getD i false with
  | true => exact ⟨decide (n = 0), rfl, by simp⟩
  | false => exact ⟨decide (n ≥ 0), rfl, by simp⟩

/-- The condition of a set is that all its constraints hold. -/
theorem condition_eq (operand : Nat → Expr) : set.condition operand set.dims.toNat =
    .all (set.constraints.mapIdx fun i constraint =>
      set.relation i (constraint.code operand set.dims.toNat)) :=
  rfl

/-- The condition of a set with constraints is read as the comparisons of all of them, if they are
read as operands. -/
theorem exists_condition (hsome : set.constraints ≠ [])
    (h : ∀ constraint ∈ set.constraints,
      (constraint.code operand set.dims.toNat).HasRank .unary) :
    ∃ c, (set.condition operand set.dims.toNat).IsCondition c ∧
      c.comparisons = set.constraints.mapIdx (set.comparison operand) := by
  rw [condition_eq]
  apply Expr.exists_condition
  · rw [List.forall₂_iff_get]
    constructor
    · simp
    · intro i hi _
      simp only [List.get_eq_getElem, List.getElem_mapIdx]
      exact isComparison_relation (h _ (List.getElem_mem _))
  · simpa using hsome

/-- The comparisons of a condition hold just if the set is satisfied. -/
theorem holds?_iff_satisfied {m : Machine Int} {env : Cpp.Env Int} {value : AffineExpr → Int}
    {c : Condition} (hc : c.comparisons = set.constraints.mapIdx (set.comparison operand))
    (hzero : m.eval env (.number "0") = some 0)
    (h : ∀ constraint ∈ set.constraints,
      m.eval env (constraint.code operand set.dims.toNat).cpp = some (value constraint)) :
    ∃ answer, c.holds? m env = some answer ∧ (answer = true ↔ set.Satisfied value) := by
  have hanswer (i : Nat) (constraint : AffineExpr) (hi : set.constraints[i]? = some constraint) :=
    @holds?_comparison set operand m env i constraint _ hzero
      (h constraint (List.mem_of_getElem? hi))
  -- A comparison stands at the position of its constraint.
  have hmem (comparison : Cpp.Comparison) : comparison ∈ c.comparisons ↔
      ∃ (i : Nat) (constraint : AffineExpr), set.constraints[i]? = some constraint ∧
        set.comparison operand i constraint = comparison := by
    rw [hc, List.mem_iff_getElem?]
    simp only [List.getElem?_mapIdx, Option.map_eq_some_iff]
  obtain ⟨answer, hwhole, hall⟩ := c.holds?_eq_some m env fun comparison hcomparison => by
    obtain ⟨i, constraint, hi, rfl⟩ := (hmem comparison).1 hcomparison
    obtain ⟨answer, hanswer, -⟩ := hanswer i constraint hi
    exact ⟨answer, hanswer⟩
  -- All comparisons hold just if each constraint is satisfied.
  refine ⟨answer, hwhole, hall.trans ⟨?_, ?_⟩⟩
  · intro hholds i constraint hi
    obtain ⟨answer, hone, hiff⟩ := hanswer i constraint hi
    have htrue := hholds _ ((hmem _).2 ⟨i, constraint, hi, rfl⟩)
    exact hiff.1 (Option.some.inj (hone.symm.trans htrue))
  · intro hholds comparison hcomparison
    obtain ⟨i, constraint, hi, rfl⟩ := (hmem comparison).1 hcomparison
    obtain ⟨answer, hone, hiff⟩ := hanswer i constraint hi
    rw [hone, hiff.2 (hholds i constraint hi)]

/-! ## The text of a condition -/

/-- Everything that the constraints of a set use has a text, and no text with a sign in front is
negated. -/
structure Faithful (arena : Arena) (t : NameTable) (operands : List ValueId) (set : IntegerSet) :
    Prop where
  shown : ∀ constraint ∈ set.constraints, ∀ position ∈ constraint.positions set.dims.toNat,
    (arena.operandAt t operands position).text ≠ ""
  unsigned : ∀ constraint ∈ set.constraints, ∀ x ∈ constraint.negated,
    x.isNegative (arena.isNegative operands) set.dims.toNat = false

/-- What stands for the operands that a set uses has these integers. -/
def Binds (arena : Arena) (t : NameTable) (operands : List ValueId) (set : IntegerSet)
    (value : ValueId → Int) (input : Nat → Int) : Prop :=
  ∀ constraint ∈ set.constraints, ∀ position ∈ constraint.positions set.dims.toNat,
    t.Stands arena operands value position (input position)

/-- A condition holds just if a set is satisfied: over any integers, and whatever quotient and
remainder are. -/
def DecidedBy (arena : Arena) (t : NameTable) (operands : List ValueId) (set : IntegerSet)
    (c : Condition) : Prop :=
  ∀ quotient remainder value input, set.Binds arena t operands value input →
    ∃ answer, c.holds? (Machine.integers quotient remainder) (t.objects value) = some answer ∧
      (answer = true ↔
        set.Satisfied fun e => e.value quotient remainder input set.dims.toNat)

variable {arena : Arena} {t : NameTable} {operands : List ValueId}

/-- What is written for a set with constraints is a condition that decides it. -/
theorem condition_decides (hv : t.Valid NameTable.noValues) (h : set.Faithful arena t operands)
    (hsome : set.constraints ≠ []) :
    ∃ c, Cpp.readCondition (set.condition (arena.operandAt t operands) set.dims.toNat).text = some c ∧
      set.DecidedBy arena t operands c := by
  obtain ⟨c, hcondition, hcomparisons⟩ := exists_condition hsome fun constraint hconstraint =>
    constraint.hasRank_code_of_unsigned
      (fun position hposition =>
        Arena.hasRank_operandAt_of_text (h.shown _ hconstraint _ hposition))
      fun x hx => x.unsigned_code_iff.2 (h.unsigned _ hconstraint x hx)
  refine ⟨c, hcondition.read, fun quotient remainder value input hinput => ?_⟩
  apply holds?_iff_satisfied hcomparisons (eval_integer 0)
  intro constraint hconstraint
  exact constraint.eval_code_of_positions fun position hposition =>
    hv.eval_of_stands (hinput constraint hconstraint position hposition) _ _

/-- A set is written as a condition just if it has constraints. -/
theorem isSome_readCondition_iff (hv : t.Valid NameTable.noValues)
    (h : set.Faithful arena t operands) :
    (Cpp.readCondition (set.condition (arena.operandAt t operands) set.dims.toNat).text).isSome ↔
      set.constraints ≠ [] := by
  constructor
  · intro hread hnone
    rw [condition_eq, hnone] at hread
    cases hread
  · intro hsome
    obtain ⟨c, hread, -⟩ := condition_decides hv h hsome
    rw [hread]
    rfl

/-- With the quotient and the remainder of C++, which round towards zero, a condition decides
whether the constraints hold of what the expressions mean, if nothing negative is divided but
multiples. -/
theorem DecidedBy.meaning {c : Condition} (h : set.DecidedBy arena t operands c)
    (hdivisors : ∀ constraint ∈ set.constraints, constraint.PositiveDivisors)
    {value : ValueId → Int} {input : Nat → Int} (hinput : set.Binds arena t operands value input)
    (hexact : ∀ constraint ∈ set.constraints, constraint.Exact input set.dims.toNat) :
    ∃ answer, c.holds? (Machine.integers Int.tdiv Int.tmod) (t.objects value) = some answer ∧
      (answer = true ↔ set.Satisfied (AffineExpr.meaning input set.dims.toNat)) := by
  obtain ⟨answer, hanswer, hiff⟩ := h Int.tdiv Int.tmod value input hinput
  refine ⟨answer, hanswer, hiff.trans (satisfied_congr fun constraint hconstraint => ?_)⟩
  have hparts := (constraint.truncated_iff_exact (hdivisors _ hconstraint)).2 (hexact _ hconstraint)
  exact hparts constraint (AffineExpr.mem_parts_self constraint)

end IntegerSet

/-! ## Conditionals -/

/-- A table that arose while code was written could have arisen from calls alone. -/
theorem NameTable.Valid.withoutValues {arena : Arena} {t : NameTable} (h : t.Valid arena) :
    t.Valid noValues := by
  induction h with
  | refl => exact .refl
  | declare pointer _ hid hfree _ ih =>
    exact .declare pointer ih hid hfree (constantText?_noValues _)
  | share _ hid hfree _ howner ih => exact .share ih hid hfree (constantText?_noValues _) howner

/-- The condition of a set that is accepted. -/
theorem IntegerSet.admits_check (set : IntegerSet) (arena : Arena) (t : NameTable)
    (operands : List ValueId) :
    Admits (fun code => code = set.condition (arena.operandAt t operands) set.dims.toNat)
      (fun _ => True) (set.check arena t operands) := by
  refine .bind (admits_counted set.dims set.symbols) fun count _ => ?_
  split
  · rfl
  · trivial

namespace Emission

variable {t : NameTable} {scope : Scope} {op : Op} {owner : Option Op} {set : IntegerSet}

/-- An accepted conditional over a set branches by the condition of the set. -/
theorem admits_branch (hkind : op.kind = .affineIf set) :
    Admits (fun plan => plan = .branch (.code
        (set.condition (scope.values.operandAt t op.operands) set.dims.toNat)))
      (fun _ => True) (op.rule scope.values t owner) := by
  unfold Op.rule
  rw [hkind]
  dsimp only
  split
  · refine .bind (set.admits_check scope.values t op.operands) fun code hcode => ?_
    rw [hcode]
    rfl
  · trivial

/-- A conditional over a set that reports no error has the condition of the set. -/
theorem ofOp_affineIf (hkind : op.kind = .affineIf set) (hreadable : op.Readable scope.values)
    (herrors : ∀ report ∈ ownReports owner op scope t, report.isError = false) :
    ∃ declarations note onTrue onFalse, ((ofOp owner op).run scope t).value = declarations ++
      [.branch (set.condition (scope.values.operandAt t op.operands) set.dims.toNat) note onTrue
        onFalse] := by
  obtain ⟨plan, hplan⟩ := exists_plan hreadable herrors
  have hbranch : Admits _ _ (op.rule scope.values t owner) := admits_branch hkind
  rw [rule_of_plan hplan] at hbranch
  rw [ofOp_of_plan hplan, show plan = _ from hbranch]
  exact ⟨_, _, _, _, rfl⟩

/-- The condition of a conditional that reports no error decides its set, if that has constraints. -/
theorem ofOp_decides (hkind : op.kind = .affineIf set) (hv : t.Valid scope.values)
    (hreadable : op.Readable scope.values)
    (herrors : ∀ report ∈ ownReports owner op scope t, report.isError = false)
    (hfaithful : set.Faithful scope.values t op.operands) (hsome : set.constraints ≠ []) :
    ∃ declarations condition note onTrue onFalse c,
      ((ofOp owner op).run scope t).value =
        declarations ++ [.branch condition note onTrue onFalse] ∧
      Cpp.readCondition condition.text = some c ∧
      set.DecidedBy scope.values t op.operands c := by
  obtain ⟨declarations, note, onTrue, onFalse, hvalue⟩ := ofOp_affineIf hkind hreadable herrors
  obtain ⟨c, hread, hdecided⟩ := IntegerSet.condition_decides hv.withoutValues hfaithful hsome
  exact ⟨declarations, _, note, onTrue, onFalse, c, hvalue, hread, hdecided⟩

/-- A conditional over the set without constraints is written without a condition. -/
example :
    let always : Op :=
      { kind := .affineIf { constraints := [], equalities := [] }, regions := [{}] }
    let result := (ofOp none always).run ⟨#[], none⟩ .empty
    Code.stmtsText 0 result.value = "if () \x7b\t//\n\x7d\n" ∧ result.raised = [] := by
  decide +kernel

end Emission

end HlsEmit
