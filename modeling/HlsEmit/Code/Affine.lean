import HlsEmit.Code.Tree

/-!
# Code of affine expressions

Every expression with operands is written in parentheses, so no precedence has to be remembered.
Three forms are written with a minus sign instead of a negative factor or summand:

* `x * -1` as `(-x)`,
* `x + c` with a negative constant `c` as `(x - |c|)`,
* `x + y * -1` as `(x - y)`.
-/

namespace HlsEmit

open Code (Expr Operator)

/-- Whether an expression is the constant minus one. -/
def AffineExpr.isMinusOne (e : AffineExpr) : Bool :=
  e.constant? = some (-1)

/-- The code of an expression. `operand` gives the code of the operand in each position; `dims` is
the number of dimensions, behind which the symbols start. -/
def AffineExpr.code (operand : Nat → Expr) (dims : Nat) : AffineExpr → Expr
  | .dim position => operand position.toNat
  | .symbol position => operand (dims + position.toNat)
  | .constant value => .integer value.toInt
  | .add lhs (.constant c) =>
    if c < 0 then .paren (.operation .sub (lhs.code operand dims) (.integer c.toInt.natAbs))
    else .paren (.operation .add (lhs.code operand dims) (.integer c.toInt))
  | .add lhs (.mul y factor) =>
    if factor.isMinusOne then
      .paren (.operation .sub (lhs.code operand dims) (y.code operand dims))
    else
      .paren (.operation .add (lhs.code operand dims)
        (.paren (.operation .mul (y.code operand dims) (factor.code operand dims))))
  | .add lhs rhs => .paren (.operation .add (lhs.code operand dims) (rhs.code operand dims))
  | .mul lhs rhs =>
    if rhs.isMinusOne then .paren (.negate (lhs.code operand dims))
    else .paren (.operation .mul (lhs.code operand dims) (rhs.code operand dims))
  | .mod lhs rhs => .paren (.operation .rem (lhs.code operand dims) (rhs.code operand dims))
  | .floorDiv lhs rhs => .paren (.operation .div (lhs.code operand dims) (rhs.code operand dims))
  | .ceilDiv lhs rhs =>
    let divisor := rhs.code operand dims
    let sum := Expr.operation .add (lhs.code operand dims) divisor
    .paren (.operation .div (.paren (.operation .sub sum (.integer 1))) divisor)

/-- What the operands and all integers have, and operations, signs and parentheses keep, the code of an
expression has. -/
theorem AffineExpr.code_induction {P : Expr → Prop} {operand : Nat → Expr} {dims : Nat}
    (hoperand : ∀ position, P (operand position)) (hinteger : ∀ value, P (.integer value))
    (hoperation : ∀ operator {lhs rhs}, P lhs → P rhs → P (.operation operator lhs rhs))
    (hnegate : ∀ {inner}, P inner → P (.negate inner))
    (hparen : ∀ {inner}, P inner → P (.paren inner)) (e : AffineExpr) : P (e.code operand dims) := by
  have hboth (operator : Operator) {lhs rhs : Expr} (hlhs : P lhs) (hrhs : P rhs) :
      P (.paren (.operation operator lhs rhs)) := hparen (hoperation operator hlhs hrhs)
  -- One case per rendering: the merged additions and factors keep the shape of a sum or a product,
  -- so only a negated right side and a rounded-up quotient need more than `hboth`.
  fun_induction AffineExpr.code operand dims e with
  | case1 position | case2 position => exact hoperand _
  | case3 value => exact hinteger _
  | case4 lhs c _ hlhs | case5 lhs c _ hlhs => exact hboth _ hlhs (hinteger _)
  | case6 lhs y factor _ hlhs hy => exact hboth _ hlhs hy
  | case7 lhs y factor _ hlhs hy hfactor => exact hboth _ hlhs (hboth _ hy hfactor)
  | case9 lhs rhs _ hlhs => exact hparen (hnegate hlhs)
  | case8 lhs rhs _ _ hlhs hrhs | case10 lhs rhs _ hlhs hrhs | case11 lhs rhs hlhs hrhs
  | case12 lhs rhs hlhs hrhs => exact hboth _ hlhs hrhs
  | case13 lhs rhs divisor sum hrhs hlhs =>
    have hless : P (.operation .sub sum (.integer 1)) :=
      hoperation _ (hoperation _ hlhs hrhs) (hinteger 1)
    exact hboth _ (hparen hless) hrhs

/-- Nested calls of a function of two arguments, grouped to the left: `f(f(a, b), c)`. A single
expression stands as it is, and nothing is written for none. -/
def Code.Expr.nestedCalls (function : String) : List Expr → Expr
  | [] => .absent
  | first :: rest => Expr.chain (fun lhs rhs => .call function [lhs, rhs]) first rest

/-- What calls of two expressions have if those have it, nested calls have. -/
theorem Code.Expr.nestedCalls_induction {P : Expr → Prop} {function : String} {codes : List Expr}
    (hne : codes ≠ []) (hcodes : ∀ e ∈ codes, P e)
    (hcall : ∀ lhs rhs, P lhs → P rhs → P (.call function [lhs, rhs])) :
    P (nestedCalls function codes) := by
  obtain ⟨first, rest, rfl⟩ := List.exists_cons_of_ne_nil hne
  rw [List.forall_mem_cons] at hcodes
  exact List.foldlRecOn rest _ hcodes.1 fun lhs hlhs rhs hrhs =>
    hcall lhs rhs hlhs (hcodes.2 rhs hrhs)

/-- Conditions joined by `&&`; nothing is written for none. -/
def Code.Expr.all : List Expr → Expr
  | [] => .absent
  | first :: rest => Expr.chain (.operation .and) first rest

/-- The code of each of the operands, by position. There is none beyond the last operand. -/
def Arena.operandAt (arena : Arena) (names : NameTable) (operands : List ValueId)
    (position : Nat) : Expr :=
  match operands[position]? with
  | some id => .mention (.use (arena.use names id))
  | none => .absent

/-- The code of all results of a map. -/
def AffineMap.code (map : AffineMap) (operand : Nat → Expr) : List Expr :=
  map.results.map (AffineExpr.code operand map.dims.toNat)

/-- The condition that all constraints of a set hold. -/
def IntegerSet.condition (set : IntegerSet) (operand : Nat → Expr) (dims : Nat) : Expr :=
  .all <| set.constraints.mapIdx fun i constraint =>
    let relation : Operator := if set.equalities.getD i false then .eq else .ge
    .operation relation (constraint.code operand dims) (.integer 0)

end HlsEmit
