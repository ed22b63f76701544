import HlsEmit.Cpp.Arithmetic

/-!
# Conditions in C++

Comparisons of arithmetic expressions, joined by `&&`. A comparison binds looser than all operators of
arithmetic and tighter than `&&`, which groups to the left and stops at the first comparison that
does not hold. Comparisons of comparisons are refused.

`ComparisonDerives` and `ConditionDerives` are the grammar. `readCondition` reads a text, and
`Condition.holds?` says whether it holds.
-/

namespace HlsEmit.Cpp

/-- The operators that compare numbers. -/
def comparisons : List String := ["==", "!=", "<", "<=", ">", ">="]

/-- A comparison of two numbers. -/
structure Comparison where
  operator : String
  lhs : Expr
  rhs : Expr
deriving Repr, Inhabited

/-- Comparisons that are joined by `&&`. -/
inductive Condition where
  | compare (comparison : Comparison)
  | both (first : Condition) (last : Comparison)
deriving Repr, Inhabited

/-- The comparisons of a condition, in the order of the text. -/
def Condition.comparisons : Condition → List Comparison
  | .compare comparison => [comparison]
  | .both first last => first.comparisons ++ [last]

/-! ## The grammar -/

/-- Some tokens are a comparison. -/
inductive ComparisonDerives : List Token → Comparison → Prop
  | mk {operator : String} {ts us : List Token} {lhs rhs : Expr} :
      operator ∈ comparisons → Derives .sum ts lhs → Derives .sum us rhs →
      ComparisonDerives (ts ++ .symbol operator :: us) ⟨operator, lhs, rhs⟩

/-- Some tokens are a condition. -/
inductive ConditionDerives : List Token → Condition → Prop
  | compare {ts : List Token} {comparison : Comparison} :
      ComparisonDerives ts comparison → ConditionDerives ts (.compare comparison)
  /-- The condition to the left may be joined of several comparisons. -/
  | both {ts us : List Token} {first : Condition} {last : Comparison} :
      ConditionDerives ts first → ComparisonDerives us last →
      ConditionDerives (ts ++ .symbol "&&" :: us) (.both first last)

/-! ## Reading -/

/-- Reads a comparison. -/
def parseComparison (ts : List Token) : Option (Comparison × List Token) := do
  let (lhs, ts) ← parseArithmetic (4 * ts.length + 3) .sum ts
  match ts with
  | .symbol operator :: ts =>
    if operator ∈ comparisons then do
      let (rhs, ts) ← parseArithmetic (4 * ts.length + 3) .sum ts
      return (⟨operator, lhs, rhs⟩, ts)
    else none
  | _ => none

/-- Reads all comparisons that are joined to a condition. -/
def parseJoined : (depth : Nat) → Condition → List Token → Option Condition
  | _, first, [] => some first
  | depth + 1, first, .symbol "&&" :: ts => do
    let (last, ts) ← parseComparison ts
    parseJoined depth (.both first last) ts
  | _, _, _ => none

/-- The condition that some tokens are. Each of them joins one comparison at most. -/
def condition? (ts : List Token) : Option Condition := do
  let (first, rest) ← parseComparison ts
  parseJoined ts.length (.compare first) rest

/-- The condition that a text consists of. -/
def readCondition (text : String) : Option Condition := do
  condition? (← tokenize text)

/-! ## Truth -/

/-- Whether two integers compare in this way. -/
def compareIntegers (operator : String) (x y : Int) : Option Bool :=
  match operator with
  | "==" => some (x = y)
  | "!=" => some (x ≠ y)
  | "<" => some (x < y)
  | "<=" => some (x ≤ y)
  | ">" => some (x > y)
  | ">=" => some (x ≥ y)
  | _ => none

/-- Whether a comparison holds. -/
def Comparison.holds? (m : Machine Int) (env : Env Int) (comparison : Comparison) : Option Bool := do
  compareIntegers comparison.operator (← m.eval env comparison.lhs) (← m.eval env comparison.rhs)

/-- Whether a condition holds. What is behind a comparison that does not hold is not evaluated. -/
def Condition.holds? (m : Machine Int) (env : Env Int) : Condition → Option Bool
  | .compare comparison => comparison.holds? m env
  | .both first last => do
    if ← first.holds? m env then last.holds? m env else return false

example : (readCondition "7 - 5 >= 2 * 1 && 3 == 4 && 1 / 0 < x").bind
    (Condition.holds? (.integers (· / ·) (· % ·)) []) = some false := by decide +kernel

end HlsEmit.Cpp
