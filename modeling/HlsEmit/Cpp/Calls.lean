import HlsEmit.Cpp.Arithmetic

/-!
# Calls in C++

Calls of functions of two arguments, each of which is a call itself or an expression of arithmetic. The
arguments stand between parentheses, with a comma between them.

`CallDerives` is the grammar. `readCalls` reads a text, and `Machine.selecting` knows the two functions
that choose one of their arguments.
-/

namespace HlsEmit.Cpp

/-! ## The grammar -/

/-- Some tokens are calls of calls. -/
inductive CallDerives : List Token → Expr → Prop
  | arithmetic {ts : List Token} {e : Expr} : Derives .sum ts e → CallDerives ts e
  | call {function : String} {ts us : List Token} {lhs rhs : Expr} :
      CallDerives ts lhs → CallDerives us rhs →
      CallDerives (.name function :: .symbol "(" :: (ts ++ .symbol "," :: (us ++ [.symbol ")"])))
        (.call function [lhs, rhs])

/-! ## Reading -/

/-- Reads calls of calls. A name in front of a parenthesis is that of a function. -/
def parseCalls : (depth : Nat) → List Token → Option (Expr × List Token)
  | 0, _ => none
  | depth + 1, .name function :: .symbol "(" :: ts => do
    let (lhs, ts) ← parseCalls depth ts
    let ts ← expect (.symbol ",") ts
    let (rhs, ts) ← parseCalls depth ts
    return (.call function [lhs, rhs], ← expect (.symbol ")") ts)
  | _ + 1, ts => parseArithmetic (4 * ts.length + 3) .sum ts

/-- The calls that some tokens are. They are nested less deeply than there are tokens. -/
def calls? (ts : List Token) : Option Expr := do
  match ← parseCalls ts.length ts with
  | (e, []) => some e
  | _ => none

/-- The calls that a text consists of. -/
def readCalls (text : String) : Option Expr := do
  calls? (← tokenize text)

/-! ## Integers -/

/-- Integers without bounds, with the functions that choose the greater or the lesser of two. -/
def Machine.selecting (quotient remainder : Int → Int → Int) : Machine Int :=
  { Machine.integers quotient remainder with
    call := fun function args =>
      match function, args with
      | "max", [x, y] => some (max x y)
      | "min", [x, y] => some (min x y)
      | _, _ => none }

example : (readCalls "max(min(7 - 2, 3 * 2), 4)").bind
    ((Machine.selecting (· / ·) (· % ·)).eval []) = some 5 := by decide +kernel

end HlsEmit.Cpp
