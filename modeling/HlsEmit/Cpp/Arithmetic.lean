import HlsEmit.Cpp.Machine

/-!
# Arithmetic in C++

Numbers, names, what pointers point to, signs, parentheses, and the five operators of arithmetic in
any order. What is computed first is settled by the precedence of the operators: those of a product
bind tighter than those of a sum, a sign or a star in front tighter than both, and operators of the
same precedence are grouped to the left.

`Derives` is the grammar. `parseArithmetic` reads the tokens of an expression by recursive descent,
and `readArithmetic` a text, whose tokens are as long as possible.
-/

namespace HlsEmit.Cpp

/-- How tightly the parts of an expression are bound. -/
inductive Rank where
  | sum
  | product
  | unary
deriving DecidableEq, Repr, Inhabited

namespace Rank

/-- The binary operators of a rank. -/
def operators : Rank → List String
  | .sum => ["+", "-"]
  | .product => ["*", "/", "%"]
  | .unary => []

/-- The rank of the operands. -/
def tighter : Rank → Rank
  | .sum => .product
  | .product | .unary => .unary

end Rank

/-! ## The grammar -/

/-- Some tokens are an expression of a rank. -/
inductive Derives : Rank → List Token → Expr → Prop
  | number (text : String) : Derives .unary [.number text] (.number text)
  | name (name : String) : Derives .unary [.name name] (.name name)
  | target (pointer : String) : Derives .unary [.symbol "*", .name pointer] (.target pointer)
  | negate {ts : List Token} {e : Expr} :
      Derives .unary ts e → Derives .unary (.symbol "-" :: ts) (.negate e)
  | paren {ts : List Token} {e : Expr} :
      Derives .sum ts e → Derives .unary (.symbol "(" :: (ts ++ [.symbol ")"])) (.paren e)
  | tighter {rank : Rank} {ts : List Token} {e : Expr} :
      Derives rank.tighter ts e → Derives rank ts e
  /-- The operand to the left may be of the same rank. -/
  | binary {rank : Rank} {operator : String} {ts us : List Token} {lhs rhs : Expr} :
      operator ∈ rank.operators → Derives rank ts lhs → Derives rank.tighter us rhs →
      Derives rank (ts ++ .symbol operator :: us) (.binary operator lhs rhs)

/-! ## Reading -/

mutual

/-- Reads an expression of a rank that is as long as possible. -/
def parseArithmetic : (depth : Nat) → Rank → List Token → Option (Expr × List Token)
  | 0, _, _ => none
  | depth + 1, .unary, ts =>
    match ts with
    | .number text :: ts => some (.number text, ts)
    | .name name :: ts => some (.name name, ts)
    | .symbol "*" :: .name pointer :: ts => some (.target pointer, ts)
    | .symbol "-" :: ts => do
      let (operand, ts) ← parseArithmetic depth .unary ts
      return (.negate operand, ts)
    | .symbol "(" :: ts => do
      let (inner, ts) ← parseArithmetic depth .sum ts
      return (.paren inner, ← expect (.symbol ")") ts)
    | _ => none
  | depth + 1, rank, ts => do
    let (first, ts) ← parseArithmetic depth rank.tighter ts
    parseChain depth rank first ts

/-- Reads all operators of a rank that come next, with their operands. -/
def parseChain : (depth : Nat) → Rank → Expr → List Token → Option (Expr × List Token)
  | 0, _, _, _ => none
  | depth + 1, rank, lhs, .symbol s :: ts =>
    if s ∈ rank.operators then do
      let (rhs, ts) ← parseArithmetic depth rank.tighter ts
      parseChain depth rank (.binary s lhs rhs) ts
    else some (lhs, .symbol s :: ts)
  | _ + 1, _, lhs, ts => some (lhs, ts)

end

/-- The expression that some tokens are. For each of them there are no more than four calls. -/
def arithmetic? (ts : List Token) : Option Expr := do
  match ← parseArithmetic (4 * ts.length + 3) .sum ts with
  | (e, []) => some e
  | _ => none

/-- The expression that a text consists of. -/
def readArithmetic (text : String) : Option Expr := do
  arithmetic? (← tokenize text)

/-! ## Integers -/

/-- The number that a decimal numeral stands for. It starts with a zero only if that is all of it. -/
def decimal? (text : String) : Option Int :=
  let n := Nat.ofDigitChars 10 text.toList 0
  if toString n = text then some n else none

/-- Integers without bounds, with any functions for the quotient and the remainder. -/
def Machine.integers (quotient remainder : Int → Int → Int) : Machine Int where
  typing := .only ⟨"int", none⟩
  constant := decimal?
  binary operator x y :=
    match operator with
    | "+" => some (x + y)
    | "-" => some (x - y)
    | "*" => some (x * y)
    | "/" => some (quotient x y)
    | "%" => some (remainder x y)
    | _ => none
  negate x := some (-x)
  call _ _ := none
  convert _ x := some x
  truth x := some (x ≠ 0)
  index x := some x

example : (readArithmetic "7 - 2 - 6 / 3 * -(2 % 4)").bind
    ((Machine.integers (· / ·) (· % ·)).eval []) = some 9 := by decide +kernel

end HlsEmit.Cpp
