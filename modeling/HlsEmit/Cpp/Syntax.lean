import HlsEmit.Cpp.Token

/-!
# Syntax of a part of C++

Functions without a result whose statements are declarations, assignments, counting loops and
conditionals. Expressions keep their parentheses; between them there is at most one operator, so
that no precedence has to be known.

* `Expr`, `Stmt`, `Function`: the syntax
* `Expr.Grouped`, `Stmt.Grouped`: no precedence has to be known
* `Expr.tokens`, `Stmt.tokens`, `Function.tokens`: how it is written
-/

namespace HlsEmit.Cpp

/-- A type of numbers, as `int` or `ap_int<8>`. -/
structure TypeName where
  base : String
  /-- What stands between angle brackets. -/
  width : Option String := none
deriving DecidableEq, Repr, Inhabited

/-- An expression. -/
inductive Expr where
  | number (text : String)
  | name (name : String)
  /-- What a pointer points to. -/
  | target (pointer : String)
  | element (array : String) (indices : List Expr)
  | negate (operand : Expr)
  | paren (inner : Expr)
  | binary (operator : String) (lhs rhs : Expr)
  | conditional (condition onTrue onFalse : Expr)
  | call (function : String) (args : List Expr)
deriving Repr, Inhabited

/-- What a loop does behind each iteration. -/
inductive Advance where
  | add (target step : Expr)
  | increment (target : Expr)
deriving Repr, Inhabited

/-- A statement. -/
inductive Stmt where
  /-- A declaration without a content; of a scalar if there are no extents. -/
  | declare (type : TypeName) (name : String) (extents : List String)
  | define (type : TypeName) (name : String) (value : Expr)
  | assign (target value : Expr)
  | loop (type : TypeName) (index : String) (first test : Expr) (advance : Advance)
      (body : List Stmt)
  | branch (condition : Expr) (onTrue : List Stmt) (onFalse : Option (List Stmt))
deriving Repr, Inhabited

/-- A parameter: a scalar, a pointer to one, or an array. -/
structure Param where
  type : TypeName
  name : String
  pointer : Bool := false
  extents : List String := []
deriving DecidableEq, Repr, Inhabited

/-- A function without a result. -/
structure Function where
  name : String
  params : List Param
  body : List Stmt
deriving Repr, Inhabited

/-! ## Operators and types -/

/-- The binary operators whose operands are both evaluated. -/
def operators : List String := [
  "+", "-", "*", "/", "%", "^", "&", "|", "<<", ">>", "==", "!=", "<", "<=", ">", ">="]

/-- The types of numbers that are reserved words. -/
def arithmeticTypes : List String := ["bool", "int", "float", "double"]

/-- A type that is a reserved word, or a name with a width. -/
def TypeName.IsProper (type : TypeName) : Prop :=
  if type.width.isSome then type.base ∉ keywords else type.base ∈ arithmeticTypes

/-! ## Grouping -/

mutual

/-- An expression with at most one operator between parentheses, and with none if it does not stand
alone. -/
def Expr.Grouped (alone : Bool) : Expr → Prop
  | .number _ | .name _ | .target _ => True
  | .element _ indices => indices ≠ [] ∧ AllGrouped indices
  | .negate operand => operand.Grouped false
  | .paren inner => inner.Grouped true
  | .binary operator lhs rhs =>
    alone = true ∧ operator ∈ operators ∧ lhs.Grouped false ∧ rhs.Grouped false
  | .conditional condition onTrue onFalse =>
    alone = true ∧ condition.Grouped false ∧ onTrue.Grouped false ∧ onFalse.Grouped false
  | .call _ args => args ≠ [] ∧ AllGrouped args
termination_by structural e => e

/-- Expressions each of which stands alone. -/
def AllGrouped : List Expr → Prop
  | [] => True
  | e :: rest => e.Grouped true ∧ AllGrouped rest
termination_by structural es => es

end

/-- The expressions of what a loop does behind each iteration. -/
def Advance.Grouped : Advance → Prop
  | .add target step => target.Grouped false ∧ step.Grouped true
  | .increment target => target.Grouped false

mutual

/-- A statement of grouped expressions. -/
def Stmt.Grouped : Stmt → Prop
  | .declare type _ _ => type.IsProper
  | .define type _ value => type.IsProper ∧ value.Grouped true
  | .assign target value => target.Grouped false ∧ value.Grouped true
  | .loop type _ first test advance body =>
    type.IsProper ∧ first.Grouped true ∧ test.Grouped true ∧ advance.Grouped ∧
      AllStmtsGrouped body
  | .branch condition onTrue none => condition.Grouped true ∧ AllStmtsGrouped onTrue
  | .branch condition onTrue (some onFalse) =>
    condition.Grouped true ∧ AllStmtsGrouped onTrue ∧ AllStmtsGrouped onFalse
termination_by structural stmt => stmt

/-- Statements of grouped expressions. -/
def AllStmtsGrouped : List Stmt → Prop
  | [] => True
  | stmt :: rest => stmt.Grouped ∧ AllStmtsGrouped rest
termination_by structural stmts => stmts

end

/-! ## Tokens -/

/-- A type as it is written. -/
def TypeName.tokens (type : TypeName) : List Token :=
  match type.width with
  | none => [.keyword type.base]
  | some width => [.name type.base, .symbol "<", .number width, .symbol ">"]

mutual

/-- An expression as it is written. -/
def Expr.tokens : Expr → List Token
  | .number text => [.number text]
  | .name name => [.name name]
  | .target pointer => [.symbol "*", .name pointer]
  | .element array indices => .name array :: indexTokens indices
  | .negate operand => .symbol "-" :: operand.tokens
  | .paren inner => .symbol "(" :: (inner.tokens ++ [.symbol ")"])
  | .binary operator lhs rhs => lhs.tokens ++ .symbol operator :: rhs.tokens
  | .conditional condition onTrue onFalse =>
    condition.tokens ++ .symbol "?" :: (onTrue.tokens ++ .symbol ":" :: onFalse.tokens)
  | .call function args => .name function :: .symbol "(" :: argTokens args
termination_by structural e => e

/-- Subscripts as they are written. -/
def indexTokens : List Expr → List Token
  | [] => []
  | index :: rest => .symbol "[" :: (index.tokens ++ .symbol "]" :: indexTokens rest)
termination_by structural es => es

/-- Arguments as they are written, with the parenthesis behind them. -/
def argTokens : List Expr → List Token
  | [] => [.symbol ")"]
  | [arg] => arg.tokens ++ [.symbol ")"]
  | arg :: next :: rest => arg.tokens ++ .symbol "," :: argTokens (next :: rest)
termination_by structural es => es

end

/-- The extents of an array as they are written. -/
def extentTokens (extents : List String) : List Token :=
  extents.flatMap fun extent => [.symbol "[", .number extent, .symbol "]"]

/-- What a loop does behind each iteration, as it is written. -/
def Advance.tokens : Advance → List Token
  | .add target step => target.tokens ++ .symbol "+=" :: step.tokens
  | .increment target => .symbol "++" :: target.tokens

mutual

/-- A statement as it is written. -/
def Stmt.tokens : Stmt → List Token
  | .declare type name extents =>
    type.tokens ++ .name name :: (extentTokens extents ++ [.symbol ";"])
  | .define type name value =>
    type.tokens ++ .name name :: .symbol "=" :: (value.tokens ++ [.symbol ";"])
  | .assign target value => target.tokens ++ .symbol "=" :: (value.tokens ++ [.symbol ";"])
  | .loop type index first test advance body =>
    .keyword "for" :: .symbol "(" :: (type.tokens ++ .name index :: .symbol "=" ::
      (first.tokens ++ .symbol ";" :: (test.tokens ++ .symbol ";" :: (advance.tokens ++
        .symbol ")" :: .symbol "\x7b" :: (stmtsTokens body ++ [.symbol "\x7d"])))))
  | .branch condition onTrue none =>
    .keyword "if" :: .symbol "(" :: (condition.tokens ++ .symbol ")" :: .symbol "\x7b" ::
      (stmtsTokens onTrue ++ [.symbol "\x7d"]))
  | .branch condition onTrue (some onFalse) =>
    .keyword "if" :: .symbol "(" :: (condition.tokens ++ .symbol ")" :: .symbol "\x7b" ::
      (stmtsTokens onTrue ++ .symbol "\x7d" :: .keyword "else" :: .symbol "\x7b" ::
        (stmtsTokens onFalse ++ [.symbol "\x7d"])))
termination_by structural stmt => stmt

/-- Some statements as they are written. -/
def stmtsTokens : List Stmt → List Token
  | [] => []
  | stmt :: rest => stmt.tokens ++ stmtsTokens rest
termination_by structural stmts => stmts

end

/-- A parameter as it is written. -/
def Param.tokens (param : Param) : List Token :=
  param.type.tokens ++ (if param.pointer then [.symbol "*"] else []) ++
    .name param.name :: extentTokens param.extents

/-- Parameters as they are written, with the parenthesis behind them. -/
def paramTokens : List Param → List Token
  | [] => [.symbol ")"]
  | [param] => param.tokens ++ [.symbol ")"]
  | param :: next :: rest => param.tokens ++ .symbol "," :: paramTokens (next :: rest)

/-- A function as it is written. -/
def Function.tokens (function : Function) : List Token :=
  .keyword "void" :: .name function.name :: .symbol "(" :: (paramTokens function.params ++
    .symbol "\x7b" :: (stmtsTokens function.body ++ [.symbol "\x7d"]))

/-- The tokens of two lists of statements stand one after the other. -/
@[simp] theorem stmtsTokens_append (xs ys : List Stmt) :
    stmtsTokens (xs ++ ys) = stmtsTokens xs ++ stmtsTokens ys := by
  induction xs with
  | nil => simp [stmtsTokens]
  | cons x xs ih => simp [stmtsTokens, ih]

/-- Two lists are grouped together if each of them is. -/
theorem allStmtsGrouped_append {xs ys : List Stmt} :
    AllStmtsGrouped (xs ++ ys) ↔ AllStmtsGrouped xs ∧ AllStmtsGrouped ys := by
  induction xs with
  | nil => simp [AllStmtsGrouped]
  | cons x xs ih => simp [AllStmtsGrouped, ih, and_assoc]

end HlsEmit.Cpp
