import HlsEmit.Cpp.Syntax

/-!
# Reading C++

From tokens to syntax, by recursive descent. An expression with two operators side by side, whose
grouping would depend on their precedence, is refused like everything else that `Syntax` has no form
for. The bound on the depth is never in the way: the number of tokens is enough.

`readFunction` reads a whole text, and `readExpr` one expression.
-/

namespace HlsEmit.Cpp

/-- The tokens behind an expected one. -/
def expect (token : Token) : List Token → Option (List Token)
  | [] => none
  | first :: rest => if first = token then some rest else none

/-! ## Expressions -/

/-- A name with all subscripts behind it. -/
def Expr.withIndices (name : String) : List Expr → Expr
  | [] => .name name
  | indices => .element name indices

mutual

/-- Reads an expression with at most one operator between parentheses. -/
def parseExpr : (depth : Nat) → List Token → Option (Expr × List Token)
  | 0, _ => none
  | depth + 1, ts => do
    let (lhs, ts) ← parseOperand depth ts
    parseRest depth lhs ts

/-- Reads what is behind the first operand of an expression. -/
def parseRest : (depth : Nat) → Expr → List Token → Option (Expr × List Token)
  | depth + 1, lhs, .symbol s :: ts =>
    if s = "?" then do
      let (onTrue, ts) ← parseOperand depth ts
      let ts ← expect (.symbol ":") ts
      let (onFalse, ts) ← parseOperand depth ts
      return (.conditional lhs onTrue onFalse, ts)
    else if s ∈ operators then do
      let (rhs, ts) ← parseOperand depth ts
      return (.binary s lhs rhs, ts)
    else some (lhs, .symbol s :: ts)
  | _, lhs, ts => some (lhs, ts)

/-- Reads an operand. -/
def parseOperand : (depth : Nat) → List Token → Option (Expr × List Token)
  | 0, _ => none
  | depth + 1, ts =>
    match ts with
    | .number text :: ts => some (.number text, ts)
    | .name function :: .symbol "(" :: ts => do
      let (args, ts) ← parseArgs depth ts
      return (.call function args, ts)
    | .name name :: ts => do
      let (indices, ts) ← parseIndices depth ts
      return (.withIndices name indices, ts)
    | .symbol "*" :: .name pointer :: ts => some (.target pointer, ts)
    | .symbol "-" :: ts => do
      let (operand, ts) ← parseOperand depth ts
      return (.negate operand, ts)
    | .symbol "(" :: ts => do
      let (inner, ts) ← parseExpr depth ts
      return (.paren inner, ← expect (.symbol ")") ts)
    | _ => none

/-- Reads all subscripts that come next. -/
def parseIndices : (depth : Nat) → List Token → Option (List Expr × List Token)
  | depth + 1, .symbol "[" :: ts => do
    let (index, ts) ← parseExpr depth ts
    let ts ← expect (.symbol "]") ts
    let (rest, ts) ← parseIndices depth ts
    return (index :: rest, ts)
  | _, ts => some ([], ts)

/-- Reads arguments up to the parenthesis behind them. -/
def parseArgs : (depth : Nat) → List Token → Option (List Expr × List Token)
  | 0, _ => none
  | depth + 1, ts => do
    let (arg, ts) ← parseExpr depth ts
    match ts with
    | .symbol ")" :: ts => some ([arg], ts)
    | .symbol "," :: ts => do
      let (rest, ts) ← parseArgs depth ts
      return (arg :: rest, ts)
    | _ => none

end

/-! ## Declarations -/

/-- Reads a type. -/
def parseType : List Token → Option (TypeName × List Token)
  | .keyword base :: ts => if base ∈ arithmeticTypes then some (⟨base, none⟩, ts) else none
  | .name base :: .symbol "<" :: .number width :: .symbol ">" :: ts => some (⟨base, some width⟩, ts)
  | _ => none

/-- Reads all extents that come next. -/
def parseExtents : List Token → List String × List Token
  | .symbol "[" :: .number extent :: .symbol "]" :: ts =>
    let (rest, ts) := parseExtents ts
    (extent :: rest, ts)
  | ts => ([], ts)

/-- Reads a parameter. -/
def parseParam (ts : List Token) : Option (Param × List Token) := do
  let (type, ts) ← parseType ts
  match ts with
  | .symbol "*" :: .name name :: ts =>
    let (extents, ts) := parseExtents ts
    some (⟨type, name, true, extents⟩, ts)
  | .name name :: ts =>
    let (extents, ts) := parseExtents ts
    some (⟨type, name, false, extents⟩, ts)
  | _ => none

/-- Reads one or more parameters up to the parenthesis behind them. -/
def parseSomeParams : (depth : Nat) → List Token → Option (List Param × List Token)
  | 0, _ => none
  | depth + 1, ts => do
    let (param, ts) ← parseParam ts
    match ts with
    | .symbol ")" :: ts => some ([param], ts)
    | .symbol "," :: ts => do
      let (rest, ts) ← parseSomeParams depth ts
      return (param :: rest, ts)
    | _ => none

/-- Reads parameters up to the parenthesis behind them. -/
def parseParams (depth : Nat) : List Token → Option (List Param × List Token)
  | .symbol ")" :: ts => some ([], ts)
  | ts => parseSomeParams depth ts

/-! ## Statements -/

/-- Reads what a loop does behind each iteration. -/
def parseAdvance (depth : Nat) : List Token → Option (Advance × List Token)
  | .symbol "++" :: ts => do
    let (target, ts) ← parseOperand depth ts
    return (.increment target, ts)
  | ts => do
    let (target, ts) ← parseOperand depth ts
    let ts ← expect (.symbol "+=") ts
    let (step, ts) ← parseExpr depth ts
    return (.add target step, ts)

/-- Reads a declaration behind its type. -/
def parseDeclaration (depth : Nat) (type : TypeName) : List Token → Option (Stmt × List Token)
  | .name name :: .symbol "=" :: ts => do
    let (value, ts) ← parseExpr depth ts
    return (.define type name value, ← expect (.symbol ";") ts)
  | .name name :: ts => do
    let (extents, ts) := parseExtents ts
    return (.declare type name extents, ← expect (.symbol ";") ts)
  | _ => none

/-- Reads an assignment. -/
def parseAssignment (depth : Nat) (ts : List Token) : Option (Stmt × List Token) := do
  let (target, ts) ← parseOperand depth ts
  let ts ← expect (.symbol "=") ts
  let (value, ts) ← parseExpr depth ts
  return (.assign target value, ← expect (.symbol ";") ts)

/-- The parts of the head of a loop. -/
structure LoopHead where
  type : TypeName
  index : String
  first : Expr
  test : Expr
  advance : Advance

/-- Reads the head of a loop between its parentheses. -/
def parseHead (depth : Nat) (ts : List Token) : Option (LoopHead × List Token) := do
  match ← parseType ts with
  | (type, .name index :: ts) =>
    let ts ← expect (.symbol "=") ts
    let (first, ts) ← parseExpr depth ts
    let ts ← expect (.symbol ";") ts
    let (test, ts) ← parseExpr depth ts
    let ts ← expect (.symbol ";") ts
    let (advance, ts) ← parseAdvance depth ts
    return (⟨type, index, first, test, advance⟩, ts)
  | _ => none

mutual

/-- Reads a statement. -/
def parseStmt : (depth : Nat) → List Token → Option (Stmt × List Token)
  | 0, _ => none
  | depth + 1, .keyword "for" :: .symbol "(" :: ts => do
    let (head, ts) ← parseHead depth ts
    let (body, ts) ← parseBlock depth (← expect (.symbol ")") ts)
    return (.loop head.type head.index head.first head.test head.advance body, ts)
  | depth + 1, .keyword "if" :: .symbol "(" :: ts => do
    let (condition, ts) ← parseExpr depth ts
    let (onTrue, ts) ← parseBlock depth (← expect (.symbol ")") ts)
    match ts with
    | .keyword "else" :: ts => do
      let (onFalse, ts) ← parseBlock depth ts
      return (.branch condition onTrue (some onFalse), ts)
    | ts => some (.branch condition onTrue none, ts)
  | depth + 1, ts =>
    match parseType ts with
    | some (type, ts) => parseDeclaration depth type ts
    | none => parseAssignment depth ts

/-- Reads a block with its braces. -/
def parseBlock : (depth : Nat) → List Token → Option (List Stmt × List Token)
  | depth + 1, .symbol "\x7b" :: ts => do
    let (stmts, ts) ← parseStmts depth ts
    return (stmts, ← expect (.symbol "\x7d") ts)
  | _, _ => none

/-- Reads all statements up to the brace behind them. -/
def parseStmts : (depth : Nat) → List Token → Option (List Stmt × List Token)
  | 0, _ => none
  | _ + 1, .symbol "\x7d" :: ts => some ([], .symbol "\x7d" :: ts)
  | depth + 1, ts => do
    let (stmt, ts) ← parseStmt depth ts
    let (rest, ts) ← parseStmts depth ts
    return (stmt :: rest, ts)

end

/-! ## Texts -/

/-- Reads a function. -/
def parseFunction (depth : Nat) : List Token → Option (Function × List Token)
  | .keyword "void" :: .name name :: .symbol "(" :: ts => do
    let (params, ts) ← parseParams depth ts
    let (body, ts) ← parseBlock depth ts
    return (⟨name, params, body⟩, ts)
  | _ => none

/-- The function that a text consists of. -/
def readFunction (text : String) : Option Function := do
  let ts ← tokenize text
  match ← parseFunction (ts.length + 1) ts with
  | (function, []) => some function
  | _ => none

/-- The expression that a text consists of. -/
def readExpr (text : String) : Option Expr := do
  let ts ← tokenize text
  match ← parseExpr (ts.length + 1) ts with
  | (e, []) => some e
  | _ => none

end HlsEmit.Cpp
