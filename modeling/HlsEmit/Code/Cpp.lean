import HlsEmit.Code.Layout
import HlsEmit.Cpp.Parse

/-!
# The generated code as C++

The syntax that the tree of the generated code stands for. Code that is not part of the structured
core stands for nothing in particular; comments, pragmas and blank lines are no part of the syntax.
-/

namespace HlsEmit.Code

/-- A type as it is written in front of a declaration. -/
def typeCpp (text : String) : Cpp.TypeName :=
  match (Cpp.tokenize text).bind Cpp.parseType with
  | some (type, []) => type
  | _ => default

/-- The identifier of the counter over a dimension. -/
def counterName (dim : Nat) : String :=
  "idx" ++ toString dim

/-- What stands for a value where it is used. -/
def designatorCpp : Designator → Cpp.Expr
  | .named name => if name.pointer then .target name.identifier else .name name.identifier
  | .literal text => (Cpp.readExpr text).getD default
  | .missing => default

/-- A subscript behind what may have some already. -/
def subscriptCpp : Cpp.Expr → Cpp.Expr → Cpp.Expr
  | .name array, index => .element array [index]
  | .element array indices, index => .element array (indices ++ [index])
  | _, _ => default

/-- A call by what is in front of the arguments. -/
def callCpp (head : String) (args : List Cpp.Expr) : Cpp.Expr :=
  if head = "-" then .negate (.paren (args.headD default))
  else if head = "1.0 / sqrt" then .binary "/" (.number "1.0") (.call "sqrt" args)
  else .call head args

/-- An integer as it is written. -/
def integerCpp (value : Int) : Cpp.Expr :=
  if value < 0 then .negate (.number (toString value.natAbs)) else .number (toString value)

mutual

/-- The syntax of an expression. -/
def Expr.cpp : Expr → Cpp.Expr
  | .mention (.use u) => designatorCpp u.designator
  | .mention (.declare ..) | .absent | .address _ => default
  | .counter dim => .name (counterName dim)
  | .integer value => integerCpp value
  | .subscript array index => subscriptCpp array.cpp index.cpp
  | .negate operand => .negate operand.cpp
  | .paren inner => .paren inner.cpp
  | .operation operator lhs rhs => .binary operator.symbol lhs.cpp rhs.cpp
  | .conditional condition onTrue onFalse => .conditional condition.cpp onTrue.cpp onFalse.cpp
  | .call head args => callCpp head (exprsCpp args)
termination_by structural e => e

/-- The syntax of some expressions. -/
def exprsCpp : List Expr → List Cpp.Expr
  | [] => []
  | e :: rest => e.cpp :: exprsCpp rest
termination_by structural es => es

end

/-- The syntax of a declaration without a content. -/
def Declarator.cpp : Declarator → List Cpp.Stmt
  | ⟨.declare _ (some type) name, extents⟩ =>
    [.declare (typeCpp type) name.identifier (extents.map fun extent => toString extent.toInt)]
  | _ => []

/-- The syntax of an assignment, which may be a declaration. -/
def assignCpp (target value : Expr) : List Cpp.Stmt :=
  match target with
  | .mention (.declare _ (some type) name) =>
    [.define (typeCpp type) name.identifier value.cpp]
  | .mention (.declare ..) => []
  | target => [.assign target.cpp value.cpp]

/-- The syntax of a loop. -/
def LoopHead.cpp (body : List Cpp.Stmt) : LoopHead → List Cpp.Stmt
  | .range (.mention (.declare _ (some type) name)) lower test upper advance step =>
    [.loop (typeCpp type) name.identifier lower.cpp (.binary "<" test.cpp upper.cpp)
      (.add advance.cpp step.cpp) body]
  | .range .. => []
  | .counter dim extent =>
    let index : Cpp.Expr := .name (counterName dim)
    [.loop ⟨"int", none⟩ (counterName dim) (.number "0")
      (.binary "<" index (.number (toString extent.toInt))) (.increment index) body]

mutual

/-- The syntax of a statement; none if nothing is done. -/
def Stmt.cpp : Stmt → List Cpp.Stmt
  | .declaration declarator _ => declarator.cpp
  | .assign .set target value _ => assignCpp target value
  | .assign .. | .initialized .. | .call .. | .accelerator .. | .pragma _ | .blank => []
  | .loop head _ body _ => head.cpp (stmtsCpp body)
  | .branch condition _ onTrue none => [.branch condition.cpp (stmtsCpp onTrue) none]
  | .branch condition _ onTrue (some onFalse) =>
    [.branch condition.cpp (stmtsCpp onTrue) (some (stmtsCpp onFalse))]
termination_by structural stmt => stmt

/-- The syntax of some statements. -/
def stmtsCpp : List Stmt → List Cpp.Stmt
  | [] => []
  | stmt :: rest => stmt.cpp ++ stmtsCpp rest
termination_by structural stmts => stmts

end

/-- The syntax of a port. -/
def Declarator.paramCpp : Declarator → Cpp.Param
  | ⟨.declare _ (some type) name, extents⟩ =>
    ⟨typeCpp type, name.identifier, name.pointer, extents.map fun extent => toString extent.toInt⟩
  | _ => default

/-- The syntax of a function. -/
def FunctionCode.cpp (function : FunctionCode) : Cpp.Function where
  name := function.name
  params := function.ports.map Declarator.paramCpp
  body := stmtsCpp function.body

/-- The text of two lists of statements is the one text after the other. -/
@[simp] theorem stmtsCpp_append (xs ys : List Stmt) :
    stmtsCpp (xs ++ ys) = stmtsCpp xs ++ stmtsCpp ys := by
  induction xs with
  | nil => simp [stmtsCpp]
  | cons x xs ih => simp [stmtsCpp, ih]

end HlsEmit.Code
