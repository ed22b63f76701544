import HlsEmit.Naming
import HlsEmit.Model.Operation

/-!
# The generated code as a tree

Emission builds the code as a tree: expressions, statements, functions, a program. How the tree is
written, with indentation and trailing notes, is the business of `HlsEmit.Code.Layout`.

Values enter an expression as a `Mention`. The first mention of a value declares it, wherever it
stands, so a declaration may occur inside an expression.
-/

namespace HlsEmit.Code

/-! ## Expressions -/

/-- The infix operators of the generated code. -/
inductive Operator where
  | add
  | sub
  | mul
  | div
  | rem
  | xor
  | bitAnd
  | bitOr
  | shl
  | shr
  | eq
  | ne
  | lt
  | le
  | gt
  | ge
  | and
deriving DecidableEq, Repr, Inhabited

/-- The C++ spelling of an operator. -/
def Operator.symbol : Operator → String
  | .add => "+"
  | .sub => "-"
  | .mul => "*"
  | .div => "/"
  | .rem => "%"
  | .xor => "^"
  | .bitAnd => "&"
  | .bitOr => "|"
  | .shl => "<<"
  | .shr => ">>"
  | .eq => "=="
  | .ne => "!="
  | .lt => "<"
  | .le => "<="
  | .gt => ">"
  | .ge => ">="
  | .and => "&&"

/-- One appearance of a value. -/
inductive Mention where
  /-- A use of what was declared before, or of a literal. -/
  | use (use : Use)
  /-- The declaration. There is no type in front of a name whose element type has no spelling. -/
  | declare (value : ValueId) (type : Option String) (name : Name)
deriving DecidableEq, Repr, Inhabited

/-- An expression, with the parentheses that are written. -/
inductive Expr where
  | mention (mention : Mention)
  /-- Nothing is written: no value stands in this position. -/
  | absent
  /-- The index of the loop over a dimension of an array. -/
  | counter (dim : Nat)
  | integer (value : Int)
  | subscript (array index : Expr)
  | negate (operand : Expr)
  | paren (inner : Expr)
  | operation (operator : Operator) (lhs rhs : Expr)
  | conditional (condition onTrue onFalse : Expr)
  | address (operand : Expr)
  /-- A call; `head` is everything in front of the arguments' parenthesis. -/
  | call (head : String) (args : List Expr)
deriving Repr, Inhabited

namespace Expr

/-- An expression followed by subscripts. -/
def subscripts (array : Expr) (indices : List Expr) : Expr :=
  indices.foldl subscript array

/-- An array indexed by the counters of the loops over its first dimensions. -/
def atCounters (array : Expr) (rank : Nat) : Expr :=
  array.subscripts ((List.range rank).map counter)

/-- An operator between several expressions, grouped to the left. -/
def chain (combine : Expr → Expr → Expr) (first : Expr) (rest : List Expr) : Expr :=
  rest.foldl combine first

end Expr

/-! ## Statements -/

/-- What is remarked at the end of a line: the source line and the estimates. -/
structure Note where
  line : Option UInt32 := none
  scheduleBegin : Option Int64 := none
  scheduleEnd : Option Int64 := none
  iterationLatency : Option Int64 := none
  interval : Option Int64 := none
deriving DecidableEq, Repr, Inhabited

/-- A mention with array extents behind it. -/
structure Declarator where
  mention : Mention
  extents : List Int64 := []
deriving DecidableEq, Repr, Inhabited

/-- How a statement changes its target. -/
inductive Assignment where
  | set
  | add
  | multiply
deriving DecidableEq, Repr, Inhabited

/-- Directives for the synthesis tool. -/
inductive Pragma where
  | dataflow
  | pipeline (interval : Int64)
  | unroll
  | returnInterface
  | scalarInterface (port : Use)
  | axiInterface (port : Use)
  | bramInterface (port : Use)
  | resource (array : Use) (core : String)
  | partition (array : Use) (cyclic : Bool) (factor : Int64) (dim : Nat)
deriving DecidableEq, Repr, Inhabited

/-- The head of a loop. -/
inductive LoopHead where
  /-- A loop over a range. The index is mentioned three times, and declared by its first mention. -/
  | range (start lower test upper advance step : Expr)
  /-- A loop over a dimension of an array. -/
  | counter (dim : Nat) (extent : Int64)
deriving Repr, Inhabited

/-- A statement. Those that stem from an operation end with its note. -/
inductive Stmt where
  | declaration (declarator : Declarator) (note : Option Note)
  | initialized (declarator : Declarator) (elements : List String) (note : Option Note)
  | assign (form : Assignment) (target value : Expr) (note : Option Note)
  | call (call : Expr) (note : Option Note)
  | pragma (pragma : Pragma)
  | blank
  /-- The call of an accelerator block: lines that are written as they are, an empty one as a blank
  line, and the operands that stand in them. -/
  | accelerator (operands : List Use) (lines : List String)
  /-- A loop, with a note behind its head and one behind its closing brace. -/
  | loop (head : LoopHead) (note : Option Note) (body : List Stmt) (closing : Option Note)
  | branch (condition : Expr) (note : Option Note) (onTrue : List Stmt)
      (onFalse : Option (List Stmt))
deriving Repr, Inhabited

/-! ## Functions and programs -/

/-- One function of the generated code. -/
structure FunctionCode where
  name : String
  /-- The remarks in front of the function. -/
  remarks : List String
  ports : List Declarator
  note : Note
  body : List Stmt
deriving Repr, Inhabited

/-- The generated file. -/
structure Program where
  /-- Extra headers. -/
  includes : List String
  functions : List FunctionCode
deriving Repr, Inhabited

end HlsEmit.Code
