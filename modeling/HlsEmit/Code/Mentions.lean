import HlsEmit.Code.Tree

/-!
# Values in the generated code

Where the code mentions values, in the order of the text: `mentions` for every kind of code, with
the declarations (`declarations`) and the uses (`uses`) among them. A pragma uses the ports that it
names, and the call of an accelerator block its operands.
-/

namespace HlsEmit.Code

/-! ## Expressions -/

mutual

/-- The mentions in an expression. -/
def Expr.mentions : Expr → List Mention
  | .mention mention => [mention]
  | .absent | .counter _ | .integer _ => []
  | .subscript array index => array.mentions ++ index.mentions
  | .negate operand | .paren operand | .address operand => operand.mentions
  | .operation _ lhs rhs => lhs.mentions ++ rhs.mentions
  | .conditional condition onTrue onFalse =>
    condition.mentions ++ onTrue.mentions ++ onFalse.mentions
  | .call _ args => mentionsOfExprs args
termination_by structural e => e

/-- The mentions in some expressions. -/
def mentionsOfExprs : List Expr → List Mention
  | [] => []
  | first :: rest => first.mentions ++ mentionsOfExprs rest
termination_by structural es => es

end

/-! ## Statements -/

/-- The mention of a declarator. -/
def Declarator.mentions (declarator : Declarator) : List Mention :=
  [declarator.mention]

/-- The ports that a pragma names. -/
def Pragma.mentions : Pragma → List Mention
  | .dataflow | .pipeline _ | .unroll | .returnInterface => []
  | .scalarInterface port | .axiInterface port | .bramInterface port => [.use port]
  | .resource array _ | .partition array _ _ _ => [.use array]

/-- The mentions in the head of a loop. -/
def LoopHead.mentions : LoopHead → List Mention
  | .range start lower test upper advance step =>
    start.mentions ++ lower.mentions ++ test.mentions ++ upper.mentions ++ advance.mentions
      ++ step.mentions
  | .counter .. => []

mutual

/-- The mentions in a statement. -/
def Stmt.mentions : Stmt → List Mention
  | .declaration declarator _ | .initialized declarator _ _ => declarator.mentions
  | .assign _ target value _ => target.mentions ++ value.mentions
  | .call call _ => call.mentions
  | .pragma pragma => pragma.mentions
  | .blank => []
  | .accelerator operands _ => operands.map .use
  | .loop head _ body _ => head.mentions ++ mentionsOfStmts body
  | .branch condition _ onTrue none => condition.mentions ++ mentionsOfStmts onTrue
  | .branch condition _ onTrue (some onFalse) =>
    condition.mentions ++ mentionsOfStmts onTrue ++ mentionsOfStmts onFalse
termination_by structural stmt => stmt

/-- The mentions in some statements. -/
def mentionsOfStmts : List Stmt → List Mention
  | [] => []
  | first :: rest => first.mentions ++ mentionsOfStmts rest
termination_by structural stmts => stmts

end

/-! ## Programs -/

/-- The mentions in a function. -/
def FunctionCode.mentions (function : FunctionCode) : List Mention :=
  function.ports.map Declarator.mention ++ mentionsOfStmts function.body

/-- The mentions in a program. -/
def Program.mentions (program : Program) : List Mention :=
  program.functions.flatMap FunctionCode.mentions

/-! ## Declarations and uses -/

/-- The value that a mention is about. -/
def Mention.value : Mention → ValueId
  | .use u => u.value
  | .declare value _ _ => value

/-- What a mention declares. -/
def Mention.declaration? : Mention → Option (ValueId × Name)
  | .use _ => none
  | .declare value _ name => some (value, name)

/-- What a mention uses. -/
def Mention.use? : Mention → Option Use
  | .use u => some u
  | .declare .. => none

/-- The declarations among some mentions, in order. -/
def declarations (mentions : List Mention) : List (ValueId × Name) :=
  mentions.filterMap Mention.declaration?

/-- The uses among some mentions, in order. -/
def uses (mentions : List Mention) : List Use :=
  mentions.filterMap Mention.use?

/-- Mentions stand in the order of the expressions. -/
@[simp] theorem mentionsOfExprs_append (xs ys : List Expr) :
    mentionsOfExprs (xs ++ ys) = mentionsOfExprs xs ++ mentionsOfExprs ys := by
  induction xs with
  | nil => simp [mentionsOfExprs]
  | cons x xs ih => simp [mentionsOfExprs, ih]

/-- Mentions stand in the order of the statements. -/
@[simp] theorem mentionsOfStmts_append (xs ys : List Stmt) :
    mentionsOfStmts (xs ++ ys) = mentionsOfStmts xs ++ mentionsOfStmts ys := by
  induction xs with
  | nil => simp [mentionsOfStmts]
  | cons x xs ih => simp [mentionsOfStmts, ih]

/-! ## Mentions of composed expressions -/

/-- A subscripted array mentions the array, then what its indices mention. -/
@[simp] theorem Expr.mentions_subscripts (array : Expr) (indices : List Expr) :
    (array.subscripts indices).mentions = array.mentions ++ mentionsOfExprs indices := by
  unfold Expr.subscripts
  induction indices generalizing array with
  | nil => simp [mentionsOfExprs]
  | cons index indices ih => simp [ih, Expr.mentions, mentionsOfExprs]

/-- The counters of a subscript are not values, so they mention nothing. -/
@[simp] theorem Expr.mentions_atCounters (array : Expr) (rank : Nat) :
    (array.atCounters rank).mentions = array.mentions := by
  have hnone (dims : List Nat) : mentionsOfExprs (dims.map .counter) = [] := by
    induction dims with
    | nil => rfl
    | cons dim dims ih => simp [mentionsOfExprs, Expr.mentions, ih]
  rw [Expr.atCounters, Expr.mentions_subscripts, hnone, List.append_nil]

/-- An operator that keeps the mentions of its sides keeps those of a chain. -/
theorem Expr.mentions_chain {combine : Expr → Expr → Expr}
    (h : ∀ lhs rhs, (combine lhs rhs).mentions = lhs.mentions ++ rhs.mentions) (first : Expr)
    (rest : List Expr) :
    (Expr.chain combine first rest).mentions = first.mentions ++ mentionsOfExprs rest := by
  unfold Expr.chain
  induction rest generalizing first with
  | nil => simp [mentionsOfExprs]
  | cons next rest ih => simp [ih, h, mentionsOfExprs]

end HlsEmit.Code
