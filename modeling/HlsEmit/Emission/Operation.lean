import HlsEmit.Emission.Statement

/-!
# Operations and blocks

An operation is admitted and then written; one that is not admitted is reported and skipped. The
recursion is on the operation, through its regions.
-/

namespace HlsEmit.Emission

open Code

/-- The statements of an operation that has a plan, or the report of what is in its way. -/
def carryOut (op : Op) (bodies : List (Emission (List Stmt))) :
    Except Obstacle Plan → Emission (List Stmt)
  | .ok plan => render op bodies plan
  | .error (.problem problem) => do
    raise (some op) problem
    return []
  | .error (.overrun missing) => do
    overrun missing
    return []

/-- The statements of an operation inside of `owner`, given the emissions of its regions. -/
def operation (owner : Option Op) (op : Op) (bodies : List (Emission (List Stmt))) :
    Emission (List Stmt) := do
  dispatch owner op
  carryOut op bodies (← inspect fun scope names => op.plan scope.values names owner)

mutual

/-- The statements of an operation. -/
def ofOp (owner : Option Op) : Op → Emission (List Stmt)
  | ⟨kind, operands, results, attrs, regions, line⟩ =>
    let op : Op := ⟨kind, operands, results, attrs, regions, line⟩
    operation owner op (ofRegions op regions)
termination_by structural op => op

/-- The statements of each region of an operation. -/
def ofRegions (owner : Op) : List (BlockOf Op) → List (Emission (List Stmt))
  | [] => []
  | region :: rest => ofBlock (some owner) region :: ofRegions owner rest
termination_by structural regions => regions

/-- The statements of a block. -/
def ofBlock (owner : Option Op) : BlockOf Op → Emission (List Stmt)
  | ⟨_, ops⟩ => ofOps owner ops
termination_by structural block => block

/-- The statements of some operations, in order. -/
def ofOps (owner : Option Op) : List Op → Emission (List Stmt)
  | [] => return []
  | op :: rest => do
    let first ← ofOp owner op
    return first ++ (← ofOps owner rest)
termination_by structural ops => ops

end

end HlsEmit.Emission
