import HlsEmit.Emission.Admission
import HlsEmit.Emission.Pragmas
import HlsEmit.Emission.Values

/-!
# Statements of plans

`render` writes the statements of a plan. Values are mentioned in the order in which they stand in
the code, so that the first mention is the leftmost one. The regions of the operation come in as
emissions; they run where their code stands.
-/

namespace HlsEmit

open Code

/-- The note of an operation. -/
def Op.note (op : Op) : Note where
  line := op.line
  scheduleBegin := op.attrs.scheduleBegin
  scheduleEnd := op.attrs.scheduleEnd
  iterationLatency := op.attrs.iterationLatency
  interval := op.attrs.interval

namespace Emission

/-! ## Terms and places -/

/-- The code of an affine expression over values. -/
def affineCode (value : AffineValue) : Emission Expr := do
  return value.expr.code (← operandAt value.operands) value.dims

/-- The code of several affine expressions, in order. -/
def affineCodes : List AffineValue → Emission (List Expr)
  | [] => return []
  | value :: rest => do
    let first ← affineCode value
    return first :: (← affineCodes rest)

/-- The code of a term. -/
def term (op : Op) : Term → Emission Expr
  | .value id => operand op id
  | .code code => return code
  | .affine function values => return .nestedCalls function (← affineCodes values)

/-- The code of several terms, in order. -/
def terms (op : Op) : List Term → Emission (List Expr)
  | [] => return []
  | first :: rest => do
    let code ← term op first
    return code :: (← terms op rest)

/-- The code of a place. -/
def place (op : Op) (place : Place) : Emission Expr := do
  let base ← term op place.base
  return base.subscripts (← terms op place.subscripts)

/-! ## Elementwise statements -/

/-- The code of a formula inside of so many loops. -/
def formula (op : Op) (rank : Nat) : Formula → Emission Expr
  | .copy source => element op rank source
  | .binary operator lhs rhs => do
    let lhs ← element op rank lhs
    return .operation operator lhs (← element op rank rhs)
  | .function head operand => return .call head [← element op rank operand]
  | .select condition onTrue onFalse => do
    let shaped := (← info condition).isShaped
    let condition ← element op (if shaped then rank else 0) condition
    let onTrue ← element op rank onTrue
    return .conditional condition onTrue (← element op rank onFalse)

/-- The element of the target at the counters of so many loops is set by a formula. -/
def setElement (op : Op) (target : ValueId) (source : Formula) (rank : Nat) : Emission Stmt := do
  let left ← element op rank target
  return .assign .set left (← formula op rank source) (some op.note)

/-- Every element of the target is set by a formula. -/
def compute (op : Op) (target : ValueId) (source : Formula) : Emission (List Stmt) :=
  elementwise op target (setElement op target source)

/-- Every element of the target is combined with that of the source. -/
def combine (op : Op) (kind : ReductionKind) (target source : ValueId) : Emission (List Stmt) :=
  elementwise op target fun rank => do
    let left ← element op rank target
    let call (function : String) : Emission Stmt := do
      let again ← element op rank target
      return .assign .set left (.call function [again, ← element op rank source]) (some op.note)
    match kind with
    | .add => return .assign .add left (← element op rank source) (some op.note)
    | .assign => return .assign .set left (← element op rank source) (some op.note)
    | .max => call "max"
    | .min => call "min"
    | .multiply => return .assign .multiply left (← element op rank source) (some op.note)

/-! ## Yields -/

/-- The results of the operation around, each with the value that is yielded for it. Too few values
are reported. -/
def yielded (op : Op) (results : List ValueId) : Emission (List (ValueId × ValueId)) := do
  if op.operands.length < results.length then
    raise (some op) (.yieldCount op.operands.length results.length)
  return results.zip op.operands

/-- Every target is set to its source. -/
def computeEach (op : Op) : List (ValueId × ValueId) → Emission (List Stmt)
  | [] => return []
  | (target, source) :: rest => do
    let first ← compute op target (.copy source)
    return first ++ (← computeEach op rest)

/-- Every target is combined with its source. `result` is the position of the first pair. That
there is no way to combine a result is reported. -/
def combineEach (op owner : Op) : (result : Nat) → List (ValueId × ValueId) → Emission (List Stmt)
  | _, [] => return []
  | result, (target, source) :: rest => do
    let first ← match owner.attrs.reductions[result]? with
      | some kind => combine op kind target source
      | none => do
        raise (some owner) (.noReduction result)
        pure []
    return first ++ (← combineEach op owner (result + 1) rest)

/-- The condition that all of some indices are zero. -/
def allZero (op : Op) (indices : List ValueId) : Emission Expr := do
  let codes ← operands op indices
  return .all (codes.map fun code => .operation .eq code (.integer 0))

/-- The arguments of the first region of an operation. -/
def regionArgs (owner : Op) : Emission (List ValueId) := do
  match owner.regions with
  | region :: _ => return region.args
  | [] =>
    overrun (.part owner.kind)
    return []

/-- The first iteration of a nest sets the results, all others combine them with what is yielded. -/
def reduce (op owner : Op) : Emission (List Stmt) := do
  let pairs ← yielded op owner.results
  let condition ← allZero op (← regionArgs owner)
  let onFirst ← computeEach op pairs
  let onOthers ← combineEach op owner 0 pairs
  return [.branch condition none onFirst (some onOthers)]

/-! ## Loops and conditionals -/

/-- The head of a loop. -/
def loopHead (op : Op) (index : ValueId) (lower upper step : Term) : Emission LoopHead := do
  let start ← operand op index
  let lower ← term op lower
  let test ← operand op index
  let upper ← term op upper
  let advance ← operand op index
  return .range start lower test upper advance (← term op step)

/-- The head of a loop in a nest. Both bounds are older than its index. -/
def nestHead (op : Op) (loop : NestLoop) : Emission LoopHead := do
  let lower ← affineCode loop.lower
  let upper ← affineCode loop.upper
  loopHead op loop.index (.code lower) (.code upper) (.code (.integer loop.step.toInt))

/-- The heads of all loops of a nest, from the outside. -/
def nestHeads (op : Op) : List NestLoop → Emission (List LoopHead)
  | [] => return []
  | loop :: rest => do
    let first ← nestHead op loop
    return first :: (← nestHeads op rest)

/-- Loops inside of each other around some statements. Only the brace that closes the outermost
loop has a note. -/
def nestStmts (body : List Stmt) : (closing : Option Note) → List LoopHead → List Stmt
  | _, [] => body
  | closing, head :: rest => [.loop head none (nestStmts body none rest) closing]

/-! ## Calls -/

/-- The results of a call: arrays as they are, scalars by their addresses. -/
def references (op : Op) : List ValueId → Emission (List Expr)
  | [] => return []
  | id :: rest => do
    let shaped := (← info id).isShaped
    let name ← operand op id
    return (if shaped then name else .address name) :: (← references op rest)

/-! ## Plans -/

/-- The statements of the first region. -/
def firstBody (op : Op) : List (Emission (List Stmt)) → Emission (List Stmt)
  | body :: _ => body
  | [] => do
    overrun (.part op.kind)
    return []

/-- The statements of the second region, if there is one. -/
def secondBody : List (Emission (List Stmt)) → Emission (Option (List Stmt))
  | _ :: body :: _ => some <$> body
  | _ => return none

/-- The statements of a plan. The bodies are those of the regions of the operation, in order. -/
def render (op : Op) (bodies : List (Emission (List Stmt))) : Plan → Emission (List Stmt)
  | .nothing => return []
  | .compute target source => compute op target source
  | .assign target source => do
    let target ← place op target
    return [.assign .set target (← place op source) (some op.note)]
  | .allocate array => do
    let declarator ← arrayDeclarator (some op) array
    return .declaration declarator (some op.note) :: (← arrayPragmas (some op) array)
  | .define array elements => do
    return [.initialized (← arrayDeclarator (some op) array) elements (some op.note)]
  | .share source result => do
    share op source result
    arrayPragmas (some op) result
  | .call callee => do
    let declarations ← predeclare op op.results
    let args ← operands op op.operands
    let results ← references op op.results
    return declarations ++ [.call (.call callee (args ++ results)) (some op.note)]
  | .blockCall name => return [.call (.call ("__IP__" ++ name) (← operands op op.operands)) none]
  | .accelerator operands lines => return [.accelerator operands lines]
  | .loop index lower upper step => do
    let head ← loopHead op index lower upper step
    let body ← firstBody op bodies
    return [.loop head (some op.note) (op.attrs.loopPragmas ++ body) none]
  | .branch condition => do
    let declarations ← predeclare op op.results
    let condition ← term op condition
    let onTrue ← firstBody op bodies
    let onFalse ← secondBody bodies
    return declarations ++ [.branch condition (some op.note) onTrue onFalse]
  | .nest loops => do
    let declarations ← predeclare op op.results
    let heads ← nestHeads op loops
    let body ← firstBody op bodies
    return declarations ++ nestStmts body (some op.note) heads
  | .deliver results => do computeEach op (← yielded op results)
  | .reduce owner => reduce op owner

end Emission

end HlsEmit
