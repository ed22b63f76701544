import HlsEmit.Construction.Draft

/-!
# Steps that fill a block

A `Step` is one call that appends to a block; the calls of loops, conditionals and nests hold the
steps that fill their regions. `Step.run` makes the call.

Shapes and element types of results follow from the operands: elementwise operations give what
their first operand is, comparisons truth values of that shape, accesses one element. Nothing is
checked: whatever is wrong with the operations is found when the module is emitted.
-/

namespace HlsEmit.Construction

/-- What is set on an operation once it is complete. -/
structure Marks where
  attrs : Option OpAttrs := none
  /-- The line to set; `some none` takes the line of the operation away. -/
  line : Option (Option UInt32) := none
deriving DecidableEq, Repr, Inhabited

/-- An operation with marks. -/
def Marks.set (marks : Marks) (op : Op) : Op :=
  { op with attrs := marks.attrs.getD op.attrs, line := marks.line.getD op.line }

/-- One call that appends to a block. -/
inductive Step where
  /-- A value without an operation. -/
  | value (info : ValueInfo)
  | constant (elem : ElemType) (literal : Literal)
  | index (value : Int64)
  | constantArray (elem : ElemType) (extents : List Int64) (elements : List Literal)
  | binary (op : BinaryOp) (lhs rhs : ValueId)
  | unary (op : UnaryOp) (operand : ValueId)
  | cmpF (predicate : CmpFPredicate) (lhs rhs : ValueId)
  | cmpI (predicate : CmpIPredicate) (lhs rhs : ValueId)
  | select (condition onTrue onFalse : ValueId)
  | cast (kind : CastKind) (operand : ValueId) (elem : ElemType)
  /-- The extent of an array in a dimension, which becomes a constant of its own. -/
  | dim (array : ValueId) (position : Int64)
  | rank (array : ValueId)
  | alloc (info : ValueInfo)
  | load (array : ValueId) (indices : List ValueId)
  | store (value array : ValueId) (indices : List ValueId)
  | affineLoad (array : ValueId) (map : AffineMap) (indices : List ValueId)
  | affineStore (value array : ValueId) (map : AffineMap) (indices : List ValueId)
  | affineApply (map : AffineMap) (operands : List ValueId)
  | assign (source : ValueId)
  | tensorToMemref (source : ValueId) (info : ValueInfo)
  | yield (values : List ValueId)
  | ret (values : List ValueId)
  | call (callee : String) (operands : List ValueId) (results : List ValueInfo)
  | ip (kind : IpKind) (operands : List ValueId)
  /-- An operation as it is. -/
  | push (op : Op) (marks : Marks)
  | scfFor (lower upper step : ValueId) (body : List Step) (marks : Marks)
  | affineFor (lower upper step : Int64) (body : List Step) (marks : Marks)
  | affineForBounds (lower upper : AffineBound) (step : Int64) (body : List Step) (marks : Marks)
  /-- Without operations to do otherwise there is one region only. -/
  | scfIf (condition : ValueId) (results : List ValueInfo) (onTrue onFalse : List Step)
  | affineIf (set : IntegerSet) (operands : List ValueId) (onTrue : List Step) (marks : Marks)
  /-- A nest of loops from zero, with one scalar result. -/
  | parallel (extents : List Int64) (elem : ElemType) (reductions : List ReductionKind)
      (body : List Step)
deriving Repr

/-- The bounds of a nest whose loops all end, or all start, at numbers. -/
def nestBound (numbers : List Int64) : AffineBound :=
  { map := { results := numbers.map .constant } }

/-- A loop whose index is the argument of its body. -/
def loop (call : String) (kind : OpKind) (operands : List ValueId)
    (body : Construction (List Op)) (marks : Marks) : Construction (List Op) := do
  let index ← addIndex
  record (.allocated call [index])
  return [marks.set { kind, operands, regions := [⟨[index], ← body⟩] }]

/-- A conditional with results. -/
def conditional (condition : ValueId) (results : List ValueInfo)
    (onTrue onFalse : Construction (List Op)) : Construction (List Op) := do
  let results ← addAll results
  let onTrue ← onTrue
  let onFalse ← onFalse
  record (.allocated "scf_if" results)
  let others : List Block := if onFalse.isEmpty then [] else [⟨[], onFalse⟩]
  return [{ kind := .scfIf, operands := [condition], results, regions := ⟨[], onTrue⟩ :: others }]

/-- A conditional on a set. -/
def setConditional (set : IntegerSet) (operands : List ValueId)
    (onTrue : Construction (List Op)) (marks : Marks) : Construction (List Op) := do
  let onTrue ← onTrue
  record (.allocated "affine_if" [])
  return [marks.set { kind := .affineIf set, operands, regions := [⟨[], onTrue⟩] }]

/-- A nest of loops. -/
def nest (extents : List Int64) (elem : ElemType) (reductions : List ReductionKind)
    (body : Construction (List Op)) : Construction (List Op) := do
  let indices ← addAll (extents.map fun _ => { elem := .index })
  let result ← add { elem }
  record (.allocated "parallel ivs" indices)
  let body ← body
  record (.allocated "parallel" [result])
  let kind : OpKind :=
    .affineParallel (nestBound (extents.map fun _ => 0)) (nestBound extents)
      (extents.map fun _ => 1)
  return [{ kind, results := [result], attrs := { reductions }, regions := [⟨indices, body⟩] }]

mutual

/-- Makes a call; the result are the operations that it appends. -/
def Step.run : Step → Construction (List Op)
  | .value info => do
    record (.allocated "value" [← add info])
    return []
  | .constant elem literal => do
    let (id, op) ← constant { elem, constant := some literal }
    record (.allocated "constant" [id])
    return [op]
  | .index value => do
    let (id, op) ← constant (indexInfo value)
    record (.allocated "index" [id])
    return [op]
  | .constantArray elem extents elements => do
    let (id, op) ← constant
      { elem, shape := .fixed extents, constant := some (.dense elements) }
    record (.allocated "constant_array" [id])
    return [op]
  | .binary op lhs rhs => do computing "binary" (.binary op) [lhs, rhs] (← addLike lhs none)
  | .unary op operand => do computing "unary" (.unary op) [operand] (← addLike operand none)
  | .cmpF predicate lhs rhs => do
    computing "cmpf" (.cmpF predicate) [lhs, rhs] (← addLike lhs (some .bool))
  | .cmpI predicate lhs rhs => do
    computing "cmpi" (.cmpI predicate) [lhs, rhs] (← addLike lhs (some .bool))
  | .select condition onTrue onFalse => do
    computing "select" .select [condition, onTrue, onFalse] (← addLike onTrue none)
  | .cast kind operand elem => do computing "cast" (.cast kind) [operand] (← add { elem })
  | .dim array position => do
    let (index, op) ← constant (indexInfo position)
    return op :: (← computing "dim" .dim [array, index] (← addIndex))
  | .rank array => do computing "rank" .rank [array] (← addIndex)
  | .alloc info => do computing "alloc" .alloc [] (← add info)
  | .load array indices => do computing "load" .load (array :: indices) (← addElement array)
  | .store value array indices => acting "store" .store (value :: array :: indices)
  | .affineLoad array map indices => do
    computing "affine_load" (.affineLoad map) (array :: indices) (← addElement array)
  | .affineStore value array map indices =>
    acting "affine_store" (.affineStore map) (value :: array :: indices)
  | .affineApply map operands => do
    computing "affine_apply" (.affineApply map) operands (← addIndex)
  | .assign source => do computing "assign" .assign [source] (← addLike source none)
  | .tensorToMemref source info => do
    computing "tensor_to_memref" .tensorToMemref [source] (← add info)
  | .yield values => acting "yield" .affineYield values
  | .ret values => acting "ret" .ret values
  | .call callee operands results => do
    let results ← addAll results
    record (.allocated "call" results)
    return [{ kind := .call callee, operands, results }]
  | .ip kind operands => acting "ip" (.ip kind) operands
  | .push op marks => do
    record (.allocated "push" [])
    return [marks.set op]
  | .scfFor lower upper step body marks =>
    loop "scf_for" .scfFor [lower, upper, step] (runAll body) marks
  | .affineFor lower upper step body marks =>
    loop "affine_for" (.affineFor (.constant lower) (.constant upper) step) [] (runAll body) marks
  | .affineForBounds lower upper step body marks =>
    loop "affine_for_bounds" (.affineFor lower upper step) [] (runAll body) marks
  | .scfIf condition results onTrue onFalse =>
    conditional condition results (runAll onTrue) (runAll onFalse)
  | .affineIf set operands onTrue marks => setConditional set operands (runAll onTrue) marks
  | .parallel extents elem reductions body => nest extents elem reductions (runAll body)
termination_by structural step => step

/-- Makes several calls, in order; the result are the operations that they append. -/
def runAll : List Step → Construction (List Op)
  | [] => return []
  | step :: rest => do
    let ops ← step.run
    return ops ++ (← runAll rest)
termination_by structural steps => steps

end

end HlsEmit.Construction
