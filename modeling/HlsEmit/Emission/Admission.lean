import HlsEmit.Accelerator.Catalogue
import HlsEmit.Code.Spelling
import HlsEmit.Emission.Plan

/-!
# Admission of operations

Everything that can be wrong with an operation by itself is found before a line of it is written.
`Op.plan` is a function of the value table, the names given so far, the operation around and the
operation; it gives a plan or what is in the way. So a rejected operation leaves no trace but one
report, and neither is any of its regions written.

The numbers of operands, results and regions are checked first, by `OpKind.needs`. The rules
(`Op.rule`) take the parts that they need; a part that is missing nevertheless is an overrun.
-/

namespace HlsEmit

/-! ## Operands, results and regions -/

/-- How many operands, results and regions an operation has at least. -/
def OpKind.needs : OpKind → Counts
  | .scfFor => ⟨3, 0, 1⟩
  | .scfIf => ⟨1, 0, 1⟩
  | .affineFor .. | .affineIf .. | .affineParallel .. => ⟨0, 0, 1⟩
  | .affineApply .. | .affineMax .. | .affineMin .. | .alloc | .alloca | .constant => ⟨0, 1, 0⟩
  | .affineLoad .. | .load | .tensorLoad | .tensorToMemref | .rank | .unary .. | .cast ..
  | .assign => ⟨1, 1, 0⟩
  | .affineStore .. | .store | .tensorStore => ⟨2, 0, 0⟩
  | .dim | .binary .. | .cmpF .. | .cmpI .. => ⟨2, 1, 0⟩
  | .select => ⟨3, 1, 0⟩
  | .scfYield | .affineYield | .dealloc | .call .. | .ret | .finish | .ip .. | .ipCall ..
  | .other .. => ⟨0, 0, 0⟩

/-- Whether there are at least so many operands, results and regions. -/
def Counts.covers (found needed : Counts) : Bool :=
  needed.operands ≤ found.operands && needed.results ≤ found.results
    && needed.regions ≤ found.regions

/-- A part that a rule takes is missing. -/
def Op.missingPart (op : Op) : Obstacle :=
  .overrun (.part op.kind)

/-! ## Maps, bounds and sets -/

/-- The results of a bound that has operands for its inputs and at least so many results. -/
def AffineBound.check (bound : AffineBound) (needed : Nat) : Except Obstacle (List AffineValue) := do
  let inputs ← countInputs bound.map.dims bound.map.symbols
  if inputs = bound.operands.length ∧ needed ≤ bound.map.results.length then
    return bound.values
  else throw (.problem (.boundShape bound needed))

/-- The code of all results of a map over values. There is at least one. -/
def AffineMap.check (map : AffineMap) (values : Arena) (names : NameTable)
    (operands : List ValueId) : Except Obstacle (List Code.Expr) := do
  let inputs ← countInputs map.dims map.symbols
  if inputs = operands.length ∧ map.results ≠ [] then
    return map.code (values.operandAt names operands)
  else throw (.problem (.mapShape map operands.length))

/-- The code of the first result of a map over values. -/
def AffineMap.checkFirst (map : AffineMap) (values : Arena) (names : NameTable)
    (operands : List ValueId) : Except Obstacle Code.Expr := do
  match ← map.check values names operands with
  | first :: _ => return first
  | [] => throw (.overrun (.result map))

/-- The condition of a set over values. -/
def IntegerSet.check (set : IntegerSet) (values : Arena) (names : NameTable)
    (operands : List ValueId) : Except Obstacle Code.Expr := do
  let inputs ← countInputs set.dims set.symbols
  if inputs = operands.length then
    return set.condition (values.operandAt names operands) set.dims.toNat
  else throw (.problem (.setShape inputs operands.length))

/-! ## Loops -/

/-- The index of a loop: the first argument of its body. -/
def BlockOf.checkIndex (body : Block) : Except Obstacle ValueId :=
  match body.args with
  | [] => .error (.problem .noLoopIndex)
  | index :: _ => .ok index

/-- The loops of a nest: indices, bounds and steps, position by position. -/
def nestLoops : (indices : List ValueId) → (lowers uppers : List AffineValue) →
    (steps : List Int64) → Except Obstacle (List NestLoop)
  | [], _, _, _ => return []
  | index :: indices, lower :: lowers, upper :: uppers, step :: steps =>
    return ⟨index, lower, upper, step⟩ :: (← nestLoops indices lowers uppers steps)
  | index :: _, _, _, _ => throw (.overrun (.loop index))

/-- The plan of a nest of loops, one for each argument of its body. -/
def planNest (lower upper : AffineBound) (steps : List Int64) (body : Block) :
    Except Obstacle Plan := do
  let loops := body.args.length
  if loops = 0 then throw (.problem .noNestIndices)
  let lowers ← lower.check loops
  let uppers ← upper.check loops
  if steps.length < loops then throw (.problem (.stepCount steps.length loops))
  return .nest (← nestLoops body.args lowers uppers steps)

/-! ## Values -/

/-- The plan of a constant. A scalar is written where it is used; the elements of an array are
written with its declaration. -/
def planConstant (values : Arena) (names : NameTable) (result : ValueId) :
    Except Obstacle Plan := do
  if ← values.checkBound names result then return .nothing
  let info ← values.entry result
  match info.constant with
  | some (.dense elements) =>
    if !info.isShaped then throw (.problem (.constantPayload result))
    if info.elem.cppName?.isNone then throw (.problem (.denseElemType info.elem))
    match elements.mapM Literal.scalarText? with
    | some texts => return .define result texts
    | none => throw (.problem (.denseElement result))
  | _ => throw (.problem (.constantPayload result))

/-- The extent of an array in the dimension that a constant tells. -/
def constantDim (values : Arena) (array index : ValueId) : Except Obstacle Int64 := do
  let info ← values.entry array
  match (← values.entry index).constant with
  | some (.int position) =>
    match if info.isShaped then info.shape.extents? else none with
    | none => throw (.problem (.dynamicDim array))
    | some extents =>
      match if 0 ≤ position then extents[position.toInt.toNat]? else none with
      | some extent => return extent
      | none => throw (.problem (.dimRange position extents.length))
  | _ => throw (.problem .dimNotConstant)

/-- The number of dimensions of an array. -/
def constantRank (values : Arena) (array : ValueId) : Except Obstacle Nat := do
  match (← values.entry array).shape.rank? with
  | some rank => return rank
  | none => throw (.problem (.unranked array))

/-- The plan of a yield, which depends on the operation around. -/
def planYield (owner : Option Op) (operands : List ValueId) : Except Obstacle Plan :=
  if operands.isEmpty then .ok .nothing
  else match owner with
    | none => .error (.problem .yieldToFunction)
    | some owner =>
      match owner.kind with
      | .scfIf | .affineIf _ => .ok (.deliver owner.results)
      | .affineParallel .. => .ok (.reduce owner)
      | kind => .error (.problem (.yieldToOp kind.mnemonic))

/-! ## Operations -/

/-- The rule of an operation that has enough operands, results and regions. -/
def Op.rule (values : Arena) (names : NameTable) (owner : Option Op) (op : Op) :
    Except Obstacle Plan := do
  match op.kind with
  | .scfFor =>
    match op.operands, op.regions with
    | lower :: upper :: step :: _, body :: _ =>
      return .loop (← body.checkIndex) (.value lower) (.value upper) (.value step)
    | _, _ => throw op.missingPart
  | .scfIf =>
    match op.operands, op.regions with
    | condition :: _, _ :: _ => return .branch (.value condition)
    | _, _ => throw op.missingPart
  | .affineFor lower upper step =>
    match op.regions with
    | body :: _ =>
      let lowers ← lower.check 1
      let uppers ← upper.check 1
      return .loop (← body.checkIndex) (.affine "max" lowers) (.affine "min" uppers)
        (.code (.integer step.toInt))
    | [] => throw op.missingPart
  | .affineIf set =>
    match op.regions with
    | _ :: _ => return .branch (.code (← set.check values names op.operands))
    | [] => throw op.missingPart
  | .affineParallel lower upper steps =>
    match op.regions with
    | body :: _ => planNest lower upper steps body
    | [] => throw op.missingPart
  | .scfYield | .affineYield => planYield owner op.operands
  | .affineApply map =>
    match op.results with
    | result :: _ =>
      return .assign (.scalar result) ⟨.code (← map.checkFirst values names op.operands), []⟩
    | [] => throw op.missingPart
  | .affineMax map =>
    match op.results with
    | result :: _ =>
      let codes ← map.check values names op.operands
      return .assign (.scalar result) ⟨.code (.nestedCalls "max" codes), []⟩
    | [] => throw op.missingPart
  | .affineMin map =>
    match op.results with
    | result :: _ =>
      let codes ← map.check values names op.operands
      return .assign (.scalar result) ⟨.code (.nestedCalls "min" codes), []⟩
    | [] => throw op.missingPart
  | .affineLoad map =>
    match op.operands, op.results with
    | array :: indices, result :: _ =>
      return .assign (.scalar result) (.elementAt array (← map.check values names indices))
    | _, _ => throw op.missingPart
  | .affineStore map =>
    match op.operands with
    | value :: array :: indices =>
      return .assign (.elementAt array (← map.check values names indices)) (.scalar value)
    | _ => throw op.missingPart
  | .load =>
    match op.operands, op.results with
    | array :: indices, result :: _ => return .assign (.scalar result) (.element array indices)
    | _, _ => throw op.missingPart
  | .store =>
    match op.operands with
    | value :: array :: indices => return .assign (.element array indices) (.scalar value)
    | _ => throw op.missingPart
  | .alloc | .alloca =>
    match op.results with
    | result :: _ =>
      return if ← values.checkBound names result then .nothing else .allocate result
    | [] => throw op.missingPart
  | .tensorLoad | .assign =>
    match op.operands, op.results with
    | source :: _, result :: _ => return .compute result (.copy source)
    | _, _ => throw op.missingPart
  | .tensorStore =>
    match op.operands with
    | source :: array :: _ => return .compute array (.copy source)
    | _ => throw op.missingPart
  | .tensorToMemref =>
    match op.operands, op.results with
    | source :: _, result :: _ =>
      return if ← values.checkBound names result then .compute result (.copy source)
        else .share source result
    | _, _ => throw op.missingPart
  | .dim =>
    match op.operands, op.results with
    | array :: index :: _, result :: _ =>
      return .assign (.scalar result) (.number (← constantDim values array index).toInt)
    | _, _ => throw op.missingPart
  | .rank =>
    match op.operands, op.results with
    | array :: _, result :: _ =>
      return .assign (.scalar result) (.number (← constantRank values array))
    | _, _ => throw op.missingPart
  | .binary operation =>
    match op.operands, op.results with
    | lhs :: rhs :: _, result :: _ => return .compute result (.binary operation.operator lhs rhs)
    | _, _ => throw op.missingPart
  | .cmpI predicate =>
    match op.operands, op.results with
    | lhs :: rhs :: _, result :: _ => return .compute result (.binary predicate.operator lhs rhs)
    | _, _ => throw op.missingPart
  | .cmpF predicate =>
    match predicate.operator?, op.operands, op.results with
    | none, _, _ => throw (.problem (.noOperator predicate))
    | some operator, lhs :: rhs :: _, result :: _ =>
      return .compute result (.binary operator lhs rhs)
    | _, _, _ => throw op.missingPart
  | .unary operation =>
    match op.operands, op.results with
    | operand :: _, result :: _ => return .compute result (.function operation.head operand)
    | _, _ => throw op.missingPart
  | .select =>
    match op.operands, op.results with
    | condition :: onTrue :: onFalse :: _, result :: _ =>
      return .compute result (.select condition onTrue onFalse)
    | _, _ => throw op.missingPart
  | .constant =>
    match op.results with
    | result :: _ => planConstant values names result
    | [] => throw op.missingPart
  | .cast _ =>
    match op.operands, op.results with
    | operand :: _, result :: _ => return .assign (.scalar result) (.scalar operand)
    | _, _ => throw op.missingPart
  | .call callee => return .call callee
  | .ip kind =>
    let operands := op.operands.map (values.use names)
    return .accelerator operands (← (Accelerator.Template.of kind).fill values operands)
  | .ipCall name => return .blockCall name
  | .dealloc | .ret | .finish => return .nothing
  | .other name => throw (.problem (.noRule name))

/-- The plan of an operation inside of `owner`, or in the body of the function if there is none. -/
def Op.plan (values : Arena) (names : NameTable) (owner : Option Op) (op : Op) :
    Except Obstacle Plan :=
  if op.counts.covers op.kind.needs then op.rule values names owner
  else .error (.problem (.arity op.kind.needs op.counts))

end HlsEmit
