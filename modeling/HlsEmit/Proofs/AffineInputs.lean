import Mathlib.Data.List.Forall2
import HlsEmit.Proofs.Layout.Words
import HlsEmit.Proofs.Meaning.Formula
import HlsEmit.Proofs.Pragmas.Built
import HlsEmit.Proofs.Rejection

/-!
# Inputs of affine expressions

A map is accepted if there are as many operands as it has dimensions and symbols. So there is an
operand for every input that is in range, a dimension among the first ones and a symbol among those
behind them, and if all operands are bound, what the operand is called is written in the place of the
input: in the bounds of loops, in conditions, in values and in subscripts.

Inputs that are out of range are not looked for. What is written for them is the operand in their
position in the whole list, or nothing.

## Key results

- `AffineExpr.slots_code`: the places for values in the code of an expression are those of its inputs
- `Emission.carries_of_plan`: where the codes of affine expressions stand in what is written
- `Emission.ofOp_resolves`: what is written for the inputs of an operation without errors
-/

namespace HlsEmit

open Code (Expr Mention Stmt LoopHead)

/-! ## Places for values -/

mutual

/-- The places for values in an expression, in the order of the text: what is mentioned there, or
nothing. -/
def Code.Expr.slots : Expr → List (Option Mention)
  | .mention mention => [some mention]
  | .absent => [none]
  | .counter _ | .integer _ => []
  | .subscript array index => array.slots ++ index.slots
  | .negate operand | .paren operand | .address operand => operand.slots
  | .operation _ lhs rhs => lhs.slots ++ rhs.slots
  | .conditional condition onTrue onFalse => condition.slots ++ (onTrue.slots ++ onFalse.slots)
  | .call _ args => slotsOfExprs args
termination_by structural e => e

/-- The places for values in some expressions. -/
def Code.slotsOfExprs : List Expr → List (Option Mention)
  | [] => []
  | first :: rest => first.slots ++ slotsOfExprs rest
termination_by structural es => es

end

/-- An input of an affine expression. -/
inductive AffineInput where
  | dim (position : UInt32)
  | symbol (position : UInt32)
deriving DecidableEq, Repr

namespace AffineInput

/-- Where the operand of an input stands, if the symbols are behind so many dimensions. -/
def position (dims : Nat) : AffineInput → Nat
  | .dim position => position.toNat
  | .symbol position => dims + position.toNat

/-- There are so many dimensions or symbols that the input is one of them. -/
def InRange (dims symbols : Nat) : AffineInput → Prop
  | .dim position => position.toNat < dims
  | .symbol position => position.toNat < symbols

end AffineInput

/-- The inputs of an expression, in the order in which they are written. The divisor of a quotient
that rounds up is written twice. -/
def AffineExpr.inputs : AffineExpr → List AffineInput
  | .dim position => [.dim position]
  | .symbol position => [.symbol position]
  | .constant _ => []
  | .add lhs rhs | .mul lhs rhs | .mod lhs rhs | .floorDiv lhs rhs => lhs.inputs ++ rhs.inputs
  | .ceilDiv lhs rhs => lhs.inputs ++ (rhs.inputs ++ rhs.inputs)

/-- The places for values in the code of an expression are those of its inputs. -/
theorem AffineExpr.slots_code {operand : Nat → Expr} {dims : Nat} {slot : Nat → Option Mention}
    (hoperand : ∀ position, (operand position).slots = [slot position]) (e : AffineExpr) :
    (e.code operand dims).slots = e.inputs.map fun input => slot (input.position dims) := by
  -- One case per rendering: the constants of merged factors have no places, all other parts keep
  -- theirs.
  induction e using AffineExpr.code.induct operand dims with
  | case1 position | case2 position => exact hoperand _
  | case3 value => rfl
  | case4 lhs c hc ih => rw [code, if_pos hc]; simp [Expr.slots, inputs, ih]
  | case5 lhs c hc ih => rw [code, if_neg hc]; simp [Expr.slots, inputs, ih]
  | case6 lhs y factor hfactor ih ihy =>
    rw [code, if_pos hfactor]
    cases eq_of_isMinusOne hfactor
    simp [Expr.slots, inputs, ih, ihy]
  | case7 lhs y factor hfactor ih ihy ihfactor =>
    rw [code, if_neg hfactor]
    simp [Expr.slots, inputs, ih, ihy, ihfactor]
  | case8 lhs rhs hconstant hmul ih ihrhs =>
    rw [code.eq_6 operand dims lhs rhs hconstant hmul]
    simp [Expr.slots, inputs, ih, ihrhs]
  | case9 lhs rhs hrhs ih =>
    rw [code, if_pos hrhs]
    cases eq_of_isMinusOne hrhs
    simp [Expr.slots, inputs, ih]
  | case10 lhs rhs hrhs ih ihrhs =>
    rw [code, if_neg hrhs]
    simp [Expr.slots, inputs, ih, ihrhs]
  | case11 lhs rhs ih ihrhs | case12 lhs rhs ih ihrhs =>
    simp [code, Expr.slots, inputs, ih, ihrhs]
  | case13 lhs rhs ihrhs ih => simp [code, Expr.slots, inputs, ih, ihrhs]

/-- An operand has one place, empty if the operand is missing. -/
theorem Arena.slots_operandAt (arena : Arena) (t : NameTable) (operands : List ValueId)
    (position : Nat) : (arena.operandAt t operands position).slots =
      [operands[position]?.map fun id => .use (arena.use t id)] := by
  rw [operandAt]
  cases operands[position]? <;> rfl

/-! ## Expressions over values -/

/-- An affine expression over values, with the number of symbols. -/
structure AffinePart extends AffineValue where
  symbols : Nat
deriving DecidableEq, Repr

namespace AffinePart

/-- The value that an input stands for: the dimensions are the first operands, and the symbols are
those behind them. -/
def operand? (part : AffinePart) : AffineInput → Option ValueId
  | .dim position => (part.operands.take part.dims)[position.toNat]?
  | .symbol position => (part.operands.drop part.dims)[position.toNat]?

/-- What is written for an input is what its operand is called, and not empty. -/
def Shows (arena : Arena) (t : NameTable) (part : AffinePart) (input : AffineInput)
    (slot : Option Mention) : Prop :=
  ∃ u : Use, slot = some (.use u) ∧ part.operand? input = some u.value ∧
    u.designator = arena.designator t u.value ∧ u.designator.text ≠ ""

/-- Code that was written for an expression behind a table. -/
structure Written (arena : Arena) (t : NameTable) (part : AffinePart) (code : Expr) : Prop where
  counted : part.operands.length = part.dims + part.symbols
  form : ∃ later, t.Keeps later ∧
    code = part.expr.code (arena.operandAt later part.operands) part.dims

/-- The code of an expression, in which all inputs in range are what they should be. -/
structure Resolved (arena : Arena) (t : NameTable) (part : AffinePart) (code : Expr) : Prop where
  /-- There is one operand for every dimension and every symbol. -/
  counted : part.operands.length = part.dims + part.symbols
  form : ∃ operand, code = part.expr.code operand part.dims
  inputs : List.Forall₂ (fun input slot => input.InRange part.dims part.symbols →
    part.Shows arena t input slot) part.expr.inputs code.slots

variable {arena : Arena} {t later : NameTable} {part : AffinePart} {code : Expr}

/-- An input in range has an operand at its position. -/
theorem exists_operand (hcounted : part.operands.length = part.dims + part.symbols)
    {input : AffineInput} (hrange : input.InRange part.dims part.symbols) :
    ∃ id, part.operand? input = some id ∧
      part.operands[input.position part.dims]? = some id := by
  have hlength : input.position part.dims < part.operands.length := by
    cases input <;> simp only [AffineInput.InRange, AffineInput.position] at hrange ⊢ <;> omega
  refine ⟨part.operands[input.position part.dims], ?_, List.getElem?_eq_getElem hlength⟩
  cases input with
  | dim position =>
    rw [operand?, List.getElem?_take_of_lt hrange]
    exact List.getElem?_eq_getElem hlength
  | symbol position =>
    rw [operand?, List.getElem?_drop]
    exact List.getElem?_eq_getElem hlength

/-- What was written behind a table with all operands shows them. -/
theorem Written.resolved (h : part.Written arena t code) (hv : t.Valid arena)
    (hbound : ∀ id ∈ part.operands, arena.isBound t id = true) : part.Resolved arena t code := by
  obtain ⟨hcounted, later, hkeeps, rfl⟩ := h
  refine ⟨hcounted, ⟨_, rfl⟩, ?_⟩
  rw [AffineExpr.slots_code (arena.slots_operandAt later part.operands), List.forall₂_map_right_iff,
    List.forall₂_same]
  intro input _ hrange
  obtain ⟨id, hoperand, hid⟩ := exists_operand hcounted hrange
  have hbound := hbound id (List.mem_of_getElem? hid)
  -- the table may have grown since, but what a bound value is called stays
  have hstays := Arena.designator_of_keeps hkeeps hv hbound
  refine ⟨arena.use later id, by rw [hid]; rfl, hoperand, hstays, ?_⟩
  obtain hbegins | hmissing := arena.use_cases later id
  · obtain ⟨c, rest, htext, -⟩ := hbegins.first
    intro hempty
    rw [hempty] at htext
    cases htext
  · exact absurd (hstays.symm.trans hmissing) (Arena.designator_ne_missing hv hbound)

end AffinePart

/-- The results of a map over operands. -/
def AffineMap.parts (map : AffineMap) (operands : List ValueId) : List AffinePart :=
  map.results.map fun result => ⟨⟨result, map.dims.toNat, operands⟩, map.symbols.toNat⟩

/-- The results of a bound. -/
def AffineBound.parts (bound : AffineBound) : List AffinePart :=
  bound.map.parts bound.operands

/-- The constraints of a set over operands. -/
def IntegerSet.parts (set : IntegerSet) (operands : List ValueId) : List AffinePart :=
  set.constraints.map fun constraint => ⟨⟨constraint, set.dims.toNat, operands⟩, set.symbols.toNat⟩

/-- The affine expressions that are written for an operation, in order. A nest takes a lower and an
upper bound for each of its indices, and what is applied is the first result. -/
def Op.affineParts (op : Op) : List AffinePart :=
  match op.kind with
  | .affineFor lower upper _ => lower.parts ++ upper.parts
  | .affineParallel lower upper _ =>
    ((lower.parts.zip upper.parts).take op.indices.length).flatMap fun bounds => [bounds.1, bounds.2]
  | .affineIf set => set.parts op.operands
  | .affineApply map => (map.parts op.operands).take 1
  | .affineMax map | .affineMin map => map.parts op.operands
  | .affineLoad map => map.parts (op.operands.drop 1)
  | .affineStore map => map.parts (op.operands.drop 2)
  | _ => []

/-- All parts of a map are over the operands of the map. -/
theorem AffineMap.operands_of_mem {map : AffineMap} {operands : List ValueId} {part : AffinePart}
    (h : part ∈ map.parts operands) : part.operands = operands := by
  obtain ⟨result, -, rfl⟩ := List.mem_map.1 h
  rfl

/-- The affine expressions of an operation are over its operands or those of its bounds. -/
theorem Op.mem_operands_of_affineParts {op : Op} {part : AffinePart} (hpart : part ∈ op.affineParts)
    {id : ValueId} (hid : id ∈ part.operands) : id ∈ op.operands ++ op.kind.mentioned := by
  rw [List.mem_append]
  -- The bounds of loops bring their own operands, all other maps read the operation's.
  unfold affineParts at hpart
  cases hkind : op.kind with
  | affineFor lower upper step =>
    rw [hkind] at hpart
    refine .inr (List.mem_append.2 ((List.mem_append.1 hpart).imp ?_ ?_)) <;>
      exact fun h => AffineMap.operands_of_mem h ▸ hid
  | affineParallel lower upper steps =>
    rw [hkind] at hpart
    obtain ⟨bounds, hbounds, hpart⟩ := List.mem_flatMap.1 hpart
    obtain ⟨hlower, hupper⟩ := List.of_mem_zip (List.mem_of_mem_take hbounds)
    refine .inr (List.mem_append.2 ((List.mem_pair.1 hpart).imp ?_ ?_)) <;> rintro rfl
    · exact AffineMap.operands_of_mem hlower ▸ hid
    · exact AffineMap.operands_of_mem hupper ▸ hid
  | affineIf set =>
    rw [hkind] at hpart
    obtain ⟨constraint, -, rfl⟩ := List.mem_map.1 hpart
    exact .inl hid
  | affineApply map =>
    rw [hkind] at hpart
    exact .inl (AffineMap.operands_of_mem (List.mem_of_mem_take hpart) ▸ hid)
  | affineMax map | affineMin map =>
    rw [hkind] at hpart
    exact .inl (AffineMap.operands_of_mem hpart ▸ hid)
  | affineLoad map | affineStore map =>
    rw [hkind] at hpart
    exact .inl (List.mem_of_mem_drop (AffineMap.operands_of_mem hpart ▸ hid))
  | _ =>
    rw [hkind] at hpart
    cases hpart

/-! ## Where the codes stand -/

/-- The bounds of a loop over a range. -/
def Code.LoopHead.bounds : LoopHead → List Expr
  | .range _ lower _ upper _ _ => [lower, upper]
  | .counter .. => []

/-- The condition that a constraint of a set holds, by its position and its code. -/
def IntegerSet.relation (set : IntegerSet) (i : Nat) (code : Expr) : Expr :=
  .operation (if set.equalities.getD i false then .eq else .ge) code (.integer 0)

/-- The codes of affine expressions stand in their places in the statements of an operation: they are
the bounds of its loops, its condition, its value or its subscripts. -/
inductive OpKind.Carries : OpKind → List Expr → List Stmt → Prop
  | loop {lower upper : AffineBound} {step : Int64} {start test advance increment : Expr}
      {lowers uppers : List Expr} {note closing : Option Code.Note} {body : List Stmt}
      (h : lowers.length = lower.map.results.length) :
      OpKind.Carries (.affineFor lower upper step) (lowers ++ uppers)
        [.loop (.range start (.nestedCalls "max" lowers) test (.nestedCalls "min" uppers) advance
          increment) note body closing]
  | nest {lower upper : AffineBound} {steps : List Int64} {declarations body : List Stmt}
      {closing : Option Code.Note} {heads : List LoopHead} :
      OpKind.Carries (.affineParallel lower upper steps) (heads.flatMap LoopHead.bounds)
        (declarations ++ Emission.nestStmts body closing heads)
  | branch {set : IntegerSet} {declarations onTrue : List Stmt} {onFalse : Option (List Stmt)}
      {note : Option Code.Note} {codes : List Expr} :
      OpKind.Carries (.affineIf set) codes
        (declarations ++ [.branch (.all (codes.mapIdx set.relation)) note onTrue onFalse])
  | value {map : AffineMap} {target code : Expr} {note : Option Code.Note} :
      OpKind.Carries (.affineApply map) [code] [.assign .set target code note]
  | greatest {map : AffineMap} {target : Expr} {codes : List Expr} {note : Option Code.Note} :
      OpKind.Carries (.affineMax map) codes [.assign .set target (.nestedCalls "max" codes) note]
  | least {map : AffineMap} {target : Expr} {codes : List Expr} {note : Option Code.Note} :
      OpKind.Carries (.affineMin map) codes [.assign .set target (.nestedCalls "min" codes) note]
  | read {map : AffineMap} {target array : Expr} {codes : List Expr} {note : Option Code.Note} :
      OpKind.Carries (.affineLoad map) codes [.assign .set target (array.subscripts codes) note]
  | write {map : AffineMap} {array value : Expr} {codes : List Expr} {note : Option Code.Note} :
      OpKind.Carries (.affineStore map) codes [.assign .set (array.subscripts codes) value note]
  | other {kind : OpKind} {stmts : List Stmt} (h : kind.inputs = []) : OpKind.Carries kind [] stmts

section Rules

variable {arena : Arena} {t later : NameTable} {scope : Scope} {op : Op} {owner : Option Op}

/-! ### Codes of several expressions -/

/-- Expressions with one operand for every input, over the operands that they are written with. -/
theorem AffinePart.written_all {parts : List AffinePart} (hkeeps : t.Keeps later)
    (hcounted : ∀ part ∈ parts, part.operands.length = part.dims + part.symbols) :
    List.Forall₂ (Written arena t) parts ((parts.map AffinePart.toAffineValue).map fun value =>
      value.expr.code (arena.operandAt later value.operands) value.dims) := by
  rw [List.map_map, List.forall₂_map_right_iff, List.forall₂_same]
  exact fun part hpart => ⟨hcounted part hpart, later, hkeeps, rfl⟩

/-- The parts of a counted map are counted. -/
theorem AffineMap.counted_parts {map : AffineMap} {operands : List ValueId}
    (h : map.dims.toNat + map.symbols.toNat = operands.length) :
    ∀ part ∈ map.parts operands, part.operands.length = part.dims + part.symbols := by
  rw [AffineMap.parts, List.forall_mem_map]
  exact fun _ _ => h.symm

/-- The values of a bound are its parts. -/
theorem AffineBound.values_eq (bound : AffineBound) :
    bound.values = bound.parts.map AffinePart.toAffineValue := by
  simp [AffineBound.values, AffineBound.parts, AffineMap.parts]

/-- The code of a map is that of its parts. -/
theorem AffineMap.code_eq (map : AffineMap) (operands : List ValueId) :
    map.code (arena.operandAt t operands) =
      ((map.parts operands).map AffinePart.toAffineValue).map fun value =>
        value.expr.code (arena.operandAt t value.operands) value.dims := by
  simp [AffineMap.code, AffineMap.parts]

/-! ### What is admitted -/

/-- An accepted count is the number of dimensions and symbols. -/
theorem admits_counted (dims symbols : UInt32) :
    Admits (fun count => count = dims.toNat + symbols.toNat) (fun _ => True)
      (countInputs dims symbols) := by
  unfold countInputs
  dsimp only
  split
  · rfl
  · trivial

/-- The codes of an accepted map are written over its operands. -/
theorem admits_mapWritten (map : AffineMap) (operands : List ValueId) :
    Admits (List.Forall₂ (AffinePart.Written arena t) (map.parts operands)) (fun _ => True)
      (map.check arena t operands) := by
  refine .bind (admits_counted map.dims map.symbols) fun count hcount => ?_
  split
  · next hfits =>
    show List.Forall₂ _ _ (map.code (arena.operandAt t operands))
    rw [map.code_eq operands]
    exact AffinePart.written_all (.refl t) (AffineMap.counted_parts (hcount ▸ hfits.1))
  · trivial

/-- The accepted code is the first result of the map. -/
theorem admits_firstWritten (map : AffineMap) (operands : List ValueId) :
    Admits (fun code => List.Forall₂ (AffinePart.Written arena t) ((map.parts operands).take 1) [code])
      (fun _ => True) (map.checkFirst arena t operands) := by
  refine .bind (admits_mapWritten map operands) fun codes hcodes => ?_
  generalize map.parts operands = parts at hcodes ⊢
  cases hcodes with
  | nil => trivial
  | cons hfirst hrest => exact .cons hfirst .nil

/-- The parts of an accepted bound are counted. -/
theorem admits_boundCounted (bound : AffineBound) (needed : Nat) :
    Admits (fun values => values = bound.parts.map AffinePart.toAffineValue ∧
        ∀ part ∈ bound.parts, part.operands.length = part.dims + part.symbols) (fun _ => True)
      (bound.check needed) := by
  refine .bind (admits_counted bound.map.dims bound.map.symbols) fun count hcount => ?_
  split
  · next hfits => exact ⟨bound.values_eq, AffineMap.counted_parts (hcount ▸ hfits.1)⟩
  · trivial

/-- The condition of an accepted set is written over its operands. -/
theorem admits_setWritten (set : IntegerSet) (operands : List ValueId) :
    Admits (fun code => ∃ codes, code = .all (codes.mapIdx set.relation) ∧
        List.Forall₂ (AffinePart.Written arena t) (set.parts operands) codes) (fun _ => True)
      (set.check arena t operands) := by
  refine .bind (admits_counted set.dims set.symbols) fun count hcount => ?_
  split
  · next hfits =>
    have hcounted : ∀ part ∈ set.parts operands, part.operands.length = part.dims + part.symbols := by
      rw [IntegerSet.parts, List.forall_mem_map]
      exact fun _ _ => hfits.symm.trans hcount
    refine ⟨_, congrArg Expr.all (List.ext_getElem? fun i => ?_),
      AffinePart.written_all (.refl t) hcounted⟩
    simp only [IntegerSet.parts, List.map_map, List.getElem?_mapIdx, List.getElem?_map, Option.map_map]
    rfl
  · trivial

/-- The loops of a nest have the first bounds of each kind, position by position. -/
theorem admits_nestBounds (indices : List ValueId) (lowers uppers : List AffineValue)
    (steps : List Int64) :
    Admits (fun loops => (loops.map fun loop => (loop.lower, loop.upper)) =
        (lowers.zip uppers).take indices.length) (fun _ => True)
      (nestLoops indices lowers uppers steps) := by
  fun_induction nestLoops indices lowers uppers steps with
  | case1 lowers uppers steps => exact List.take_zero.symm
  | case2 index indices lower lowers upper uppers step steps ih =>
    refine .bind ih fun loops hloops => ?_
    show _ :: loops.map _ = _
    rw [hloops]
    rfl
  | case3 => trivial

namespace Emission

/-! ### What is written -/

/-- The codes that are written for expressions behind a table. -/
theorem written_affineCodes (scope : Scope) {parts : List AffinePart} (hkeeps : t.Keeps later)
    (hcounted : ∀ part ∈ parts, part.operands.length = part.dims + part.symbols) :
    List.Forall₂ (AffinePart.Written scope.values t) parts
      ((affineCodes (parts.map AffinePart.toAffineValue)).run scope later).value := by
  have hrun : (affineCodes (parts.map AffinePart.toAffineValue)).run scope later = _ :=
    affineCodes_apply _
  rw [hrun]
  exact AffinePart.written_all hkeeps hcounted

/-- The bounds of a nest, in which each loop is written behind the ones around it. -/
theorem written_nestHeads {loops : List NestLoop} {pairs : List (AffinePart × AffinePart)}
    (hkeeps : t.Keeps later)
    (hloops : (loops.map fun loop => (loop.lower, loop.upper)) =
      pairs.map (Prod.map AffinePart.toAffineValue AffinePart.toAffineValue))
    (hcounted : ∀ part ∈ pairs.flatMap fun bounds => [bounds.1, bounds.2],
      part.operands.length = part.dims + part.symbols) :
    List.Forall₂ (AffinePart.Written scope.values t)
      (pairs.flatMap fun bounds => [bounds.1, bounds.2])
      (((nestHeads op loops).run scope later).value.flatMap LoopHead.bounds) := by
  induction loops generalizing later pairs with
  | nil =>
    obtain rfl := List.map_eq_nil_iff.1 hloops.symm
    exact .nil
  | cons loop rest ih =>
    obtain ⟨⟨lower, upper⟩, pairs, rfl, hfirst, hrest⟩ := List.map_eq_cons_iff.1 hloops.symm
    obtain ⟨hlower, hupper⟩ := Prod.mk.inj hfirst
    simp only [List.flatMap_cons, List.forall_mem_append] at hcounted
    -- the index of this loop may get its name before the bounds of the inner ones
    have hhead : Built False (nestHead op loop) := built_nestHead op loop
    have htail := ih (hkeeps.trans (hhead.keeps scope later)) hrest.symm hcounted.2
    refine .cons ⟨hcounted.1 _ (by simp), later, hkeeps, ?_⟩
      (.cons ⟨hcounted.1 _ (by simp), later, hkeeps, ?_⟩ htail)
    · exact hlower ▸ rfl
    · exact hupper ▸ rfl

/-- The bounds of an accepted nest are written as far as there are indices. -/
theorem admits_nestWritten (scope : Scope) (t : NameTable) (lower upper : AffineBound)
    (steps : List Int64) (body : Block) :
    Admits (fun plan => ∃ loops, plan = .nest loops ∧ ∀ op later, t.Keeps later →
        List.Forall₂ (AffinePart.Written scope.values t)
          (((lower.parts.zip upper.parts).take body.args.length).flatMap fun bounds =>
            [bounds.1, bounds.2])
          (((nestHeads op loops).run scope later).value.flatMap LoopHead.bounds))
      (fun _ => True) (planNest lower upper steps body) := by
  unfold planNest
  dsimp only
  split
  · trivial
  refine .bind (admits_boundCounted lower _) fun lowers hlowers => ?_
  refine .bind (admits_boundCounted upper _) fun uppers huppers => ?_
  split
  · trivial
  refine .bind (admits_nestBounds body.args lowers uppers steps) fun loops hloops => ?_
  refine ⟨loops, rfl, fun op later hkeeps => ?_⟩
  -- Only as many pairs of bounds are written as the body has arguments.
  obtain ⟨rfl, hlowers⟩ := hlowers
  obtain ⟨rfl, huppers⟩ := huppers
  rw [List.zip_map, ← List.map_take] at hloops
  refine written_nestHeads hkeeps hloops fun part hpart => ?_
  obtain ⟨bounds, hbounds, hpart⟩ := List.mem_flatMap.1 hpart
  obtain ⟨hlower, hupper⟩ := List.of_mem_zip (List.mem_of_mem_take hbounds)
  rcases List.mem_pair.1 hpart with rfl | rfl
  · exact hlowers _ hlower
  · exact huppers _ hupper

/-- Code that was there before is written as it is. -/
theorem terms_code (codes : List Expr) :
    (terms op (codes.map .code)).run scope t = ⟨codes, t, [], [], []⟩ := by
  have hterms : (terms op (codes.map .code)).run scope t = _ :=
    terms_of_bound op (by simp [Term.values])
  have hcodes : (codes.map Term.code).map (Term.heldCode scope.values t) = codes := by
    rw [List.map_map]
    exact List.map_id codes
  rw [hcodes] at hterms
  exact hterms

/-- An element is its base under the given subscripts. -/
theorem exists_elementAt (op : Op) (array : ValueId) (codes : List Expr) (scope : Scope)
    (t : NameTable) : ∃ base : Expr,
      ((place op (.elementAt array codes)).run scope t).value = base.subscripts codes := by
  refine ⟨((operand op array).run scope t).value, ?_⟩
  show Expr.subscripts _ ((terms op (codes.map .code)).run scope _).value = _
  rw [terms_code]
  rfl

/-- The head of a loop between affine bounds holds the codes of both bounds. -/
theorem admits_loopCarried (scope : Scope) (t : NameTable) (op : Op) (lower upper : AffineBound)
    (step : Int64) (body : Block) :
    Admits (fun plan => ∀ bodies, ∃ codes,
        OpKind.Carries (.affineFor lower upper step) codes ((render op bodies plan).run scope t).value ∧
          List.Forall₂ (AffinePart.Written scope.values t) (lower.parts ++ upper.parts) codes)
      (fun _ => True) (do
        let lowers ← lower.check 1
        let uppers ← upper.check 1
        return .loop (← body.checkIndex) (.affine "max" lowers) (.affine "min" uppers)
          (.code (.integer step.toInt))) := by
  refine .bind (admits_boundCounted lower 1) fun lowers hlowers => ?_
  refine .bind (admits_boundCounted upper 1) fun uppers huppers => ?_
  refine .bind (.always _) fun index _ bodies => ?_
  obtain ⟨rfl, hlowers⟩ := hlowers
  obtain ⟨rfl, huppers⟩ := huppers
  -- the index is declared in front of the lower bounds and used behind them
  have hindex : Built False (operand op index) := built_operand op index
  have hbefore := hindex.keeps scope t
  have hlower := written_affineCodes scope hbefore hlowers
  have hbounds : Built False (term op (.affine "max" (lower.parts.map AffinePart.toAffineValue))) :=
    built_term op _
  have hbetween := (hbefore.trans (hbounds.keeps scope _)).trans (hindex.keeps scope _)
  have hupper := written_affineCodes scope hbetween huppers
  have hlength := hlower.length_eq
  rw [AffineBound.parts, AffineMap.parts, List.length_map] at hlength
  exact ⟨_, .loop hlength.symm, List.rel_append hlower hupper⟩

/-- What is written for a plan holds the codes of the affine expressions of its operation. -/
theorem admits_carried (scope : Scope) (t : NameTable) (owner : Option Op) (op : Op) :
    Admits (fun plan => ∀ bodies, ∃ codes,
        op.kind.Carries codes ((render op bodies plan).run scope t).value ∧
          List.Forall₂ (AffinePart.Written scope.values t) op.affineParts codes)
      (fun _ => True) (op.rule scope.values t owner) := by
  have hmissing {fine : Plan → Prop} : Admits fine (fun _ => True) (.error op.missingPart) := trivial
  unfold Op.rule Op.affineParts
  -- only these kinds have affine expressions
  cases hkind : op.kind with
  | affineFor lower upper step =>
    dsimp only
    split
    · exact admits_loopCarried scope t op lower upper step _
    · exact hmissing
  | affineIf set =>
    dsimp only
    split
    · refine .bind (admits_setWritten set op.operands) fun code hcode bodies => ?_
      obtain ⟨codes, rfl, hwritten⟩ := hcode
      exact ⟨codes, .branch, hwritten⟩
    · exact hmissing
  | affineParallel lower upper steps =>
    dsimp only
    split
    · next body rest hregions =>
      refine (admits_nestWritten scope t lower upper steps body).mono fun plan hplan bodies => ?_
      obtain ⟨loops, rfl, hwritten⟩ := hplan
      have hresults : Built False (predeclare op op.results) := built_predeclare op op.results
      have hindices : op.indices = body.args := by rw [Op.indices, hregions]; rfl
      rw [hindices]
      exact ⟨_, .nest, hwritten op _ (hresults.keeps scope t)⟩
    · exact hmissing
  | affineApply map =>
    dsimp only
    split
    · refine .bind (admits_firstWritten map op.operands) fun code hcode bodies => ?_
      exact ⟨[code], .value, hcode⟩
    · exact hmissing
  | affineMax map =>
    dsimp only
    split
    · refine .bind (admits_mapWritten map op.operands) fun codes hcodes bodies => ?_
      exact ⟨codes, .greatest, hcodes⟩
    · exact hmissing
  | affineMin map =>
    dsimp only
    split
    · refine .bind (admits_mapWritten map op.operands) fun codes hcodes bodies => ?_
      exact ⟨codes, .least, hcodes⟩
    · exact hmissing
  | affineLoad map =>
    dsimp only
    split
    · next array indices result results hoperands hresults =>
      refine .bind (admits_mapWritten map indices) fun codes hcodes bodies => ?_
      rw [hoperands]
      refine ⟨codes, ?_, hcodes⟩
      show OpKind.Carries _ codes [.assign .set _ ((place op (.elementAt array codes)).run scope _).value _]
      obtain ⟨base, hbase⟩ := exists_elementAt op array codes scope _
      rw [hbase]
      exact .read
    · exact hmissing
  | affineStore map =>
    dsimp only
    split
    · next value array indices hoperands =>
      refine .bind (admits_mapWritten map indices) fun codes hcodes bodies => ?_
      rw [hoperands]
      refine ⟨codes, ?_, hcodes⟩
      show OpKind.Carries _ codes [.assign .set ((place op (.elementAt array codes)).run scope _).value _ _]
      obtain ⟨base, hbase⟩ := exists_elementAt op array codes scope _
      rw [hbase]
      exact .write
    · exact hmissing
  | _ => exact (Admits.always _).mono fun plan _ bodies => ⟨[], .other rfl, .nil⟩

/-! ## Operations without errors -/

/-- An operation that reports no error has a plan. -/
theorem exists_plan (hreadable : op.Readable scope.values)
    (herrors : ∀ report ∈ ownReports owner op scope t, report.isError = false) :
    ∃ plan, op.plan scope.values t owner = .ok plan := by
  have hdecides := Op.plan_decides (t := t) owner hreadable
  rw [ownReports, operation_run] at herrors
  cases hplan : op.plan scope.values t owner with
  | ok plan => exact ⟨plan, rfl⟩
  | error obstacle =>
    rw [hplan] at hdecides herrors
    cases obstacle with
    | problem p =>
      have herror := herrors (p.report (Origin.at scope.function (some op))) (List.mem_singleton_self _)
      rw [Diagnostic.isError, decide_eq_false_iff_not] at herror
      exact absurd hdecides.2 herror
    | overrun missing => cases hdecides

/-- The plan of an operation is that of its rule. -/
theorem rule_of_plan {arena : Arena} {plan : Plan} (h : op.plan arena t owner = .ok plan) :
    op.rule arena t owner = .ok plan := by
  unfold Op.plan at h
  split at h
  · exact h
  · cases h

/-- An operation that reports no error is written with the codes of its affine expressions in their
places. If its operands and those of its bounds are bound, every input in range is written as what
its operand is called. -/
theorem ofOp_resolves (hv : t.Valid scope.values) (hreadable : op.Readable scope.values)
    (hbound : ∀ id ∈ op.operands ++ op.kind.mentioned, scope.values.isBound t id = true)
    (herrors : ∀ report ∈ ownReports owner op scope t, report.isError = false) :
    ∃ codes, op.kind.Carries codes ((ofOp owner op).run scope t).value ∧
      List.Forall₂ (AffinePart.Resolved scope.values t) op.affineParts codes := by
  obtain ⟨plan, hplan⟩ := exists_plan hreadable herrors
  have hadmits := admits_carried scope t owner op
  rw [rule_of_plan hplan] at hadmits
  obtain ⟨codes, hcarries, hwritten⟩ := hadmits (ofRegions op op.regions)
  refine ⟨codes, ?_, ?_⟩
  · rw [ofOp_of_plan hplan]
    exact hcarries
  · rw [List.forall₂_iff_get] at hwritten ⊢
    refine ⟨hwritten.1, fun i hpart hcode => (hwritten.2 i hpart hcode).resolved hv fun id hid => ?_⟩
    exact hbound id (Op.mem_operands_of_affineParts (List.getElem_mem hpart) hid)

end Emission

end Rules

namespace Emission

/-! ### A loop over a sum -/

/-- Two indices, the second of them a constant, and the index of a loop. -/
def sumValues : Arena :=
  #[{ elem := .index }, { elem := .index, constant := some (.int 8) }, { elem := .index }]

/-- The first index has a name. -/
def sumNames : NameTable :=
  NameTable.empty.insert ⟨0⟩ (.declared ⟨0, false⟩)

/-- The names of the sum are those of its values. -/
theorem valid_sumNames : sumNames.Valid sumValues :=
  .declare false .refl trivial rfl (by decide)

/-- A loop from the first index plus the second one, or zero, to the second one. -/
def sumLoop : Op where
  kind := .affineFor
    { map := { dims := 1, symbols := 1, results := [.add (.dim 0) (.symbol 0), .constant 0] }
      operands := [⟨0⟩, ⟨1⟩] }
    { map := { symbols := 1, results := [.symbol 0] }, operands := [⟨1⟩] } 1
  regions := [{ args := [⟨2⟩] }]

/-- A loop whose upper bound is the sum of two named operands. -/
theorem sumLoop_resolves :
    sumNames.Valid sumValues ∧ sumLoop.Readable sumValues ∧
      (∀ id ∈ sumLoop.operands ++ sumLoop.kind.mentioned, sumValues.isBound sumNames id = true) ∧
      (∀ report ∈ ownReports none sumLoop ⟨sumValues, none⟩ sumNames, report.isError = false) ∧
      ∃ codes, sumLoop.kind.Carries codes ((ofOp none sumLoop).run ⟨sumValues, none⟩ sumNames).value ∧
        List.Forall₂ (AffinePart.Resolved sumValues sumNames) sumLoop.affineParts codes := by
  have hreadable : sumLoop.Readable sumValues :=
    ⟨by decide, by decide, by simp [sumLoop, OpKind.inputs, UInt32.size]⟩
  have hbound : ∀ id ∈ sumLoop.operands ++ sumLoop.kind.mentioned,
      sumValues.isBound sumNames id = true := by decide +kernel
  have herrors : ∀ report ∈ ownReports none sumLoop ⟨sumValues, none⟩ sumNames,
      report.isError = false := by decide +kernel
  exact ⟨valid_sumNames, hreadable, hbound, herrors,
    ofOp_resolves valid_sumNames hreadable hbound herrors⟩

/-! ### Inputs out of range -/

/-- Two named indices, and a third one. -/
def strayValues : Arena :=
  #[{ elem := .index }, { elem := .index }, { elem := .index }]

def strayNames : NameTable :=
  (NameTable.empty.insert ⟨0⟩ (.declared ⟨0, false⟩)).insert ⟨1⟩ (.declared ⟨1, false⟩)

/-- The sum of the second dimension and the second symbol, of a map with one of each. -/
def strayInputs : Op where
  kind := .affineApply { dims := 1, symbols := 1, results := [.add (.dim 1) (.symbol 1)] }
  operands := [⟨0⟩, ⟨1⟩]
  results := [⟨2⟩]

/-- The map is accepted. The only symbol is written in the place of a dimension, and nothing in the
place of a symbol. -/
theorem strayInputs_unresolved :
    strayNames.Valid strayValues ∧
      (∀ id ∈ strayInputs.operands ++ strayInputs.kind.mentioned,
        strayValues.isBound strayNames id = true) ∧
      ((ofOp none strayInputs).run ⟨strayValues, none⟩ strayNames).raised = [] ∧
      (∃ codes, strayInputs.kind.Carries codes
          ((ofOp none strayInputs).run ⟨strayValues, none⟩ strayNames).value ∧
        codes.map Expr.text = ["(val1 + )"]) ∧
      ∀ codes, strayInputs.kind.Carries codes
          ((ofOp none strayInputs).run ⟨strayValues, none⟩ strayNames).value →
        ¬ List.Forall₂ (fun part code =>
          List.Forall₂ (part.Shows strayValues strayNames) part.expr.inputs code.slots)
            strayInputs.affineParts codes := by
  obtain ⟨target, code, note, hvalue, htext, hslots⟩ : ∃ target code note,
      ((ofOp none strayInputs).run ⟨strayValues, none⟩ strayNames).value =
        [.assign .set target code note] ∧ code.text = "(val1 + )" ∧
      ∃ first, code.slots = [first, none] :=
    ⟨_, _, _, rfl, by decide +kernel, _, rfl⟩
  refine ⟨?_, by decide +kernel, by decide +kernel, ?_, ?_⟩
  · exact .declare false (.declare false .refl trivial rfl (by decide)) trivial (by decide) (by decide)
  · exact ⟨[code], hvalue ▸ .value, by rw [List.map_singleton, htext]⟩
  · intro codes hcarries hshows
    rw [hvalue] at hcarries
    obtain ⟨first, hslots⟩ := hslots
    cases hcarries with
    | value =>
      -- nothing is mentioned in the second place
      have hsum := (List.forall₂_cons.1 hshows).1
      rw [hslots] at hsum
      obtain ⟨u, hnone, -⟩ := (List.forall₂_cons.1 (List.forall₂_cons.1 hsum).2).1
      cases hnone
    | other hinputs => cases hinputs

end Emission

end HlsEmit
