import HlsEmit.Emission.Admission

/-!
# The parts that rules take

A rule takes the operands, results and regions of its operation by position. An operation that has as
many of them as its kind needs has all of these parts. `Op.Ruled` says what is left of each rule then,
with the parts by name, and what holds of all plans follows by cases on it.

## Key results

- `Op.ruled`: the rule of an operation that has its parts
- `Op.Ruled.rule_eq`: an operation with these parts has this rule
-/

namespace HlsEmit

/-! ## Lists with enough entries -/

/-- A list of at least one entry. -/
theorem exists_one {α : Type} {xs : List α} (h : 1 ≤ xs.length) : ∃ a rest, xs = a :: rest :=
  List.exists_cons_of_length_pos h

/-- A list of at least two entries. -/
theorem exists_two {α : Type} {xs : List α} (h : 2 ≤ xs.length) :
    ∃ a b rest, xs = a :: b :: rest := by
  obtain ⟨a, xs, rfl⟩ := exists_one (Nat.le_of_succ_le h)
  obtain ⟨b, rest, rfl⟩ := exists_one (Nat.le_of_succ_le_succ h)
  exact ⟨a, b, rest, rfl⟩

/-- A list of at least three entries. -/
theorem exists_three {α : Type} {xs : List α} (h : 3 ≤ xs.length) :
    ∃ a b c rest, xs = a :: b :: c :: rest := by
  obtain ⟨a, b, xs, rfl⟩ := exists_two (Nat.le_of_succ_le h)
  obtain ⟨c, rest, rfl⟩ := exists_one (Nat.le_of_succ_le_succ (Nat.le_of_succ_le_succ h))
  exact ⟨a, b, c, rest, rfl⟩

/-! ## Rules -/

/-- Operations of this kind compute each element of their result by a formula over their operands. -/
inductive OpKind.HasFormula : OpKind → (operands : List ValueId) → Formula → Prop where
  | tensorLoad {source : ValueId} {rest : List ValueId} :
    HasFormula .tensorLoad (source :: rest) (.copy source)
  | assign {source : ValueId} {rest : List ValueId} :
    HasFormula .assign (source :: rest) (.copy source)
  | binary (operation : BinaryOp) {lhs rhs : ValueId} {rest : List ValueId} :
    HasFormula (.binary operation) (lhs :: rhs :: rest) (.binary operation.operator lhs rhs)
  | cmpI (predicate : CmpIPredicate) {lhs rhs : ValueId} {rest : List ValueId} :
    HasFormula (.cmpI predicate) (lhs :: rhs :: rest) (.binary predicate.operator lhs rhs)
  | cmpF {predicate : CmpFPredicate} {operator : Code.Operator} {lhs rhs : ValueId}
      {rest : List ValueId} (hoperator : predicate.operator? = some operator) :
    HasFormula (.cmpF predicate) (lhs :: rhs :: rest) (.binary operator lhs rhs)
  | unary (operation : UnaryOp) {operand : ValueId} {rest : List ValueId} :
    HasFormula (.unary operation) (operand :: rest) (.function operation.head operand)
  | select {condition onTrue onFalse : ValueId} {rest : List ValueId} :
    HasFormula .select (condition :: onTrue :: onFalse :: rest) (.select condition onTrue onFalse)

/-- What the rule of an operation comes to, with the parts that it takes. -/
inductive Op.Ruled (arena : Arena) (t : NameTable) (owner : Option Op) (op : Op) :
    Except Obstacle Plan → Prop where
  | scfFor {lower upper step : ValueId} {rest : List ValueId} {body : Block} {regions : List Block}
      (hkind : op.kind = .scfFor) (hoperands : op.operands = lower :: upper :: step :: rest)
      (hregions : op.regions = body :: regions) :
    Ruled arena t owner op (do
      return .loop (← body.checkIndex) (.value lower) (.value upper) (.value step))
  | scfIf {condition : ValueId} {rest : List ValueId} {body : Block} {regions : List Block}
      (hkind : op.kind = .scfIf) (hoperands : op.operands = condition :: rest)
      (hregions : op.regions = body :: regions) :
    Ruled arena t owner op (.ok (.branch (.value condition)))
  | affineFor {lower upper : AffineBound} {step : Int64} {body : Block} {regions : List Block}
      (hkind : op.kind = .affineFor lower upper step) (hregions : op.regions = body :: regions) :
    Ruled arena t owner op (do
      let lowers ← lower.check 1
      let uppers ← upper.check 1
      return .loop (← body.checkIndex) (.affine "max" lowers) (.affine "min" uppers)
        (.code (.integer step.toInt)))
  | affineIf {set : IntegerSet} {body : Block} {regions : List Block}
      (hkind : op.kind = .affineIf set) (hregions : op.regions = body :: regions) :
    Ruled arena t owner op (do return .branch (.code (← set.check arena t op.operands)))
  | affineParallel {lower upper : AffineBound} {steps : List Int64} {body : Block}
      {regions : List Block} (hkind : op.kind = .affineParallel lower upper steps)
      (hregions : op.regions = body :: regions) :
    Ruled arena t owner op (planNest lower upper steps body)
  | yield (hkind : op.kind = .scfYield ∨ op.kind = .affineYield) :
    Ruled arena t owner op (planYield owner op.operands)
  | affineApply {map : AffineMap} {result : ValueId} {rest : List ValueId}
      (hkind : op.kind = .affineApply map) (hresults : op.results = result :: rest) :
    Ruled arena t owner op (do
      return .assign (.scalar result) ⟨.code (← map.checkFirst arena t op.operands), []⟩)
  /-- The greatest or the least of the results of a map. -/
  | affineExtremum {map : AffineMap} {function : String} {result : ValueId} {rest : List ValueId}
      (hkind : op.kind = .affineMax map ∧ function = "max" ∨
        op.kind = .affineMin map ∧ function = "min") (hresults : op.results = result :: rest) :
    Ruled arena t owner op (do
      let codes ← map.check arena t op.operands
      return .assign (.scalar result) ⟨.code (.nestedCalls function codes), []⟩)
  | affineLoad {map : AffineMap} {array : ValueId} {indices : List ValueId} {result : ValueId}
      {rest : List ValueId} (hkind : op.kind = .affineLoad map)
      (hoperands : op.operands = array :: indices) (hresults : op.results = result :: rest) :
    Ruled arena t owner op (do
      return .assign (.scalar result) (.elementAt array (← map.check arena t indices)))
  | affineStore {map : AffineMap} {value array : ValueId} {indices : List ValueId}
      (hkind : op.kind = .affineStore map) (hoperands : op.operands = value :: array :: indices) :
    Ruled arena t owner op (do
      return .assign (.elementAt array (← map.check arena t indices)) (.scalar value))
  | load {array : ValueId} {indices : List ValueId} {result : ValueId} {rest : List ValueId}
      (hkind : op.kind = .load) (hoperands : op.operands = array :: indices)
      (hresults : op.results = result :: rest) :
    Ruled arena t owner op (.ok (.assign (.scalar result) (.element array indices)))
  | store {value array : ValueId} {indices : List ValueId} (hkind : op.kind = .store)
      (hoperands : op.operands = value :: array :: indices) :
    Ruled arena t owner op (.ok (.assign (.element array indices) (.scalar value)))
  | alloc {result : ValueId} {rest : List ValueId} (hkind : op.kind = .alloc ∨ op.kind = .alloca)
      (hresults : op.results = result :: rest) :
    Ruled arena t owner op (do
      return if ← arena.checkBound t result then .nothing else .allocate result)
  | compute {formula : Formula} {result : ValueId} {rest : List ValueId}
      (hkind : op.kind.HasFormula op.operands formula) (hresults : op.results = result :: rest) :
    Ruled arena t owner op (.ok (.compute result formula))
  /-- A comparison of floats that has no operator in C++. -/
  | incomparable {predicate : CmpFPredicate} (hkind : op.kind = .cmpF predicate)
      (hoperator : predicate.operator? = none) :
    Ruled arena t owner op (.error (.problem (.noOperator predicate)))
  | tensorStore {source array : ValueId} {rest : List ValueId} (hkind : op.kind = .tensorStore)
      (hoperands : op.operands = source :: array :: rest) :
    Ruled arena t owner op (.ok (.compute array (.copy source)))
  | tensorToMemref {source result : ValueId} {rest others : List ValueId}
      (hkind : op.kind = .tensorToMemref) (hoperands : op.operands = source :: rest)
      (hresults : op.results = result :: others) :
    Ruled arena t owner op (do
      return if ← arena.checkBound t result then .compute result (.copy source)
        else .share source result)
  | dim {array index result : ValueId} {rest others : List ValueId} (hkind : op.kind = .dim)
      (hoperands : op.operands = array :: index :: rest) (hresults : op.results = result :: others) :
    Ruled arena t owner op (do
      return .assign (.scalar result) (.number (← constantDim arena array index).toInt))
  | rank {array result : ValueId} {rest others : List ValueId} (hkind : op.kind = .rank)
      (hoperands : op.operands = array :: rest) (hresults : op.results = result :: others) :
    Ruled arena t owner op (do
      return .assign (.scalar result) (.number (← constantRank arena array)))
  | constant {result : ValueId} {rest : List ValueId} (hkind : op.kind = .constant)
      (hresults : op.results = result :: rest) :
    Ruled arena t owner op (planConstant arena t result)
  | cast {kind : CastKind} {operand result : ValueId} {rest others : List ValueId}
      (hkind : op.kind = .cast kind) (hoperands : op.operands = operand :: rest)
      (hresults : op.results = result :: others) :
    Ruled arena t owner op (.ok (.assign (.scalar result) (.scalar operand)))
  | call {callee : String} (hkind : op.kind = .call callee) :
    Ruled arena t owner op (.ok (.call callee))
  | accelerator {kind : IpKind} (hkind : op.kind = .ip kind) :
    Ruled arena t owner op (do
      return .accelerator (op.operands.map (arena.use t))
        (← (Accelerator.Template.of kind).fill arena (op.operands.map (arena.use t))))
  | blockCall {name : String} (hkind : op.kind = .ipCall name) :
    Ruled arena t owner op (.ok (.blockCall name))
  /-- An operation that nothing is written for. -/
  | silent (hkind : op.kind = .dealloc ∨ op.kind = .ret ∨ op.kind = .finish) :
    Ruled arena t owner op (.ok .nothing)
  /-- An operation of a kind that has no rule. -/
  | unknown {name : String} (hkind : op.kind = .other name) :
    Ruled arena t owner op (.error (.problem (.noRule name)))

section

variable {arena : Arena} {t : NameTable} {owner : Option Op} {op : Op}

/-- An operation that has all parts that its kind needs. -/
theorem Op.ruled (hcovers : op.counts.covers op.kind.needs = true) :
    op.Ruled arena t owner (op.rule arena t owner) := by
  rw [Counts.covers, Bool.and_eq_true, Bool.and_eq_true] at hcovers
  have hop := of_decide_eq_true hcovers.1.1
  have hres := of_decide_eq_true hcovers.1.2
  have hreg := of_decide_eq_true hcovers.2
  rw [Op.counts] at hop hres hreg
  unfold Op.rule
  -- the numbers that a kind needs are those of the parts that its rule takes
  cases hkind : op.kind with rw [hkind] at hop hres hreg
  -- Kinds with regions take the first of them.
  | scfFor =>
    obtain ⟨lower, upper, step, rest, hoperands⟩ := exists_three hop
    obtain ⟨body, regions, hregions⟩ := exists_one hreg
    simp only [hoperands, hregions]
    exact .scfFor hkind hoperands hregions
  | scfIf =>
    obtain ⟨condition, rest, hoperands⟩ := exists_one hop
    obtain ⟨body, regions, hregions⟩ := exists_one hreg
    simp only [hoperands, hregions]
    exact .scfIf hkind hoperands hregions
  | affineFor lower upper step =>
    obtain ⟨body, regions, hregions⟩ := exists_one hreg
    simp only [hregions]
    exact .affineFor hkind hregions
  | affineIf set =>
    obtain ⟨body, regions, hregions⟩ := exists_one hreg
    simp only [hregions]
    exact .affineIf hkind hregions
  | affineParallel lower upper steps =>
    obtain ⟨body, regions, hregions⟩ := exists_one hreg
    simp only [hregions]
    exact .affineParallel hkind hregions
  | scfYield => exact .yield (.inl hkind)
  | affineYield => exact .yield (.inr hkind)
  -- Kinds of affine maps take a result, an array, or both.
  | affineApply map =>
    obtain ⟨result, rest, hresults⟩ := exists_one hres
    simp only [hresults]
    exact .affineApply hkind hresults
  | affineMax map =>
    obtain ⟨result, rest, hresults⟩ := exists_one hres
    simp only [hresults]
    exact .affineExtremum (.inl ⟨hkind, rfl⟩) hresults
  | affineMin map =>
    obtain ⟨result, rest, hresults⟩ := exists_one hres
    simp only [hresults]
    exact .affineExtremum (.inr ⟨hkind, rfl⟩) hresults
  | affineLoad map =>
    obtain ⟨array, indices, hoperands⟩ := exists_one hop
    obtain ⟨result, rest, hresults⟩ := exists_one hres
    simp only [hoperands, hresults]
    exact .affineLoad hkind hoperands hresults
  | affineStore map =>
    obtain ⟨value, array, indices, hoperands⟩ := exists_two hop
    simp only [hoperands]
    exact .affineStore hkind hoperands
  -- Accesses to arrays, and the arrays themselves.
  | load =>
    obtain ⟨array, indices, hoperands⟩ := exists_one hop
    obtain ⟨result, rest, hresults⟩ := exists_one hres
    simp only [hoperands, hresults]
    exact .load hkind hoperands hresults
  | store =>
    obtain ⟨value, array, indices, hoperands⟩ := exists_two hop
    simp only [hoperands]
    exact .store hkind hoperands
  | alloc =>
    obtain ⟨result, rest, hresults⟩ := exists_one hres
    simp only [hresults]
    exact .alloc (.inl hkind) hresults
  | alloca =>
    obtain ⟨result, rest, hresults⟩ := exists_one hres
    simp only [hresults]
    exact .alloc (.inr hkind) hresults
  | tensorStore =>
    obtain ⟨source, array, rest, hoperands⟩ := exists_two hop
    simp only [hoperands]
    exact .tensorStore hkind hoperands
  | tensorToMemref =>
    obtain ⟨source, rest, hoperands⟩ := exists_one hop
    obtain ⟨result, others, hresults⟩ := exists_one hres
    simp only [hoperands, hresults]
    exact .tensorToMemref hkind hoperands hresults
  -- What is known from shapes, constants and casts.
  | dim =>
    obtain ⟨array, index, rest, hoperands⟩ := exists_two hop
    obtain ⟨result, others, hresults⟩ := exists_one hres
    simp only [hoperands, hresults]
    exact .dim hkind hoperands hresults
  | rank =>
    obtain ⟨array, rest, hoperands⟩ := exists_one hop
    obtain ⟨result, others, hresults⟩ := exists_one hres
    simp only [hoperands, hresults]
    exact .rank hkind hoperands hresults
  | constant =>
    obtain ⟨result, rest, hresults⟩ := exists_one hres
    simp only [hresults]
    exact .constant hkind hresults
  | cast kind =>
    obtain ⟨operand, rest, hoperands⟩ := exists_one hop
    obtain ⟨result, others, hresults⟩ := exists_one hres
    simp only [hoperands, hresults]
    exact .cast hkind hoperands hresults
  -- Kinds that compute an element differ in the number of operands of the formula.
  | tensorLoad | assign | unary operation =>
    obtain ⟨source, rest, hoperands⟩ := exists_one hop
    obtain ⟨result, others, hresults⟩ := exists_one hres
    simp only [hoperands, hresults]
    exact .compute (by rw [hkind, hoperands]; constructor) hresults
  | binary operation | cmpI predicate =>
    obtain ⟨lhs, rhs, rest, hoperands⟩ := exists_two hop
    obtain ⟨result, others, hresults⟩ := exists_one hres
    simp only [hoperands, hresults]
    exact .compute (by rw [hkind, hoperands]; constructor) hresults
  | cmpF predicate =>
    obtain ⟨lhs, rhs, rest, hoperands⟩ := exists_two hop
    obtain ⟨result, others, hresults⟩ := exists_one hres
    simp only [hoperands, hresults]
    cases hoperator : predicate.operator? with
    | none => exact .incomparable hkind hoperator
    | some operator => exact .compute (by rw [hkind, hoperands]; exact .cmpF hoperator) hresults
  | select =>
    obtain ⟨condition, onTrue, onFalse, rest, hoperands⟩ := exists_three hop
    obtain ⟨result, others, hresults⟩ := exists_one hres
    simp only [hoperands, hresults]
    exact .compute (by rw [hkind, hoperands]; constructor) hresults
  -- The other kinds need no parts, or check them by themselves.
  | call callee => exact .call hkind
  | ip kind => exact .accelerator hkind
  | ipCall name => exact .blockCall hkind
  | dealloc => exact .silent (.inl hkind)
  | ret => exact .silent (.inr (.inl hkind))
  | finish => exact .silent (.inr (.inr hkind))
  | other name => exact .unknown hkind

/-- An operation with these parts has this rule. -/
theorem Op.Ruled.rule_eq {rule : Except Obstacle Plan} (h : op.Ruled arena t owner rule) :
    op.rule arena t owner = rule := by
  cases h with
  | compute hkind hresults =>
    unfold Op.rule
    -- the kind and the operands are those of the formula
    generalize op.kind = kind, op.operands = operands at hkind
    cases hkind with
    | cmpF hoperator => simp only [hresults, hoperator]; rfl
    | _ => simp only [hresults]; rfl
  | yield hkind => rcases hkind with hkind | hkind <;> simp only [Op.rule, hkind]
  | affineExtremum hkind hresults =>
    rcases hkind with ⟨hkind, rfl⟩ | ⟨hkind, rfl⟩ <;> simp only [Op.rule, hkind, hresults]
  | alloc hkind hresults => rcases hkind with hkind | hkind <;> simp only [Op.rule, hkind, hresults]
  | silent hkind => rcases hkind with hkind | hkind | hkind <;> simp only [Op.rule, hkind] <;> rfl
  | scfIf | load | store | tensorStore | incomparable | cast | call | blockCall | unknown =>
    simp only [Op.rule, *]
    rfl
  | _ => simp only [Op.rule, *]

end

end HlsEmit
