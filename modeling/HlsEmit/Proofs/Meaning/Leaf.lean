import HlsEmit.Proofs.Meaning.Access
import HlsEmit.Proofs.Meaning.Compute
import HlsEmit.Proofs.Scoping.Operation

/-!
# Operations without regions

One lemma for each kind of operation of the structured core that has no regions: what is planned for
it carries out what it means.

## Key results

- `carries_leaf`: any operation without regions
-/

namespace HlsEmit

open Cpp (Machine Env)
open Code

variable {V : Type}

/-- An operation whose turn has come: what it uses is held, and what it defines is to come. -/
structure Turn (m : Machine V) (meaning : Meaning V) (c : Contract) (limit : Nat)
    (held : ValueId → Prop) (t : NameTable) (op : Op) : Prop where
  supports : Supports m meaning c limit
  holding : Holding c.arena t held
  uses : ∀ id ∈ op.operands ++ op.kind.mentioned, held id ∧ id ∉ op.results
  results : ∀ id ∈ op.results, Awaits c held t id
  literals : op.literalsFit c.arena = true
  selects : m.Selects meaning c.arena op

namespace Turn

variable {m : Machine V} {meaning : Meaning V} {c : Contract} {limit : Nat} {held : ValueId → Prop}
variable {t : NameTable} {op : Op}

/-- The result of an operation that is no constant is no literal. -/
theorem not_literal (h : Turn m meaning c limit held t op) (hkind : op.kind ≠ .constant) :
    ∀ id ∈ op.results, c.arena.constantText? id = none := by
  have hliterals := h.literals
  rw [Op.literalsFit, if_neg hkind, List.all_eq_true] at hliterals
  intro id hid
  exact Option.isNone_iff_eq_none.1 (hliterals id (List.mem_append_left _ hid))

/-- The operands of a turn are held. -/
theorem operands (h : Turn m meaning c limit held t op) : ∀ id ∈ op.operands, held id :=
  fun id hid => (h.uses id (List.mem_append_left _ hid)).1

/-- The only result of an operation is none of its operands. -/
theorem apart (h : Turn m meaning c limit held t op) {result : ValueId} (hresult : op.results = [result]) :
    ∀ id ∈ op.operands, held id ∧ id ≠ result := by
  intro id hid
  obtain ⟨hheld, hnot⟩ := h.uses id (List.mem_append_left _ hid)
  rw [hresult, List.mem_singleton] at hnot
  exact ⟨hheld, hnot⟩

end Turn

/-- Values of the same shape are arrays together. -/
theorem Arena.isShaped_eq {arena : Arena} {id id' : ValueId} (h : arena.sameShape id id' = true) :
    (arena.info id).isShaped = (arena.info id').isShaped :=
  congrArg Shape.isShaped (of_decide_eq_true h)

/-! ## Spellings -/

/-- The operator of a binary operation has its symbol. -/
theorem BinaryOp.symbol_operator (op : BinaryOp) : op.operator.symbol = op.cppOperator := by
  cases op <;> rfl

/-- No binary operation is a conjunction of conditions. -/
theorem BinaryOp.operator_ne_and (op : BinaryOp) : op.operator ≠ .and := by
  cases op <;> decide

/-- The operator of an integer comparison has its symbol. -/
theorem CmpIPredicate.symbol_operator (predicate : CmpIPredicate) :
    predicate.operator.symbol = predicate.cppOperator := by
  cases predicate <;> rfl

/-- No integer comparison is a conjunction of conditions. -/
theorem CmpIPredicate.operator_ne_and (predicate : CmpIPredicate) : predicate.operator ≠ .and := by
  cases predicate <;> decide

/-- The operator of a float comparison has its symbol, and is no conjunction. -/
theorem CmpFPredicate.operator_eq {predicate : CmpFPredicate} {operator : Operator}
    (h : predicate.operator? = some operator) :
    operator ≠ .and ∧ predicate.cppOperator? = some operator.symbol := by
  cases predicate <;> cases h <;> exact ⟨by decide, rfl⟩

/-! ## Arrays and maps -/

/-- A static array has at least one subscript. -/
theorem Arena.isArray_ne_zero {arena : Arena} {array : ValueId} {rank : Nat}
    (hstatic : (arena.info array).shape.isStatic = true) (h : arena.isArray array rank = true) :
    (arena.info array).isShaped = true ∧ rank ≠ 0 := by
  simp only [isArray, Bool.and_eq_true, decide_eq_true_eq] at h
  refine ⟨h.1, ?_⟩
  rintro rfl
  cases hshape : (arena.info array).shape with
  | scalar => rw [ValueInfo.isShaped, hshape] at h; cases h.1
  | unranked => rw [hshape] at hstatic; cases hstatic
  | ranked extents =>
    rw [hshape, Shape.rank?, Option.some.injEq, List.length_eq_zero_iff] at h
    rw [hshape, h.2] at hstatic
    cases hstatic

/-- The code of a map that is admitted. -/
theorem AffineMap.of_check {arena : Arena} {t : NameTable} {map : AffineMap}
    {operands : List ValueId} {codes : List Expr} (h : map.check arena t operands = .ok codes) :
    codes = map.code (arena.operandAt t operands) ∧
      map.dims.toNat + map.symbols.toNat = operands.length ∧ map.results ≠ [] := by
  unfold check at h
  -- The inputs are counted first, then compared with the operands.
  cases hinputs : countInputs map.dims map.symbols with
  | error obstacle => rw [hinputs] at h; cases h
  | ok inputs =>
    rw [hinputs] at h
    obtain rfl : inputs = map.dims.toNat + map.symbols.toNat := by
      unfold countInputs at hinputs
      dsimp only at hinputs
      split at hinputs
      · cases hinputs
        rfl
      · cases hinputs
    simp only [bind, Except.bind] at h
    split at h
    · next hboth =>
      cases h
      exact ⟨rfl, hboth⟩
    · cases h

namespace Emission

variable {m : Machine V} {meaning : Meaning V} {limit limit' : Nat} {c : Contract}
variable {function : Option String} {t : NameTable} {held : ValueId → Prop} {owner : Option Op}
variable {around : List ValueId} {op : Op} {attrs : OpAttrs} {line : Option UInt32}

/-- An operation is carried out as it is planned, or what is in its way is reported. -/
theorem carries_planned {bodies : List (Emission (List Stmt))} {post : List Stmt → NameTable → Prop}
    (h : Turn m meaning c limit held t op)
    (hplanned : ∀ plan, op.plan c.arena t owner = .ok plan →
      Places c function t (render op bodies plan) post) :
    Places c function t (operation owner op bodies) post := by
  have hoperands : ∀ id ∈ op.operands, (c.arena.info? id).isSome := fun id hid =>
    (h.holding.known id (h.uses id (List.mem_append_left _ hid)).1).listed
  have hresults : ∀ id ∈ op.results, (c.arena.info? id).isSome := fun id hid =>
    c.known id (h.results id hid).value
  -- An obstacle raises an error or an overrun, and the emission has neither.
  have hadmits : Admits (op.Planned c.arena t owner) (Obstacle.Within op.kind.inputs)
      (op.plan c.arena t owner) := Op.plan_admits hoperands hresults
  rw [Places, operation_run]
  refine Places.bind fun _ => ?_
  show Places c function t (carryOut op bodies (op.plan c.arena t owner)) _
  cases hplan : op.plan c.arena t owner with
  | ok plan => exact hplanned plan hplan
  | error obstacle =>
    rw [hplan] at hadmits
    cases obstacle with
    | problem p => exact .bindError hadmits.2
    | overrun missing =>
      refine .bind fun hclean => ?_
      have hmissing := hclean.overruns
      cases hmissing

/-! ## Kinds of operations -/

/-- An operation that computes its result element by element. -/
theorem carries_elementwise {result : ValueId} {formula : Formula}
    {element : State V → List Int → Option V} (h : Turn m meaning c limit held t op)
    (hresult : op.results = [result]) (hkind : op.kind ≠ .constant)
    (hplanned : ∀ plan, op.plan c.arena t owner = .ok plan → plan = .compute result formula)
    (hsource : formula.Denotes m meaning c.arena (fun id => held id ∧ id ≠ result) result element)
    (bodies : List (Emission (List Stmt))) :
    Places c function t (operation owner op bodies)
      (Carries m limit c.arena [result] [] held t fun σ =>
        meaning.compute c.arena σ result (element σ)) := by
  have hmem : result ∈ op.results := by simp [hresult]
  refine carries_planned h fun plan hplan => ?_
  rw [hplanned plan hplan]
  exact carries_compute h.supports h.holding op (h.results result hmem) (h.not_literal hkind result hmem)
    hsource

/-- An operation that sets its result to the value of a place. -/
theorem carries_scalar {result : ValueId} {source : Place} {f : State V → Option V}
    (h : Turn m meaning c limit held t op) (hresult : op.results = [result]) (hkind : op.kind ≠ .constant)
    (hvalues : ∀ id ∈ source.values, held id)
    (hsource : Denotes m c.arena held t (fun t' => source.heldCode c.arena t') f)
    (bodies : List (Emission (List Stmt))) :
    Places c function t (render op bodies (.assign (.scalar result) source))
      (Carries m limit c.arena [result] [] held t fun σ => do
        meaning.setScalar c.arena σ result (← f σ)) := by
  have hmem : result ∈ op.results := by simp [hresult]
  exact carries_assign h.supports h.holding op (h.results result hmem) (h.not_literal hkind result hmem)
    hvalues hsource bodies

/-- A load. -/
theorem carries_load {array result : ValueId} {indices : List Term} {f : State V → Option (List Int)}
    (h : Turn m meaning c limit held t op) (hresult : op.results = [result]) (hkind : op.kind ≠ .constant)
    (harray : held array) (hshaped : (c.arena.info array).isShaped = true) (hne : indices ≠ [])
    (hindices : Indexes m c.arena held t indices f) (bodies : List (Emission (List Stmt))) :
    Places c function t (render op bodies (.assign (.scalar result) ⟨.value array, indices⟩))
      (Carries m limit c.arena [result] [] held t fun σ => do
        meaning.setScalar c.arena σ result (← σ.element? c.arena array (← f σ))) := by
  have hvalues : ∀ id ∈ (⟨.value array, indices⟩ : Place).values, held id := by
    rw [Place.values, List.forall_mem_append]
    exact ⟨by simpa [Term.values] using harray, hindices.values⟩
  refine (carries_scalar h hresult hkind hvalues (denotes_element h.holding harray hshaped hne hindices)
    bodies).mono fun stmts t' hstmts => hstmts.congr fun σ σ' hrun => ?_
  simpa only [Option.bind_eq_bind, Option.bind_assoc] using hrun

/-- A constant has no code of its own. -/
theorem carries_constant {result : ValueId} (h : Holding c.arena t held)
    (hs : Supports m meaning c limit) (hid : c.values result)
    (htext : (c.arena.constantText? result).isSome)
    (hfaithful : (c.arena.info result).constant.all Literal.isFaithful = true) :
    Carries m limit c.arena [result] [] held t (fun σ => meaning.setConstant c.arena σ result) [] t := by
  obtain ⟨text, htext⟩ := Option.isSome_iff_exists.1 htext
  obtain ⟨hshaped, literal, hliteral, hspelled⟩ := Arena.exists_literal htext
  rw [hliteral] at hfaithful
  refine ⟨.refl, ⟨h.valid, ?_, ?_⟩, trivial, ?_⟩
  · rintro id (hmem | hid')
    · rw [List.mem_singleton.1 hmem]
      exact hs.known hid
    · exact h.known id hid'
  · rintro id (hmem | hid') hconst
    · rw [List.mem_singleton.1 hmem, htext] at hconst
      cases hconst
    · exact h.named id hid' hconst
  -- Nothing is executed; the state is set to what the literal already stands for.
  · intro σ σ' env hmatches hrun
    simp only [Meaning.setConstant, hshaped, Bool.false_eq_true, if_false, hliteral] at hrun
    obtain ⟨_, ⟨⟩, hrun⟩ := Option.bind_eq_some_iff.1 hrun
    obtain ⟨value, hvalue, ⟨⟩⟩ := Option.bind_eq_some_iff.1 hrun
    have hset := hmatches.literal htext
      (hs.implements.literals literal text hspelled hfaithful value hvalue)
    exact ⟨env, rfl, hset.mono (by simp), .refl⟩

/-- A constant is set where the text of a literal stands for it. -/
theorem carries_constantOp {result : ValueId}
    (h : Turn m meaning c limit held t ⟨.constant, [], [result], attrs, [], line⟩)
    (htext : (c.arena.constantText? result).isSome) :
    Places c function t (operation owner ⟨.constant, [], [result], attrs, [], line⟩ [])
      (Carries m limit c.arena [result] [] held t
        (meaning.operation c.arena limit' around ⟨.constant, [], [result], attrs, [], line⟩ [])) := by
  have hid := (h.results result (by simp)).value
  have hbound : c.arena.isBound t result = true :=
    Arena.isBound_iff.2 (.inr (Option.isSome_iff_exists.1 htext))
  have hcheck : c.arena.checkBound t result = .ok true := by
    rw [Arena.checkBound_of_known (c.known result hid), hbound]
  have hfaithful : (c.arena.info result).constant.all Literal.isFaithful = true := by
    simpa [Op.literalsFit] using h.literals
  refine carries_planned h fun plan hplan => ?_
  simp [Op.plan, Op.counts, Counts.covers, OpKind.needs, Op.rule, planConstant, hcheck] at hplan
  cases hplan
  exact .pure (carries_constant h.holding h.supports hid htext hfaithful)

/-- A comparison of floats computes with its operator, if it has one. -/
theorem carries_cmpF {predicate : CmpFPredicate} {lhs rhs result : ValueId}
    (h : Turn m meaning c limit held t ⟨.cmpF predicate, [lhs, rhs], [result], attrs, [], line⟩)
    (hlhs : c.arena.sameShape lhs result = true) (hrhs : c.arena.sameShape rhs result = true) :
    Places c function t (operation owner ⟨.cmpF predicate, [lhs, rhs], [result], attrs, [], line⟩ [])
      (Carries m limit c.arena [result] [] held t (meaning.operation c.arena limit' around
        ⟨.cmpF predicate, [lhs, rhs], [result], attrs, [], line⟩ [])) := by
  have hm := h.supports.implements
  cases hoperator : predicate.operator? with
  | none =>
    -- that a comparison has no operator is reported
    refine carries_planned h fun plan hplan => ?_
    simp [Op.plan, Op.counts, Counts.covers, OpKind.needs, Op.rule, hoperator] at hplan
  | some operator =>
    obtain ⟨hne, hsymbol⟩ := CmpFPredicate.operator_eq hoperator
    refine carries_elementwise h rfl (by simp) (fun plan hplan => ?_)
      (Formula.denotes_binary hm hne (hm.cmpF predicate _ hsymbol) (h.apart rfl lhs (by simp))
        (h.apart rfl rhs (by simp)) (Arena.isShaped_eq hlhs) (Arena.isShaped_eq hrhs)) []
    simp [Op.plan, Op.counts, Counts.covers, OpKind.needs, Op.rule, hoperator] at hplan
    exact (Except.ok.inj hplan).symm

/-- An array without a content is declared, unless it is returned and has been declared as a port. -/
theorem carries_alloc {result : ValueId}
    (h : Turn m meaning c limit held t ⟨.alloc, [], [result], attrs, [], line⟩) :
    Places c function t (operation owner ⟨.alloc, [], [result], attrs, [], line⟩ [])
      (Carries m limit c.arena [result] [] held t
        (meaning.operation c.arena limit' around ⟨.alloc, [], [result], attrs, [], line⟩ [])) := by
  have hresult := h.results result (by simp)
  have hconst := h.not_literal (by simp) result (by simp)
  have hcheck := Arena.checkBound_of_known (t := t) (c.known result hresult.value)
  refine carries_planned h fun plan hplan => ?_
  simp [Op.plan, Op.counts, Counts.covers, OpKind.needs, Op.rule, hcheck] at hplan
  -- A port, whose elements are dropped, or an array that is declared here.
  cases hbound : c.arena.isBound t result with
  | true =>
    rw [hbound] at hplan
    cases hplan
    obtain ⟨binding, hbinding⟩ := binding_of_bound hconst hbound
    exact .pure (carries_setBlank h.holding (hresult.declared binding hbinding) hconst)
  | false =>
    rw [hbound] at hplan
    cases hplan
    exact carries_allocate h.supports h.holding _ hresult.value hconst
      (Arena.isBound_eq_false_iff.1 hbound).1 []

/-- A load at the results of a map. -/
theorem carries_affineLoad {map : AffineMap} {array result : ValueId} {inputs : List ValueId}
    (h : Turn m meaning c limit held t ⟨.affineLoad map, array :: inputs, [result], attrs, [], line⟩)
    (harray : c.arena.isArray array map.results.length = true)
    (hmap : map.inCore c.arena inputs = true) :
    Places c function t
      (operation owner ⟨.affineLoad map, array :: inputs, [result], attrs, [], line⟩ [])
      (Carries m limit c.arena [result] [] held t (meaning.operation c.arena limit' around
        ⟨.affineLoad map, array :: inputs, [result], attrs, [], line⟩ [])) := by
  have hoperands := h.operands
  rw [List.forall_mem_cons] at hoperands
  obtain ⟨hshaped, hne⟩ := Arena.isArray_ne_zero (h.holding.known array hoperands.1).static harray
  refine carries_planned h fun plan hplan => ?_
  obtain ⟨codes, hcodes, ⟨⟩⟩ := ok_of_bind hplan
  obtain ⟨rfl, hcount, -⟩ := AffineMap.of_check hcodes
  have hindices := indexes_map h.holding h.supports.implements hoperands.2 hcount hmap
  exact carries_load h rfl (by simp) hoperands.1 hshaped (by simpa [AffineMap.code] using hne)
    hindices []

/-- A store at the results of a map. -/
theorem carries_affineStore {map : AffineMap} {value array : ValueId} {inputs : List ValueId}
    (h : Turn m meaning c limit held t ⟨.affineStore map, value :: array :: inputs, [], attrs, [], line⟩)
    (harray : c.arena.isArray array map.results.length = true)
    (hmap : map.inCore c.arena inputs = true) :
    Places c function t
      (operation owner ⟨.affineStore map, value :: array :: inputs, [], attrs, [], line⟩ [])
      (Carries m limit c.arena [] [] held t (meaning.operation c.arena limit' around
        ⟨.affineStore map, value :: array :: inputs, [], attrs, [], line⟩ [])) := by
  have hoperands := h.operands
  simp only [List.forall_mem_cons] at hoperands
  obtain ⟨hshaped, hne⟩ := Arena.isArray_ne_zero (h.holding.known array hoperands.2.1).static harray
  refine carries_planned h fun plan hplan => ?_
  obtain ⟨codes, hcodes, ⟨⟩⟩ := ok_of_bind hplan
  obtain ⟨rfl, hcount, -⟩ := AffineMap.of_check hcodes
  have hindices := indexes_map h.holding h.supports.implements hoperands.2.2 hcount hmap
  exact carries_store h.supports h.holding _ hoperands.2.1 hshaped hoperands.1
    (by simpa [AffineMap.code] using hne) hindices []

/-- The first result of a map. -/
theorem carries_affineApply {map : AffineMap} {inputs : List ValueId} {result : ValueId}
    (h : Turn m meaning c limit held t ⟨.affineApply map, inputs, [result], attrs, [], line⟩)
    (hmap : map.inCore c.arena inputs = true) :
    Places c function t (operation owner ⟨.affineApply map, inputs, [result], attrs, [], line⟩ [])
      (Carries m limit c.arena [result] [] held t (meaning.operation c.arena limit' around
        ⟨.affineApply map, inputs, [result], attrs, [], line⟩ [])) := by
  refine carries_planned h fun plan hplan => ?_
  -- Through the checks: the map is counted and has a first result.
  obtain ⟨first, hfirst, ⟨⟩⟩ := ok_of_bind hplan
  obtain ⟨codes, hcodes, hfirst⟩ := ok_of_bind hfirst
  obtain ⟨rfl, hcount, hne⟩ := AffineMap.of_check hcodes
  obtain ⟨expr, rest, hresults⟩ := List.exists_cons_of_ne_nil hne
  rw [AffineMap.code, hresults] at hfirst
  cases hfirst
  have hsource : Denotes m c.arena held t (fun t' => Place.heldCode c.arena t'
      ⟨.code (expr.code (c.arena.operandAt t inputs) map.dims.toNat), []⟩) _ :=
    denotes_map h.holding h.supports.implements h.operands hcount hmap hresults
  refine (carries_scalar h rfl (by simp) (by simp [Place.values, Term.values]) hsource []).mono
    fun stmts t' hstmts => hstmts.congr fun σ σ' hrun => ?_
  simpa only [Meaning.operation, Option.bind_eq_bind, Option.bind_assoc] using hrun

/-- Any operation without regions. -/
theorem carries_leaf (h : Turn m meaning c limit held t op) (hform : op.formInCore c.arena = true)
    (hregions : op.regions = []) :
    Places c function t (operation owner op [])
      (Carries m limit c.arena op.results [] held t
        (meaning.operation c.arena limit' around op [])) := by
  have hm := h.supports.implements
  obtain ⟨kind, operands, results, attrs, regions, line⟩ := op
  obtain rfl : regions = [] := hregions
  have hoperands := h.operands
  -- the cases are those of the forms that are in the core
  unfold Op.formInCore at hform
  dsimp only at hform hoperands
  split at hform
  · exact carries_constantOp h hform
  · next operation lhs rhs result _ =>
    rw [Bool.and_eq_true] at hform
    have hcomputes (x y : V) : Refines (meaning.binary operation x y)
        (m.binary operation.operator.symbol x y) := by
      rw [operation.symbol_operator]
      exact hm.binary operation x y
    exact carries_elementwise h rfl (by simp) (fun plan hplan => by cases hplan; rfl)
      (Formula.denotes_binary hm operation.operator_ne_and hcomputes (h.apart rfl lhs (by simp))
        (h.apart rfl rhs (by simp)) (Arena.isShaped_eq hform.1) (Arena.isShaped_eq hform.2)) []
  · rw [Bool.and_eq_true] at hform
    exact carries_cmpF h hform.1 hform.2
  · next predicate lhs rhs result _ =>
    rw [Bool.and_eq_true] at hform
    have hcomputes (x y : V) : Refines (meaning.cmpI predicate x y)
        (m.binary predicate.operator.symbol x y) := by
      rw [predicate.symbol_operator]
      exact hm.cmpI predicate x y
    exact carries_elementwise h rfl (by simp) (fun plan hplan => by cases hplan; rfl)
      (Formula.denotes_binary hm predicate.operator_ne_and hcomputes (h.apart rfl lhs (by simp))
        (h.apart rfl rhs (by simp)) (Arena.isShaped_eq hform.1) (Arena.isShaped_eq hform.2)) []
  · next operation operand result _ =>
    exact carries_elementwise h rfl (by simp) (fun plan hplan => by cases hplan; rfl)
      (Formula.denotes_function hm operation (h.apart rfl operand (by simp)) (Arena.isShaped_eq hform)) []
  · next source result _ =>
    exact carries_elementwise h rfl (by simp) (fun plan hplan => by cases hplan; rfl)
      (Formula.denotes_copy hm (h.apart rfl source (by simp)) (Arena.isShaped_eq hform)) []
  · next condition onTrue onFalse result _ =>
    simp only [Bool.and_eq_true] at hform
    exact carries_elementwise h rfl (by simp) (fun plan hplan => by cases hplan; rfl)
      (Formula.denotes_select hm (h.apart rfl condition (by simp)) (h.apart rfl onTrue (by simp))
        (h.apart rfl onFalse (by simp)) (Arena.isShaped_eq hform.1.2) (Arena.isShaped_eq hform.2)
        h.selects) []
  · exact carries_alloc h
  · next array indices result _ =>
    rw [List.forall_mem_cons] at hoperands
    obtain ⟨hshaped, hne⟩ := Arena.isArray_ne_zero (h.holding.known array hoperands.1).static hform
    have hindices := indexes_values h.holding hm hoperands.2
    refine carries_planned h fun plan hplan => ?_
    cases hplan
    exact carries_load h rfl (by simp) hoperands.1 hshaped (by simpa using hne) hindices []
  · next value array indices _ =>
    simp only [List.forall_mem_cons] at hoperands
    obtain ⟨hshaped, hne⟩ := Arena.isArray_ne_zero (h.holding.known array hoperands.2.1).static hform
    have hindices := indexes_values h.holding hm hoperands.2.2
    refine carries_planned h fun plan hplan => ?_
    cases hplan
    exact carries_store h.supports h.holding _ hoperands.2.1 hshaped hoperands.1 (by simpa using hne)
      hindices []
  · rw [Bool.and_eq_true] at hform
    exact carries_affineLoad h hform.1 hform.2
  · rw [Bool.and_eq_true] at hform
    exact carries_affineStore h hform.1 hform.2
  · exact carries_affineApply h hform
  -- the other forms have regions
  · next heq => cases heq
  · next heq => cases heq
  · next heq => cases heq
  · next heq => cases heq
  · cases hform

end Emission

end HlsEmit
