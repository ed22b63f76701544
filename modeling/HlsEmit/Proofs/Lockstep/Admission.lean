import HlsEmit.Proofs.Account.Operation
import HlsEmit.Proofs.Lockstep.Statement

/-!
# Admission in lockstep

Whether an operation is admitted, and with which plan, depends on what the name table tells about
its own operands and results only. So alike operations have alike plans, or the same in their way.

## Key results

- `Op.Ruled.values`: a plan mentions no values but those of its operation and of the one around
- `plan_alike`: the plans of alike operations
-/

namespace HlsEmit

open Code

/-- Alike operations around others, or none around either. -/
abbrev OwnerAlike (exact : Bool) (owner owner' : Option Op) : Prop :=
  Option.Rel (Op.Alike exact) owner owner'

/-- The same plan but for the operation around, or the same in the way. -/
inductive PlansAlike (exact : Bool) : Except Obstacle Plan → Except Obstacle Plan → Prop
  | ok {plan plan' : Plan} (h : PlanAlike exact plan plan') : PlansAlike exact (.ok plan) (.ok plan')
  | error (obstacle : Obstacle) : PlansAlike exact (.error obstacle) (.error obstacle)

/-- Equal checks have alike plans. -/
theorem PlansAlike.of_eq {exact : Bool} {x y : Except Obstacle Plan} (h : x = y) :
    PlansAlike exact x y := by
  subst h
  cases x with
  | ok plan => exact .ok (.same plan)
  | error obstacle => exact .error obstacle

/-! ## Regions -/

/-- Alike operations have as many regions. -/
theorem Op.Alike.counts {exact : Bool} {op op' : Op} (h : op.Alike exact op') :
    op.counts = op'.counts := by
  have hregions := congrArg List.length h.args
  rw [List.length_map, List.length_map] at hregions
  rw [Op.counts, Op.counts, h.operands, h.results, hregions]

/-- Where an operation has a first region, alike ones have one with the same arguments. -/
theorem Op.Alike.firstRegion {exact : Bool} {op op' : Op} (h : op.Alike exact op') {body : Block}
    {rest : List Block} (hregions : op.regions = body :: rest) :
    ∃ body' rest', op'.regions = body' :: rest' ∧ body.args = body'.args := by
  have hargs := h.args
  rw [hregions, List.map_cons] at hargs
  obtain ⟨body', rest', hregions', hbody, -⟩ := List.map_eq_cons_iff.1 hargs.symm
  exact ⟨body', rest', hregions', hbody.symm⟩

/-- The index of a body is asked of its arguments only. -/
theorem BlockOf.checkIndex_eq {body body' : Block} (h : body.args = body'.args) :
    body.checkIndex = body'.checkIndex := by
  rw [checkIndex, checkIndex, h]

/-- A nest is planned from the arguments of its body only. -/
theorem planNest_eq {body body' : Block} (h : body.args = body'.args) (lower upper : AffineBound)
    (steps : List Int64) : planNest lower upper steps body = planNest lower upper steps body' := by
  rw [planNest, planNest, h]

/-! ## What the name table tells -/

section Tables

variable {arena : Arena} {ids : ValueId → Prop} {t t' : NameTable}

/-- A map is checked alike where its operands have the same names. -/
theorem AffineMap.check_eq (h : t.Agrees ids t') (map : AffineMap) {operands : List ValueId}
    (hids : ∀ id ∈ operands, ids id) :
    map.check arena t operands = map.check arena t' operands := by
  rw [AffineMap.check, AffineMap.check, arena.operandAt_eq h hids]

/-- A set is checked alike where its operands have the same names. -/
theorem IntegerSet.check_eq (h : t.Agrees ids t') (set : IntegerSet) {operands : List ValueId}
    (hids : ∀ id ∈ operands, ids id) :
    set.check arena t operands = set.check arena t' operands := by
  rw [IntegerSet.check, IntegerSet.check, arena.operandAt_eq h hids]

/-- A constant is planned alike where its result has the same name. -/
theorem planConstant_eq (h : t.Agrees ids t') {result : ValueId} (hresult : ids result) :
    planConstant arena t result = planConstant arena t' result := by
  rw [planConstant, planConstant, arena.checkBound_eq h hresult]

/-- Values with the same names are used alike. -/
theorem Arena.uses_eq (h : t.Agrees ids t') {operands : List ValueId}
    (hids : ∀ id ∈ operands, ids id) : operands.map (arena.use t) = operands.map (arena.use t') :=
  List.map_congr_left fun id hid => arena.use_eq h (hids id hid)

end Tables

/-! ## Rules -/

section Rules

variable {exact : Bool} {arena : Arena} {ids : ValueId → Prop} {t t' : NameTable}
variable {op op' : Op} {owner owner' : Option Op}

/-- A yield is planned alike in alike owners. -/
theorem planYield_alike (howner : OwnerAlike exact owner owner') (operands : List ValueId) :
    PlansAlike exact (planYield owner operands) (planYield owner' operands) := by
  unfold planYield
  split
  · exact .ok (.same .nothing)
  · cases howner with
    | none => exact .error _
    | some h =>
      rename_i around around'
      dsimp only
      rw [← h.kind, ← h.results]
      cases around.kind <;> first
        | exact .ok (.same _)
        | exact .ok (.reduce h)
        | exact .error _

/-- The rule of an alike operation has the same parts, and comes to the same but for what it says of an
owner. -/
theorem Op.Ruled.alike {rule : Except Obstacle Plan} (hruled : op.Ruled arena t owner rule)
    (h : op.Alike exact op') (howner : OwnerAlike exact owner owner') (ht : t.Agrees ids t')
    (hoperands : ∀ id ∈ op.operands, ids id) (hresults : ∀ id ∈ op.results, ids id) :
    PlansAlike exact rule (op'.rule arena t' owner') := by
  cases hruled with
  -- the first region has the same arguments
  | scfFor hkind hops hregs =>
    obtain ⟨body', rest', hregs', hargs⟩ := h.firstRegion hregs
    rw [(scfFor (h.kind ▸ hkind) (h.operands ▸ hops) hregs').rule_eq, BlockOf.checkIndex_eq hargs]
    exact .of_eq rfl
  | scfIf hkind hops hregs =>
    obtain ⟨body', rest', hregs', -⟩ := h.firstRegion hregs
    exact .of_eq (scfIf (h.kind ▸ hkind) (h.operands ▸ hops) hregs').rule_eq.symm
  | affineFor hkind hregs =>
    obtain ⟨body', rest', hregs', hargs⟩ := h.firstRegion hregs
    rw [(affineFor (h.kind ▸ hkind) hregs').rule_eq, BlockOf.checkIndex_eq hargs]
    exact .of_eq rfl
  | affineIf hkind hregs =>
    obtain ⟨body', rest', hregs', -⟩ := h.firstRegion hregs
    rw [(affineIf (h.kind ▸ hkind) hregs').rule_eq, ← h.operands, IntegerSet.check_eq ht _ hoperands]
    exact .of_eq rfl
  | affineParallel hkind hregs =>
    obtain ⟨body', rest', hregs', hargs⟩ := h.firstRegion hregs
    rw [(affineParallel (h.kind ▸ hkind) hregs').rule_eq, planNest_eq hargs]
    exact .of_eq rfl
  | yield hkind =>
    rw [(yield (h.kind ▸ hkind)).rule_eq, ← h.operands]
    exact planYield_alike howner op.operands
  -- the inputs of a map have the same names: all operands, or those behind the array
  | affineApply hkind hress =>
    rw [(affineApply (h.kind ▸ hkind) (h.results ▸ hress)).rule_eq, ← h.operands,
      AffineMap.checkFirst, AffineMap.checkFirst, AffineMap.check_eq ht _ hoperands]
    exact .of_eq rfl
  | affineExtremum hkind hress =>
    rw [(affineExtremum (h.kind ▸ hkind) (h.results ▸ hress)).rule_eq, ← h.operands,
      AffineMap.check_eq ht _ hoperands]
    exact .of_eq rfl
  | affineLoad hkind hops hress =>
    rw [hops, List.forall_mem_cons] at hoperands
    rw [(affineLoad (h.kind ▸ hkind) (h.operands ▸ hops) (h.results ▸ hress)).rule_eq,
      AffineMap.check_eq ht _ hoperands.2]
    exact .of_eq rfl
  | affineStore hkind hops =>
    rw [hops, List.forall_mem_cons, List.forall_mem_cons] at hoperands
    rw [(affineStore (h.kind ▸ hkind) (h.operands ▸ hops)).rule_eq,
      AffineMap.check_eq ht _ hoperands.2.2]
    exact .of_eq rfl
  -- whether the result has a name already is the same
  | alloc hkind hress =>
    rw [hress, List.forall_mem_cons] at hresults
    rw [(alloc (h.kind ▸ hkind) (h.results ▸ hress)).rule_eq, arena.checkBound_eq ht hresults.1]
    exact .of_eq rfl
  | tensorToMemref hkind hops hress =>
    rw [hress, List.forall_mem_cons] at hresults
    rw [(tensorToMemref (h.kind ▸ hkind) (h.operands ▸ hops) (h.results ▸ hress)).rule_eq,
      arena.checkBound_eq ht hresults.1]
    exact .of_eq rfl
  | constant hkind hress =>
    rw [hress, List.forall_mem_cons] at hresults
    rw [(constant (h.kind ▸ hkind) (h.results ▸ hress)).rule_eq, planConstant_eq ht hresults.1]
    exact .of_eq rfl
  | accelerator hkind =>
    rw [(accelerator (h.kind ▸ hkind)).rule_eq, ← h.operands, Arena.uses_eq ht hoperands]
    exact .of_eq rfl
  -- the other rules do not read the name table
  | load hkind hops hress =>
    exact .of_eq (load (h.kind ▸ hkind) (h.operands ▸ hops) (h.results ▸ hress)).rule_eq.symm
  | store hkind hops => exact .of_eq (store (h.kind ▸ hkind) (h.operands ▸ hops)).rule_eq.symm
  | compute hkind hress =>
    exact .of_eq (compute (h.kind ▸ h.operands ▸ hkind) (h.results ▸ hress)).rule_eq.symm
  | incomparable hkind hoperator =>
    exact .of_eq (incomparable (h.kind ▸ hkind) hoperator).rule_eq.symm
  | tensorStore hkind hops =>
    exact .of_eq (tensorStore (h.kind ▸ hkind) (h.operands ▸ hops)).rule_eq.symm
  | dim hkind hops hress =>
    exact .of_eq (dim (h.kind ▸ hkind) (h.operands ▸ hops) (h.results ▸ hress)).rule_eq.symm
  | rank hkind hops hress =>
    exact .of_eq (rank (h.kind ▸ hkind) (h.operands ▸ hops) (h.results ▸ hress)).rule_eq.symm
  | cast hkind hops hress =>
    exact .of_eq (cast (h.kind ▸ hkind) (h.operands ▸ hops) (h.results ▸ hress)).rule_eq.symm
  | call hkind => exact .of_eq (call (h.kind ▸ hkind)).rule_eq.symm
  | blockCall hkind => exact .of_eq (blockCall (h.kind ▸ hkind)).rule_eq.symm
  | silent hkind => exact .of_eq (silent (h.kind ▸ hkind)).rule_eq.symm
  | unknown hkind => exact .of_eq (unknown (h.kind ▸ hkind)).rule_eq.symm

/-- Alike operations have alike plans, or the same is in their way. -/
theorem plan_alike (h : op.Alike exact op') (howner : OwnerAlike exact owner owner')
    (ht : t.Agrees ids t') (hoperands : ∀ id ∈ op.operands, ids id)
    (hresults : ∀ id ∈ op.results, ids id) :
    PlansAlike exact (op.plan arena t owner) (op'.plan arena t' owner') := by
  unfold Op.plan
  rw [← h.counts, ← h.kind]
  split
  · next hcovers => exact (Op.ruled hcovers).alike h howner ht hoperands hresults
  · exact .error _

end Rules

/-! ## The values of a plan -/

section Values

variable {ids : ValueId → Prop} {arena : Arena} {t : NameTable} {owner : Option Op} {op : Op}

/-- The index of a body is one of its arguments. -/
theorem admits_indexValue {body : Block} (h : ∀ id ∈ body.args, ids id) :
    Admits ids (fun _ => True) body.checkIndex := by
  unfold BlockOf.checkIndex
  cases hargs : body.args with
  | nil => trivial
  | cons index rest => exact h index (by simp [hargs])

/-- An accepted bound reads its own operands. -/
theorem admits_boundValues {bound : AffineBound} (h : ∀ id ∈ bound.operands, ids id) (needed : Nat) :
    Admits (fun values => ∀ value ∈ values, ∀ id ∈ value.operands, ids id) (fun _ => True)
      (bound.check needed) := by
  unfold AffineBound.check
  refine Admits.bind (.always _) fun inputs _ => ?_
  split
  · intro value hvalue id hid
    rw [AffineBound.operands_of_mem_values hvalue] at hid
    exact h id hid
  · trivial

/-- The loops of a nest read its arguments and its bounds. -/
theorem admits_nestLoops {indices : List ValueId} {lowers uppers : List AffineValue}
    {steps : List Int64} (hindices : ∀ id ∈ indices, ids id)
    (hlowers : ∀ value ∈ lowers, ∀ id ∈ value.operands, ids id)
    (huppers : ∀ value ∈ uppers, ∀ id ∈ value.operands, ids id) :
    Admits (fun loops => ∀ id ∈ loops.flatMap NestLoop.values, ids id) (fun _ => True)
      (nestLoops indices lowers uppers steps) := by
  -- On the indices; where a bound or a step is lacking nothing is accepted.
  induction indices generalizing lowers uppers steps with
  | nil => simp [nestLoops, Admits, Pure.pure, Except.pure]
  | cons index indices ih =>
    cases lowers with
    | nil => trivial
    | cons lower lowers =>
      cases uppers with
      | nil => trivial
      | cons upper uppers =>
        cases steps with
        | nil => trivial
        | cons step steps =>
          rw [List.forall_mem_cons] at hindices hlowers huppers
          refine Admits.bind (ih hindices.2 hlowers.2 huppers.2) fun loops hloops => ?_
          intro id hid
          simp only [List.flatMap_cons, NestLoop.values, List.cons_append, List.mem_cons,
            List.mem_append] at hid
          obtain rfl | (hid | hid) | hid := hid
          · exact hindices.1
          · exact hlowers.1 id hid
          · exact huppers.1 id hid
          · exact hloops id hid

/-- An accepted nest mentions the arguments of its body and the operands of its bounds. -/
theorem admits_nestValues {lower upper : AffineBound} {body : Block}
    (hlower : ∀ id ∈ lower.operands, ids id) (hupper : ∀ id ∈ upper.operands, ids id)
    (hargs : ∀ id ∈ body.args, ids id) (steps : List Int64) :
    Admits (fun plan => ∀ id ∈ plan.values, ids id) (fun _ => True)
      (planNest lower upper steps body) := by
  unfold planNest
  dsimp only
  split
  · trivial
  refine Admits.bind (admits_boundValues hlower _) fun lowers hlowers => ?_
  refine Admits.bind (admits_boundValues hupper _) fun uppers huppers => ?_
  split
  · trivial
  exact Admits.bind (admits_nestLoops hargs hlowers huppers) fun loops hloops => hloops

/-- An accepted yield mentions results and arguments of its owner. -/
theorem admits_yieldValues (operands : List ValueId)
    (howner : ∀ around ∈ owner, ∀ id ∈ around.results ++ around.firstArgs, ids id) :
    Admits (fun plan => ∀ id ∈ plan.values, ids id) (fun _ => True) (planYield owner operands) := by
  unfold planYield
  split
  · simp [Admits, Plan.values]
  · cases owner with
    | none => trivial
    | some around =>
      have haround := howner around rfl
      have hresults := (List.forall_mem_append.1 haround).1
      dsimp only
      cases around.kind <;> first
        | exact hresults
        | exact haround
        | trivial

/-- A copied constant is the only one with a place of its own. -/
theorem admits_constantValues {result : ValueId} (hresult : ids result) :
    Admits (fun plan => ∀ id ∈ plan.values, ids id) (fun _ => True)
      (planConstant arena t result) := by
  unfold planConstant
  refine Admits.bind (.always _) fun bound _ => ?_
  -- Bound already, without elements, or with elements that are all literals.
  split
  · simp [Admits, Plan.values, pure, Except.pure]
  refine Admits.bind (.always _) fun info _ => ?_
  split
  · dsimp only
    split
    · trivial
    split
    · trivial
    split
    · simpa [Admits, Plan.values, pure, Except.pure] using hresult
    · trivial
  · trivial

/-- A plan that mentions operands and results only. -/
theorem Op.admits_own {plan : Plan} (hown : ∀ id ∈ op.operands ++ op.results, ids id)
    (h : ∀ id ∈ plan.values, id ∈ op.operands ++ op.results) :
    Admits (fun plan => ∀ id ∈ plan.values, ids id) (fun _ => True)
      (Except.ok plan : Except Obstacle Plan) :=
  fun id hid => hown id (h id hid)

/-- A loop between affine bounds mentions its index and what the bounds are about. -/
theorem admits_affineForValues {lower upper : AffineBound} {body : Block}
    (hlower : ∀ id ∈ lower.operands, ids id) (hupper : ∀ id ∈ upper.operands, ids id)
    (hargs : ∀ id ∈ body.args, ids id) (step : Int64) :
    Admits (fun plan : Plan => ∀ id ∈ plan.values, ids id) (fun _ => True) (do
      let lowers ← lower.check 1
      let uppers ← upper.check 1
      return .loop (← body.checkIndex) (.affine "max" lowers) (.affine "min" uppers)
        (.code (.integer step.toInt))) := by
  refine Admits.bind (admits_boundValues hlower 1) fun lowers hlowers => ?_
  refine Admits.bind (admits_boundValues hupper 1) fun uppers huppers => ?_
  refine Admits.bind (admits_indexValue hargs) fun index hindex => ?_
  intro id hid
  simp only [Plan.values, Term.values, List.append_nil, List.cons_append, List.mem_cons,
    List.mem_append, List.mem_flatMap] at hid
  -- The index, or an operand of the lower bound, or one of the upper bound.
  obtain rfl | ⟨value, hvalue, hid⟩ | ⟨value, hvalue, hid⟩ := hid
  · exact hindex
  · exact hlowers value hvalue id hid
  · exact huppers value hvalue id hid

/-- A plan mentions no values but those of its operation and of the one around. -/
theorem Op.Ruled.values {rule : Except Obstacle Plan} (h : op.Ruled arena t owner rule)
    (hown : ∀ id ∈ op.ownMentioned, ids id)
    (howner : ∀ around ∈ owner, ∀ id ∈ around.results ++ around.firstArgs, ids id) :
    Admits (fun plan => ∀ id ∈ plan.values, ids id) (fun _ => True) rule := by
  rw [Op.ownMentioned, List.forall_mem_append, List.forall_mem_append] at hown
  obtain ⟨⟨hparts, hbounds⟩, hargs⟩ := hown
  cases h with
  -- loops mention indices and bounds besides
  | scfFor hkind hops hregs =>
    rw [Op.firstArgs, hregs] at hargs
    refine Admits.bind (admits_indexValue hargs) fun index hindex => ?_
    intro id hid
    simp only [Plan.values, Term.values, List.cons_append, List.nil_append, List.mem_cons,
      List.not_mem_nil, or_false] at hid
    obtain rfl | hid := hid
    · exact hindex
    · exact hparts id (by obtain rfl | rfl | rfl := hid <;> simp [hops])
  | affineFor hkind hregs =>
    rw [hkind, OpKind.mentioned, List.forall_mem_append] at hbounds
    rw [Op.firstArgs, hregs] at hargs
    exact admits_affineForValues hbounds.1 hbounds.2 hargs _
  | affineParallel hkind hregs =>
    rw [hkind, OpKind.mentioned, List.forall_mem_append] at hbounds
    rw [Op.firstArgs, hregs] at hargs
    exact admits_nestValues hbounds.1 hbounds.2 hargs _
  | yield => exact admits_yieldValues op.operands howner
  -- all others mention operands and results only
  | scfIf hkind hops =>
    exact op.admits_own hparts (by simp [Plan.values, Term.values, hops])
  | affineIf =>
    exact .bind (.always _) fun _ _ => op.admits_own hparts (by simp [Plan.values, Term.values])
  | affineApply hkind hres | affineExtremum hkind hres =>
    exact .bind (.always _) fun _ _ => op.admits_own hparts (by simp [Plan.values, hres])
  | affineLoad hkind hops hres =>
    exact .bind (.always _) fun _ _ => op.admits_own hparts (by simp [Plan.values, hops, hres])
  | affineStore hkind hops =>
    exact .bind (.always _) fun _ _ => op.admits_own hparts (by simp [Plan.values, hops])
  | load hkind hops hres =>
    exact op.admits_own hparts (by simp +contextual [Plan.values, hops, hres])
  | store hkind hops =>
    refine op.admits_own hparts fun id hid => ?_
    simp only [Plan.values, Place.values_element, Place.values_scalar, List.mem_append, List.mem_cons,
      List.not_mem_nil, or_false] at hid
    rw [hops]
    obtain (rfl | hid) | rfl := hid
    · simp
    · simp [hid]
    · simp
  | alloc hkind hres =>
    refine .bind (.always _) fun bound _ => op.admits_own hparts ?_
    cases bound <;> simp [Plan.values, hres]
  | tensorToMemref hkind hops hres =>
    refine .bind (.always _) fun bound _ => op.admits_own hparts ?_
    cases bound <;> simp [Plan.values, Formula.values, hops, hres]
  | constant hkind hres => exact admits_constantValues (hparts _ (by simp [hres]))
  | dim hkind hops hres | rank hkind hops hres =>
    exact .bind (.always _) fun _ _ => op.admits_own hparts (by simp [Plan.values, hres])
  | compute hkind hres =>
    refine op.admits_own hparts (List.forall_mem_cons.2 ⟨by simp [hres], fun id hid => ?_⟩)
    exact List.mem_append_left _ (hkind.values id hid)
  | tensorStore hkind hops =>
    exact op.admits_own hparts (by simp [Plan.values, Formula.values, hops])
  | cast hkind hops hres => exact op.admits_own hparts (by simp [Plan.values, hops, hres])
  | accelerator =>
    exact .bind (.always _) fun _ _ => op.admits_own hparts (by simp [Plan.values])
  | call | blockCall | silent => exact op.admits_own hparts (by simp [Plan.values])
  | incomparable | unknown => trivial

/-- The same of the plan that an operation has, if it has one. -/
theorem Op.plan_values (hown : ∀ id ∈ op.ownMentioned, ids id)
    (howner : ∀ around ∈ owner, ∀ id ∈ around.results ++ around.firstArgs, ids id) :
    Admits (fun plan => ∀ id ∈ plan.values, ids id) (fun _ => True) (op.plan arena t owner) := by
  unfold Op.plan
  split
  · next hcovers => exact (Op.ruled hcovers).values hown howner
  · trivial

end Values

end HlsEmit
