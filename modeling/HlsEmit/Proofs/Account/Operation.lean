import HlsEmit.Emission.Operation
import HlsEmit.Proofs.Account.Admission
import HlsEmit.Proofs.Pragmas.Built

/-!
# The account of operations and blocks

An operation is dispatched, admitted and written. All three are accounted for, whatever the names
given before, and with them whole blocks, by induction on the operations.

## Key results

- `emits_operation`: one operation, given the account of its regions
- `emits_ofOps`: some operations with everything inside of them
-/

namespace HlsEmit

open Code

/-- The values that an operation mentions itself, without those inside of its regions. -/
def Op.ownMentioned (op : Op) : List ValueId :=
  op.operands ++ op.results ++ op.kind.mentioned ++ op.firstArgs

/-- Whatever is inside of an operation may mention its results and the arguments of its first
region. -/
structure Contract.Around (c : Contract) (around : Op) : Prop where
  results : ∀ id ∈ around.results, c.values id
  args : ∀ id ∈ around.firstArgs, c.values id
  regions : around.regions ≠ []

/-- The maps and sets of some operations have inputs that 32 bits can count, or the contract accepts
that they have not. -/
def Contract.Accepts (c : Contract) (ops : List Op) : Prop :=
  ∀ op ∈ ops, ∀ inputs ∈ op.kind.inputs,
    inputs.1.toNat + inputs.2.toNat < UInt32.size ∨ c.overruns (.inputs inputs.1 inputs.2)

/-- The contract behind a turn, which may also report what the turn is about. -/
def Contract.expecting (c : Contract) (turn : Dispatch) : Contract :=
  { c with reports := fun report => c.reports report ∨ turn.Reports report }

/-! ## Plans -/

section Plans

variable {c : Contract} {t : NameTable} {owner : Option Op} {op : Op} {plan : Plan}

/-- The values of a plan are those of its operation, or the results and indices of the operation
around. -/
theorem Op.Planned.values_of (h : op.Planned c.arena t owner plan)
    (hown : ∀ id ∈ op.ownMentioned, c.values id) (howner : ∀ around ∈ owner, c.Around around) :
    ∀ id ∈ plan.values, c.values id := by
  simp only [Op.ownMentioned, List.forall_mem_append] at hown
  obtain ⟨⟨⟨hoperands, hresults⟩, hkind⟩, hargs⟩ := hown
  have hresult {id : ValueId} (hid : op.Gives id) : c.values id :=
    hresults id (List.mem_of_head? hid.head)
  -- One case per plan: each of its values is an operand, a result, an argument of the first region,
  -- or belongs to the operation around.
  cases plan with
  | nothing | call callee | blockCall name | accelerator operands lines => simp [Plan.values]
  | compute target formula =>
    rw [Plan.values, List.forall_mem_cons]
    exact ⟨h.2.elim hresult fun hstore => hoperands _ hstore.2, fun id hid => hoperands id (h.1 id hid)⟩
  | assign target source =>
    rw [Plan.values, List.forall_mem_append]
    refine ⟨?_, fun id hid => hoperands id (h.1 id hid)⟩
    rcases h.2.2 with ⟨result, hgives, rfl⟩ | ⟨-, htarget⟩
    · simpa using hresult hgives
    · exact fun id hid => hoperands id (htarget id hid)
  | allocate array | define array elements => simpa [Plan.values] using hresult h.1
  | share source result =>
    have hsource := hoperands source (List.mem_of_head? h.2.1)
    simpa [Plan.values] using ⟨hsource, hresult h.2.2.1⟩
  | loop index lower upper step =>
    obtain ⟨-, ⟨body, rest, args, hregions, hbody⟩, hterms, -⟩ := h
    have hterms' : ∀ id ∈ lower.values ++ upper.values ++ step.values, c.values id := by
      intro id hid
      exact (List.mem_append.1 (hterms id hid)).elim (hoperands id) (hkind id)
    simp only [Plan.values, List.cons_append, List.forall_mem_cons]
    exact ⟨hargs index (by simp [Op.firstArgs, hregions, hbody]), hterms'⟩
  | branch condition => exact fun id hid => hoperands id (h.2.2.1 id hid)
  | nest loops =>
    obtain ⟨-, ⟨body, rest, hregions, hindices⟩, hbounds⟩ := h
    intro id hid
    obtain ⟨loop, hloop, hid⟩ := List.mem_flatMap.1 hid
    rw [NestLoop.values, List.cons_append, List.mem_cons] at hid
    rcases hid with rfl | hid
    · refine hargs _ ?_
      rw [Op.firstArgs, hregions]
      change loop.index ∈ body.args
      exact hindices ▸ List.mem_map_of_mem hloop
    · exact hkind id (hbounds loop hloop id hid)
  | deliver results =>
    obtain ⟨-, around, howns, rfl, -⟩ := h
    exact (howner around howns).results
  | reduce around =>
    have haround := howner around h.2.1
    rw [Plan.values, List.forall_mem_append]
    exact ⟨haround.results, haround.args⟩

/-- The code of a plan uses the operands of the operation as they are called when it is admitted. -/
theorem Op.Planned.mentions_of (h : op.Planned c.arena t owner plan)
    (hoperands : ∀ id ∈ op.operands, c.values id) :
    ∀ m ∈ plan.mentions, ∃ id, c.values id ∧ m = .use (c.arena.use t id) := by
  have huse {m : Mention} (hm : ∃ id ∈ op.operands, m = .use (c.arena.use t id)) :
      ∃ id, c.values id ∧ m = .use (c.arena.use t id) := by
    obtain ⟨id, hid, rfl⟩ := hm
    exact ⟨id, hoperands id hid, rfl⟩
  -- Only code that was made during the check mentions values, and it was made from the operands.
  cases plan with
  | assign target source => exact fun m hm => huse (h.2.1 m hm)
  | branch condition => exact fun m hm => huse (h.2.2.2 m hm)
  | accelerator operands lines =>
    rw [Plan.mentions, h.2]
    simp only [List.map_map, List.forall_mem_map]
    exact fun id hid => huse ⟨id, hid, rfl⟩
  | loop index lower upper step =>
    rw [Plan.mentions, h.2.2.2]
    simp
  | _ => simp [Plan.mentions]

/-- A plan that writes a region has one to write. -/
theorem Op.Planned.regions_of (h : op.Planned c.arena t owner plan) (hopens : plan.opens = true) :
    op.regions ≠ [] := by
  cases plan with
  | loop index lower upper step =>
    obtain ⟨-, ⟨body, rest, args, hregions, -⟩, -⟩ := h
    simp [hregions]
  | branch condition => exact h.2.1
  | nest loops =>
    obtain ⟨-, ⟨body, rest, hregions, -⟩, -⟩ := h
    simp [hregions]
  | _ => cases hopens

/-- Where a name is to be shared, the plan is to share it. -/
theorem Dispatch.Shares.plan_eq {arena : Arena} {turn : Dispatch} {value named : ValueId}
    (h : turn.Shares arena value named) (hknown : (arena.info? value).isSome) :
    ∃ source, turn.op.operands.head? = some source ∧
      turn.op.plan arena turn.names turn.owner = .ok (.share source value) := by
  obtain ⟨source, hsource, -⟩ := h.source
  obtain ⟨operands, hoperands⟩ := List.head?_eq_some_iff.1 hsource
  obtain ⟨results, hresults⟩ := List.head?_eq_some_iff.1 h.result
  have hcovers : turn.op.counts.covers turn.op.kind.needs = true := by
    simp [h.kind, OpKind.needs, Op.counts, Counts.covers, hoperands, hresults]
  refine ⟨source, hsource, ?_⟩
  rw [Op.plan, if_pos hcovers, Op.rule, h.kind]
  simp only [hoperands, hresults, Arena.checkBound_of_known hknown, h.free]
  rfl

end Plans

namespace Emission

variable {c : Contract} {owner : Option Op} {op : Op} {bodies : List (Emission (List Stmt))}

/-! ## Sharing a name -/

/-- What keeps to a contract keeps to it behind a turn. -/
theorem EmitsFrom.expecting {α : Type} {function : Option String} {t : NameTable}
    {given : List Mention} {e : Emission α} {mentions : α → List Mention} (turn : Dispatch)
    (h : EmitsFrom c function t given e mentions) :
    EmitsFrom (c.expecting turn) function t given e mentions := by
  obtain ⟨events, hperm, hrun⟩ := h
  exact ⟨events, hperm, hrun.history, hrun.names,
    fun report hr hcode => (hrun.raised report hr hcode).imp_left .inl, hrun.shares, hrun.overruns⟩

/-- What is reported about a turn is accounted for by the turn, and a name that is to be shared at the
turn is shared by what follows it. -/
theorem EmitsFrom.dispatching {function : Option String} {t : NameTable} {given : List Mention}
    {e : Emission (List Stmt)} {mentions : List Stmt → List Mention}
    (h : EmitsFrom (c.expecting ⟨function, owner, op, t⟩) function t given e mentions)
    (hshares : ∀ value named, Dispatch.Shares c.arena ⟨function, owner, op, t⟩ value named →
      (e.run ⟨c.arena, function⟩ t).names.binding? value = some (.shared named)) :
    EmitsFrom c function t given (dispatch owner op >>= fun _ => e) mentions := by
  obtain ⟨events, hperm, hrun⟩ := h
  refine ⟨events, hperm, hrun.history, hrun.names, ?_, ?_, hrun.overruns⟩
  · intro report hr hcode
    rcases hrun.raised report hr hcode with (hr | hr) | ⟨turn, hturn, hr⟩
    · exact .inl hr
    · exact .inr ⟨_, List.mem_cons_self .., hr⟩
    · exact .inr ⟨turn, List.mem_cons_of_mem _ hturn, hr⟩
  · intro turn hturn value named hshared
    rcases List.mem_cons.1 hturn with rfl | hturn
    · exact hshares value named hshared
    · exact hrun.shares turn hturn value named hshared

/-- A result that is not bound gets the name of the source, or it is reported that the source has
none. -/
theorem emitsFrom_share {function : Option String} {t : NameTable} {source result : ValueId}
    (hv : t.Valid c.arena) (hresult : c.values result)
    (hfree : c.arena.isBound t result = false)
    (hreports : t.name? source = none → c.reports
      ((Problem.naming (.undeclared source)).report (Origin.at function (some op)))) :
    EmitsFrom c function t [] (share op source result) fun _ => [] := by
  obtain ⟨hunnamed, hconst⟩ := Arena.isBound_eq_false_iff.1 hfree
  cases howner : t.owner? source with
  -- The source has a name: the result is entered under the same owner.
  | some owner =>
    obtain ⟨name, hname⟩ := hv.ownName?_owner howner
    rw [EmitsFrom, share_apply hunnamed howner]
    exact ⟨[.share result owner], .nil, ⟨.share hresult hfree hname, trivial⟩, rfl, by simp,
      by simp, by simp⟩
  -- The source has none: the report of it is the whole effect.
  | none =>
    have hname : t.name? source = none := by rw [NameTable.name?, howner]; rfl
    rw [EmitsFrom, share_apply_of_unnamed hunnamed howner]
    refine ⟨[], .nil, trivial, rfl, ?_, by simp, by simp⟩
    intro report hr _
    rw [List.mem_singleton] at hr
    exact .inl (hr ▸ hreports hname)

/-! ## One operation -/

/-- What comes of the plan of an operation, from the table that the plan was made with. -/
theorem emitsFrom_carryOut {function : Option String} {t : NameTable} {plan : Plan}
    (hv : t.Valid c.arena) (hplan : op.Planned c.arena t owner plan)
    (hown : ∀ id ∈ op.ownMentioned, c.values id) (howner : ∀ around ∈ owner, c.Around around)
    (hbodies : ∀ body ∈ bodies, Emits c [] body mentionsOfStmts)
    (hregions : op.regions ≠ [] → bodies ≠ [])
    (hshare : ∀ source result, plan ≠ .share source result) :
    EmitsFrom c function t [] (render op bodies plan) mentionsOfStmts := by
  have hoperands : ∀ id ∈ op.operands, c.values id := fun id hid => hown id (by simp [Op.ownMentioned, hid])
  have hresults : ∀ id ∈ op.results, c.values id := fun id hid => hown id (by simp [Op.ownMentioned, hid])
  have hreduce : ∀ around, plan = .reduce around → around.regions ≠ [] := by
    rintro around rfl
    exact (howner around hplan.2.1).regions
  obtain ⟨events, hperm, hrun⟩ :=
    emits_render hoperands hresults (hplan.values_of hown howner) hbodies
      (fun hopens => hregions (hplan.regions_of hopens)) hreduce hshare function t hv
  -- the code that the plan holds was read from the same table
  have hcode : Run c t (plan.mentions.map .mention) (⟨(), t, [], [], []⟩ : Outcome Unit) :=
    .quiet (hplan.mentions_of hoperands) (by simp)
  refine ⟨plan.mentions.map .mention ++ events, ?_, hcode.trans hrun⟩
  simpa using hperm

/-- What comes of an operation that gets the name of its source as its plan. -/
theorem emitsFrom_shared {function : Option String} {t : NameTable} {source result : ValueId}
    (hv : t.Valid c.arena) (hresult : c.values result) (hfree : c.arena.isBound t result = false)
    (hreports : t.name? source = none → c.reports
      ((Problem.naming (.undeclared source)).report (Origin.at function (some op)))) :
    EmitsFrom c function t [] (render op bodies (.share source result)) mentionsOfStmts := by
  have hshare : EmitsFrom c function t [] (share op source result) fun _ => [] :=
    emitsFrom_share hv hresult hfree hreports
  exact .bindEmpty hshare (emits_arrayPragmas (some op) hresult function _ (hshare.valid hv))

/-- Whatever follows, a result gets the entry of the owner whose name it shares. -/
theorem shares_of_owner {scope : Scope} {t : NameTable} {source result owner : ValueId}
    (hfree : scope.values.isBound t result = false) (howner : t.owner? source = some owner) :
    ((render op bodies (.share source result)).run scope t).names.binding? result =
      some (.shared owner) := by
  have hunnamed := (Arena.isBound_eq_false_iff.1 hfree).1
  have hpragmas : Built False (arrayPragmas (some op) result) := built_arrayPragmas (some op) result
  have hshared : (t.insert result (.shared owner)).binding? result = some (.shared owner) := by simp
  show ((share op source result >>= fun _ => arrayPragmas (some op) result).run scope t).names.binding?
    result = _
  rw [bind_apply, share_apply hunnamed howner]
  exact hpragmas.keeps scope _ result _ hshared

/-- The plan of an operation is made with the table at its turn. -/
theorem operation_run (scope : Scope) (t : NameTable) :
    (operation owner op bodies).run scope t =
      (dispatch owner op >>= fun _ => carryOut op bodies (op.plan scope.values t owner)).run
        scope t := by
  unfold operation
  rw [bind_apply, dispatch_apply, bind_of_quiet (inspect_apply _ _), bind_apply, dispatch_apply]

/-- An operation whose regions are accounted for. -/
theorem emits_operation (hown : ∀ id ∈ op.ownMentioned, c.values id)
    (howner : ∀ around ∈ owner, c.Around around) (haccepts : c.Accepts [op])
    (hbodies : ∀ body ∈ bodies, Emits c [] body mentionsOfStmts)
    (hregions : op.regions ≠ [] → bodies ≠ []) :
    Emits c [] (operation owner op bodies) mentionsOfStmts := by
  have hoperands : ∀ id ∈ op.operands, c.values id := fun id hid => hown id (by simp [Op.ownMentioned, hid])
  have hresults : ∀ id ∈ op.results, c.values id := fun id hid => hown id (by simp [Op.ownMentioned, hid])
  intro function t hv
  have hadmits : Admits (op.Planned c.arena t owner) (Obstacle.Within op.kind.inputs)
      (op.plan c.arena t owner) :=
    Op.plan_admits (fun id hid => c.known id (hoperands id hid))
      (fun id hid => c.known id (hresults id hid))
  -- at a turn where a name is to be shared, there is no other plan
  have hplanned {value named : ValueId}
      (hturn : Dispatch.Shares c.arena ⟨function, owner, op, t⟩ value named) :
      ∃ source, op.operands.head? = some source ∧
        op.plan c.arena t owner = .ok (.share source value) :=
    hturn.plan_eq (c.known value (hresults value (List.mem_of_head? hturn.result)))
  refine .of_run_eq (operation_run _ t) ?_
  cases hplan : op.plan c.arena t owner with
  | ok plan =>
    rw [hplan] at hadmits hplanned
    by_cases hshare : ∃ source result, plan = .share source result
    · obtain ⟨source, result, rfl⟩ := hshare
      obtain ⟨hkind, hsource, hgives, hfree⟩ := hadmits
      have hresult := hresults result (List.mem_of_head? hgives.head)
      have hrender : EmitsFrom (c.expecting ⟨function, owner, op, t⟩) function t []
          (render op bodies (.share source result)) mentionsOfStmts :=
        emitsFrom_shared hv hresult hfree fun hname => .inr ⟨source, hkind, hsource, hname, rfl⟩
      refine hrender.dispatching fun value named hturn => ?_
      obtain ⟨source', hsource', hnamed⟩ := hturn.source
      obtain ⟨_, -, hsame⟩ := hplanned hturn
      cases hsame
      rw [hsource] at hsource'
      cases hsource'
      exact shares_of_owner hfree hnamed
    · have hrender : EmitsFrom c function t [] (render op bodies plan) mentionsOfStmts :=
        emitsFrom_carryOut hv hadmits hown howner hbodies hregions fun source result h =>
          hshare ⟨source, result, h⟩
      refine (hrender.expecting _).dispatching fun value named hturn => ?_
      obtain ⟨source, -, hsame⟩ := hplanned hturn
      cases hsame
      exact absurd ⟨source, value, rfl⟩ hshare
  | error obstacle =>
    rw [hplan] at hadmits hplanned
    have hnothing : EmitsFrom c function t [] (pure []) mentionsOfStmts :=
      ⟨[], .nil, .silent (by simp)⟩
    have hreported : EmitsFrom c function t [] (carryOut op bodies (.error obstacle))
        mentionsOfStmts := by
      cases obstacle with
      | problem p => exact .bindEmpty (emits_raise (some op) hadmits.1 function t hv) hnothing
      | overrun missing =>
        obtain ⟨dims, symbols, rfl, hinputs, hlarge⟩ := hadmits
        have haccepted : c.overruns (.inputs dims symbols) := by
          rcases haccepts op (List.mem_singleton_self op) _ hinputs with hsmall | haccepted
          · exact absurd hsmall (Nat.not_lt.2 hlarge)
          · exact haccepted
        exact .bindEmpty (emits_overrun haccepted function t hv) hnothing
    refine (hreported.expecting _).dispatching fun value named hturn => ?_
    obtain ⟨_, -, hsame⟩ := hplanned hturn
    cases hsame

/-! ## Blocks -/

/-- The arguments of the first region are mentioned with the regions. -/
theorem mem_mentionedInBlocks_of_firstArgs {op : Op} {id : ValueId} (h : id ∈ op.firstArgs) :
    id ∈ mentionedInBlocks op.regions := by
  unfold Op.firstArgs at h
  cases hregions : op.regions with
  | nil => simp [hregions] at h
  | cons region rest =>
    obtain ⟨args, ops⟩ := region
    rw [hregions] at h
    simp only [mentionedInBlocks, mentionedInBlock, List.mem_append]
    exact .inl (.inl h)

/-- An operation with regions has a body for each of them. -/
theorem ofRegions_ne_nil {regions : List (BlockOf Op)} (h : regions ≠ []) (owner : Op) :
    ofRegions owner regions ≠ [] := by
  cases regions with
  | nil => exact absurd rfl h
  | cons region rest => simp [ofRegions]

mutual

/-- An operation with everything inside of it. -/
theorem emits_ofOp (owner : Option Op) : (op : Op) → (∀ id ∈ op.mentioned, c.values id) →
    (∀ around ∈ owner, c.Around around) → c.Accepts op.within →
    Emits c [] (ofOp owner op) mentionsOfStmts
  | ⟨kind, operands, results, attrs, regions, line⟩, hvalues, howner, haccepts => by
    simp only [Op.mentioned, List.forall_mem_append] at hvalues
    obtain ⟨⟨⟨hoperands, hresults⟩, hkind⟩, hinside⟩ := hvalues
    simp only [Contract.Accepts, Op.within, List.forall_mem_cons] at haccepts
    let op : Op := ⟨kind, operands, results, attrs, regions, line⟩
    -- What the operation mentions itself, apart from what is inside of its regions.
    have hargs : ∀ id ∈ op.firstArgs, c.values id := fun id hid =>
      hinside id (mem_mentionedInBlocks_of_firstArgs hid)
    have hown : ∀ id ∈ op.ownMentioned, c.values id := by
      simp only [Op.ownMentioned, List.forall_mem_append]
      exact ⟨⟨⟨hoperands, hresults⟩, hkind⟩, hargs⟩
    have haccepts' : c.Accepts [op] := by
      simpa only [Contract.Accepts, List.forall_mem_singleton] using haccepts.1
    -- The regions are emitted by the mutual induction, the operation from them.
    rw [ofOp]
    refine emits_operation hown howner haccepts' ?_ fun h => ofRegions_ne_nil h op
    exact emits_ofRegions op regions hinside (fun h => ⟨hresults, hargs, h⟩) haccepts.2

/-- Each region of an operation. -/
theorem emits_ofRegions (owner : Op) : (regions : List (BlockOf Op)) →
    (∀ id ∈ mentionedInBlocks regions, c.values id) → (regions ≠ [] → c.Around owner) →
    c.Accepts (withinBlocks regions) →
    ∀ body ∈ ofRegions owner regions, Emits c [] body mentionsOfStmts
  | [], _, _, _ => by simp [ofRegions]
  | region :: rest, hvalues, howner, haccepts => by
    simp only [mentionedInBlocks, List.forall_mem_append] at hvalues
    simp only [Contract.Accepts, withinBlocks, List.forall_mem_append] at haccepts
    have howner' := howner (List.cons_ne_nil region rest)
    simp only [ofRegions, List.forall_mem_cons]
    refine ⟨emits_ofBlock (some owner) region hvalues.1 ?_ haccepts.1,
      emits_ofRegions owner rest hvalues.2 (fun _ => howner') haccepts.2⟩
    intro around haround
    cases haround
    exact howner'

/-- A block. -/
theorem emits_ofBlock (owner : Option Op) : (block : BlockOf Op) →
    (∀ id ∈ mentionedInBlock block, c.values id) → (∀ around ∈ owner, c.Around around) →
    c.Accepts (withinBlock block) → Emits c [] (ofBlock owner block) mentionsOfStmts
  | ⟨args, ops⟩, hvalues, howner, haccepts => by
    simp only [mentionedInBlock, List.forall_mem_append] at hvalues
    exact emits_ofOps owner ops hvalues.2 howner haccepts

/-- Some operations with everything inside of them. -/
theorem emits_ofOps (owner : Option Op) : (ops : List Op) →
    (∀ id ∈ mentionedInOps ops, c.values id) → (∀ around ∈ owner, c.Around around) →
    c.Accepts (withinOps ops) → Emits c [] (ofOps owner ops) mentionsOfStmts
  | [], _, _, _ => .pure (.refl _)
  | op :: rest, hvalues, howner, haccepts => by
    simp only [mentionedInOps, List.forall_mem_append] at hvalues
    simp only [Contract.Accepts, withinOps, List.forall_mem_append] at haccepts
    refine .bindNew (emits_ofOp owner op hvalues.1 howner haccepts.1) fun first => ?_
    refine .bindNew (emits_ofOps owner rest hvalues.2 howner haccepts.2) fun rest => ?_
    exact .pure (by simp)

end

end Emission

end HlsEmit
