import HlsEmit.Proofs.Scoping.Statement

/-!
# Scopes of operations and blocks

An operation writes statements that stand in scope where the values that dominate it are placed, and
behind them its results are placed as well. Its regions are written inside of blocks, so the values
that they define are named behind them but not visible; by then nothing uses them any more.

## Key results

- `places_render`: the statements of a plan
- `places_ofOps`: some operations with everything inside of them
-/

namespace HlsEmit

open Code

/-- Where an operation has its turn: the values in scope are placed, and so are the results and
indices of the operation around, to which a yield writes. -/
structure Setting (c : Contract) (visible : List Name) (t : NameTable) (scope : List ValueId)
    (owner : Option Op) : Prop where
  valid : t.Valid c.arena
  scope : ∀ id ∈ scope, c.values id ∧ c.arena.Placed visible t id
  results : ∀ around ∈ owner, ∀ id ∈ around.results, c.values id ∧ c.arena.Placed visible t id
  args : ∀ around ∈ owner, ∀ id ∈ around.firstArgs, c.values id ∧ c.arena.Placed visible t id
  regions : ∀ around ∈ owner, around.regions ≠ []

/-- Values that are not placed yet are waiting for their names. -/
def Waiting (c : Contract) (visible : List Name) (t : NameTable) (ids : List ValueId) : Prop :=
  ∀ id ∈ ids, c.values id ∧ c.arena.Ready visible t id

section Behind

variable {c : Contract} {visible visible' : List Name} {t t' : NameTable}
variable {scope results inside ids : List ValueId} {owner : Option Op}

/-- Behind the definition of further values, they are in scope. -/
theorem Setting.behind (h : Setting c visible t scope owner)
    (hdefines : Defines c.arena results inside visible t visible' t')
    (hresults : ∀ id ∈ results, c.values id) :
    Setting c visible' t' (results ++ scope) owner where
  valid := hdefines.valid h.valid
  scope := by
    intro id hid
    rcases List.mem_append.1 hid with hid | hid
    · exact ⟨hresults id hid, hdefines.placed id hid⟩
    · exact (h.scope id hid).imp_right (hdefines.placed_of h.valid)
  results := fun around haround id hid =>
    (h.results around haround id hid).imp_right (hdefines.placed_of h.valid)
  args := fun around haround id hid =>
    (h.args around haround id hid).imp_right (hdefines.placed_of h.valid)
  regions := h.regions

/-- Values that are defined later wait on. -/
theorem Waiting.behind (h : Waiting c visible t ids) (hv : t.Valid c.arena)
    (hdefines : Defines c.arena results inside visible t visible' t')
    (hlater : ∀ id ∈ ids, id ∉ inside) : Waiting c visible' t' ids :=
  fun id hid => ⟨(h id hid).1, hdefines.ready_of hv (h id hid).2 (hlater id hid)⟩

/-- The setting of a region: the results of its operation are placed, and so are its indices. -/
theorem Setting.within {region : Block} {op : Op}
    (h : Setting c visible t scope owner)
    (hdefines : Defines c.arena results inside visible t visible' t')
    (hvalues : ∀ id ∈ results, c.values id) (hresults : ∀ id ∈ op.results, id ∈ results)
    (hfirst : ∀ id ∈ op.firstArgs, id ∈ results) (hargs : ∀ id ∈ region.args, id ∈ results)
    (hregions : op.regions ≠ []) :
    Setting c visible' t' (region.args ++ scope) (some op) := by
  have hbehind := h.behind hdefines hvalues
  have hplaced : ∀ id ∈ results, c.values id ∧ c.arena.Placed visible' t' id :=
    fun id hid => ⟨hvalues id hid, hdefines.placed id hid⟩
  -- The scope of the region, the results and the indices of its operation, and that it has a
  -- region.
  refine ⟨hbehind.valid, ?_, ?_, ?_, ?_⟩
  · intro id hid
    rcases List.mem_append.1 hid with hid | hid
    · exact hplaced id (hargs id hid)
    · exact hbehind.scope id (List.mem_append_right _ hid)
  · intro around haround id hid
    cases haround
    exact hplaced id (hresults id hid)
  · intro around haround id hid
    cases haround
    exact hplaced id (hfirst id hid)
  · intro around haround
    cases haround
    exact hregions

end Behind

/-- What is defined inside of one region is defined inside of the operation. -/
theorem mem_definedInBlocks {blocks : List (BlockOf Op)} {i : Nat} {block : BlockOf Op}
    {id : ValueId} (h : blocks[i]? = some block) (hid : id ∈ block.args ∨ id ∈ definedInOps block.ops) :
    id ∈ definedInBlocks blocks := by
  induction blocks generalizing i with
  | nil => cases h
  | cons first rest ih =>
    rw [definedInBlocks, List.mem_append]
    cases i with
    | zero =>
      cases h
      obtain ⟨args, ops⟩ := block
      rw [definedInBlock, List.mem_append]
      exact .inl hid
    | succ i => exact .inr (ih h)

/-- An operation defines its results and what its regions define. -/
theorem Op.defined_eq (op : Op) : op.defined = op.results ++ definedInBlocks op.regions := by
  cases op
  rfl

/-- The arguments of the first region. -/
theorem Op.firstArgs_eq {op : Op} {region : Block} (hregion : op.regions[0]? = some region) :
    op.firstArgs = region.args := by
  rw [← List.head?_eq_getElem?] at hregion
  simp [Op.firstArgs, hregion]

/-- An operation that has a region has regions. -/
theorem Op.regions_ne_nil {op : Op} {region : Block} {i : Nat} (hregion : op.regions[i]? = some region) :
    op.regions ≠ [] := by
  intro hnone
  rw [hnone] at hregion
  cases hregion

/-- The single result of an operation. -/
theorem Op.Gives.results_eq {op : Op} {result : ValueId} (h : op.Gives result)
    (hexact : op.Exact) : op.results = [result] := by
  have hcount := hexact.results 1 h.count
  obtain ⟨first, hfirst⟩ := List.length_eq_one_iff.1 hcount
  have hhead := h.head
  rw [hfirst] at hhead ⊢
  rw [Option.some.inj hhead]

/-- An operation without results. -/
theorem Op.Exact.results_eq_nil {op : Op} (h : op.Exact) (hcount : op.kind.resultCount? = some 0) :
    op.results = [] :=
  List.length_eq_zero_iff.1 (h.results 0 hcount)

/-- The body of a loop has no argument but the index. -/
theorem Op.Exact.loop_args {op : Op} {index : ValueId} {body : Block} {rest : List Block}
    {args : List ValueId} (hexact : op.Exact)
    (hkind : op.kind = .scfFor ∨ ∃ lower upper step, op.kind = .affineFor lower upper step)
    (hregions : op.regions = body :: rest) (hbody : body.args = index :: args) :
    body.args = [index] := by
  have hlength : body.args.length = 1 := by
    have hbinds := hexact.args
    rcases hkind with hkind | ⟨_, _, _, hkind⟩ <;> rw [hkind, hregions] at hbinds <;>
      exact of_decide_eq_true hbinds
  rw [hbody] at hlength ⊢
  rw [List.length_eq_zero_iff.1 (Nat.succ.inj hlength)]

/-- The branches of a conditional have no arguments. -/
theorem Op.Exact.branch_args {op : Op} (hexact : op.Exact)
    (hkind : op.kind = .scfIf ∨ ∃ set, op.kind = .affineIf set) :
    ∀ branch ∈ op.regions.take 2, branch.args = [] := by
  have hbinds := hexact.args
  intro branch hbranch
  rcases hkind with hkind | ⟨_, hkind⟩ <;> rw [hkind] at hbinds <;>
    exact List.isEmpty_iff.1 (List.all_eq_true.1 hbinds branch hbranch)

/-- The body of a nest has an index at least. -/
theorem Op.Exact.nest_args_ne_nil {op : Op} {lower upper : AffineBound} {steps : List Int64}
    {body : Block} {rest : List Block} (hexact : op.Exact)
    (hkind : op.kind = .affineParallel lower upper steps)
    (hregions : op.regions = body :: rest) : body.args ≠ [] := by
  have hbinds := hexact.args
  rw [hkind, hregions] at hbinds
  have hlength : 1 ≤ body.args.length := of_decide_eq_true hbinds
  exact List.ne_nil_of_length_pos hlength

namespace Emission

variable {c : Contract} {function : Option String} {visible : List Name} {t : NameTable}
variable {scope : List ValueId} {owner : Option Op} {op : Op} {bodies : List (Emission (List Stmt))}

/-! ## Plans without regions -/

/-- A plan that writes no region does not depend on the regions. -/
theorem render_of_closed {plan : Plan} (h : plan.opens = false) :
    render op bodies plan = render op [] plan := by
  cases plan with
  | loop index lower upper step => cases h
  | branch condition => cases h
  | nest loops => cases h
  | _ => rfl

/-- A plan all of whose values are placed declares nothing. -/
theorem places_reading {plan : Plan} (hv : t.Valid c.arena)
    (hoperands : ∀ id ∈ op.operands, c.values id ∧ c.arena.Placed visible t id)
    (hresults : ∀ id ∈ op.results, c.values id ∧ c.arena.Placed visible t id)
    (hvalues : ∀ id ∈ plan.values, c.values id ∧ c.arena.Placed visible t id)
    (hmentions : ∀ m ∈ plan.mentions, m.Reads visible) (hopens : plan.opens = false)
    (hreduce : ∀ around, plan = .reduce around → around.regions ≠ [])
    (hshare : ∀ source result, plan ≠ .share source result) :
    Places c function t (render op bodies plan) (Writes c.arena [] [] visible t) := by
  -- The plan mentions its values only, so placed values are enough for what it writes.
  have hemits : Emits (c.among (c.arena.Placed visible t)) plan.mentions (render op bodies plan)
      mentionsOfStmts := by
    rw [render_of_closed hopens]
    refine emits_render hoperands hresults hvalues (by simp) ?_ hreduce hshare
    intro h
    rw [hopens] at h
    cases h
  refine (Places.read hemits hv hmentions).mono ?_
  rintro stmts t' ⟨rfl, hreads⟩
  exact .reads hreads

/-- An array is declared on a line of its own, in front of its pragmas. -/
theorem places_allocate {array : ValueId} (hv : t.Valid c.arena) (hid : c.values array)
    (hready : c.arena.Ready visible t array) :
    Places c function t (render op bodies (.allocate array))
      (Writes c.arena [array] [] visible t) := by
  refine .bind ((places_arrayDeclarator (some op) hid hready).mono fun first t' hfirst => ?_)
  have hplaced := hfirst.2.placed array (List.mem_singleton_self array)
  refine .bindRead (emits_arrayPragmas (some op) ⟨hid, hplaced⟩) (hfirst.2.valid hv) (by simp)
    fun pragmas hpragmas => ?_
  have hdeclaration : Writes c.arena [array] [] visible t [.declaration first op.note] t' :=
    .declaration hfirst
  exact .pure (hdeclaration.appendReads hpragmas)

/-- An array with a content is declared on a line of its own. -/
theorem places_define {array : ValueId} (elements : List String) (hid : c.values array)
    (hready : c.arena.Ready visible t array) :
    Places c function t (render op bodies (.define array elements))
      (Writes c.arena [array] [] visible t) := by
  refine .bind ((places_arrayDeclarator (some op) hid hready).mono fun first t' hfirst => ?_)
  exact .pure ⟨⟨hfirst.1, trivial⟩, hfirst.2⟩

/-- A value that shares the name of a placed one is placed. -/
theorem places_share {source result : ValueId} (hv : t.Valid c.arena)
    (hsource : c.arena.Placed visible t source) (hfree : c.arena.isBound t result = false) :
    Places c function t (share op source result) fun _ t' =>
      Defines c.arena [result] [] visible t visible t' := by
  intro hclean
  obtain ⟨hunnamed, hconst⟩ := Arena.isBound_eq_false_iff.1 hfree
  cases howner : t.owner? source with
  | none =>
    rw [share_apply_of_unnamed hunnamed howner] at hclean
    have herror := hclean.raised _ (List.mem_singleton_self _)
    cases herror
  | some owner =>
    obtain ⟨name, hname⟩ := hv.ownName?_owner howner
    have hgrows := NameTable.Grows.share (.refl : t.Grows c.arena (· = result) t) rfl hunnamed
      hconst hname
    rw [share_apply hunnamed howner]
    refine ⟨hgrows.mono fun id hid => .inl (List.mem_singleton.2 hid), List.Subset.refl _, ?_⟩
    rw [List.forall_mem_singleton]
    -- the name of the source is visible, and the result has the same one
    have hsourceName : t.name? source = some name := by rw [NameTable.name?, howner]; exact hname
    have hvisible : name ∈ visible := by
      unfold Arena.Placed Arena.designator at hsource
      cases hsourceConst : c.arena.constantText? source with
      | none => simpa [hsourceConst, hsourceName, Designator.Visible] using hsource
      | some text =>
        obtain ⟨binding, hbinding⟩ : ∃ binding, t.binding? source = some binding := by
          cases hbinding : t.binding? source with
          | some binding => exact ⟨binding, rfl⟩
          | none => rw [NameTable.owner?_eq_none_iff.2 hbinding] at howner; cases howner
        rw [hv.constantText?_eq_none hbinding] at hsourceConst
        cases hsourceConst
    have hbinding : (t.insert result (.shared owner)).binding? result = some (.shared owner) := by
      simp
    have hresultName : (t.insert result (.shared owner)).name? result = some name := by
      rw [NameTable.name?_of_shared hbinding, NameTable.ownName?_eq_some_iff]
      exact hgrows.binding?_eq (NameTable.ownName?_eq_some_iff.1 hname)
    simp [Arena.Placed, Arena.designator, hconst, hresultName, Designator.Visible, hvisible]

/-- A value that shares the name of another is placed with it. -/
theorem places_renderShare {source result : ValueId} (hv : t.Valid c.arena)
    (hid : c.values result) (hsource : c.arena.Placed visible t source)
    (hfree : c.arena.isBound t result = false) :
    Places c function t (render op bodies (.share source result))
      (Writes c.arena [result] [] visible t) := by
  refine .bind ((places_share hv hsource hfree).mono fun _ t' hdefines => ?_)
  have hplaced := hdefines.placed result (List.mem_singleton_self result)
  refine (Places.read (emits_arrayPragmas (some op) ⟨hid, hplaced⟩) (hdefines.valid hv)
    (by simp)).mono ?_
  rintro pragmas t'' ⟨rfl, hpragmas⟩
  obtain ⟨hscoped, hscope⟩ := stmtsScoped_of_reads pragmas hpragmas
  refine ⟨hscoped, ?_⟩
  rw [hscope]
  exact hdefines

/-- The results of a call are declared in front of it. -/
theorem places_call (callee : String) (hv : t.Valid c.arena)
    (hoperands : ∀ id ∈ op.operands, c.values id ∧ c.arena.Placed visible t id)
    (hresults : Waiting c visible t op.results) :
    Places c function t (render op bodies (.call callee))
      (Writes c.arena op.results [] visible t) := by
  refine .bind ((places_predeclare op hv hresults).mono fun declarations t' hdeclared => ?_)
  have hv' := hdeclared.2.valid hv
  have hargs := among_of_defines hoperands hv hdeclared.2
  have hreferences : ∀ id ∈ op.results,
      (c.among (c.arena.Placed (scopeAfter visible declarations) t')).values id :=
    fun id hid => ⟨(hresults id hid).1, hdeclared.2.placed id hid⟩
  refine .bindRead (emits_operands op hargs) hv' (by simp) fun args hargs => ?_
  refine .bindRead (emits_references op hreferences) hv' (by simp) fun results hresults => ?_
  refine .pure (hdeclared.appendReads ?_)
  simpa [mentionsOfStmts, Stmt.mentions, Expr.mentions, or_imp, forall_and] using
    ⟨hargs, hresults⟩

/-! ## Plans with regions -/

/-- A region is written inside of a block of its operation, where its arguments are placed. -/
def BodyPlaces (c : Contract) (function : Option String) (scope : List ValueId) (op : Op)
    (region : Block) (body : Emission (List Stmt)) : Prop :=
  ∀ visible t, Setting c visible t (region.args ++ scope) (some op) →
    Waiting c visible t (definedInOps region.ops) →
    Places c function t body fun stmts t' =>
      StmtsScoped visible stmts ∧ t.Grows c.arena (· ∈ definedInOps region.ops) t'

/-- The bodies are those of the regions of an operation. -/
def BodiesPlace (c : Contract) (function : Option String) (scope : List ValueId) (op : Op)
    (bodies : List (Emission (List Stmt))) : Prop :=
  ∀ (i : Nat) (body : Emission (List Stmt)), bodies[i]? = some body →
    ∃ region, op.regions[i]? = some region ∧ BodyPlaces c function scope op region body

/-- The first region, where it may be written. -/
theorem places_firstBody {region : Block} (hbodies : BodiesPlace c function scope op bodies)
    (hregion : op.regions[0]? = some region)
    (hsetting : Setting c visible t (region.args ++ scope) (some op))
    (hwaiting : Waiting c visible t (definedInOps region.ops)) :
    Places c function t (firstBody op bodies) fun stmts t' =>
      StmtsScoped visible stmts ∧ t.Grows c.arena (· ∈ definedInOps region.ops) t' := by
  cases bodies with
  | nil =>
    refine .bind fun hclean => ?_
    have hmissing := hclean.overruns
    cases hmissing
  | cons body rest =>
    obtain ⟨region', hregion', hplaces⟩ := hbodies 0 body rfl
    rw [hregion] at hregion'
    cases hregion'
    exact hplaces visible t hsetting hwaiting

/-- The index of a loop is visible in its body only. -/
theorem places_loop {index : ValueId} {lower upper step : Term} {region : Block}
    (h : Setting c visible t scope owner) (hbodies : BodiesPlace c function scope op bodies)
    (hregion : op.regions[0]? = some region) (hargs : region.args = [index])
    (hresults : op.results = []) (hwaiting : Waiting c visible t (definedInBlocks op.regions))
    (hterms : ∀ id ∈ lower.values ++ upper.values ++ step.values,
      c.values id ∧ c.arena.Placed visible t id)
    (hgiven : ∀ m ∈ lower.mentions ++ upper.mentions ++ step.mentions, m.Reads visible) :
    Places c function t (render op bodies (.loop index lower upper step))
      (Writes c.arena [] (definedInBlocks op.regions) visible t) := by
  have hindex : index ∈ definedInBlocks op.regions :=
    mem_definedInBlocks hregion (.inl (by simp [hargs]))
  have hfirstArgs : op.firstArgs = [index] := by rw [Op.firstArgs_eq hregion, hargs]
  refine .bind ((places_loopHead op h.valid (hwaiting index hindex).1 (hwaiting index hindex).2
    hterms hgiven).mono ?_)
  rintro head t₁ ⟨hhead, hdefines⟩
  -- Behind the head, the index is in scope, and what the body defines is still waiting.
  have hsetting : Setting c (head.introduces ++ visible) t₁ (region.args ++ scope) (some op) :=
    h.within hdefines (by simpa using (hwaiting index hindex).1) (by simp [hresults])
      (by simp [hfirstArgs]) (by simp [hargs]) (Op.regions_ne_nil hregion)
  have hbody : Waiting c (head.introduces ++ visible) t₁ (definedInOps region.ops) := by
    refine Waiting.behind ?_ h.valid hdefines (by simp)
    exact fun id hid => hwaiting id (mem_definedInBlocks hregion (.inr hid))
  refine .bind ((places_firstBody hbodies hregion hsetting hbody).mono ?_)
  rintro stmts t₂ ⟨hstmts, hgrows⟩
  obtain ⟨hpragmas, hscope⟩ : StmtsScoped (head.introduces ++ visible) op.attrs.loopPragmas ∧
      scopeAfter (head.introduces ++ visible) op.attrs.loopPragmas = head.introduces ++ visible :=
    stmtsScoped_of_reads op.attrs.loopPragmas (by simp)
  -- The pragmas stand in front of the body and introduce nothing.
  refine .pure ⟨⟨⟨hhead, ?_⟩, trivial⟩, (hdefines.close hgrows).weaken (by simp) ?_⟩
  · rw [stmtsScoped_append, hscope]
    exact ⟨hpragmas, hstmts⟩
  · intro id hid
    simp only [List.not_mem_nil, false_or, List.append_nil, List.mem_append,
      List.mem_singleton] at hid ⊢
    rcases hid with rfl | hid
    · exact hindex
    · exact mem_definedInBlocks hregion (.inr hid)

/-- The results of a nest are declared in front of it. -/
theorem places_nest {loops : List NestLoop} {region : Block}
    (h : Setting c visible t scope owner) (hbodies : BodiesPlace c function scope op bodies)
    (hregion : op.regions[0]? = some region) (hargs : loops.map NestLoop.index = region.args)
    (hloops : loops ≠ []) (hresults : Waiting c visible t op.results)
    (hwaiting : Waiting c visible t (definedInBlocks op.regions))
    (hbounds : ∀ loop ∈ loops, ∀ id ∈ loop.lower.operands ++ loop.upper.operands,
      c.values id ∧ c.arena.Placed visible t id) :
    Places c function t (render op bodies (.nest loops))
      (Writes c.arena op.results (definedInBlocks op.regions) visible t) := by
  have hindices : ∀ id ∈ region.args, id ∈ definedInBlocks op.regions := fun id hid =>
    mem_definedInBlocks hregion (.inl hid)
  refine .bind ((places_predeclare op h.valid hresults).mono fun declarations t₁ hdeclared => ?_)
  have hv₁ := hdeclared.2.valid h.valid
  have hwaiting₁ := hwaiting.behind h.valid hdeclared.2 (by simp)
  have hbounds₁ : ∀ loop ∈ loops, ∀ id ∈ loop.lower.operands ++ loop.upper.operands,
      c.values id ∧ c.arena.Placed (scopeAfter visible declarations) t₁ id :=
    fun loop hloop id hid =>
      (hbounds loop hloop id hid).imp_right (hdeclared.2.placed_of h.valid)
  have hindices₁ : Waiting c (scopeAfter visible declarations) t₁ (loops.map NestLoop.index) :=
    fun id hid => hwaiting₁ id (hindices id (hargs ▸ hid))
  refine .bind ((places_nestHeads op hv₁ hindices₁ hbounds₁).mono ?_)
  rintro heads t₂ ⟨hheads, hlength, hdefines⟩
  rw [hargs] at hdefines
  -- the body sees the results and the indices
  have hboth := hdeclared.2.trans hdefines h.valid
  have hvalues : ∀ id ∈ op.results ++ region.args, c.values id := by
    rw [List.forall_mem_append]
    exact ⟨fun id hid => (hresults id hid).1, fun id hid => (hwaiting id (hindices id hid)).1⟩
  have hsetting : Setting c (headScope (scopeAfter visible declarations) heads) t₂
      (region.args ++ scope) (some op) :=
    h.within hboth hvalues (fun _ => List.mem_append_left _)
      (fun id hid => List.mem_append_right _ (Op.firstArgs_eq hregion ▸ hid))
      (fun _ => List.mem_append_right _) (Op.regions_ne_nil hregion)
  have hbody : Waiting c (headScope (scopeAfter visible declarations) heads) t₂
      (definedInOps region.ops) := by
    refine Waiting.behind ?_ hv₁ hdefines (by simp)
    exact fun id hid => hwaiting₁ id (mem_definedInBlocks hregion (.inr hid))
  refine .bind ((places_firstBody hbodies hregion hsetting hbody).mono ?_)
  rintro stmts t₃ ⟨hstmts, hgrows⟩
  have hheadsSome : heads ≠ [] := by
    rintro rfl
    exact hloops (List.length_eq_zero_iff.1 hlength.symm)
  have hnest : Writes c.arena [] (region.args ++ [] ++ definedInOps region.ops)
      (scopeAfter visible declarations) t₁ (nestStmts stmts (some op.note) heads) t₃ := by
    refine ⟨stmtsScoped_nestStmts _ hheads hstmts, ?_⟩
    rw [scopeAfter_nestStmts _ hheadsSome]
    exact hdefines.close hgrows
  refine .pure ((hdeclared.append hnest h.valid).weaken (by simp) ?_)
  intro id hid
  simp only [List.append_nil, List.nil_append, List.mem_append] at hid
  rcases hid with hid | hid | hid
  · exact .inl hid
  · exact .inr (hindices id hid)
  · exact .inr (mem_definedInBlocks hregion (.inr hid))

/-- What one region defines, no other one does. -/
theorem disjoint_of_nodup {blocks : List (BlockOf Op)} (h : (definedInBlocks blocks).Nodup)
    {first second : BlockOf Op} (hfirst : blocks[0]? = some first)
    (hsecond : blocks[1]? = some second) :
    ∀ id ∈ definedInOps second.ops, id ∉ definedInOps first.ops := by
  obtain ⟨rest, rfl⟩ : ∃ rest, blocks = first :: rest := by
    cases blocks with
    | nil => cases hfirst
    | cons block rest =>
      cases hfirst
      exact ⟨rest, rfl⟩
  obtain ⟨args, ops⟩ := first
  rw [definedInBlocks, List.nodup_append] at h
  intro id hid hfirst
  have hlater : id ∈ definedInBlocks rest := mem_definedInBlocks hsecond (.inr hid)
  exact h.2.2 id (List.mem_append_right args hfirst) id hlater rfl

/-- The second branch, if there is one, where the first one is closed. -/
theorem places_secondBody {inside : List ValueId} (hbodies : BodiesPlace c function scope op bodies)
    (hinside : ∀ region, op.regions[1]? = some region →
      Setting c visible t (region.args ++ scope) (some op) ∧
        Waiting c visible t (definedInOps region.ops) ∧
        ∀ id ∈ definedInOps region.ops, id ∈ inside) :
    Places c function t (secondBody bodies) fun onFalse t' =>
      (∀ stmts, onFalse = some stmts → StmtsScoped visible stmts) ∧
        t.Grows c.arena (· ∈ inside) t' := by
  unfold secondBody
  -- Without a second body nothing is written.
  split
  · next first body rest =>
    obtain ⟨region, hregion, hplaces⟩ := hbodies 1 body rfl
    obtain ⟨hsetting, hwaiting, hsubset⟩ := hinside region hregion
    refine .bind ((hplaces visible t hsetting hwaiting).mono ?_)
    rintro stmts t' ⟨hstmts, hgrows⟩
    refine .pure ⟨?_, hgrows.mono hsubset⟩
    intro stmts' h
    cases h
    exact hstmts
  · exact .pure ⟨by simp, .refl⟩

/-- The results of a conditional are declared in front of it, so both branches see them. -/
theorem places_branch {condition : Term} {region : Block}
    (h : Setting c visible t scope owner) (hbodies : BodiesPlace c function scope op bodies)
    (hregion : op.regions[0]? = some region)
    (hargs : ∀ branch ∈ op.regions.take 2, branch.args = [])
    (hresults : Waiting c visible t op.results)
    (hwaiting : Waiting c visible t (definedInBlocks op.regions))
    (hdistinct : (definedInBlocks op.regions).Nodup)
    (hvalues : ∀ id ∈ condition.values, c.values id ∧ c.arena.Placed visible t id)
    (hgiven : ∀ m ∈ condition.mentions, m.Reads visible) :
    Places c function t (render op bodies (.branch condition))
      (Writes c.arena op.results (definedInBlocks op.regions) visible t) := by
  have hnone {i : Nat} {branch : Block} (hi : i < 2) (hbranch : op.regions[i]? = some branch) :
      branch.args = [] := by
    refine hargs branch (List.mem_of_getElem? (i := i) ?_)
    rw [List.getElem?_take_of_lt hi, hbranch]
  have hfirstArgs : op.firstArgs = [] := by rw [Op.firstArgs_eq hregion, hnone (by omega) hregion]
  refine .bind ((places_predeclare op h.valid hresults).mono fun declarations t₁ hdeclared => ?_)
  have hv₁ := hdeclared.2.valid h.valid
  have hwaiting₁ := hwaiting.behind h.valid hdeclared.2 (by simp)
  have hinner {i : Nat} {branch : Block} (hbranch : op.regions[i]? = some branch) :
      Waiting c (scopeAfter visible declarations) t₁ (definedInOps branch.ops) :=
    fun id hid => hwaiting₁ id (mem_definedInBlocks hbranch (.inr hid))
  have hsetting {i : Nat} {branch : Block} (hi : i < 2) (hbranch : op.regions[i]? = some branch) :
      Setting c (scopeAfter visible declarations) t₁ (branch.args ++ scope) (some op) :=
    h.within hdeclared.2 (fun id hid => (hresults id hid).1) (fun _ => id)
      (by simp [hfirstArgs]) (by simp [hnone hi hbranch]) (Op.regions_ne_nil hregion)
  refine .bindRead (emits_term op (among_of_defines hvalues h.valid hdeclared.2)) hv₁
    (fun m hm => (hgiven m hm).mono hdeclared.2.visible) fun code hcode => ?_
  refine .bind ((places_firstBody hbodies hregion (hsetting (by omega) hregion)
    (hinner hregion)).mono ?_)
  rintro onTrue t₂ ⟨honTrue, hgrows₁⟩
  -- behind the first branch, its definitions are named but not visible
  have hfirst : Defines c.arena [] ([] ++ [] ++ definedInOps region.ops)
      (scopeAfter visible declarations) t₁ (scopeAfter visible declarations) t₂ :=
    Defines.refl.close hgrows₁
  have hinside : ∀ branch, op.regions[1]? = some branch →
      Setting c (scopeAfter visible declarations) t₂ (branch.args ++ scope) (some op) ∧
        Waiting c (scopeAfter visible declarations) t₂ (definedInOps branch.ops) ∧
        ∀ id ∈ definedInOps branch.ops, id ∈ definedInBlocks op.regions := by
    intro branch hbranch
    refine ⟨?_, ?_, fun id hid => mem_definedInBlocks hbranch (.inr hid)⟩
    · exact (hsetting (by omega) hbranch).behind hfirst (by simp)
    · refine (hinner hbranch).behind hv₁ hfirst ?_
      simpa using disjoint_of_nodup hdistinct hregion hbranch
  refine .bind ((places_secondBody hbodies hinside).mono ?_)
  rintro onFalse t₃ ⟨honFalse, hgrows₂⟩
  have hbranches : Writes c.arena [] ([] ++ [] ++ definedInOps region.ops
      ++ definedInBlocks op.regions) (scopeAfter visible declarations) t₁
      [.branch code (some op.note) onTrue onFalse] t₃ := by
    refine ⟨⟨?_, trivial⟩, hfirst.enclose hv₁ hgrows₂⟩
    cases onFalse with
    | none => exact ⟨hcode, honTrue⟩
    | some stmts => exact ⟨hcode, honTrue, honFalse stmts rfl⟩
  refine .pure ((hdeclared.append hbranches h.valid).weaken (by simp) ?_)
  intro id hid
  simp only [List.append_nil, List.nil_append, List.mem_append] at hid
  rcases hid with hid | hid | hid
  · exact .inl hid
  · exact .inr (mem_definedInBlocks hregion (.inr hid))
  · exact .inr hid

/-! ## Operations -/

/-- A plan that defines nothing only uses placed values. -/
theorem places_renderReading {plan : Plan} (h : Setting c visible t scope owner)
    (hplan : op.Planned c.arena t owner plan) (hnone : op.results = [])
    (hoperands : ∀ id ∈ op.operands, c.values id ∧ c.arena.Placed visible t id)
    (hvalues : ∀ id ∈ plan.values, id ∈ op.operands ∨
      ∃ around ∈ owner, id ∈ around.results ∨ id ∈ around.firstArgs)
    (hopens : plan.opens = false) (hshare : ∀ source result, plan ≠ .share source result) :
    Places c function t (render op bodies plan)
      (Writes c.arena op.results (definedInBlocks op.regions) visible t) := by
  -- Its values are operands, or results and indices of the operation around it.
  have hplaced : ∀ id ∈ plan.values, c.values id ∧ c.arena.Placed visible t id := by
    intro id hid
    rcases hvalues id hid with hid | ⟨around, haround, hid | hid⟩
    · exact hoperands id hid
    · exact h.results around haround id hid
    · exact h.args around haround id hid
  have hmentions : ∀ m ∈ plan.mentions, m.Reads visible := by
    intro m hm
    obtain ⟨id, hid, rfl⟩ :=
      hplan.mentions_of (c := c.among (c.arena.Placed visible t)) hoperands m hm
    exact hid.2
  have hreduce : ∀ around, plan = .reduce around → around.regions ≠ [] := by
    rintro around rfl
    exact h.regions around hplan.2.1
  refine (places_reading h.valid hoperands (by simp [hnone]) hplaced hmentions hopens hreduce
    hshare).mono fun stmts t' hstmts => ?_
  exact hstmts.weaken (by simp [hnone]) (by simp)

/-- The statements of a plan, whatever it is. -/
theorem places_render {plan : Plan} (h : Setting c visible t scope owner)
    (hplan : op.Planned c.arena t owner plan) (hexact : op.Exact)
    (huses : ∀ id ∈ op.operands ++ op.kind.mentioned, id ∈ scope)
    (hdistinct : op.defined.Nodup) (hdefined : Waiting c visible t op.defined)
    (hbodies : BodiesPlace c function scope op bodies) :
    Places c function t (render op bodies plan)
      (Writes c.arena op.results (definedInBlocks op.regions) visible t) := by
  rw [Op.defined_eq] at hdistinct hdefined
  rw [List.nodup_append] at hdistinct
  rw [List.forall_mem_append] at huses
  have hresults : Waiting c visible t op.results := fun id hid =>
    hdefined id (List.mem_append_left _ hid)
  have hwaiting : Waiting c visible t (definedInBlocks op.regions) := fun id hid =>
    hdefined id (List.mem_append_right _ hid)
  have hoperands : ∀ id ∈ op.operands, c.values id ∧ c.arena.Placed visible t id := fun id hid =>
    h.scope id (huses.1 id hid)
  have hmentioned : ∀ id ∈ op.kind.mentioned, c.values id ∧ c.arena.Placed visible t id :=
    fun id hid => h.scope id (huses.2 id hid)
  have hreads : ∀ m : Mention, (∃ id ∈ op.operands, m = .use (c.arena.use t id)) → m.Reads visible := by
    rintro m ⟨id, hid, rfl⟩
    exact (hoperands id hid).2
  -- what is known of a plan that gives one result is all that there is to the operation
  have hgives {result : ValueId} (hresult : op.Gives result)
      {e : Emission (List Stmt)} (he : c.values result → c.arena.Ready visible t result →
        Places c function t e (Writes c.arena [result] [] visible t)) :
      Places c function t e (Writes c.arena op.results (definedInBlocks op.regions) visible t) := by
    rw [hresult.results_eq hexact] at hresults ⊢
    obtain ⟨hid, hready⟩ := hresults result (List.mem_singleton_self result)
    exact (he hid hready).mono fun stmts t' hstmts => hstmts.weaken (fun _ => id) (by simp)
  cases plan with
  | nothing =>
    rcases hplan with hcount | ⟨result, hresult, hbound⟩
    · exact places_renderReading h (.inl hcount) (hexact.results_eq_nil hcount) hoperands
        (by simp [Plan.values]) rfl (by simp)
    · refine hgives hresult fun hid hready => .pure ⟨trivial, .refl, List.Subset.refl _, ?_⟩
      simpa using hready hbound
  | compute target source =>
    obtain ⟨hsource, hresult | ⟨hcount, htarget⟩⟩ := hplan
    · exact hgives hresult fun hid hready =>
        places_compute op h.valid hid hready fun id hid => hoperands id (hsource id hid)
    · refine places_renderReading h ⟨hsource, .inr ⟨hcount, htarget⟩⟩
        (hexact.results_eq_nil hcount) hoperands ?_ rfl (by simp)
      simpa [Plan.values, htarget] using fun id hid => Or.inl (hsource id hid)
  | assign target source =>
    obtain ⟨hsource, hmentions, ⟨result, hresult, rfl⟩ | ⟨hcount, htarget⟩⟩ := hplan
    · refine hgives hresult fun hid hready => ?_
      rw [Place.mentions_scalar, List.nil_append] at hmentions
      exact places_assign op h.valid hid hready (fun id hid => hoperands id (hsource id hid))
        (fun m hm => hreads m (hmentions m hm)) bodies
    · refine places_renderReading h ⟨hsource, hmentions, .inr ⟨hcount, htarget⟩⟩
        (hexact.results_eq_nil hcount) hoperands ?_ rfl (by simp)
      intro id hid
      exact .inl ((List.mem_append.1 hid).elim (htarget id) (hsource id))
  | allocate array => exact hgives hplan.1 fun hid hready => places_allocate h.valid hid hready
  | define array elements => exact hgives hplan.1 fun hid hready => places_define elements hid hready
  | share source result =>
    obtain ⟨-, hsource, hresult, hfree⟩ := hplan
    exact hgives hresult fun hid _ =>
      places_renderShare h.valid hid (hoperands source (List.mem_of_head? hsource)).2 hfree
  | call callee =>
    exact (places_call callee h.valid hoperands hresults).mono fun stmts t' hstmts =>
      hstmts.weaken (fun _ => id) fun id hid => .inl (by simpa using hid)
  | blockCall name =>
    exact places_renderReading h hplan (hexact.results_eq_nil hplan) hoperands
      (by simp [Plan.values]) rfl (by simp)
  | accelerator operands lines =>
    exact places_renderReading h hplan (hexact.results_eq_nil hplan.1) hoperands
      (by simp [Plan.values]) rfl (by simp)
  | loop index lower upper step =>
    obtain ⟨hkind, ⟨body, rest, args, hregions, hbody⟩, hterms, hmentions⟩ := hplan
    have hregion : op.regions[0]? = some body := by rw [hregions]; rfl
    have hcount : op.kind.resultCount? = some 0 := by
      rcases hkind with hkind | ⟨_, _, _, hkind⟩ <;> rw [hkind] <;> rfl
    have hargs := hexact.loop_args hkind hregions hbody
    refine (places_loop h hbodies hregion hargs (hexact.results_eq_nil hcount) hwaiting ?_
      (by simp [hmentions])).mono fun stmts t' hstmts => ?_
    · intro id hid
      exact (List.mem_append.1 (hterms id hid)).elim (hoperands id) (hmentioned id)
    · exact hstmts.weaken (by simp [hexact.results_eq_nil hcount]) fun id hid =>
        .inr (by simpa using hid)
  | branch condition =>
    obtain ⟨hkind, hregions, hvalues, hmentions⟩ := hplan
    obtain ⟨body, rest, hregions⟩ := List.exists_cons_of_ne_nil hregions
    exact places_branch h hbodies (by rw [hregions]; rfl) (hexact.branch_args hkind) hresults hwaiting hdistinct.2.1
      (fun id hid => hoperands id (hvalues id hid)) fun m hm => hreads m (hmentions m hm)
  | nest loops =>
    obtain ⟨⟨_, _, _, hkind⟩, ⟨body, rest, hregions, hindices⟩, hbounds⟩ := hplan
    have hloops : loops ≠ [] := by
      rintro rfl
      exact hexact.nest_args_ne_nil hkind hregions hindices.symm
    exact places_nest h hbodies (by rw [hregions]; rfl) hindices hloops hresults hwaiting
      fun loop hloop id hid => hmentioned id (hbounds loop hloop id hid)
  | deliver results =>
    obtain ⟨hcount, around, haround, rfl, hkind⟩ := hplan
    refine places_renderReading h ⟨hcount, around, haround, rfl, hkind⟩
      (hexact.results_eq_nil hcount) hoperands ?_ rfl (by simp)
    exact fun id hid => .inr ⟨around, haround, .inl hid⟩
  | reduce around =>
    refine places_renderReading h hplan (hexact.results_eq_nil hplan.1) hoperands ?_ rfl (by simp)
    exact fun id hid => .inr ⟨around, hplan.2.1, List.mem_append.1 hid⟩

/-- An operation whose regions are written in scope. -/
theorem places_operation (h : Setting c visible t scope owner) (hexact : op.Exact)
    (huses : ∀ id ∈ op.operands ++ op.kind.mentioned, id ∈ scope)
    (hdistinct : op.defined.Nodup) (hdefined : Waiting c visible t op.defined)
    (hbodies : BodiesPlace c function scope op bodies) :
    Places c function t (operation owner op bodies)
      (Writes c.arena op.results (definedInBlocks op.regions) visible t) := by
  have hoperands : ∀ id ∈ op.operands, (c.arena.info? id).isSome := fun id hid =>
    c.known id (h.scope id (huses id (List.mem_append_left _ hid))).1
  have hresults : ∀ id ∈ op.results, (c.arena.info? id).isSome := fun id hid =>
    c.known id (hdefined id (op.defined_eq ▸ List.mem_append_left _ hid)).1
  -- The plan is carried out, is refused with an error, or runs past the end of a list: the last two
  -- are not clean.
  have hadmits : Admits (op.Planned c.arena t owner) (Obstacle.Within op.kind.inputs)
      (op.plan c.arena t owner) := Op.plan_admits hoperands hresults
  rw [Places, operation_run]
  refine Places.bind fun _ => ?_
  show Places c function t (carryOut op bodies (op.plan c.arena t owner)) _
  cases hplan : op.plan c.arena t owner with
  | ok plan =>
    rw [hplan] at hadmits
    exact places_render h hadmits hexact huses hdistinct hdefined hbodies
  | error obstacle =>
    rw [hplan] at hadmits
    cases obstacle with
    | problem p => exact .bindError hadmits.2
    | overrun missing =>
      refine .bind fun hclean => ?_
      have hmissing := hclean.overruns
      cases hmissing

/-! ## Blocks -/

mutual

/-- An operation with everything inside of it. -/
theorem places_ofOp (owner : Option Op) : (op : Op) → ∀ {visible t scope},
    Setting c visible t scope owner → op.Dominated scope → op.defined.Nodup →
    Waiting c visible t op.defined → (∀ op' ∈ op.within, op'.Exact) →
    Places c function t (ofOp owner op)
      (Writes c.arena op.results (definedInBlocks op.regions) visible t)
  | ⟨kind, operands, results, attrs, regions, line⟩, _, _, _, h, hdominated, hdistinct, hwaiting,
      hexact => by
    rw [Op.within, List.forall_mem_cons] at hexact
    have hinside := hdistinct
    rw [Op.defined_eq, List.nodup_append] at hinside
    rw [ofOp]
    exact places_operation h hexact.1 hdominated.1 hdistinct hwaiting
      (places_ofRegions _ regions hdominated.2 hinside.2.1 hexact.2)

/-- The regions of an operation. -/
theorem places_ofRegions (around : Op) : (regions : List (BlockOf Op)) → ∀ {scope},
    BlocksDominated scope regions → (definedInBlocks regions).Nodup →
    (∀ op ∈ withinBlocks regions, op.Exact) →
    ∀ (i : Nat) (body : Emission (List Stmt)), (ofRegions around regions)[i]? = some body →
      ∃ region, regions[i]? = some region ∧ BodyPlaces c function scope around region body
  | [], _, _, _, _ => by simp [ofRegions]
  | region :: rest, _, hdominated, hdistinct, hexact => by
    rw [definedInBlocks, List.nodup_append] at hdistinct
    simp only [withinBlocks, List.forall_mem_append] at hexact
    intro i body hbody
    cases i with
    | zero =>
      cases hbody
      exact ⟨region, rfl, places_ofBlock around region hdominated.1 hdistinct.1 hexact.1⟩
    | succ i =>
      exact places_ofRegions around rest hdominated.2 hdistinct.2.1 hexact.2 i body hbody

/-- A block inside of an operation. -/
theorem places_ofBlock (around : Op) : (block : BlockOf Op) → ∀ {scope},
    BlockDominated scope block → (definedInBlock block).Nodup →
    (∀ op ∈ withinBlock block, op.Exact) →
    BodyPlaces c function scope around block (ofBlock (some around) block)
  | ⟨args, ops⟩, _, hdominated, hdistinct, hexact => by
    rw [definedInBlock, List.nodup_append] at hdistinct
    intro visible t hsetting hwaiting
    exact places_ofOps (some around) ops hsetting hdominated hdistinct.2.1 hwaiting hexact

/-- Some operations with everything inside of them. -/
theorem places_ofOps (owner : Option Op) : (ops : List Op) → ∀ {visible t scope},
    Setting c visible t scope owner → OpsDominated scope ops → (definedInOps ops).Nodup →
    Waiting c visible t (definedInOps ops) → (∀ op ∈ withinOps ops, op.Exact) →
    Places c function t (ofOps owner ops) fun stmts t' =>
      StmtsScoped visible stmts ∧ t.Grows c.arena (· ∈ definedInOps ops) t'
  | [], _, _, _, _, _, _, _, _ => .pure ⟨trivial, .refl⟩
  | op :: rest, visible, t, scope, h, hdominated, hdistinct, hwaiting, hexact => by
    rw [definedInOps, List.nodup_append] at hdistinct
    simp only [withinOps, List.forall_mem_append] at hexact
    have hfirstWaiting : Waiting c visible t op.defined := fun id hid =>
      hwaiting id (List.mem_append_left _ hid)
    refine .bind ((places_ofOp owner op h hdominated.1 hdistinct.1 hfirstWaiting hexact.1).mono ?_)
    rintro first t₁ ⟨hfirst, hdefines⟩
    have hresults : ∀ id ∈ op.results, c.values id := fun id hid =>
      (hfirstWaiting id (op.defined_eq ▸ List.mem_append_left _ hid)).1
    -- what comes later is defined neither by this operation nor inside of it
    have hrestWaiting : Waiting c (scopeAfter visible first) t₁ (definedInOps rest) := by
      refine Waiting.behind (fun id hid => hwaiting id (List.mem_append_right _ hid)) h.valid
        hdefines ?_
      intro id hid hinside
      exact hdistinct.2.2 id (op.defined_eq ▸ List.mem_append_right _ hinside) id hid rfl
    refine .bind ((places_ofOps owner rest (h.behind hdefines hresults) hdominated.2 hdistinct.2.1
      hrestWaiting hexact.2).mono ?_)
    rintro stmts t₂ ⟨hstmts, hgrows⟩
    refine .pure ⟨stmtsScoped_append.2 ⟨hfirst, hstmts⟩, ?_⟩
    refine NameTable.Grows.trans (hdefines.grows.mono fun id hid => ?_)
      (hgrows.mono fun id hid => List.mem_append_right _ hid)
    rw [← List.mem_append, ← Op.defined_eq] at hid
    exact List.mem_append_left _ hid

end

end Emission

end HlsEmit
