import HlsEmit.Proofs.Meaning.Leaf
import HlsEmit.Proofs.Meaning.Region

/-!
# Operations and blocks

Every operation of the structured core is written as code that does what it means, and so is every
block, by induction on the operations. The table of names grows from one operation to the next, while
what is visible is what is in scope.

## Key results

- `carries_loop`, `carries_branch`, `carries_yield`: operations with regions, and what ends a region
- `carries_ofOps`: some operations with everything inside of them
- `carries_body`: the operations of a function, up to its return
-/

namespace HlsEmit

open Cpp (Machine Env)
open Code

variable {V : Type}

/-! ## What is in scope -/

/-- Where operations are evaluated and written: what is in scope is held, and so are the results of
the conditional around, which are not in scope. -/
structure Scene (m : Machine V) (meaning : Meaning V) (c : Contract) (limit : Nat)
    (held : ValueId → Prop) (t : NameTable) (scope : List ValueId) (owner : Option Op)
    (around : List ValueId) : Prop where
  supports : Supports m meaning c limit
  holding : Holding c.arena t held
  visible : ∀ id ∈ scope, held id
  targets : ∀ id ∈ around, c.values id ∧ held id ∧ c.arena.constantText? id = none ∧ id ∉ scope
  inside : around ≠ [] → ∃ op, owner = some op ∧ op.kind = .scfIf ∧ op.results = around

/-- An operation that has not had its turn. Its results may have been declared before it, as ports;
what is defined inside of it has no names. -/
structure Pending (c : Contract) (held : ValueId → Prop) (t : NameTable) (op : Op) : Prop where
  results : ∀ id ∈ op.results, Awaits c held t id
  inside : ∀ id ∈ definedInBlocks op.regions, Awaits c (fun _ => False) t id

/-- Operations that have not had their turn. They use what is in scope or defined by those in front of
them, and what they define is new. -/
structure Coming (m : Machine V) (meaning : Meaning V) (c : Contract) (held : ValueId → Prop) (t : NameTable)
    (scope around : List ValueId) (ops : List Op) : Prop where
  dominated : OpsDominated scope ops
  distinct : (definedInOps ops).Nodup
  fresh : ∀ id ∈ definedInOps ops, id ∉ scope ∧ id ∉ around
  pending : ∀ op ∈ ops, Pending c held t op
  literals : ∀ op ∈ withinOps ops, op.literalsFit c.arena = true
  selects : ∀ op ∈ withinOps ops, m.Selects meaning c.arena op

/-- The next one of them. -/
structure Due (m : Machine V) (meaning : Meaning V) (c : Contract) (held : ValueId → Prop) (t : NameTable)
    (scope around : List ValueId) (op : Op) : Prop where
  dominated : op.Dominated scope
  distinct : op.defined.Nodup
  fresh : ∀ id ∈ op.defined, id ∉ scope ∧ id ∉ around
  pending : Pending c held t op
  literals : ∀ op' ∈ op.within, op'.literalsFit c.arena = true
  selects : ∀ op' ∈ op.within, m.Selects meaning c.arena op'

/-- An operation is within itself. -/
theorem Op.mem_within (op : Op) : op ∈ op.within := by
  cases op
  exact List.mem_cons_self ..

/-- What a dominated operation uses is defined in front of it. -/
theorem Op.uses_of_dominated {op : Op} {scope : List ValueId} (h : op.Dominated scope) :
    ∀ id ∈ op.operands ++ op.kind.mentioned, id ∈ scope := by
  cases op
  exact h.1

/-- What an operation of a list defines is defined in the list. -/
theorem mem_defined_of_mem_ops {ops : List Op} {op : Op} (hop : op ∈ ops) {id : ValueId}
    (hid : id ∈ op.defined) : id ∈ definedInOps ops := by
  induction ops with
  | nil => cases hop
  | cons first rest ih =>
    rw [definedInOps, List.mem_append]
    rcases List.mem_cons.1 hop with rfl | hop
    · exact .inl hid
    · exact .inr (ih hop)

/-! ### Regions by their position -/

section Regions

variable {blocks : List (BlockOf Op)} {i : Nat} {block : BlockOf Op}

/-- The operations of a dominated region are dominated behind its arguments. -/
theorem dominated_region {scope : List ValueId} (h : BlocksDominated scope blocks)
    (hblock : blocks[i]? = some block) : OpsDominated (block.args ++ scope) block.ops := by
  induction blocks generalizing i with
  | nil => cases hblock
  | cons first rest ih =>
    cases i with
    | zero =>
      cases hblock
      cases block
      exact h.1
    | succ i => exact ih h.2 hblock

/-- What a block defines is defined among the blocks, in order. -/
theorem definedInBlock_sublist (hblock : blocks[i]? = some block) :
    (block.args ++ definedInOps block.ops).Sublist (definedInBlocks blocks) := by
  induction blocks generalizing i with
  | nil => cases hblock
  | cons first rest ih =>
    cases i with
    | zero =>
      cases hblock
      cases block
      exact List.sublist_append_left ..
    | succ i => exact (ih hblock).trans (List.sublist_append_right ..)

/-- What is within an operation of a block is within the blocks. -/
theorem mem_withinBlocks (hblock : blocks[i]? = some block) {op : Op} (hop : op ∈ withinOps block.ops) :
    op ∈ withinBlocks blocks := by
  induction blocks generalizing i with
  | nil => cases hblock
  | cons first rest ih =>
    rw [withinBlocks, List.mem_append]
    cases i with
    | zero =>
      cases hblock
      cases block
      exact .inl hop
    | succ i => exact .inr (ih hblock)

/-- What is within a region of an operation is within the operation. -/
theorem Op.mem_within_of_region (op : Op) (hregion : op.regions[i]? = some block) {op' : Op}
    (hop : op' ∈ withinOps block.ops) : op' ∈ op.within := by
  cases op
  exact List.mem_cons_of_mem _ (mem_withinBlocks hregion hop)

end Regions

section Scenes

variable {m : Machine V} {meaning : Meaning V} {c : Contract} {limit : Nat}
variable {held held' : ValueId → Prop} {t t' : NameTable} {scope around : List ValueId}
variable {owner : Option Op} {op : Op} {rest : List Op} {P : ValueId → Prop}

/-- A value without a name waits wherever values are held. -/
theorem Awaits.of_unnamed {id : ValueId} (h : Awaits c (fun _ => False) t id) : Awaits c held t id :=
  ⟨h.value, fun binding hbinding => (h.declared binding hbinding).elim⟩

/-- What is defined later waits while others are named. -/
theorem Pending.grows (h : Pending c held t op) (hgrows : t.Grows c.arena P t')
    (hheld : ∀ id, held id → held' id) (hother : ∀ id ∈ op.defined, ¬ P id) :
    Pending c held' t' op := by
  rw [Op.defined_eq, List.forall_mem_append] at hother
  refine ⟨fun id hid => ?_, fun id hid => ?_⟩
  · exact (h.results id hid).grows hgrows hheld fun hP => (hother.1 id hid hP).elim
  · exact (h.inside id hid).grows hgrows (fun _ h => h) fun hP => (hother.2 id hid hP).elim

/-- An operation waits if nothing that it defines has a name. -/
theorem Pending.of_unnamed (h : ∀ id ∈ op.defined, Awaits c (fun _ => False) t id) :
    Pending c held t op := by
  rw [Op.defined_eq, List.forall_mem_append] at h
  exact ⟨fun id hid => (h.1 id hid).of_unnamed, h.2⟩

/-- The first of the operations that are to come is due. -/
theorem Coming.due (h : Coming m meaning c held t scope around (op :: rest)) :
    Due m meaning c held t scope around op where
  dominated := h.dominated.1
  distinct := (List.nodup_append.1 h.distinct).1
  fresh id hid := h.fresh id (List.mem_append_left _ hid)
  pending := h.pending op (List.mem_cons_self ..)
  literals op' hop := h.literals op' (List.mem_append_left _ hop)
  selects op' hop := h.selects op' (List.mem_append_left _ hop)

/-- Behind the first operation, the others are to come. -/
theorem Coming.behind (h : Coming m meaning c held t scope around (op :: rest))
    (hgrows : t.Grows c.arena (fun id => id ∈ op.results ∨ id ∈ definedInBlocks op.regions) t') :
    Coming m meaning c (fun id => id ∈ op.results ∨ held id) t' (op.results ++ scope) around rest := by
  have hapart : ∀ id ∈ definedInOps rest, id ∉ op.defined := fun id hid hfirst =>
    (List.nodup_append.1 h.distinct).2.2 id hfirst id hid rfl
  refine ⟨h.dominated.2, (List.nodup_append.1 h.distinct).2.1, fun id hid => ?_, fun op' hop => ?_,
    fun op' hop => h.literals op' (List.mem_append_right _ hop),
    fun op' hop => h.selects op' (List.mem_append_right _ hop)⟩
  · obtain ⟨hscope, haround⟩ := h.fresh id (List.mem_append_right _ hid)
    refine ⟨fun hmem => ?_, haround⟩
    rcases List.mem_append.1 hmem with hresult | hmem
    · exact hapart id hid (op.defined_eq ▸ List.mem_append_left _ hresult)
    · exact hscope hmem
  · refine (h.pending op' (List.mem_cons_of_mem _ hop)).grows hgrows (fun _ => .inr) fun id hid hnamed => ?_
    refine hapart id (mem_defined_of_mem_ops hop hid) ?_
    rwa [op.defined_eq, List.mem_append]

/-- In front of a region of an operation, that of the region are to come. -/
theorem Due.region (h : Due m meaning c held t scope around op) {i : Nat} {region : Block}
    (hregion : op.regions[i]? = some region) (hgrows : t.Grows c.arena P t')
    (hother : ∀ id ∈ definedInOps region.ops, ¬ P id) :
    Coming m meaning c held' t' (region.args ++ scope) op.results region.ops := by
  have hdistinct := h.distinct
  rw [Op.defined_eq, List.nodup_append] at hdistinct
  have hregionDistinct := hdistinct.2.1.sublist (definedInBlock_sublist hregion)
  rw [List.nodup_append] at hregionDistinct
  have hdefined : ∀ id ∈ definedInOps region.ops, id ∈ definedInBlocks op.regions := fun id hid =>
    mem_definedInBlocks hregion (.inr hid)
  -- A region sees what is in front of its operation and its own arguments, and defines none of
  -- these.
  refine ⟨?_, hregionDistinct.2.1, fun id hid => ⟨fun hmem => ?_, fun hmem => ?_⟩, fun op' hop => ?_,
    fun op' hop => h.literals op' (op.mem_within_of_region hregion hop),
    fun op' hop => h.selects op' (op.mem_within_of_region hregion hop)⟩
  · have hdominated := h.dominated
    cases op
    exact dominated_region hdominated.2 hregion
  · rcases List.mem_append.1 hmem with harg | hmem
    · exact hregionDistinct.2.2 id harg id hid rfl
    · exact (h.fresh id (op.defined_eq ▸ List.mem_append_right _ (hdefined id hid))).1 hmem
  · exact hdistinct.2.2 id hmem id (hdefined id hid) rfl
  · refine .of_unnamed fun id hid => ?_
    have hmem := mem_defined_of_mem_ops hop hid
    exact (h.pending.inside id (hdefined id hmem)).grows hgrows (fun _ h => h) fun hP =>
      (hother id hmem hP).elim

/-- The region of a loop defines its index and what its operations define. -/
theorem definedInBlocks_loop (index : ValueId) (ops : List Op) :
    definedInBlocks [⟨[index], ops⟩] = index :: definedInOps ops := by
  simp [definedInBlocks, definedInBlock]

/-- The body of a loop defines nothing that is in scope in front of it. -/
theorem Due.notInBody (h : Due m meaning c held t scope around op) {index : ValueId} {ops : List Op}
    (hregions : op.regions = [⟨[index], ops⟩]) {id : ValueId} (hid : id ∈ scope) :
    id ∉ index :: definedInOps ops := by
  rw [← definedInBlocks_loop, ← hregions]
  intro hmem
  exact (h.fresh id (op.defined_eq ▸ List.mem_append_right _ hmem)).1 hid

/-- Behind an operation, its results are in scope. -/
theorem Scene.behind {results inside : List ValueId} {run : State V → Option (State V)}
    {stmts : List Stmt} (h : Scene m meaning c limit held t scope owner around)
    (hcarries : Carries m limit c.arena results inside held t run stmts t')
    (hapart : ∀ id ∈ results, id ∉ around) :
    Scene m meaning c limit (fun id => id ∈ results ∨ held id) t' (results ++ scope) owner around where
  supports := h.supports
  holding := hcarries.holding
  visible id hid := (List.mem_append.1 hid).imp_right (h.visible id)
  targets id hid := by
    obtain ⟨hvalue, hheld, hconst, hscope⟩ := h.targets id hid
    refine ⟨hvalue, .inr hheld, hconst, fun hmem => ?_⟩
    exact (List.mem_append.1 hmem).elim (fun hresult => hapart id hresult hid) hscope
  inside := h.inside

/-- The turn of an operation of a block. -/
theorem Scene.turn (h : Scene m meaning c limit held t scope owner around)
    (hdue : Due m meaning c held t scope around op) : Turn m meaning c limit held t op where
  supports := h.supports
  holding := h.holding
  uses id hid := by
    have hscope := Op.uses_of_dominated hdue.dominated id hid
    refine ⟨h.visible id hscope, fun hresult => ?_⟩
    exact (hdue.fresh id (op.defined_eq ▸ List.mem_append_left _ hresult)).1 hscope
  results := hdue.pending.results
  literals := hdue.literals op op.mem_within
  selects := hdue.selects op op.mem_within

/-- In front of the body of a loop. -/
theorem Scene.loop (h : Scene m meaning c limit held t scope owner around) {index : ValueId}
    (hholding : Holding c.arena t' fun id => id = index ∨ held id) (hresults : op.results = []) :
    Scene m meaning c limit (fun id => id = index ∨ held id) t' ([index] ++ scope) (some op)
      op.results where
  supports := h.supports
  holding := hholding
  visible id hid := (List.mem_cons.1 hid).imp_right (h.visible id)
  targets := by simp [hresults]
  inside hne := (hne hresults).elim

/-- In front of a branch, behind the declarations of the results. -/
theorem Scene.branch (h : Scene m meaning c limit held t scope owner around)
    (hdue : Due m meaning c held t scope around op) (hkind : op.kind = .scfIf)
    (hholding : Holding c.arena t' fun id => id ∈ op.results ∨ held id) :
    Scene m meaning c limit (fun id => id ∈ op.results ∨ held id) t' ([] ++ scope) (some op)
      op.results where
  supports := h.supports
  holding := hholding
  visible id hid := .inr (h.visible id hid)
  targets id hid := by
    refine ⟨(hdue.pending.results id hid).value, .inl hid, ?_, ?_⟩
    · exact (h.turn hdue).not_literal (by simp [hkind]) id hid
    · exact (hdue.fresh id (op.defined_eq ▸ List.mem_append_left _ hid)).1
  inside _ := ⟨op, rfl, hkind, rfl⟩

end Scenes

/-! ## Bounds -/

/-- The bound of a loop that is admitted. -/
theorem AffineBound.of_check {bound : AffineBound} {values : List AffineValue}
    (h : bound.check 1 = .ok values) : values = bound.values ∧
      bound.map.dims.toNat + bound.map.symbols.toNat = bound.operands.length ∧
      bound.map.results ≠ [] := by
  unfold check at h
  obtain ⟨inputs, hinputs, h⟩ := ok_of_bind h
  -- The inputs are counted first, then compared with the operands.
  have hcount : inputs = bound.map.dims.toNat + bound.map.symbols.toNat := by
    unfold countInputs at hinputs
    dsimp only at hinputs
    split at hinputs
    · cases hinputs
      rfl
    · cases hinputs
  split at h
  · next hboth =>
    cases h
    refine ⟨rfl, hcount ▸ hboth.1, fun hnone => ?_⟩
    rw [hnone] at hboth
    exact absurd hboth.2 (by decide)
  · cases h

namespace Emission

variable {m : Machine V} {meaning : Meaning V} {limit limit' : Nat} {c : Contract}
variable {function : Option String} {t : NameTable} {held : ValueId → Prop} {owner : Option Op}
variable {scope around : List ValueId} {op : Op}

/-- A region of an operation does what its evaluation says, wherever its operations are to come. -/
def BodyCarries (m : Machine V) (meaning : Meaning V) (limit limit' : Nat) (c : Contract)
    (function : Option String) (scope : List ValueId) (op : Op) (region : Block) : Prop :=
  ∀ t held, Scene m meaning c limit held t (region.args ++ scope) (some op) op.results →
    Coming m meaning c held t (region.args ++ scope) op.results region.ops →
    Places c function t (ofBlock (some op) region)
      (Carries m limit c.arena [] (definedInOps region.ops) held t
        (meaning.evalBlock c.arena limit' op.results region))

/-! ## Loops -/

/-- The head of a loop whose bounds and step are held. -/
theorem places_head (h : Holding c.arena t held) (op : Op) {index : ValueId}
    (hindex : Awaits c (fun _ => False) t index) (hconst : c.arena.constantText? index = none)
    (hknown : c.arena.Known index) {lower upper step : Term}
    (hvalues : ∀ id ∈ lower.values ++ upper.values ++ step.values, held id) :
    Places c function t (loopHead op index lower upper step) fun head t₁ =>
      ∃ type, t.binding? index = none ∧ (c.arena.info index).elem.cppName? = some type ∧
        t₁ = t.insert index (.declared ⟨t.size, false⟩) ∧
        Holding c.arena t₁ (fun id => id = index ∨ held id) ∧
        head = .range (.mention (.declare index (some type) ⟨t.size, false⟩))
          (lower.heldCode c.arena t₁) (c.arena.useCode t₁ index) (upper.heldCode c.arena t₁)
          (c.arena.useCode t₁ index) (step.heldCode c.arena t₁) := by
  simp only [List.forall_mem_append] at hvalues
  refine .bind (.bind ((places_target false (some op) hindex hconst).mono ?_))
  intro target t₁ htarget
  -- The index has no name in front of the loop, so the head declares it.
  cases htarget with
  | use hnot => exact hnot.elim
  | @declare type hfree htype =>
    have htarget : Targets c.arena held t false index (.declare index (some type) ⟨t.size, false⟩)
        (t.insert index (.declared ⟨t.size, false⟩)) := .declare hfree htype
    have hboth := htarget.holding h hconst hknown (by simp)
    -- In the order of the head: the start, the test, the step, with the index between.
    refine .pure (.bindQuiet (term_of_held hboth op fun id hid => .inr (hvalues.1.1 id hid)) ?_)
    refine .bindQuiet (operand_of_held hboth op (.inl rfl)) ?_
    refine .bindQuiet (term_of_held hboth op fun id hid => .inr (hvalues.1.2 id hid)) ?_
    refine .bindQuiet (operand_of_held hboth op (.inl rfl)) ?_
    refine .bindQuiet (term_of_held hboth op fun id hid => .inr (hvalues.2 id hid)) (.pure ?_)
    exact ⟨type, hfree, htype, rfl, hboth, rfl⟩

/-- A loop whose bounds and step stay the same. -/
theorem carries_loop (h : Scene m meaning c limit held t scope owner around)
    (hdue : Due m meaning c held t scope around op) (hlimit : limit' ≤ limit) (hkind : op.kind ≠ .constant)
    (hresults : op.results = []) {index : ValueId} {ops : List Op}
    (hregions : op.regions = [⟨[index], ops⟩])
    (hbody : BodyCarries m meaning limit limit' c function scope op ⟨[index], ops⟩)
    {lower upper step : Term}
    (hvalues : ∀ id ∈ lower.values ++ upper.values ++ step.values, held id)
    {lowerOf upperOf stepOf : State V → Option V}
    (hlower : Denotes m c.arena held t (fun t' => lower.heldCode c.arena t') lowerOf)
    (hupper : Denotes m c.arena held t (fun t' => upper.heldCode c.arena t') upperOf)
    (hstep : Denotes m c.arena held t (fun t' => step.heldCode c.arena t') stepOf)
    (hupperStable : Stable (index :: definedInOps ops) upperOf)
    (hstepStable : Stable (index :: definedInOps ops) stepOf) :
    Places c function t (render op [ofBlock (some op) ⟨[index], ops⟩] (.loop index lower upper step))
      (Carries m limit c.arena op.results (definedInBlocks op.regions) held t fun σ => do
        meaning.loop c.arena limit' σ index (← lowerOf σ) (← upperOf σ) (← stepOf σ)
          (meaning.evalBlock c.arena limit' [] ⟨[index], ops⟩)) := by
  have hregion : op.regions[0]? = some ⟨[index], ops⟩ := by rw [hregions]; rfl
  have hindex : Awaits c (fun _ => False) t index :=
    hdue.pending.inside index (mem_definedInBlocks hregion (.inl (List.mem_singleton_self index)))
  have hconst : c.arena.constantText? index = none := by
    have hliterals := hdue.literals op op.mem_within
    rw [Op.literalsFit, if_neg hkind, hresults, hregions] at hliterals
    simpa using hliterals
  have hapart : index ∉ definedInOps ops := by
    have hdistinct := hdue.distinct
    rw [op.defined_eq, hresults, hregions] at hdistinct
    have hboth : (index :: definedInOps ops).Nodup := by
      simpa [definedInBlocks, definedInBlock] using hdistinct
    exact (List.nodup_cons.1 hboth).1
  refine .bind ((places_head h.holding op hindex hconst (h.supports.known hindex.value) hvalues).mono ?_)
  rintro _ t₁ ⟨type, hfree, htype, ht₁, hholding, rfl⟩
  have hgrows : t.Grows c.arena (· = index) t₁ := by
    rw [ht₁]
    exact .declare false .refl rfl hfree hconst
  have hgrows' : t.Grows c.arena (fun _ => True) t₁ := hgrows.mono fun _ _ => trivial
  have hcoming : Coming m meaning c (fun id => id = index ∨ held id) t₁ ([index] ++ scope) op.results ops :=
    hdue.region hregion hgrows fun id hid heq => hapart (heq ▸ hid)
  refine .bind ((hbody t₁ _ (h.loop hholding hresults) hcoming).mono ?_)
  intro stmts t₂ hstmts
  have hinside : Carries m limit c.arena [] (definedInOps ops) (fun id => id = index ∨ held id) t₁
      (meaning.evalBlock c.arena limit' [] ⟨[index], ops⟩) (op.attrs.loopPragmas ++ stmts) t₂ := by
    rw [hresults] at hstmts
    exact hstmts.behindSilent op.attrs.silent_loopPragmas
  -- the body changes no scalar but its own ones
  have hframes : Meaning.Frames (index :: definedInOps ops)
      (meaning.evalBlock c.arena limit' [] ⟨[index], ops⟩) := fun σ σ' hrun =>
    (Meaning.evalOps_frames limit' [] ops σ σ' hrun).mono fun id hid => List.mem_cons_of_mem _ hid
  have hsimulates := simulates_loop h.supports hlimit h.holding hconst hfree htype ht₁ hholding hlower
    hupper hstep hinside (List.mem_cons_self ..) hframes hupperStable hstepStable (some op.note) none
  rw [hresults, hregions, definedInBlocks_loop]
  refine .pure ⟨?_, ?_, ⟨⟨?_, hinside.readable⟩, trivial⟩, ?_⟩
  · refine (hgrows.mono fun id hid => ?_).trans (hinside.grows.mono fun id hid => ?_)
    · exact .inr (List.mem_cons.2 (.inl hid))
    · exact .inr (List.mem_cons_of_mem _ (hid.resolve_left (by simp)))
  · exact hinside.holding.mono fun id hid => .inr (.inr (hid.resolve_left (by simp)))
  · exact .range (.declare index t.size htype) ((hlower.readable t₁ hgrows').any true)
      (hholding.readable_use (.inl rfl) false) (hupper.readable t₁ hgrows')
      (hholding.readable_use (.inl rfl) false) ((hstep.readable t₁ hgrows').any true)
  · simpa using hsimulates

/-! ## Conditionals -/

/-- The second branch, if there is one, where the names of the first one are known. -/
theorem carries_second {t₂ : NameTable} {second : Option Block}
    (hsecond : ∀ region ∈ second, region.args = [] ∧
      BodyCarries m meaning limit limit' c function scope op region ∧
      Coming m meaning c held t₂ ([] ++ scope) op.results region.ops)
    (hscene : Scene m meaning c limit held t₂ ([] ++ scope) (some op) op.results)
    (first : Emission (List Stmt)) :
    Places c function t₂ (secondBody (first :: second.toList.map (ofBlock (some op))))
      fun onFalse t₃ => t₂.Grows c.arena (· ∈ definedInBlocks second.toList) t₃ ∧
        Holding c.arena t₃ held ∧ (∀ stmts ∈ onFalse, StmtsReadable stmts) ∧
        Option.Rel (Simulates m limit c.arena t₂ held t₃ held)
          (second.map (meaning.evalBlock c.arena limit' op.results)) onFalse := by
  -- Without a second region nothing is written, and the conditional does nothing there.
  cases second with
  | none => exact .pure ⟨.refl, hscene.holding, by simp, .none⟩
  | some region =>
    obtain ⟨hargs, hbody, hcoming⟩ := hsecond region rfl
    obtain ⟨_, ops⟩ := region
    obtain rfl := hargs
    refine .bind ((hbody t₂ held hscene hcoming).mono ?_)
    intro stmts t₃ hstmts
    have hdefined : definedInBlocks (some (⟨[], ops⟩ : Block)).toList = definedInOps ops := by
      simp [definedInBlocks, definedInBlock]
    refine .pure ⟨hstmts.grows.mono fun id hid => ?_, ?_, ?_, ?_⟩
    · exact hdefined ▸ hid.resolve_left (by simp)
    · exact hstmts.holding.mono fun _ => .inr
    · simpa using hstmts.readable
    · exact .some (by simpa using hstmts.simulates)

/-- A conditional, with its results declared in front of it. -/
theorem carries_branch (h : Scene m meaning c limit held t scope owner around)
    (hdue : Due m meaning c held t scope around op) (hkind : op.kind = .scfIf) {condition : ValueId}
    (hcondition : condition ∈ scope) {first : Block} {second : Option Block}
    (hregions : op.regions = first :: second.toList) (hargs : ∀ region ∈ op.regions, region.args = [])
    (hbodies : ∀ region ∈ op.regions, BodyCarries m meaning limit limit' c function scope op region) :
    Places c function t
      (render op (op.regions.map (ofBlock (some op))) (.branch (.value condition)))
      (Carries m limit c.arena op.results (definedInBlocks op.regions) held t fun σ => do
        meaning.branch (σ.clear op.results) (← σ.scalar? condition)
          (meaning.evalBlock c.arena limit' op.results first)
          (second.map (meaning.evalBlock c.arena limit' op.results))) := by
  have hm := h.supports.implements
  have hfirst : op.regions[0]? = some first := by rw [hregions]; rfl
  have hsecond : ∀ region ∈ second, op.regions[1]? = some region := by
    rintro region hregion
    rw [hregions, Option.mem_def.1 hregion]
    rfl
  have hdistinct := hdue.distinct
  rw [op.defined_eq, List.nodup_append] at hdistinct
  obtain ⟨_, firstOps⟩ := first
  obtain rfl := hargs _ (List.mem_of_getElem? hfirst)
  -- a value is cleared only if it is a result, which the condition is not
  have hcleared (σ : State V) : (σ.clear op.results).scalar? condition = σ.scalar? condition := by
    have hnot : condition ∉ op.results := fun hmem =>
      (hdue.fresh condition (op.defined_eq ▸ List.mem_append_left _ hmem)).1 hcondition
    rw [State.scalar?, State.clear, if_neg hnot, State.scalar?]
  refine .bind ((carries_predeclare h.supports op h.holding fun id hid =>
    ⟨hdue.pending.results id hid, (h.turn hdue).not_literal (by simp [hkind]) id hid⟩).mono ?_)
  intro declarations t₁ hdeclared
  have hgrows₁ : t.Grows c.arena (· ∈ op.results) t₁ := hdeclared.grows.mono (by simp)
  have hapart {i : Nat} {region : Block} (hregion : op.regions[i]? = some region) :
      ∀ id ∈ definedInOps region.ops, id ∉ op.results := fun id hid hresult =>
    hdistinct.2.2 id hresult id (mem_definedInBlocks hregion (.inr hid)) rfl
  refine .bindQuiet (term_of_held hdeclared.holding op (by
    simpa [Term.values] using .inr (h.visible condition hcondition))) ?_
  rw [hregions, List.map_cons]
  refine .bind ((hbodies _ (List.mem_of_getElem? hfirst) t₁ _ (h.branch hdue hkind hdeclared.holding)
    (hdue.region hfirst hgrows₁ (hapart hfirst))).mono ?_)
  intro onTrue t₂ hTrue
  have hholding₂ : Holding c.arena t₂ fun id => id ∈ op.results ∨ held id :=
    hTrue.holding.mono fun _ => .inr
  have hgrows₂ : t₁.Grows c.arena (· ∈ definedInOps firstOps) t₂ :=
    hTrue.grows.mono fun id hid => hid.resolve_left (by simp)
  have hsecondComing : ∀ region ∈ second, region.args = [] ∧
      BodyCarries m meaning limit limit' c function scope op region ∧
      Coming m meaning c (fun id => id ∈ op.results ∨ held id) t₂ ([] ++ scope) op.results region.ops := by
    intro region hregion
    have hplace := hsecond region hregion
    have hmem := List.mem_of_getElem? hplace
    have hgrows : t.Grows c.arena (fun id => id ∈ op.results ∨ id ∈ definedInOps firstOps) t₂ :=
      (hgrows₁.mono fun _ => .inl).trans (hgrows₂.mono fun _ => .inr)
    refine ⟨hargs region hmem, hbodies region hmem, ?_⟩
    rw [← hargs region hmem]
    refine hdue.region hplace hgrows fun id hid hnamed => ?_
    rcases hnamed with hresult | hinside
    · exact hapart hplace id hid hresult
    · exact disjoint_of_nodup hdistinct.2.1 hfirst hplace id hid hinside
  refine .bind ((carries_second hsecondComing (h.branch hdue hkind hholding₂) _).mono ?_)
  rintro onFalse t₃ ⟨hgrows₃, hholding₃, hreadable, hFalse⟩
  have hdenotes : Denotes m c.arena (fun id => id ∈ op.results ∨ held id) t₁
      (fun t' => c.arena.useCode t' condition) fun σ => σ.scalar? condition :=
    denotes_scalar hdeclared.holding (.inr (h.visible condition hcondition))
  have hsimulates := simulates_branch hm hdeclared.holding.valid hdenotes
    (by simpa using hTrue.simulates) (hgrows₂.mono fun _ _ => trivial)
    (hgrows₃.mono fun _ _ => trivial) hFalse (some op.note)
  have hbranches : Carries m limit c.arena [] (definedInBlocks op.regions)
      (fun id => id ∈ op.results ∨ held id) t₁ (fun σ => do
        meaning.branch σ (← σ.scalar? condition)
          (meaning.evalBlock c.arena limit' op.results ⟨[], firstOps⟩)
          (second.map (meaning.evalBlock c.arena limit' op.results)))
      [.branch (c.arena.useCode t₁ condition) (some op.note) onTrue onFalse] t₃ := by
    refine ⟨?_, hholding₃.mono fun _ hid => hid.resolve_left (by simp), ⟨?_, trivial⟩, ?_⟩
    · rw [hregions]
      refine (hgrows₂.mono fun id hid => ?_).trans (hgrows₃.mono fun id hid => ?_)
      · exact .inr (List.mem_append_left _ hid)
      · exact .inr (List.mem_append_right _ hid)
    · have hcode := hdeclared.holding.readable_use (.inr (h.visible condition hcondition)) true
      cases onFalse with
      | none => exact ⟨hcode, hTrue.readable⟩
      | some stmts => exact ⟨hcode, hTrue.readable, hreadable stmts rfl⟩
    · simpa using hsimulates
  rw [← hregions]
  refine .pure (((hdeclared.append hbranches).weaken (by simp) (by simp)).congr fun σ σ' hrun => ?_)
  simpa [hcleared] using hrun

/-! ## Yields -/

/-- There are as many values as others, and those of a pair have the same shape. -/
theorem sameShapes_pairs {arena : Arena} {ids others : List ValueId}
    (h : arena.sameShapes ids others = true) : ids.length = others.length ∧
      ∀ pair ∈ others.zip ids, arena.sameShape pair.2 pair.1 = true := by
  induction ids generalizing others with
  | nil => cases others with
    | nil => simp
    | cons other others => cases h
  | cons id ids ih => cases others with
    | nil => cases h
    | cons other others =>
      rw [Arena.sameShapes, Bool.and_eq_true] at h
      obtain ⟨hlength, hpairs⟩ := ih h.2
      rw [List.zip_cons_cons, List.forall_mem_cons]
      exact ⟨congrArg Nat.succ hlength, h.1, hpairs⟩

/-- A yield. If it yields anything, then to the conditional around. -/
theorem carries_yield (h : Scene m meaning c limit held t scope owner around)
    (hdue : Due m meaning c held t scope around op) (hyield : op.isYield c.arena around = true) :
    Places c function t (ofOp owner op)
      (Carries m limit c.arena op.results (definedInBlocks op.regions) held t
        (meaning.evalOp c.arena limit' around op)) := by
  have hturn := h.turn hdue
  have huses := Op.uses_of_dominated hdue.dominated
  obtain ⟨kind, operands, results, attrs, regions, line⟩ := op
  simp only [Op.isYield, Bool.and_eq_true, Bool.or_eq_true, decide_eq_true_eq,
    List.isEmpty_iff] at hyield
  obtain ⟨⟨⟨hkind, hshapes⟩, rfl⟩, rfl⟩ := hyield
  obtain ⟨hlength, hpairs⟩ := sameShapes_pairs hshapes
  have hmeaning : meaning.evalOp c.arena limit' around ⟨kind, operands, [], attrs, [], line⟩ =
      fun σ => meaning.deliver c.arena σ (around.zip operands) := by
    rcases hkind with rfl | rfl <;> rfl
  rw [hmeaning]
  refine carries_planned hturn fun plan hplan => ?_
  have hplanned : planYield owner operands = .ok plan := by
    rcases hkind with rfl | rfl <;>
      simpa [Op.plan, Op.counts, Counts.covers, OpKind.needs, Op.rule] using hplan
  cases operands with
  | nil =>
    -- nothing is yielded, whatever is around
    cases hplanned
    refine .pure ((Carries.silent h.holding .nil).congr fun σ σ' hrun => ?_)
    rw [List.zip_nil_right] at hrun
    exact hrun
  | cons first rest =>
    have haround : around ≠ [] := by
      rintro rfl
      cases hlength
    obtain ⟨op', rfl, hkind', hresults⟩ := h.inside haround
    simp only [planYield, hkind', hresults] at hplanned
    cases hplanned
    have hyielded : (yielded ⟨kind, first :: rest, [], attrs, [], line⟩ around).run ⟨c.arena, function⟩ t =
        ⟨around.zip (first :: rest), t, [], [], []⟩ := by
      unfold yielded
      rw [if_neg (by simp [← hlength])]
      rfl
    have hoperand {pair : ValueId × ValueId} (hpair : pair ∈ around.zip (first :: rest)) :
        pair.2 ∈ scope :=
      huses pair.2 (List.mem_append_left _ (List.of_mem_zip hpair).2)
    refine .bindQuiet hyielded (carries_computeEach h.supports _ h.holding ?_ ?_ ?_)
    · intro pair hpair
      obtain ⟨hvalue, hheld, hconst, -⟩ := h.targets pair.1 (List.of_mem_zip hpair).1
      exact ⟨hvalue, hheld, hconst⟩
    · intro pair hpair
      exact ⟨h.visible pair.2 (hoperand hpair), Arena.isShaped_eq (hpairs pair hpair)⟩
    · intro pair hpair pair' hpair' heq
      exact (h.targets pair'.1 (List.of_mem_zip hpair').1).2.2.2 (heq ▸ hoperand hpair)

/-! ## Operations -/

/-- The bodies are those of the regions, in order. -/
theorem ofRegions_eq (op : Op) (regions : List Block) :
    ofRegions op regions = regions.map (ofBlock (some op)) := by
  induction regions with
  | nil => rfl
  | cons region rest ih => rw [ofRegions, List.map_cons, ih]

/-- An operation whose regions do what their evaluation says. -/
theorem carries_operation (h : Scene m meaning c limit held t scope owner around)
    (hdue : Due m meaning c held t scope around op) (hlimit : limit' ≤ limit)
    (hform : op.formInCore c.arena = true)
    (hbodies : ∀ region ∈ op.regions, BodyCarries m meaning limit limit' c function scope op region) :
    Places c function t (operation owner op (ofRegions op op.regions))
      (Carries m limit c.arena op.results (definedInBlocks op.regions) held t
        (meaning.operation c.arena limit' around op
          (meaning.evalRegions c.arena limit' (Meaning.yieldTargets op) op.regions))) := by
  have hm := h.supports.implements
  have huses := Op.uses_of_dominated hdue.dominated
  have hheld : ∀ id ∈ op.operands ++ op.kind.mentioned, held id := fun id hid =>
    h.visible id (huses id hid)
  rw [ofRegions_eq]
  obtain ⟨kind, operands, results, attrs, regions, line⟩ := op
  -- Without regions a leaf; with regions one of the four structured forms of the core.
  cases regions with
  | nil => exact carries_leaf (h.turn hdue) hform rfl
  | cons region rest =>
    unfold Op.formInCore at hform
    dsimp only at hform hheld huses
    split at hform
    all_goals try contradiction
    -- The bounds of a loop are not set in its body, so they keep their values.
    · next lower upper step index ops hregions =>
      cases hregions
      simp only [OpKind.mentioned, List.append_nil] at hheld huses
      refine carries_planned (h.turn hdue) fun plan hplan => ?_
      cases hplan
      exact carries_loop h hdue hlimit (by simp) rfl rfl (hbodies _ (List.mem_singleton_self _))
        (by simpa [Term.values] using hheld) (denotes_scalar h.holding (hheld lower (by simp)))
        (denotes_scalar h.holding (hheld upper (by simp)))
        (denotes_scalar h.holding (hheld step (by simp)))
        (stable_scalar (hdue.notInBody rfl (huses upper (by simp))))
        (stable_scalar (hdue.notInBody rfl (huses step (by simp))))
    · next lower upper step index ops hregions =>
      cases hregions
      simp only [Bool.and_eq_true] at hform
      simp only [OpKind.mentioned, List.nil_append, List.forall_mem_append] at hheld huses
      refine carries_planned (h.turn hdue) fun plan hplan => ?_
      obtain ⟨lowers, hlower, hplan⟩ := ok_of_bind hplan
      obtain ⟨uppers, hupper, ⟨⟩⟩ := ok_of_bind hplan
      obtain ⟨rfl, hlowerCount, hlowerSome⟩ := AffineBound.of_check hlower
      obtain ⟨rfl, hupperCount, hupperSome⟩ := AffineBound.of_check hupper
      refine carries_loop h hdue hlimit (by simp) rfl rfl (hbodies _ (List.mem_singleton_self _)) ?_
        (denotes_bound h.holding hm (by decide) hm.max hheld.1 hlowerCount hform.1.1 hlowerSome)
        (denotes_bound h.holding hm (by decide) hm.min hheld.2 hupperCount hform.1.2 hupperSome)
        (denotes_integer hm step) (stable_bound fun id hid => hdue.notInBody rfl (huses.2 id hid))
        (stable_const _)
      simp only [Term.values, List.append_nil, List.forall_mem_append, List.mem_flatMap]
      constructor
      · rintro id ⟨value, hvalue, hid⟩
        obtain ⟨result, -, rfl⟩ := List.mem_map.1 hvalue
        exact hheld.1 id hid
      · rintro id ⟨value, hvalue, hid⟩
        obtain ⟨result, -, rfl⟩ := List.mem_map.1 hvalue
        exact hheld.2 id hid
    · next condition onTrue hregions =>
      cases hregions
      refine carries_planned (h.turn hdue) fun plan hplan => ?_
      cases hplan
      have hregions : [⟨[], onTrue⟩] = (⟨[], onTrue⟩ : Block) :: (none : Option Block).toList := rfl
      exact carries_branch h hdue rfl (huses condition (by simp)) hregions (by simp) hbodies
    · next condition onTrue onFalse hregions =>
      cases hregions
      refine carries_planned (h.turn hdue) fun plan hplan => ?_
      cases hplan
      have hregions : [⟨[], onTrue⟩, ⟨[], onFalse⟩] =
        (⟨[], onTrue⟩ : Block) :: (some ⟨[], onFalse⟩ : Option Block).toList := rfl
      exact carries_branch h hdue rfl (huses condition (by simp)) hregions (by simp) hbodies

/-! ## Blocks -/

/-- An operation in front of others. -/
theorem carries_cons {rest : List Op} (h : Scene m meaning c limit held t scope owner around)
    (hcoming : Coming m meaning c held t scope around (op :: rest))
    (hop : Places c function t (ofOp owner op)
      (Carries m limit c.arena op.results (definedInBlocks op.regions) held t
        (meaning.evalOp c.arena limit' around op)))
    (hrest : ∀ t', Scene m meaning c limit (fun id => id ∈ op.results ∨ held id) t'
        (op.results ++ scope) owner around →
      Coming m meaning c (fun id => id ∈ op.results ∨ held id) t' (op.results ++ scope) around rest →
      Places c function t' (ofOps owner rest)
        (Carries m limit c.arena [] (definedInOps rest) (fun id => id ∈ op.results ∨ held id) t'
          (meaning.evalOps c.arena limit' around rest))) :
    Places c function t (ofOps owner (op :: rest))
      (Carries m limit c.arena [] (definedInOps (op :: rest)) held t
        (meaning.evalOps c.arena limit' around (op :: rest))) := by
  have hapart : ∀ id ∈ op.results, id ∉ around := fun id hid =>
    (hcoming.fresh id (List.mem_append_left _ (op.defined_eq ▸ List.mem_append_left _ hid))).2
  -- The results of the first operation are held for the others.
  refine .bind (hop.mono ?_)
  intro first t₁ hfirst
  refine .bind ((hrest t₁ (h.behind hfirst hapart) (hcoming.behind hfirst.grows)).mono ?_)
  intro stmts t₂ hstmts
  refine .pure ((hfirst.append hstmts).weaken (by simp) fun id hid => .inr ?_)
  rw [definedInOps, op.defined_eq]
  simpa [or_assoc] using hid

/-- Behind the last operation. -/
theorem carries_nil (h : Scene m meaning c limit held t scope owner around) :
    Places c function t (ofOps owner [])
      (Carries m limit c.arena [] (definedInOps []) held t (meaning.evalOps c.arena limit' around [])) :=
  .pure (.silent h.holding .nil)

mutual

/-- An operation with everything inside of it. -/
theorem carries_ofOp (hlimit : limit' ≤ limit) (owner : Option Op) : (op : Op) →
    ∀ {t held scope around}, Scene m meaning c limit held t scope owner around →
    Due m meaning c held t scope around op → op.inCore c.arena = true →
    Places c function t (ofOp owner op)
      (Carries m limit c.arena op.results (definedInBlocks op.regions) held t
        (meaning.evalOp c.arena limit' around op))
  | ⟨kind, operands, results, attrs, regions, line⟩, t, held, scope, around, h, hdue, hcore => by
    rw [Op.inCore, Bool.and_eq_true] at hcore
    exact carries_operation h hdue hlimit hcore.1
      (carries_regions hlimit ⟨kind, operands, results, attrs, regions, line⟩ scope regions hcore.2)

/-- The regions of an operation. -/
theorem carries_regions (hlimit : limit' ≤ limit) (op : Op) (scope : List ValueId) :
    (regions : List (BlockOf Op)) → blocksInCore c.arena op.results regions = true →
    ∀ region ∈ regions, BodyCarries m meaning limit limit' c function scope op region
  | [], _, _, hregion => by cases hregion
  | ⟨args, ops⟩ :: rest, hcore, region, hregion => by
    rw [blocksInCore, Bool.and_eq_true] at hcore
    rcases List.mem_cons.1 hregion with rfl | hregion
    · exact fun t held h hcoming => carries_ofOps hlimit (some op) ops h hcoming hcore.1
    · exact carries_regions hlimit op scope rest hcore.2 region hregion

/-- Some operations with everything inside of them. -/
theorem carries_ofOps (hlimit : limit' ≤ limit) (owner : Option Op) : (ops : List Op) →
    ∀ {t held scope around}, Scene m meaning c limit held t scope owner around →
    Coming m meaning c held t scope around ops → opsInCore c.arena around ops = true →
    Places c function t (ofOps owner ops)
      (Carries m limit c.arena [] (definedInOps ops) held t (meaning.evalOps c.arena limit' around ops))
  | [], t, held, scope, around, h, _, _ => carries_nil h
  | op :: rest, t, held, scope, around, h, hcoming, hcore => by
    rw [opsInCore, Bool.or_eq_true, Bool.and_eq_true, Bool.and_eq_true] at hcore
    rcases hcore with ⟨hyield, hlast⟩ | ⟨hop, hrest⟩
    · obtain rfl := List.isEmpty_iff.1 hlast
      exact carries_cons h hcoming (carries_yield h hcoming.due hyield) fun t' h' _ => carries_nil h'
    · exact carries_cons h hcoming (carries_ofOp hlimit owner op h hcoming.due hop)
        fun t' h' hcoming' => carries_ofOps hlimit owner rest h' hcoming' hrest

end

/-! ## The body of a function -/

/-- A return has no code of its own. -/
theorem carries_return (h : Scene m meaning c limit held t scope owner around)
    (hdue : Due m meaning c held t scope around op) (hkind : op.kind = .ret) (hresults : op.results = [])
    (hregions : op.regions = []) :
    Places c function t (ofOp owner op)
      (Carries m limit c.arena op.results (definedInBlocks op.regions) held t
        (meaning.evalOp c.arena limit' around op)) := by
  have hturn := h.turn hdue
  obtain ⟨kind, operands, results, attrs, regions, line⟩ := op
  subst hkind hresults hregions
  refine carries_planned hturn fun plan hplan => ?_
  have hnothing : plan = .nothing := by
    simpa [Op.plan, Op.counts, Counts.covers, OpKind.needs, Op.rule, pure, Except.pure] using hplan.symm
  rw [hnothing]
  exact .pure (.silent h.holding .nil)

/-- The operations of a function, up to its return. -/
theorem carries_body (hlimit : limit' ≤ limit) (owner : Option Op) {ops : List Op}
    (h : Scene m meaning c limit held t scope owner around)
    (hcoming : Coming m meaning c held t scope around ops) (hcore : bodyInCore c.arena ops = true) :
    Places c function t (ofOps owner ops)
      (Carries m limit c.arena [] (definedInOps ops) held t
        (meaning.evalOps c.arena limit' around ops)) := by
  induction ops generalizing t held scope with
  | nil => cases hcore
  | cons op rest ih =>
    simp only [bodyInCore, Bool.or_eq_true, Bool.and_eq_true, decide_eq_true_eq,
      List.isEmpty_iff] at hcore
    rcases hcore with ⟨⟨⟨hkind, hresults⟩, hregions⟩, rfl⟩ | ⟨hop, hrest⟩
    · exact carries_cons h hcoming (carries_return h hcoming.due hkind hresults hregions)
        fun t' h' _ => carries_nil h'
    · exact carries_cons h hcoming (carries_ofOp hlimit owner op h hcoming.due hop)
        fun t' h' hcoming' => ih h' hcoming' hrest

end Emission

end HlsEmit
