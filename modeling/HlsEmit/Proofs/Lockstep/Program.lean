import HlsEmit.Emission.Program
import HlsEmit.Proofs.Account.Program
import HlsEmit.Proofs.Lockstep.Admission

/-!
# Operations and functions in lockstep

The recursion of the emission carries everything over to operations with regions, and from there to
functions: alike functions are emitted in lockstep where both tables tell the same about the values
that they mention.

## Key results

- `lockstep_ofOp` with its companions: operations and blocks
- `lockstep_function`, `lockstep_functions`: functions
-/

namespace HlsEmit

open Code

/-! ## Alike lists -/

namespace Alike

variable {α β γ : Type} {bare : α → β} {exact : Bool} {x y : α} {xs ys : List α}

/-- Alike lists have alike elements, position by position. -/
theorem of_cons (h : Alike (List.map bare) exact (x :: xs) (y :: ys)) :
    Alike bare exact x y ∧ Alike (List.map bare) exact xs ys := by
  obtain ⟨hhead, htail⟩ := List.cons_eq_cons.1 h.bare_eq
  refine ⟨⟨hhead, fun hexact => ?_⟩, ⟨htail, fun hexact => ?_⟩⟩
  · exact (List.cons_eq_cons.1 (h.eq hexact)).1
  · exact (List.cons_eq_cons.1 (h.eq hexact)).2

/-- What is alike to a list that starts with an element does so, too. -/
theorem exists_cons (h : Alike (List.map bare) exact (x :: xs) ys) :
    ∃ y rest, ys = y :: rest ∧ Alike bare exact x y ∧ Alike (List.map bare) exact xs rest := by
  cases ys with
  | nil => cases h.bare_eq
  | cons y rest => exact ⟨y, rest, rfl, h.of_cons⟩

/-- Only the empty list is like the empty list. -/
theorem eq_nil (h : Alike (List.map bare) exact [] ys) : ys = [] :=
  List.map_eq_nil_iff.1 h.bare_eq.symm

/-- Alike lists with alike heads. -/
theorem cons (hhead : Alike bare exact x y) (htail : Alike (List.map bare) exact xs ys) :
    Alike (List.map bare) exact (x :: xs) (y :: ys) := by
  refine ⟨?_, fun hexact => ?_⟩
  · rw [List.map_cons, List.map_cons, hhead.bare_eq, htail.bare_eq]
  · rw [hhead.eq hexact, htail.eq hexact]

end Alike

section Blocks

variable {exact : Bool} {op op' : Op} {block block' : Block}

/-- Alike operations have alike regions. -/
theorem Op.Alike.blocks (h : op.Alike exact op') :
    HlsEmit.Alike (List.map bareBlock) exact op.regions op'.regions :=
  ⟨h.regions, fun hexact => congrArg Op.regions (h.eq hexact)⟩

/-- Alike blocks have alike operations. -/
theorem ops_alike (h : Alike bareBlock exact block block') :
    Alike (List.map Op.bare) exact block.ops block'.ops :=
  h.map BlockOf.ops fun block block' hbare => by
    have hops := congrArg BlockOf.ops hbare
    rwa [bareBlock_ops, bareBlock_ops] at hops

end Blocks

/-- What an operation mentions itself is mentioned. -/
theorem Op.mem_mentioned_of_own {op : Op} {id : ValueId} (h : id ∈ op.ownMentioned) :
    id ∈ op.mentioned := by
  cases op with
  | mk kind operands results attrs regions line =>
    rw [Op.ownMentioned, List.mem_append] at h
    rw [Op.mentioned, List.mem_append]
    exact h.imp_right fun harg => Emission.mem_mentionedInBlocks_of_firstArgs harg

/-- Returns that are alike have the same operands. -/
theorem Alike.returned {exact : Bool} {ret ret' : Option Op} (h : OpAlike? exact ret ret') :
    ret.elim [] Op.operands = ret'.elim [] Op.operands := by
  have hbare (ret : Option Op) : (ret.map Op.bare).elim [] Op.operands = ret.elim [] Op.operands := by
    cases ret with
    | none => rfl
    | some op => exact op.bare_operands
  rw [← hbare, h.bare_eq, hbare]

/-! ## Alike functions -/

/-- Functions that are the same but for debugging data. -/
abbrev Function.Alike (exact : Bool) (function function' : Function) : Prop :=
  HlsEmit.Alike Function.bare exact function function'

/-- A stripped function has as many returns. -/
theorem Function.bare_returnCount (function : Function) :
    function.bare.returnCount = function.returnCount := by
  unfold Function.returnCount Function.bare
  cases function.blocks with
  | nil => rfl
  | cons block rest =>
    simp only [bareBlocks, List.head?_cons, Option.elim_some, bareBlock_ops, List.countP_map]
    simp [Function.comp_def]

/-- The return of a function stays, without its debugging data. -/
theorem Function.bare_return (function : Function) :
    function.bare.blocks.head?.bind BlockOf.returnOp? =
      (function.blocks.head?.bind BlockOf.returnOp?).map Op.bare := by
  unfold Function.bare
  cases function.blocks with
  | nil => rfl
  | cons block rest =>
    simp only [bareBlocks, List.head?_cons, Option.bind_some, BlockOf.returnOp?, bareBlock_ops,
      List.getLast?_map]
    cases block.ops.getLast? with
    | none => rfl
    | some op => by_cases hret : op.kind = .ret <;> simp [hret, Option.filter]

namespace Function.Alike

variable {exact : Bool} {function function' : Function} (h : function.Alike exact function')

include h

/-- Alike functions have the same name. -/
theorem name : function.name = function'.name := by
  have hname := congrArg Function.name h.bare_eq
  exact hname

/-- Alike functions have the same arguments. -/
theorem args : function.args = function'.args := by
  have hargs := congrArg Function.args h.bare_eq
  exact hargs

/-- Alike functions have the same attributes. -/
theorem attrs : function.attrs = function'.attrs := by
  have hattrs := congrArg Function.attrs h.bare_eq
  exact hattrs

/-- Alike functions have alike blocks. -/
theorem blocks : HlsEmit.Alike (List.map bareBlock) exact function.blocks function'.blocks := by
  refine ⟨?_, fun hexact => congrArg Function.blocks (h.eq hexact)⟩
  have hblocks := congrArg Function.blocks h.bare_eq
  rwa [Function.bare, Function.bare, bareBlocks_eq, bareBlocks_eq] at hblocks

/-- Alike functions have as many returns. -/
theorem returnCount : function.returnCount = function'.returnCount := by
  rw [← function.bare_returnCount, h.bare_eq, function'.bare_returnCount]

/-- Alike functions have alike returns. -/
theorem returnOp : OpAlike? exact (function.blocks.head?.bind BlockOf.returnOp?)
    (function'.blocks.head?.bind BlockOf.returnOp?) := by
  refine ⟨?_, fun hexact => by rw [h.eq hexact]⟩
  rw [← function.bare_return, h.bare_eq, function'.bare_return]

end Function.Alike

namespace Emission

variable {c : Comparison} {op op' : Op} {owner owner' : Option Op}

/-! ## Operations -/

/-- A turn changes no name. -/
theorem lockstep_dispatch (owner owner' : Option Op) (op op' : Op) :
    Lockstep c Eq (dispatch owner op) (dispatch owner' op') :=
  fun _ _ _ ht => ⟨rfl, ht, .refl [], fun _ _ => rfl, fun _ _ hbound => hbound⟩

section Bodies

variable {bodies bodies' : List (Emission (List Stmt))}

/-- Alike plans are carried out in lockstep. -/
theorem lockstep_carryOut (h : op.Alike c.exact op') {plan plan' : Except Obstacle Plan}
    (hplan : PlansAlike c.exact plan plan')
    (hvalues : Admits (fun plan => ∀ id ∈ plan.values, c.ids id) (fun _ => True) plan)
    (hoperands : ∀ id ∈ op.operands, c.ids id) (hresults : ∀ id ∈ op.results, c.ids id)
    (hbodies : List.Forall₂ (Lockstep c (StmtsAlike c.exact)) bodies bodies') :
    Lockstep c (StmtsAlike c.exact) (carryOut op bodies plan) (carryOut op' bodies' plan') := by
  cases hplan with
  | ok hplan => exact lockstep_render h hplan hoperands hresults hvalues hbodies
  | error obstacle =>
    cases obstacle with
    | problem problem => exact .bindEq (lockstep_raise h.some problem) fun _ => .pure (.refl [])
    | overrun missing => exact .bindEq (lockstep_overrun missing missing) fun _ => .pure (.refl [])

/-- The values that the operation around may lend to what is inside of it. -/
def Lends (c : Comparison) (owner : Option Op) : Prop :=
  ∀ around ∈ owner, ∀ id ∈ around.results ++ around.firstArgs, c.ids id

/-- Without an owner nothing is lent. -/
theorem lends_none : Lends c none := nofun

/-- An owner lends the values it mentions itself. -/
theorem lends_some (h : ∀ id ∈ op.ownMentioned, c.ids id) : Lends c (some op) := by
  rintro _ ⟨⟩ id hid
  refine h id ?_
  rw [Op.ownMentioned]
  obtain hresult | harg := List.mem_append.1 hid
  · simp [hresult]
  · simp [harg]

/-- Alike operations are emitted in lockstep, with their regions. -/
theorem lockstep_operation (h : op.Alike c.exact op') (howner : OwnerAlike c.exact owner owner')
    (hown : ∀ id ∈ op.ownMentioned, c.ids id) (hlends : Lends c owner)
    (hbodies : List.Forall₂ (Lockstep c (StmtsAlike c.exact)) bodies bodies') :
    Lockstep c (StmtsAlike c.exact) (operation owner op bodies) (operation owner' op' bodies') := by
  have hparts : ∀ id ∈ op.operands ++ op.results, c.ids id := fun id hid =>
    hown id (List.mem_append_left _ (List.mem_append_left _ hid))
  rw [List.forall_mem_append] at hparts
  refine .bindEq (lockstep_dispatch owner owner' op op') fun _ => ?_
  have hplan : Lockstep c
      (fun plan plan' => PlansAlike c.exact plan plan' ∧
        Admits (fun plan => ∀ id ∈ plan.values, c.ids id) (fun _ => True) plan)
      (inspect fun scope names => op.plan scope.values names owner)
      (inspect fun scope names => op'.plan scope.values names owner') :=
    lockstep_inspect fun _ t t' ht =>
      ⟨plan_alike h howner ht hparts.1 hparts.2, op.plan_values hown hlends⟩
  exact .bind hplan fun plan plan' hplans =>
    lockstep_carryOut h hplans.1 hplans.2 hparts.1 hparts.2 hbodies

end Bodies

mutual

/-- Alike operations with everything inside of them. -/
theorem lockstep_ofOp : (op op' : Op) → op.Alike c.exact op' → (∀ id ∈ op.mentioned, c.ids id) →
    (owner owner' : Option Op) → OwnerAlike c.exact owner owner' → Lends c owner →
    Lockstep c (StmtsAlike c.exact) (ofOp owner op) (ofOp owner' op')
  | ⟨kind, operands, results, attrs, regions, line⟩, op', h, hids, owner, owner', howner, hlends => by
    have hown : ∀ id ∈ (Op.mk kind operands results attrs regions line).ownMentioned, c.ids id :=
      fun id hid => hids id (Op.mem_mentioned_of_own hid)
    have hregions : ∀ id ∈ mentionedInBlocks regions, c.ids id := fun id hid =>
      hids id (List.mem_append_right _ hid)
    cases op' with
    | mk kind' operands' results' attrs' regions' line' =>
      exact lockstep_operation h howner hown hlends
        (lockstep_ofRegions regions regions' h.blocks hregions _ _ h (lends_some hown))

/-- Alike regions are emitted in lockstep. -/
theorem lockstep_ofRegions : (regions regions' : List Block) →
    Alike (List.map bareBlock) c.exact regions regions' →
    (∀ id ∈ mentionedInBlocks regions, c.ids id) → (owner owner' : Op) →
    owner.Alike c.exact owner' → Lends c (some owner) →
    List.Forall₂ (Lockstep c (StmtsAlike c.exact)) (ofRegions owner regions)
      (ofRegions owner' regions')
  | [], regions', h, _, owner, owner', _, _ => by
    rw [h.eq_nil]
    exact .nil
  | region :: rest, regions', h, hids, owner, owner', howner, hlends => by
    obtain ⟨region', rest', rfl, hregion, hrest⟩ := h.exists_cons
    rw [mentionedInBlocks, List.forall_mem_append] at hids
    exact .cons (lockstep_ofBlock region region' hregion hids.1 _ _ (.some howner) hlends)
      (lockstep_ofRegions rest rest' hrest hids.2 _ _ howner hlends)

/-- Alike blocks are emitted in lockstep. -/
theorem lockstep_ofBlock : (block block' : Block) → Alike bareBlock c.exact block block' →
    (∀ id ∈ mentionedInBlock block, c.ids id) → (owner owner' : Option Op) →
    OwnerAlike c.exact owner owner' → Lends c owner →
    Lockstep c (StmtsAlike c.exact) (ofBlock owner block) (ofBlock owner' block')
  | ⟨args, ops⟩, block', h, hids, owner, owner', howner, hlends => by
    rw [mentionedInBlock, List.forall_mem_append] at hids
    cases block' with
    | mk args' ops' => exact lockstep_ofOps ops ops' (ops_alike h) hids.2 _ _ howner hlends

/-- Alike operations are emitted in lockstep, one after the other. -/
theorem lockstep_ofOps : (ops ops' : List Op) → Alike (List.map Op.bare) c.exact ops ops' →
    (∀ id ∈ mentionedInOps ops, c.ids id) → (owner owner' : Option Op) →
    OwnerAlike c.exact owner owner' → Lends c owner →
    Lockstep c (StmtsAlike c.exact) (ofOps owner ops) (ofOps owner' ops')
  | [], ops', h, _, owner, owner', _, _ => by
    rw [h.eq_nil]
    exact .pure (.refl [])
  | op :: rest, ops', h, hids, owner, owner', howner, hlends => by
    obtain ⟨op', rest', rfl, hop, hrest⟩ := h.exists_cons
    rw [mentionedInOps, List.forall_mem_append] at hids
    refine .bind (lockstep_ofOp op op' hop hids.1 _ _ howner hlends) fun first first' hfirst => ?_
    refine .bind (lockstep_ofOps rest rest' hrest hids.2 _ _ howner hlends) fun others others' hothers => ?_
    exact .pure (hfirst.append bareStmts_append hothers)

end

/-! ## Functions -/

/-- The arguments of a signature go in lockstep. -/
theorem lockstep_arguments {args : List ValueId} (hids : ∀ id ∈ args, c.ids id) :
    Lockstep c Eq (arguments args) (arguments args) := by
  induction args with
  | nil => exact .pure rfl
  | cons arg rest ih =>
    rw [List.forall_mem_cons] at hids
    exact .bindEq (lockstep_declarator (.refl none) hids.1) fun _ =>
      .bindEq (ih hids.2) fun _ => .pure rfl

/-- A returned value goes in lockstep. -/
theorem lockstep_returned (h : op.Alike c.exact op') {id : ValueId} (hid : c.ids id) :
    Lockstep c Eq (returned op id) (returned op' id) := by
  refine .bindEq (lockstep_isBound hid) fun bound => ?_
  split
  · refine .bindEq (lockstep_raise h.some _) fun _ => ?_
    exact .bindEq (lockstep_mention h.some hid) fun _ => .pure rfl
  · refine .bindEq (lockstep_info id) fun info => ?_
    split
    · exact lockstep_arrayDeclarator h.some hid
    · exact .bindEq (lockstep_pointerMention h.some hid) fun _ => .pure rfl

/-- The returned values go in lockstep. -/
theorem lockstep_returnedAll (h : op.Alike c.exact op') {ids : List ValueId}
    (hids : ∀ id ∈ ids, c.ids id) : Lockstep c Eq (returnedAll op ids) (returnedAll op' ids) := by
  induction ids with
  | nil => exact .pure rfl
  | cons id rest ih =>
    rw [List.forall_mem_cons] at hids
    exact .bindEq (lockstep_returned h hids.1) fun _ => .bindEq (ih hids.2) fun _ => .pure rfl

/-- The results of a signature go in lockstep. -/
theorem lockstep_results {ret ret' : Option Op} (h : OpAlike? c.exact ret ret')
    (hids : ∀ id ∈ ret.elim [] Op.operands, c.ids id) :
    Lockstep c Eq (results ret) (results ret') := by
  cases ret with
  | none =>
    rw [Option.map_eq_none_iff.1 h.bare_eq.symm]
    exact .pure rfl
  | some ret =>
    obtain ⟨ret', rfl, hbare⟩ := Option.map_eq_some_iff.1 h.bare_eq.symm
    have hret : ret.Alike c.exact ret' := ⟨hbare.symm, fun hexact => Option.some.inj (h.eq hexact)⟩
    dsimp only [results]
    rw [← hret.operands]
    exact lockstep_returnedAll hret hids

variable {f f' : Function}

/-- The check of the structure goes in lockstep. -/
theorem lockstep_checkStructure (h : f.Alike c.exact f') :
    Lockstep c Eq (checkStructure f) (checkStructure f') := by
  have hlength := congrArg List.length h.blocks.bare_eq
  rw [List.length_map, List.length_map] at hlength
  unfold checkStructure
  rw [← h.returnCount, ← hlength]
  have hreturns : Lockstep c Eq
      (if 1 < f.returnCount then raise none (.returnCount f.returnCount) else Pure.pure ())
      (if 1 < f.returnCount then raise none (.returnCount f.returnCount) else Pure.pure ()) := by
    split
    · exact lockstep_raise (.refl none) _
    · exact .pure rfl
  dsimp only
  split
  · exact .bindEq (lockstep_raise (.refl none) _) fun _ => hreturns
  · exact hreturns

/-- The returns of alike functions are alike, and nothing else is found. -/
theorem lockstep_returnOp? (h : f.Alike c.exact f') :
    Lockstep c
      (fun ret ret' => OpAlike? c.exact ret ret' ∧ ret = f.blocks.head?.bind BlockOf.returnOp?)
      (returnOp? f) (returnOp? f') := by
  have hret := h.returnOp
  have hnone : (f.blocks.head?.bind BlockOf.returnOp?).isNone =
      (f'.blocks.head?.bind BlockOf.returnOp?).isNone := by
    have hmap := congrArg Option.isNone hret.bare_eq
    rwa [Option.isNone_map, Option.isNone_map] at hmap
  unfold returnOp?
  dsimp only
  rw [← hnone]
  split
  · exact .bindEq (lockstep_raise (.refl none) _) fun _ => .pure ⟨hret, rfl⟩
  · exact .pure ⟨hret, rfl⟩

/-- The body of a function goes in lockstep. -/
theorem lockstep_body {blocks blocks' : List Block}
    (h : Alike (List.map bareBlock) c.exact blocks blocks')
    (hids : ∀ id ∈ mentionedInBlocks blocks, c.ids id) :
    Lockstep c (StmtsAlike c.exact) (body blocks) (body blocks') := by
  cases blocks with
  | nil =>
    rw [h.eq_nil]
    exact .pure (.refl [])
  | cons block rest =>
    obtain ⟨block', rest', rfl, hblock, -⟩ := h.exists_cons
    rw [mentionedInBlocks, List.forall_mem_append] at hids
    exact lockstep_ofBlock block block' hblock hids.1 none none .none lends_none

/-- What goes in lockstep does so inside of a function. -/
theorem Lockstep.inFunction {α β : Type} {R : α → β → Prop} {e : Emission α} {e' : Emission β}
    (name : String) (he : Lockstep c R e e') :
    Lockstep c R (Emission.inFunction name e) (Emission.inFunction name e') :=
  fun _ t t' ht => he (some name) t t' ht

/-- Alike functions are emitted in lockstep where the tables agree on the values they mention. -/
theorem lockstep_function (h : f.Alike c.exact f') (hids : ∀ id ∈ f.mentioned, c.ids id) :
    Lockstep c (Alike FunctionCode.bare c.exact) (function f) (function f') := by
  have hreturned : ∀ id ∈ (f.blocks.head?.bind BlockOf.returnOp?).elim [] Op.operands,
      c.ids id := by
    intro id hid
    cases hret : f.blocks.head?.bind BlockOf.returnOp? with
    | none => simp [hret] at hid
    | some ret =>
      rw [hret] at hid
      exact hids id (Function.mem_mentioned_of_return hret hid)
  rw [Function.mentioned, List.forall_mem_append] at hids
  unfold function
  rw [← h.name, ← h.args, ← h.attrs]
  -- In the order of the source: structure, arguments, return, results, pragmas, body.
  refine .inFunction f.name (.bindEq (lockstep_checkStructure h) fun _ => ?_)
  refine .bindEq (lockstep_arguments hids.1) fun arguments => ?_
  refine .bind (lockstep_returnOp? h) fun ret ret' hret => ?_
  obtain ⟨hret, rfl⟩ := hret
  refine .bindEq (lockstep_results hret hreturned) fun results => ?_
  rw [← hret.returned]
  refine .bindEq (lockstep_functionPragmas f.attrs (List.forall_mem_append.2 ⟨hids.1, hreturned⟩))
    fun pragmas => ?_
  refine .bind (lockstep_body h.blocks hids.2) fun body body' hbody => .pure ?_
  refine ⟨?_, fun hexact => ?_⟩
  · simp only [FunctionCode.bare, bareStmts_append, hbody.bare_eq]
  · rw [hbody.eq hexact, h.eq hexact]

/-- Alike functions are emitted in lockstep, one after the other. -/
theorem lockstep_functions {fs fs' : List Function}
    (h : Alike (List.map Function.bare) c.exact fs fs')
    (hids : ∀ f ∈ fs, ∀ id ∈ f.mentioned, c.ids id) :
    Lockstep c (Alike (List.map FunctionCode.bare) c.exact) (functions fs) (functions fs') := by
  induction fs generalizing fs' with
  | nil =>
    rw [h.eq_nil]
    exact .pure (.refl [])
  | cons f rest ih =>
    obtain ⟨f', rest', rfl, hf, hrest⟩ := h.exists_cons
    rw [List.forall_mem_cons] at hids
    refine .bind (lockstep_function hf hids.1) fun code code' hcode => ?_
    exact .bind (ih hrest hids.2) fun codes codes' hcodes => .pure (hcode.cons hcodes)

end Emission

end HlsEmit
