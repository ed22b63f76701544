import Mathlib.Data.List.Forall2
import HlsEmit.Proofs.Account.Statement
import HlsEmit.Proofs.Lockstep.Values

/-!
# Statements in lockstep

The statements of a plan are alike for alike operations. Debugging data gets into the notes only,
since no part of a plan depends on it but for the operation around a yield.

## Key results

- `lockstep_compute`, `lockstep_reduce`: statements of elements and of reductions
- `lockstep_render`: the statements of alike plans
-/

namespace HlsEmit

open Code

/-- Plans that are the same, or combine results into operations that are alike. -/
inductive PlanAlike (exact : Bool) : Plan → Plan → Prop
  | same (plan : Plan) : PlanAlike exact plan plan
  | reduce {owner owner' : Op} (h : owner.Alike exact owner') :
      PlanAlike exact (.reduce owner) (.reduce owner')

/-- Alike operations have regions with the same arguments. -/
theorem Op.Alike.args {exact : Bool} {op op' : Op} (h : op.Alike exact op') :
    op.regions.map BlockOf.args = op'.regions.map BlockOf.args := by
  have hargs := congrArg (List.map BlockOf.args) h.regions
  simpa [Function.comp_def] using hargs

/-- Statements that differ in the notes of alike operations are alike. -/
theorem Op.Alike.noted {exact : Bool} {op op' : Op} (h : op.Alike exact op') (stmts : Note → List Stmt)
    (hstmts : ∀ note note', bareStmts (stmts note) = bareStmts (stmts note')) :
    StmtsAlike exact (stmts op.note) (stmts op'.note) :=
  h.map (fun op => stmts op.note) fun _ _ _ => hstmts _ _

namespace Emission

variable {c : Comparison} {op op' owner owner' : Op}

/-! ## Terms and places -/

/-- The code of an affine value goes in lockstep. -/
theorem lockstep_affineCode {value : AffineValue} (h : ∀ id ∈ value.operands, c.ids id) :
    Lockstep c Eq (affineCode value) (affineCode value) :=
  .bindEq (lockstep_operandAt h) fun _ => .pure rfl

/-- The codes of affine values go in lockstep. -/
theorem lockstep_affineCodes {values : List AffineValue}
    (h : ∀ value ∈ values, ∀ id ∈ value.operands, c.ids id) :
    Lockstep c Eq (affineCodes values) (affineCodes values) := by
  induction values with
  | nil => exact .pure rfl
  | cons value rest ih =>
    rw [List.forall_mem_cons] at h
    exact .bindEq (lockstep_affineCode h.1) fun _ => .bindEq (ih h.2) fun _ => .pure rfl

/-- A term goes in lockstep. -/
theorem lockstep_term (h : op.Alike c.exact op') {term : Term} (hids : ∀ id ∈ term.values, c.ids id) :
    Lockstep c Eq (Emission.term op term) (Emission.term op' term) := by
  cases term with
  | value id => exact lockstep_operand h (hids id (List.mem_singleton_self id))
  | code code => exact .pure rfl
  | affine function values =>
    have hvalues : ∀ value ∈ values, ∀ id ∈ value.operands, c.ids id := fun value hvalue id hid =>
      hids id (List.mem_flatMap.2 ⟨value, hvalue, hid⟩)
    exact .bindEq (lockstep_affineCodes hvalues) fun _ => .pure rfl

/-- Terms go in lockstep. -/
theorem lockstep_terms (h : op.Alike c.exact op') {terms : List Term}
    (hids : ∀ id ∈ terms.flatMap Term.values, c.ids id) :
    Lockstep c Eq (Emission.terms op terms) (Emission.terms op' terms) := by
  induction terms with
  | nil => exact .pure rfl
  | cons term rest ih =>
    simp only [List.flatMap_cons, List.forall_mem_append] at hids
    exact .bindEq (lockstep_term h hids.1) fun _ => .bindEq (ih hids.2) fun _ => .pure rfl

/-- A place goes in lockstep. -/
theorem lockstep_place (h : op.Alike c.exact op') {place : Place}
    (hids : ∀ id ∈ place.values, c.ids id) :
    Lockstep c Eq (Emission.place op place) (Emission.place op' place) := by
  simp only [Place.values, List.forall_mem_append] at hids
  exact .bindEq (lockstep_term h hids.1) fun _ => .bindEq (lockstep_terms h hids.2) fun _ => .pure rfl

/-! ## Elementwise statements -/

/-- The right side of a computation goes in lockstep. -/
theorem lockstep_formula (h : op.Alike c.exact op') (rank : Nat) {formula : Formula}
    (hids : ∀ id ∈ formula.values, c.ids id) :
    Lockstep c Eq (Emission.formula op rank formula) (Emission.formula op' rank formula) := by
  cases formula with
  | copy source => exact lockstep_element h rank (hids source (by simp [Formula.values]))
  | binary operator lhs rhs =>
    refine .bindEq (lockstep_element h rank (hids lhs (by simp [Formula.values]))) fun _ => ?_
    exact .bindEq (lockstep_element h rank (hids rhs (by simp [Formula.values]))) fun _ => .pure rfl
  | function head operand =>
    exact .bindEq (lockstep_element h rank (hids operand (by simp [Formula.values]))) fun _ => .pure rfl
  | select condition onTrue onFalse =>
    refine .bindEq (lockstep_info condition) fun info => ?_
    refine .bindEq (lockstep_element h _ (hids condition (by simp [Formula.values]))) fun _ => ?_
    refine .bindEq (lockstep_element h rank (hids onTrue (by simp [Formula.values]))) fun _ => ?_
    exact .bindEq (lockstep_element h rank (hids onFalse (by simp [Formula.values]))) fun _ => .pure rfl

/-- A computation goes in lockstep, but for its note. -/
theorem lockstep_compute (h : op.Alike c.exact op') {target : ValueId} {formula : Formula}
    (htarget : c.ids target) (hformula : ∀ id ∈ formula.values, c.ids id) :
    Lockstep c (StmtsAlike c.exact) (compute op target formula) (compute op' target formula) := by
  refine lockstep_elementwise h htarget fun rank => ?_
  refine .bindEq (lockstep_element h rank htarget) fun left => ?_
  refine .bindEq (lockstep_formula h rank hformula) fun right => .pure ?_
  exact h.noted (fun note => [.assign .set left right (some note)]) fun _ _ => rfl

/-- A reduction step goes in lockstep, but for its note. -/
theorem lockstep_combine (h : op.Alike c.exact op') (kind : ReductionKind) {target source : ValueId}
    (htarget : c.ids target) (hsource : c.ids source) :
    Lockstep c (StmtsAlike c.exact) (combine op kind target source)
      (combine op' kind target source) := by
  refine lockstep_elementwise h htarget fun rank => ?_
  refine .bindEq (lockstep_element h rank htarget) fun left => ?_
  -- Three of the kinds assign in place, the other two call a function of both elements.
  cases kind with
  | add =>
    refine .bindEq (lockstep_element h rank hsource) fun right => .pure ?_
    exact h.noted (fun note => [.assign .add left right (some note)]) fun _ _ => rfl
  | assign =>
    refine .bindEq (lockstep_element h rank hsource) fun right => .pure ?_
    exact h.noted (fun note => [.assign .set left right (some note)]) fun _ _ => rfl
  | multiply =>
    refine .bindEq (lockstep_element h rank hsource) fun right => .pure ?_
    exact h.noted (fun note => [.assign .multiply left right (some note)]) fun _ _ => rfl
  | max =>
    refine .bindEq (lockstep_element h rank htarget) fun again => ?_
    refine .bindEq (lockstep_element h rank hsource) fun right => .pure ?_
    exact h.noted (fun note => [.assign .set left (.call "max" [again, right]) (some note)])
      fun _ _ => rfl
  | min =>
    refine .bindEq (lockstep_element h rank htarget) fun again => ?_
    refine .bindEq (lockstep_element h rank hsource) fun right => .pure ?_
    exact h.noted (fun note => [.assign .set left (.call "min" [again, right]) (some note)])
      fun _ _ => rfl

/-! ## Yields -/

/-- Pairing the operands of a yield goes in lockstep. -/
theorem lockstep_yielded (h : op.Alike c.exact op') (results : List ValueId) :
    Lockstep c (fun pairs pairs' => pairs = results.zip op.operands ∧ pairs' = pairs)
      (yielded op results) (yielded op' results) := by
  unfold yielded
  rw [← h.operands]
  dsimp only
  split
  · exact .bindEq (lockstep_raise h.some _) fun _ => .pure ⟨rfl, rfl⟩
  · exact .pure ⟨rfl, rfl⟩

/-- Both values of every pair are among those that are compared. -/
theorem lockstep_computeEach (h : op.Alike c.exact op') {pairs : List (ValueId × ValueId)}
    (hids : ∀ pair ∈ pairs, c.ids pair.1 ∧ c.ids pair.2) :
    Lockstep c (StmtsAlike c.exact) (computeEach op pairs) (computeEach op' pairs) := by
  induction pairs with
  | nil => exact .pure (.refl [])
  | cons pair rest ih =>
    rw [List.forall_mem_cons] at hids
    have hsource : ∀ id ∈ (Formula.copy pair.2).values, c.ids id := by
      simpa [Formula.values] using hids.1.2
    refine .bind (lockstep_compute h hids.1.1 hsource) fun first first' hfirst => ?_
    refine .bind (ih hids.2) fun others others' hothers => ?_
    exact .pure (hfirst.append bareStmts_append hothers)

/-- The reduction steps of all pairs go in lockstep. -/
theorem lockstep_combineEach (h : op.Alike c.exact op') (howner : owner.Alike c.exact owner')
    (result : Nat) {pairs : List (ValueId × ValueId)}
    (hids : ∀ pair ∈ pairs, c.ids pair.1 ∧ c.ids pair.2) :
    Lockstep c (StmtsAlike c.exact) (combineEach op owner result pairs)
      (combineEach op' owner' result pairs) := by
  induction pairs generalizing result with
  | nil => exact .pure (.refl [])
  | cons pair rest ih =>
    rw [List.forall_mem_cons] at hids
    have hrest (first first' : List Stmt) (hfirst : StmtsAlike c.exact first first') :
        Lockstep c (StmtsAlike c.exact)
          (combineEach op owner (result + 1) rest >>= fun others => Pure.pure (first ++ others))
          (combineEach op' owner' (result + 1) rest >>= fun others => Pure.pure (first' ++ others)) :=
      .bind (ih (result + 1) hids.2) fun _ _ hothers => .pure (hfirst.append bareStmts_append hothers)
    unfold combineEach
    rw [← howner.reductions]
    dsimp only
    -- There is a kind for the pair, or it is reported that there is none.
    split
    · exact .bind (lockstep_combine h _ hids.1.1 hids.1.2) hrest
    · refine .bindEq (lockstep_raise howner.some _) fun _ => ?_
      exact .bind (.pure (.refl [])) hrest

/-- The test that all indices are zero goes in lockstep. -/
theorem lockstep_allZero (h : op.Alike c.exact op') {indices : List ValueId}
    (hids : ∀ id ∈ indices, c.ids id) :
    Lockstep c Eq (allZero op indices) (allZero op' indices) :=
  .bindEq (lockstep_operands h hids) fun _ => .pure rfl

/-- Looking for the arguments of the first region goes in lockstep. -/
theorem lockstep_regionArgs (howner : owner.Alike c.exact owner') :
    Lockstep c (fun args args' => args = owner.firstArgs ∧ args' = args) (regionArgs owner)
      (regionArgs owner') := by
  have hargs := howner.args
  unfold regionArgs Op.firstArgs
  cases hregions : owner.regions with
  | nil =>
    rw [hregions, List.map_nil, eq_comm, List.map_eq_nil_iff] at hargs
    rw [hargs]
    exact .bindEq (lockstep_overrun _ _) fun _ => .pure ⟨rfl, rfl⟩
  | cons region rest =>
    rw [hregions, List.map_cons] at hargs
    obtain ⟨region', rest', hregions', hregion, -⟩ := List.map_eq_cons_iff.1 hargs.symm
    rw [hregions']
    exact .pure ⟨rfl, hregion⟩

/-- The statements at the end of a reducing nest go in lockstep. -/
theorem lockstep_reduce (h : op.Alike c.exact op') (howner : owner.Alike c.exact owner')
    (hoperands : ∀ id ∈ op.operands, c.ids id) (hresults : ∀ id ∈ owner.results, c.ids id)
    (hargs : ∀ id ∈ owner.firstArgs, c.ids id) :
    Lockstep c (StmtsAlike c.exact) (reduce op owner) (reduce op' owner') := by
  have hpairs : ∀ pair ∈ owner.results.zip op.operands, c.ids pair.1 ∧ c.ids pair.2 :=
    fun pair hpair => ⟨hresults _ (List.of_mem_zip hpair).1, hoperands _ (List.of_mem_zip hpair).2⟩
  unfold reduce
  rw [← howner.results]
  -- In the order of the source: the pairs, the indices, the test, both branches.
  refine .bind (lockstep_yielded h owner.results) ?_
  rintro pairs _ ⟨rfl, rfl⟩
  refine .bind (lockstep_regionArgs howner) ?_
  rintro args _ ⟨rfl, rfl⟩
  refine .bindEq (lockstep_allZero h hargs) fun condition => ?_
  refine .bind (lockstep_computeEach h hpairs) fun onFirst onFirst' hfirst => ?_
  refine .bind (lockstep_combineEach h howner 0 hpairs) fun onOthers onOthers' hothers => .pure ?_
  refine ⟨?_, fun hexact => ?_⟩
  · simp only [bareStmts, Stmt.bare, hfirst.bare_eq, hothers.bare_eq]
  · rw [hfirst.eq hexact, hothers.eq hexact]

/-! ## Loops, conditionals and calls -/

/-- A loop head goes in lockstep. -/
theorem lockstep_loopHead (h : op.Alike c.exact op') {index : ValueId} {lower upper step : Term}
    (hindex : c.ids index) (hlower : ∀ id ∈ lower.values, c.ids id)
    (hupper : ∀ id ∈ upper.values, c.ids id) (hstep : ∀ id ∈ step.values, c.ids id) :
    Lockstep c Eq (loopHead op index lower upper step) (loopHead op' index lower upper step) := by
  refine .bindEq (lockstep_operand h hindex) fun start => ?_
  refine .bindEq (lockstep_term h hlower) fun lower => ?_
  refine .bindEq (lockstep_operand h hindex) fun test => ?_
  refine .bindEq (lockstep_term h hupper) fun upper => ?_
  refine .bindEq (lockstep_operand h hindex) fun advance => ?_
  exact .bindEq (lockstep_term h hstep) fun step => .pure rfl

/-- The heads of a nest go in lockstep. -/
theorem lockstep_nestHeads (h : op.Alike c.exact op') {loops : List NestLoop}
    (hids : ∀ loop ∈ loops, ∀ id ∈ loop.values, c.ids id) :
    Lockstep c Eq (nestHeads op loops) (nestHeads op' loops) := by
  induction loops with
  | nil => exact .pure rfl
  | cons loop rest ih =>
    rw [List.forall_mem_cons] at hids
    have hloop := hids.1
    simp only [NestLoop.values, List.cons_append, List.forall_mem_cons, List.forall_mem_append] at hloop
    obtain ⟨hindex, hlower, hupper⟩ := hloop
    have hnone (code : Expr) : ∀ id ∈ (Term.code code).values, c.ids id := by simp [Term.values]
    have hhead : Lockstep c Eq (nestHead op loop) (nestHead op' loop) := by
      refine .bindEq (lockstep_affineCode hlower) fun lower => ?_
      refine .bindEq (lockstep_affineCode hupper) fun upper => ?_
      exact lockstep_loopHead h hindex (hnone lower) (hnone upper) (hnone _)
    exact .bindEq hhead fun _ => .bindEq (ih hids.2) fun _ => .pure rfl

/-- Only the brace that closes the outermost loop of a nest has a note. -/
theorem bareStmts_nestStmts (body : List Stmt) (closing : Option Note) (heads : List LoopHead) :
    bareStmts (nestStmts body closing heads) =
      nestStmts (bareStmts body) (bareNote closing) heads := by
  induction heads generalizing closing with
  | nil => rfl
  | cons head rest ih => simp [nestStmts, bareStmts, Stmt.bare, ih, bareNote]

/-- References to results go in lockstep. -/
theorem lockstep_references (h : op.Alike c.exact op') {ids : List ValueId}
    (hids : ∀ id ∈ ids, c.ids id) : Lockstep c Eq (references op ids) (references op' ids) := by
  induction ids with
  | nil => exact .pure rfl
  | cons id rest ih =>
    rw [List.forall_mem_cons] at hids
    refine .bindEq (lockstep_info id) fun info => ?_
    refine .bindEq (lockstep_operand h hids.1) fun name => ?_
    exact .bindEq (ih hids.2) fun _ => .pure rfl

/-! ## Plans -/

section Bodies

variable {bodies bodies' : List (Emission (List Stmt))}

/-- The body of the first region goes in lockstep. -/
theorem lockstep_firstBody (hbodies : List.Forall₂ (Lockstep c (StmtsAlike c.exact)) bodies bodies') :
    Lockstep c (StmtsAlike c.exact) (firstBody op bodies) (firstBody op' bodies') := by
  cases hbodies with
  | nil => exact .bindEq (lockstep_overrun _ _) fun _ => .pure (.refl [])
  | cons hfirst _ => exact hfirst

/-- Second branches that are both there or both not. -/
theorem lockstep_secondBody (hbodies : List.Forall₂ (Lockstep c (StmtsAlike c.exact)) bodies bodies') :
    Lockstep c (Alike (Option.map bareStmts) c.exact) (secondBody bodies) (secondBody bodies') := by
  cases hbodies with
  | nil => exact .pure (.refl none)
  | cons _ hrest =>
    cases hrest with
    | nil => exact .pure (.refl none)
    | cons hsecond _ =>
      refine .bind hsecond fun onFalse onFalse' halike => .pure ?_
      exact halike.map some fun _ _ hbare => congrArg some hbare

/-- Conditionals with alike branches are alike. -/
theorem alike_branch (h : op.Alike c.exact op') (declarations : List Stmt) (condition : Expr)
    {onTrue onTrue' : List Stmt} {onFalse onFalse' : Option (List Stmt)}
    (htrue : StmtsAlike c.exact onTrue onTrue')
    (hfalse : Alike (Option.map bareStmts) c.exact onFalse onFalse') :
    StmtsAlike c.exact (declarations ++ [.branch condition (some op.note) onTrue onFalse])
      (declarations ++ [.branch condition (some op'.note) onTrue' onFalse']) := by
  refine ⟨?_, fun hexact => ?_⟩
  · have hbare := hfalse.bare_eq
    cases onFalse <;> cases onFalse' <;>
      simp_all [bareStmts, Stmt.bare, htrue.bare_eq, bareNote]
  · rw [h.eq hexact, htrue.eq hexact, hfalse.eq hexact]

/-- The statements of alike plans. -/
theorem lockstep_render (h : op.Alike c.exact op') {plan plan' : Plan}
    (hplan : PlanAlike c.exact plan plan') (hoperands : ∀ id ∈ op.operands, c.ids id)
    (hresults : ∀ id ∈ op.results, c.ids id) (hids : ∀ id ∈ plan.values, c.ids id)
    (hbodies : List.Forall₂ (Lockstep c (StmtsAlike c.exact)) bodies bodies') :
    Lockstep c (StmtsAlike c.exact) (render op bodies plan) (render op' bodies' plan') := by
  -- A reduction may read alike owners, any other plan is the same for both.
  cases hplan with
  | reduce howner =>
    rw [Plan.values, List.forall_mem_append] at hids
    exact lockstep_reduce h howner hoperands hids.1 hids.2
  | same =>
    -- One case per plan; what is written from the same parts differs in the note at most.
    cases plan with
    | nothing => exact .pure (.refl [])
    | compute target source =>
      rw [Plan.values, List.forall_mem_cons] at hids
      exact lockstep_compute h hids.1 hids.2
    | assign target source =>
      rw [Plan.values, List.forall_mem_append] at hids
      refine .bindEq (lockstep_place h hids.1) fun left => ?_
      refine .bindEq (lockstep_place h hids.2) fun right => .pure ?_
      exact h.noted (fun note => [.assign .set left right (some note)]) fun _ _ => rfl
    | allocate array =>
      have harray := hids array (List.mem_singleton_self array)
      refine .bindEq (lockstep_arrayDeclarator h.some harray) fun declarator => ?_
      refine .bindEq (lockstep_arrayPragmas h.some harray) fun pragmas => .pure ?_
      exact h.noted (fun note => .declaration declarator (some note) :: pragmas) fun _ _ => rfl
    | define array elements =>
      have harray := hids array (List.mem_singleton_self array)
      refine .bindEq (lockstep_arrayDeclarator h.some harray) fun declarator => .pure ?_
      exact h.noted (fun note => [.initialized declarator elements (some note)]) fun _ _ => rfl
    | share source result =>
      have hresult := hids result (by simp [Plan.values])
      refine .bindEq (lockstep_share h (hids source (by simp [Plan.values])) hresult) fun _ => ?_
      exact (lockstep_arrayPragmas h.some hresult).mono fun pragmas _ heq => heq ▸ .refl pragmas
    | call callee =>
      unfold render
      rw [← h.operands, ← h.results]
      refine .bindEq (lockstep_predeclare h hresults) fun declarations => ?_
      refine .bindEq (lockstep_operands h hoperands) fun args => ?_
      refine .bindEq (lockstep_references h hresults) fun results => .pure ?_
      exact h.noted (fun note => declarations ++ [.call (.call callee (args ++ results)) (some note)])
        fun _ _ => by simp only [bareStmts_append, bareStmts, Stmt.bare, bareNote, Option.map_some]
    | blockCall name =>
      unfold render
      rw [← h.operands]
      exact .bindEq (lockstep_operands h hoperands) fun args => .pure (.refl _)
    | accelerator operands lines => exact .pure (.refl _)
    | loop index lower upper step =>
      simp only [Plan.values, List.cons_append, List.forall_mem_cons, List.forall_mem_append] at hids
      obtain ⟨hindex, ⟨hlower, hupper⟩, hstep⟩ := hids
      refine .bindEq (lockstep_loopHead h hindex hlower hupper hstep) fun head => ?_
      refine .bind (lockstep_firstBody hbodies) fun body body' hbody => .pure ?_
      refine ⟨?_, fun hexact => ?_⟩
      · simp only [bareStmts, Stmt.bare, bareStmts_append, h.loopPragmas, hbody.bare_eq, bareNote,
          Option.map_some]
      · rw [h.eq hexact, hbody.eq hexact]
    | branch condition =>
      unfold render
      rw [← h.results]
      refine .bindEq (lockstep_predeclare h hresults) fun declarations => ?_
      refine .bindEq (lockstep_term h hids) fun condition => ?_
      refine .bind (lockstep_firstBody hbodies) fun onTrue onTrue' htrue => ?_
      refine .bind (lockstep_secondBody hbodies) fun onFalse onFalse' hfalse => .pure ?_
      exact alike_branch h declarations condition htrue hfalse
    | nest loops =>
      have hloops : ∀ loop ∈ loops, ∀ id ∈ loop.values, c.ids id := fun loop hloop id hid =>
        hids id (List.mem_flatMap.2 ⟨loop, hloop, hid⟩)
      unfold render
      rw [← h.results]
      refine .bindEq (lockstep_predeclare h hresults) fun declarations => ?_
      refine .bindEq (lockstep_nestHeads h hloops) fun heads => ?_
      refine .bind (lockstep_firstBody hbodies) fun body body' hbody => .pure ?_
      refine ⟨?_, fun hexact => ?_⟩
      · simp only [bareStmts_append, bareStmts_nestStmts, hbody.bare_eq, bareNote, Option.map_some]
      · rw [h.eq hexact, hbody.eq hexact]
    | deliver results =>
      have hpairs : ∀ pair ∈ results.zip op.operands, c.ids pair.1 ∧ c.ids pair.2 :=
        fun pair hpair => ⟨hids _ (List.of_mem_zip hpair).1, hoperands _ (List.of_mem_zip hpair).2⟩
      refine .bind (lockstep_yielded h results) ?_
      rintro pairs _ ⟨rfl, rfl⟩
      exact lockstep_computeEach h hpairs
    | reduce owner =>
      rw [Plan.values, List.forall_mem_append] at hids
      exact lockstep_reduce h (.refl owner) hoperands hids.1 hids.2

end Bodies

end Emission

end HlsEmit
