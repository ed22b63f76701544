import HlsEmit.Emission.Statement
import HlsEmit.Proofs.Account.Pragmas

/-!
# The account of statements

Every way to carry out a plan is accounted for. The code that a plan holds was made when the
operation was admitted; `Plan.mentions` are the mentions in it, and they end up in the statements.

## Key results

- `emits_term`, `emits_place`: code of a plan is written as it is
- `emits_reduce`: what a nest yields is combined under the account of its results and indices
- `emits_render`: the statements of a plan
-/

namespace HlsEmit

open Code

/-! ## Affine code -/

/-- Affine code mentions what the code of the operands mentions. -/
theorem AffineExpr.mem_mentions_code {operand : Nat → Expr} {dims : Nat} {m : Mention}
    (e : AffineExpr) (hm : m ∈ (e.code operand dims).mentions) :
    ∃ position, m ∈ (operand position).mentions := by
  let P (code : Expr) : Prop :=
    m ∈ code.mentions → ∃ position, m ∈ (operand position).mentions
  have hoperation (operator : Operator) {lhs rhs : Expr} (hlhs : P lhs) (hrhs : P rhs) :
      P (.operation operator lhs rhs) := fun hm => (List.mem_append.1 hm).elim hlhs hrhs
  have hinner {inner : Expr} (h : P inner) : P inner := h
  exact AffineExpr.code_induction (P := P) (fun position hm => ⟨position, hm⟩)
    (fun _ hm => nomatch hm) hoperation hinner hinner e hm

/-- The operand of a map is one of the operands as it is called. -/
theorem Arena.mem_mentions_operandAt {arena : Arena} {t : NameTable} {operands : List ValueId}
    {position : Nat} {m : Mention} (hm : m ∈ (arena.operandAt t operands position).mentions) :
    ∃ id ∈ operands, m = .use (arena.use t id) := by
  unfold Arena.operandAt at hm
  split at hm
  · next id hid =>
    exact ⟨id, List.mem_of_getElem? hid, by simpa [Expr.mentions] using hm⟩
  · cases hm

/-- The mentions in affine code are uses of its operands. -/
theorem Arena.mem_mentions_code {arena : Arena} {t : NameTable} {operands : List ValueId}
    {dims : Nat} {e : AffineExpr} {m : Mention}
    (hm : m ∈ (e.code (arena.operandAt t operands) dims).mentions) :
    ∃ id ∈ operands, m = .use (arena.use t id) := by
  obtain ⟨position, hposition⟩ := e.mem_mentions_code hm
  exact Arena.mem_mentions_operandAt hposition

/-- Nested calls mention what their arguments mention. -/
theorem Code.Expr.mentions_nestedCalls (function : String) (codes : List Expr) :
    (Expr.nestedCalls function codes).mentions = mentionsOfExprs codes := by
  cases codes with
  | nil => rfl
  | cons first rest =>
    exact Expr.mentions_chain (by simp [Expr.mentions, mentionsOfExprs]) first rest

/-- A conjunction mentions what its conditions mention. -/
theorem Code.Expr.mentions_all (conditions : List Expr) :
    (Expr.all conditions).mentions = mentionsOfExprs conditions := by
  cases conditions with
  | nil => rfl
  | cons first rest => exact Expr.mentions_chain (fun _ _ => rfl) first rest

/-! ## The code and the values of a plan -/

/-- The arguments of the first region, if there is one. -/
def Op.firstArgs (op : Op) : List ValueId :=
  op.regions.head?.elim [] BlockOf.args

/-- The mentions in the code of a term. -/
def Term.mentions : Term → List Mention
  | .code expr => expr.mentions
  | .value _ | .affine .. => []

/-- The values that are mentioned when a term is written. -/
def Term.values : Term → List ValueId
  | .value id => [id]
  | .code _ => []
  | .affine _ values => values.flatMap AffineValue.operands

/-- The mentions in the code of a place. -/
def Place.mentions (place : Place) : List Mention :=
  place.base.mentions ++ place.subscripts.flatMap Term.mentions

/-- The values that are mentioned when a place is written. -/
def Place.values (place : Place) : List ValueId :=
  place.base.values ++ place.subscripts.flatMap Term.values

namespace Place

@[simp] theorem values_scalar (id : ValueId) : (scalar id).values = [id] := rfl

@[simp] theorem mentions_scalar (id : ValueId) : (scalar id).mentions = [] := rfl

@[simp] theorem values_number (n : Int) : (number n).values = [] := rfl

@[simp] theorem mentions_number (n : Int) : (number n).mentions = [] := rfl

@[simp] theorem values_element (array : ValueId) (indices : List ValueId) :
    (element array indices).values = array :: indices := by
  simp [element, values, Term.values, List.flatMap_map]

@[simp] theorem mentions_element (array : ValueId) (indices : List ValueId) :
    (element array indices).mentions = [] := by
  simp [element, mentions, Term.mentions]

@[simp] theorem values_elementAt (array : ValueId) (codes : List Expr) :
    (elementAt array codes).values = [array] := by
  simp [elementAt, values, Term.values]

@[simp] theorem mentions_elementAt (array : ValueId) (codes : List Expr) :
    (elementAt array codes).mentions = mentionsOfExprs codes := by
  have hcodes : (codes.map Term.code).flatMap Term.mentions = mentionsOfExprs codes := by
    induction codes with
    | nil => rfl
    | cons code codes ih => rw [List.map_cons, List.flatMap_cons, ih]; rfl
  rw [elementAt, mentions, hcodes]
  rfl

@[simp] theorem values_code (code : Expr) : (Place.mk (.code code) []).values = [] := rfl

@[simp] theorem mentions_code (code : Expr) : (Place.mk (.code code) []).mentions = code.mentions :=
  List.append_nil _

end Place

/-- The values that a formula mentions. -/
def Formula.values : Formula → List ValueId
  | .copy source => [source]
  | .binary _ lhs rhs => [lhs, rhs]
  | .function _ operand => [operand]
  | .select condition onTrue onFalse => [condition, onTrue, onFalse]

/-- The values that the head of a loop in a nest mentions. -/
def NestLoop.values (loop : NestLoop) : List ValueId :=
  loop.index :: loop.lower.operands ++ loop.upper.operands

/-- The mentions in the code of a plan. -/
def Plan.mentions : Plan → List Mention
  | .assign target source => target.mentions ++ source.mentions
  | .loop _ lower upper step => lower.mentions ++ upper.mentions ++ step.mentions
  | .branch condition => condition.mentions
  | .accelerator operands _ => operands.map .use
  | _ => []

/-- The values of its own that a plan mentions when it is carried out, apart from the operands and
results of the operation. -/
def Plan.values : Plan → List ValueId
  | .compute target formula => target :: formula.values
  | .assign target source => target.values ++ source.values
  | .allocate array | .define array _ => [array]
  | .share source result => [source, result]
  | .loop index lower upper step => index :: lower.values ++ upper.values ++ step.values
  | .branch condition => condition.values
  | .nest loops => loops.flatMap NestLoop.values
  | .deliver results => results
  | .reduce owner => owner.results ++ owner.firstArgs
  | .nothing | .call _ | .blockCall _ | .accelerator .. => []

/-- Whether a plan writes the first region of its operation. -/
def Plan.opens : Plan → Bool
  | .loop .. | .branch _ | .nest _ => true
  | _ => false

namespace Emission

variable {c : Contract} {given : List Mention}

/-! ## Terms and places -/

/-- The code of an affine value is made of its operands. -/
theorem emits_affineCode {value : AffineValue} (h : ∀ id ∈ value.operands, c.values id) :
    Emits c [] (affineCode value) Expr.mentions := by
  intro function t _
  refine .bindQuiet (operandAt_apply value.operands _) (.reading fun m hm => ?_)
  obtain ⟨id, hid, rfl⟩ := Arena.mem_mentions_code hm
  exact ⟨id, h id hid, rfl⟩

/-- The codes of affine values are made of their operands. -/
theorem emits_affineCodes {values : List AffineValue}
    (h : ∀ value ∈ values, ∀ id ∈ value.operands, c.values id) :
    Emits c [] (affineCodes values) mentionsOfExprs := by
  induction values with
  | nil => exact .pure (.refl _)
  | cons value rest ih =>
    rw [List.forall_mem_cons] at h
    refine .bindNew (emits_affineCode h.1) fun first => ?_
    refine .bindNew (ih h.2) fun rest => ?_
    exact .pure (.refl _)

/-- A term gives out the mentions it holds and adds those of its values. -/
theorem emits_term (op : Op) {term : Term} (h : ∀ id ∈ term.values, c.values id) :
    Emits c term.mentions (Emission.term op term) Expr.mentions := by
  cases term with
  | value id => exact emits_operand op (h id (List.mem_singleton_self id))
  | code code => exact .pure (.refl _)
  | affine function values =>
    have hvalues : ∀ value ∈ values, ∀ id ∈ value.operands, c.values id := fun value hvalue id hid =>
      h id (List.mem_flatMap.2 ⟨value, hvalue, hid⟩)
    refine .bindNew (emits_affineCodes hvalues) fun codes => ?_
    exact .pure (.of_eq (Expr.mentions_nestedCalls function codes))

/-- Terms give out the mentions they hold and add those of their values. -/
theorem emits_terms (op : Op) {terms : List Term}
    (h : ∀ id ∈ terms.flatMap Term.values, c.values id) :
    Emits c (terms.flatMap Term.mentions) (Emission.terms op terms) mentionsOfExprs := by
  induction terms with
  | nil => exact .pure (.refl _)
  | cons term rest ih =>
    simp only [List.flatMap_cons, List.forall_mem_append] at h ⊢
    refine .bindTaking _ (emits_term op h.1) List.perm_append_comm fun first => ?_
    refine .bindTaking _ (ih h.2) List.perm_append_comm fun rest => ?_
    exact .pure (.refl _)

/-- A place gives out the mentions it holds and adds those of its values. -/
theorem emits_place (op : Op) {place : Place} (h : ∀ id ∈ place.values, c.values id) :
    Emits c place.mentions (Emission.place op place) Expr.mentions := by
  simp only [Place.values, List.forall_mem_append] at h
  refine .bindTaking _ (emits_term op h.1) List.perm_append_comm fun base => ?_
  refine .bindTaking _ (emits_terms op h.2) List.perm_append_comm fun subscripts => ?_
  exact .pure (.of_eq (Expr.mentions_subscripts base subscripts))

/-! ## Elementwise statements -/

/-- The right side of a computation is written from its values. -/
theorem emits_formula (op : Op) (rank : Nat) {formula : Formula}
    (h : ∀ id ∈ formula.values, c.values id) :
    Emits c [] (Emission.formula op rank formula) Expr.mentions := by
  cases formula with
  | copy source => exact emits_element op rank (h source (by simp [Formula.values]))
  | binary operator lhs rhs =>
    refine .bindNew (emits_element op rank (h lhs (by simp [Formula.values]))) fun left => ?_
    refine .bindNew (emits_element op rank (h rhs (by simp [Formula.values]))) fun right => ?_
    exact .pure (.refl _)
  | function head operand =>
    refine .bindNew (emits_element op rank (h operand (by simp [Formula.values]))) fun arg => ?_
    exact .pure (by simp [Expr.mentions, mentionsOfExprs])
  -- The rank of the condition decides how its element is written, so its information comes first.
  | select condition onTrue onFalse =>
    have hcondition := h condition (by simp [Formula.values])
    refine .bindNew (emits_info hcondition) fun info => ?_
    refine .bindNew (emits_element op _ hcondition) fun code => ?_
    refine .bindNew (emits_element op rank (h onTrue (by simp [Formula.values]))) fun onTrue => ?_
    refine .bindNew (emits_element op rank (h onFalse (by simp [Formula.values]))) fun onFalse => ?_
    exact .pure (.refl _)

/-- One element is computed into its target. -/
theorem emits_setElement (op : Op) {target : ValueId} {formula : Formula} (rank : Nat)
    (htarget : c.values target) (hformula : ∀ id ∈ formula.values, c.values id) :
    Emits c [] (setElement op target formula rank) Stmt.mentions := by
  refine .bindNew (emits_element op rank htarget) fun left => ?_
  refine .bindNew (emits_formula op rank hformula) fun right => ?_
  exact .pure (.refl _)

/-- A computation over all elements of its target. -/
theorem emits_compute (op : Op) {target : ValueId} {formula : Formula} (htarget : c.values target)
    (hformula : ∀ id ∈ formula.values, c.values id) :
    Emits c [] (compute op target formula) mentionsOfStmts :=
  emits_elementwise op htarget fun rank => emits_setElement op rank htarget hformula

/-- A reduction step combines an element into its target. -/
theorem emits_combine (op : Op) (kind : ReductionKind) {target source : ValueId}
    (htarget : c.values target) (hsource : c.values source) :
    Emits c [] (combine op kind target source) mentionsOfStmts := by
  refine emits_elementwise op htarget fun rank => ?_
  refine .bindNew (emits_element op rank htarget) fun left => ?_
  cases kind with
  | add | assign | multiply =>
    refine .bindNew (emits_element op rank hsource) fun right => ?_
    exact .pure (.refl _)
  | max | min =>
    refine .bindNew (emits_element op rank htarget) fun again => ?_
    refine .bindNew (emits_element op rank hsource) fun right => ?_
    exact .pure (by simp [Stmt.mentions, Expr.mentions, mentionsOfExprs])

/-! ## Yields -/

/-- Pairing the operands of a yield with the results around mentions nothing. -/
theorem emits_yielded (op : Op) (results : List ValueId) :
    Emits c [] (yielded op results) fun _ => [] := by
  unfold yielded
  split
  · refine .bindNew (emits_raise (some op) (by simp)) fun _ => ?_
    exact .pure (.refl _)
  · exact .pure (.refl _)

/-- A yield pairs the results around with its operands, in order. -/
theorem yielded_value (op : Op) (results : List ValueId) (scope : Scope) (t : NameTable) :
    ((yielded op results).run scope t).value = results.zip op.operands := by
  unfold yielded
  split <;> rfl

/-- Both values of every pair may be mentioned. -/
theorem emits_computeEach (op : Op) {pairs : List (ValueId × ValueId)}
    (h : ∀ pair ∈ pairs, c.values pair.1 ∧ c.values pair.2) :
    Emits c [] (computeEach op pairs) mentionsOfStmts := by
  induction pairs with
  | nil => exact .pure (.refl _)
  | cons pair rest ih =>
    rw [List.forall_mem_cons] at h
    have hsource : ∀ id ∈ (Formula.copy pair.2).values, c.values id := by
      simpa [Formula.values] using h.1.2
    refine .bindNew (emits_compute op h.1.1 hsource) fun first => ?_
    refine .bindNew (ih h.2) fun rest => ?_
    exact .pure (by simp)

/-- The reduction steps of all pairs. -/
theorem emits_combineEach (op owner : Op) (result : Nat) {pairs : List (ValueId × ValueId)}
    (h : ∀ pair ∈ pairs, c.values pair.1 ∧ c.values pair.2) :
    Emits c [] (combineEach op owner result pairs) mentionsOfStmts := by
  induction pairs generalizing result with
  | nil => exact .pure (.refl _)
  | cons pair rest ih =>
    rw [List.forall_mem_cons] at h
    unfold combineEach
    split
    · refine .bindNew (emits_combine op _ h.1.1 h.1.2) fun first => ?_
      refine .bindNew (ih (result + 1) h.2) fun rest => ?_
      exact .pure (by simp)
    · refine .bindNew (emits_raise (some owner) (by simp)) fun _ => ?_
      refine .bindNew (.pure (.refl _) : Emits c [] (pure []) mentionsOfStmts) fun first => ?_
      refine .bindNew (ih (result + 1) h.2) fun rest => ?_
      exact .pure (by simp)

/-- The test that all indices are zero. -/
theorem emits_allZero (op : Op) {indices : List ValueId} (h : ∀ id ∈ indices, c.values id) :
    Emits c [] (allZero op indices) Expr.mentions := by
  refine .bindNew (emits_operands op h) fun codes => ?_
  refine .pure (.of_eq ?_)
  rw [Expr.mentions_all, List.nil_append]
  induction codes with
  | nil => rfl
  | cons code codes ih => simp [mentionsOfExprs, Expr.mentions, ih]

/-- Looking for the arguments of the first region mentions nothing. -/
theorem emits_regionArgs {owner : Op} (h : owner.regions ≠ []) :
    Emits c [] (regionArgs owner) fun _ => [] := by
  unfold regionArgs
  split
  · exact .pure (.refl _)
  · next hnone => exact absurd hnone h

/-- The arguments found are those of the first region. -/
theorem regionArgs_value (owner : Op) (scope : Scope) (t : NameTable) :
    ((regionArgs owner).run scope t).value = owner.firstArgs := by
  unfold regionArgs Op.firstArgs
  split
  · next hregions => rw [hregions]; rfl
  · next hregions => rw [hregions]; rfl

/-- The statements at the end of a reducing nest. -/
theorem emits_reduce (op : Op) {owner : Op} (howner : owner.regions ≠ [])
    (hresults : ∀ id ∈ owner.results, c.values id) (hoperands : ∀ id ∈ op.operands, c.values id)
    (hargs : ∀ id ∈ owner.firstArgs, c.values id) :
    Emits c [] (reduce op owner) mentionsOfStmts := by
  have hpairs : ∀ pair ∈ owner.results.zip op.operands, c.values pair.1 ∧ c.values pair.2 :=
    fun pair hpair => ⟨hresults _ (List.of_mem_zip hpair).1, hoperands _ (List.of_mem_zip hpair).2⟩
  refine .bindKnown (emits_yielded op owner.results) (fun _ _ => yielded_value ..) ?_
  refine .bindKnown (emits_regionArgs howner) (fun _ _ => regionArgs_value ..) ?_
  refine .bindNew (emits_allZero op hargs) fun condition => ?_
  refine .bindNew (emits_computeEach op hpairs) fun onFirst => ?_
  refine .bindNew (emits_combineEach op owner 0 hpairs) fun onOthers => ?_
  exact .pure (by simp [mentionsOfStmts, Stmt.mentions])

/-! ## Loops and conditionals -/

/-- A loop head mentions its index three times, and its bounds and step between. -/
theorem emits_loopHead (op : Op) {index : ValueId} {lower upper step : Term}
    (hindex : c.values index) (hlower : ∀ id ∈ lower.values, c.values id)
    (hupper : ∀ id ∈ upper.values, c.values id) (hstep : ∀ id ∈ step.values, c.values id) :
    Emits c (lower.mentions ++ upper.mentions ++ step.mentions)
      (loopHead op index lower upper step) LoopHead.mentions := by
  refine .bindNew (emits_operand op hindex) fun start => ?_
  -- The mentions the later terms hold are carried along; only their order changes.
  refine .bindTaking (upper.mentions ++ step.mentions ++ start.mentions) (emits_term op hlower)
    (List.perm_iff_count.2 fun m => by simp only [List.count_append]; omega) fun lower => ?_
  refine .bindNew (emits_operand op hindex) fun test => ?_
  refine .bindTaking (step.mentions ++ start.mentions ++ lower.mentions ++ test.mentions)
    (emits_term op hupper)
    (List.perm_iff_count.2 fun m => by simp only [List.count_append]; omega) fun upper => ?_
  refine .bindNew (emits_operand op hindex) fun advance => ?_
  refine .bindTaking
    (start.mentions ++ lower.mentions ++ test.mentions ++ upper.mentions ++ advance.mentions)
    (emits_term op hstep)
    (List.perm_iff_count.2 fun m => by simp only [List.count_append]; omega) fun step => ?_
  exact .pure (.refl _)

/-- One head of a nest. -/
theorem emits_nestHead (op : Op) {loop : NestLoop} (h : ∀ id ∈ loop.values, c.values id) :
    Emits c [] (nestHead op loop) LoopHead.mentions := by
  simp only [NestLoop.values, List.cons_append, List.forall_mem_cons, List.forall_mem_append] at h
  obtain ⟨hindex, hlower, hupper⟩ := h
  refine .bindNew (emits_affineCode hlower) fun lower => ?_
  refine .bindNew (emits_affineCode hupper) fun upper => ?_
  have hnone (code : Expr) : ∀ id ∈ (Term.code code).values, c.values id := by simp [Term.values]
  refine .perm ?_ (emits_loopHead op hindex (hnone lower) (hnone upper) (hnone _))
  simp [Term.mentions, Expr.mentions]

/-- The heads of a nest, from the outermost to the innermost. -/
theorem emits_nestHeads (op : Op) {loops : List NestLoop}
    (h : ∀ loop ∈ loops, ∀ id ∈ loop.values, c.values id) :
    Emits c [] (nestHeads op loops) fun heads => heads.flatMap LoopHead.mentions := by
  induction loops with
  | nil => exact .pure (.refl _)
  | cons loop rest ih =>
    rw [List.forall_mem_cons] at h
    refine .bindNew (emits_nestHead op h.1) fun first => ?_
    refine .bindNew (ih h.2) fun rest => ?_
    exact .pure (by simp)

/-- A nest mentions what its heads mention, then what its body mentions. -/
@[simp] theorem mentionsOfStmts_nestStmts (body : List Stmt) (closing : Option Note)
    (heads : List LoopHead) :
    mentionsOfStmts (nestStmts body closing heads) =
      heads.flatMap LoopHead.mentions ++ mentionsOfStmts body := by
  induction heads generalizing closing with
  | nil => rfl
  | cons head rest ih => simp [nestStmts, mentionsOfStmts, Stmt.mentions, ih]

/-- References to the results of a call. -/
theorem emits_references (op : Op) {ids : List ValueId} (h : ∀ id ∈ ids, c.values id) :
    Emits c [] (references op ids) mentionsOfExprs := by
  induction ids with
  | nil => exact .pure (.refl _)
  | cons id rest ih =>
    rw [List.forall_mem_cons] at h
    refine .bindNew (emits_info h.1) fun info => ?_
    refine .bindNew (emits_operand op h.1) fun name => ?_
    refine .bindNew (ih h.2) fun rest => ?_
    exact .pure (by split <;> simp [mentionsOfExprs, Expr.mentions])

/-! ## Plans -/

/-- The body of the first region, which is there. -/
theorem emits_firstBody (op : Op) {bodies : List (Emission (List Stmt))} (h : bodies ≠ [])
    (hbodies : ∀ body ∈ bodies, Emits c [] body mentionsOfStmts) :
    Emits c [] (firstBody op bodies) mentionsOfStmts := by
  cases bodies with
  | nil => exact absurd rfl h
  | cons body rest => exact hbodies body (List.mem_cons_self ..)

/-- The body of the second region, if there is one. -/
theorem emits_secondBody {bodies : List (Emission (List Stmt))}
    (hbodies : ∀ body ∈ bodies, Emits c [] body mentionsOfStmts) :
    Emits c [] (secondBody bodies) fun onFalse => onFalse.elim [] mentionsOfStmts := by
  unfold secondBody
  split
  · next body rest => exact .map (hbodies body (by simp)) fun _ => rfl
  · exact .pure (.refl _)

/-- The statements of any plan but one that shares a name. -/
theorem emits_render {op : Op} {bodies : List (Emission (List Stmt))} {plan : Plan}
    (hoperands : ∀ id ∈ op.operands, c.values id) (hresults : ∀ id ∈ op.results, c.values id)
    (hplan : ∀ id ∈ plan.values, c.values id)
    (hbodies : ∀ body ∈ bodies, Emits c [] body mentionsOfStmts)
    (hopens : plan.opens = true → bodies ≠ [])
    (hreduce : ∀ owner, plan = .reduce owner → owner.regions ≠ [])
    (hshare : ∀ source result, plan ≠ .share source result) :
    Emits c plan.mentions (render op bodies plan) mentionsOfStmts := by
  -- One case per plan, each in the order in which the source writes its lines.
  cases plan with
  | nothing => exact .pure (.refl _)
  | compute target source =>
    rw [Plan.values, List.forall_mem_cons] at hplan
    exact emits_compute op hplan.1 hplan.2
  | assign target source =>
    rw [Plan.values, List.forall_mem_append] at hplan
    refine .bindTaking _ (emits_place op hplan.1) List.perm_append_comm fun target => ?_
    refine .bindTaking _ (emits_place op hplan.2) List.perm_append_comm fun source => ?_
    exact .pure (by simp [mentionsOfStmts, Stmt.mentions])
  | allocate array =>
    have harray := hplan array (List.mem_singleton_self array)
    refine .bindNew (emits_arrayDeclarator (some op) harray) fun declarator => ?_
    refine .bindNew (emits_arrayPragmas (some op) harray) fun pragmas => ?_
    exact .pure (by simp [Plan.mentions, mentionsOfStmts, Stmt.mentions])
  | define array elements =>
    have harray := hplan array (List.mem_singleton_self array)
    refine .bindNew (emits_arrayDeclarator (some op) harray) fun declarator => ?_
    exact .pure (by simp [Plan.mentions, mentionsOfStmts, Stmt.mentions])
  | share source result => exact absurd rfl (hshare source result)
  | call callee =>
    refine .bindNew (emits_predeclare op hresults) fun declarations => ?_
    refine .bindNew (emits_operands op hoperands) fun args => ?_
    refine .bindNew (emits_references op hresults) fun results => ?_
    exact .pure (by simp [Plan.mentions, mentionsOfStmts, Stmt.mentions, Expr.mentions])
  | blockCall name =>
    refine .bindNew (emits_operands op hoperands) fun args => ?_
    exact .pure (by simp [Plan.mentions, mentionsOfStmts, Stmt.mentions, Expr.mentions])
  | accelerator operands lines =>
    exact .pure (by simp [Plan.mentions, mentionsOfStmts, Stmt.mentions])
  | loop index lower upper step =>
    simp only [Plan.values, List.cons_append, List.forall_mem_cons, List.forall_mem_append] at hplan
    obtain ⟨hindex, ⟨hlower, hupper⟩, hstep⟩ := hplan
    refine .bindTaking [] (emits_loopHead op hindex hlower hupper hstep) (.refl _) fun head => ?_
    refine .bindNew (emits_firstBody op (hopens rfl) hbodies) fun body => ?_
    exact .pure (by simp [mentionsOfStmts, Stmt.mentions])
  | branch condition =>
    refine .bindNew (emits_predeclare op hresults) fun declarations => ?_
    refine .bindTaking _ (emits_term op hplan) List.perm_append_comm fun condition => ?_
    refine .bindNew (emits_firstBody op (hopens rfl) hbodies) fun onTrue => ?_
    refine .bindNew (emits_secondBody hbodies) fun onFalse => .pure ?_
    cases onFalse <;> simp [mentionsOfStmts, Stmt.mentions]
  | nest loops =>
    have hloops : ∀ loop ∈ loops, ∀ id ∈ loop.values, c.values id := fun loop hloop id hid =>
      hplan id (List.mem_flatMap.2 ⟨loop, hloop, hid⟩)
    refine .bindNew (emits_predeclare op hresults) fun declarations => ?_
    refine .bindNew (emits_nestHeads op hloops) fun heads => ?_
    refine .bindNew (emits_firstBody op (hopens rfl) hbodies) fun body => ?_
    exact .pure (by simp [Plan.mentions])
  -- A yield assigns to the results around, paired with its operands.
  | deliver results =>
    have hpairs : ∀ pair ∈ results.zip op.operands, c.values pair.1 ∧ c.values pair.2 :=
      fun pair hpair => ⟨hplan _ (List.of_mem_zip hpair).1, hoperands _ (List.of_mem_zip hpair).2⟩
    refine .bindKnown (emits_yielded op results) (fun _ _ => yielded_value ..) ?_
    exact emits_computeEach op hpairs
  | reduce owner =>
    rw [Plan.values, List.forall_mem_append] at hplan
    exact emits_reduce op (hreduce owner rfl) hplan.1 hoperands hplan.2

end Emission

end HlsEmit
