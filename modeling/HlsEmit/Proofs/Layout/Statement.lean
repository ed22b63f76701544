import HlsEmit.Proofs.Account.Statement
import HlsEmit.Proofs.Layout.Mentions

/-!
# The layout of plans

The statements of a plan are tidy if the texts that the plan brings with it are: names of called
functions, code that was there before, elements of arrays, and the lines of accelerator calls.

## Key results

- `plain_affine`: the code of an affine expression is plain
- `ensures_render`: the statements of a plan with plain texts
-/

namespace HlsEmit

open Code

/-! ## Expressions -/

section Expressions

variable {operand : Nat → Expr} (hoperand : ∀ position, Plain (operand position).text)

/-- An operation of plain sides is plain. -/
theorem plain_operation (operator : Operator) {lhs rhs : Expr} (hlhs : Plain lhs.text)
    (hrhs : Plain rhs.text) : Plain (Expr.operation operator lhs rhs).text := by
  have hsymbol : Plain operator.symbol := by cases operator <;> decide
  exact (((hlhs.append (by decide)).append hsymbol).append (by decide)).append hrhs

/-- Parentheses around plain text are plain. -/
theorem plain_paren {inner : Expr} (h : Plain inner.text) : Plain (Expr.paren inner).text :=
  (Plain.append (by decide) h).append (by decide)

/-- A call of plain arguments is plain. -/
theorem plain_call {head : String} {args : List Expr} (hhead : Plain head)
    (hargs : ∀ arg ∈ args, Plain arg.text) : Plain (Expr.call head args).text := by
  have hall : Plain (argsText args) := by
    induction args with
    | nil => exact (by decide : Plain "")
    | cons arg rest ih =>
      rw [List.forall_mem_cons] at hargs
      cases rest with
      | nil => exact hargs.1
      | cons next rest => exact (hargs.1.append (by decide)).append (ih hargs.2)
  exact ((hhead.append (by decide)).append hall).append (by decide)

/-- Nested calls of plain arguments are plain. -/
theorem plain_nestedCalls {function : String} {codes : List Expr} (hfunction : Plain function)
    (hcodes : ∀ code ∈ codes, Plain code.text) : Plain (Expr.nestedCalls function codes).text := by
  by_cases hsome : codes = []
  · rw [hsome]
    exact (by decide : Plain "")
  · refine Expr.nestedCalls_induction hsome hcodes fun lhs rhs hlhs hrhs => ?_
    exact plain_call hfunction (by simp [hlhs, hrhs])

/-- A conjunction of plain conditions is plain. -/
theorem plain_all {codes : List Expr} (hcodes : ∀ code ∈ codes, Plain code.text) :
    Plain (Expr.all codes).text := by
  cases codes with
  | nil => exact (by decide : Plain "")
  | cons first rest =>
    rw [List.forall_mem_cons] at hcodes
    unfold Expr.all Expr.chain
    induction rest generalizing first with
    | nil => exact hcodes.1
    | cons code rest ih =>
      have hrest := List.forall_mem_cons.1 hcodes.2
      exact ih _ ⟨plain_operation .and hcodes.1 hrest.1, hrest.2⟩

include hoperand

/-- The code of an affine expression is plain if its operands are. -/
theorem plain_affine (dims : Nat) (e : AffineExpr) : Plain (e.code operand dims).text := by
  refine AffineExpr.code_induction hoperand (fun _ => plain_int _) plain_operation ?_ plain_paren e
  exact fun h => Plain.append (by decide) h

/-- The code of a map is plain over plain operands. -/
theorem plain_map (map : AffineMap) : ∀ code ∈ map.code operand, Plain code.text := by
  unfold AffineMap.code
  rw [List.forall_mem_map]
  exact fun e _ => plain_affine hoperand _ e

/-- The condition of a set is plain over plain operands. -/
theorem plain_condition (set : IntegerSet) (dims : Nat) : Plain (set.condition operand dims).text := by
  refine plain_all fun code hcode => ?_
  obtain ⟨i, hi, rfl⟩ := List.mem_mapIdx.1 hcode
  exact plain_operation _ (plain_affine hoperand dims _) (by decide)

end Expressions

/-! ## Plans with plain texts -/

/-- The text that a term brings with it is plain. -/
def Term.Tidy : Term → Prop
  | .value _ => True
  | .code expr => Plain expr.text
  | .affine function _ => Plain function

/-- The texts that a place brings with it are plain. -/
structure Place.Tidy (place : Place) : Prop where
  base : place.base.Tidy
  subscripts : ∀ subscript ∈ place.subscripts, subscript.Tidy

/-- What stands in front of the operand of a function is plain. -/
def Formula.Tidy : Formula → Prop
  | .function head _ => Plain head
  | _ => True

/-- The texts that a plan brings with it are plain, and what it sets starts with a mention. The lines
of an accelerator call may be empty or stray. -/
def Plan.Tidy (strays : Prop) : Plan → Prop
  | .compute _ formula => formula.Tidy
  | .assign target source => (∃ id, target.base = .value id) ∧ target.Tidy ∧ source.Tidy
  | .define _ elements => ∀ text ∈ elements, Plain text
  | .call callee => PlainName callee
  | .blockCall name => PlainName name
  | .accelerator _ lines => ∀ line ∈ lines, CallLine strays line
  | .loop _ lower upper step => lower.Tidy ∧ upper.Tidy ∧ step.Tidy
  | .branch condition => condition.Tidy
  | .nothing | .allocate _ | .share .. | .nest _ | .deliver _ | .reduce _ => True

namespace Emission

variable {arena : Arena} {strays : Prop}

/-! ## Terms and places -/

/-- The code of an affine value is plain. -/
theorem ensures_affineCode (value : AffineValue) :
    Ensures arena strays (fun code => Plain code.text) (affineCode value) :=
  .bind (ensures_operandAt value.operands) fun _ hoperand => .pure (plain_affine hoperand _ value.expr)

/-- The codes of affine values are plain. -/
theorem ensures_affineCodes (values : List AffineValue) :
    Ensures arena strays (fun codes => ∀ code ∈ codes, Plain code.text) (affineCodes values) := by
  induction values with
  | nil => exact .pure (by simp)
  | cons value rest ih =>
    refine .bind (ensures_affineCode value) fun code hcode => .bind ih fun codes hcodes => .pure ?_
    exact List.forall_mem_cons.2 ⟨hcode, hcodes⟩

/-- A tidy term is plain. -/
theorem ensures_term (op : Op) {term : Term} (h : term.Tidy) :
    Ensures arena strays (fun code => Plain code.text) (Emission.term op term) := by
  cases term with
  | value id => exact (ensures_operand op id).mono fun _ hbegins => hbegins.plain
  | code code => exact .pure h
  | affine function values =>
    exact .bind (ensures_affineCodes values) fun _ hcodes => .pure (plain_nestedCalls h hcodes)

/-- Tidy terms are plain. -/
theorem ensures_terms (op : Op) {terms : List Term} (h : ∀ term ∈ terms, term.Tidy) :
    Ensures arena strays (fun codes => ∀ code ∈ codes, Plain code.text) (Emission.terms op terms) := by
  induction terms with
  | nil => exact .pure (by simp)
  | cons term rest ih =>
    rw [List.forall_mem_cons] at h
    refine .bind (ensures_term op h.1) fun code hcode => .bind (ih h.2) fun codes hcodes => .pure ?_
    exact List.forall_mem_cons.2 ⟨hcode, hcodes⟩

/-- What is set starts with the mention of a value. -/
theorem ensures_target (op : Op) {place : Place} (h : place.Tidy)
    (hbase : ∃ id, place.base = .value id) :
    Ensures arena strays (fun code => Begins code.text) (Emission.place op place) := by
  obtain ⟨id, hbase⟩ := hbase
  unfold Emission.place
  rw [hbase]
  refine .bind (ensures_operand op id) fun base hbase => ?_
  exact .bind (ensures_terms op h.subscripts) fun _ hindices => .pure (begins_subscripts hbase hindices)

/-- A subscript of plain parts is plain. -/
theorem plain_subscripts {array : Expr} {indices : List Expr} (harray : Plain array.text)
    (hindices : ∀ index ∈ indices, Plain index.text) : Plain (array.subscripts indices).text := by
  induction indices generalizing array with
  | nil => exact harray
  | cons index rest ih =>
    rw [List.forall_mem_cons] at hindices
    have hfirst : Plain (Expr.subscript array index).text :=
      ((harray.append (by decide)).append hindices.1).append (by decide)
    exact ih hfirst hindices.2

/-- What is read from a tidy place is plain. -/
theorem ensures_source (op : Op) {place : Place} (h : place.Tidy) :
    Ensures arena strays (fun code => Plain code.text) (Emission.place op place) := by
  refine .bind (ensures_term op h.base) fun base hbase => ?_
  exact .bind (ensures_terms op h.subscripts) fun _ hindices => .pure (plain_subscripts hbase hindices)

/-! ## Elementwise statements -/

/-- The right side of a computation is plain. -/
theorem ensures_formula (op : Op) (rank : Nat) {formula : Formula} (h : formula.Tidy) :
    Ensures arena strays (fun code => Plain code.text) (Emission.formula op rank formula) := by
  have helement (rank : Nat) (id : ValueId) :
      Ensures arena strays (fun code => Plain code.text) (element op rank id) :=
    (ensures_element op rank id).mono fun _ hbegins => hbegins.plain
  cases formula with
  | copy source => exact helement rank source
  | binary operator lhs rhs =>
    refine .bind (helement rank lhs) fun _ hlhs => .bind (helement rank rhs) fun _ hrhs => .pure ?_
    exact plain_operation operator hlhs hrhs
  | function head operand =>
    refine .bind (helement rank operand) fun _ hoperand => .pure (plain_call h ?_)
    rwa [List.forall_mem_singleton]
  | select condition onTrue onFalse =>
    refine .bind (ensures_info condition) fun _ _ => .bind (helement _ condition) fun _ hcondition => ?_
    refine .bind (helement rank onTrue) fun _ htrue => .bind (helement rank onFalse) fun _ hfalse => ?_
    exact .pure ((((hcondition.append (by decide)).append htrue).append (by decide)).append hfalse)

/-- A computation of a tidy formula is tidy. -/
theorem ensures_compute (op : Op) (target : ValueId) {formula : Formula} (h : formula.Tidy) :
    Ensures arena strays (StmtsTidy strays) (compute op target formula) := by
  refine ensures_elementwise op target fun rank => ?_
  refine .bind (ensures_element op rank target) fun _ hleft => ?_
  exact .bind (ensures_formula op rank h) fun _ hright => .pure ⟨hleft, hright⟩

/-- A reduction step is tidy. -/
theorem ensures_combine (op : Op) (kind : ReductionKind) (target source : ValueId) :
    Ensures arena strays (StmtsTidy strays) (combine op kind target source) := by
  refine ensures_elementwise op target fun rank => ?_
  refine .bind (ensures_element op rank target) fun left hleft => ?_
  -- Three of the kinds assign in place, the other two call a function of both elements.
  have hset (form : Assignment) : Ensures arena strays (Stmt.Tidy strays) (do
      return .assign form left (← element op rank source) (some op.note)) :=
    .bind (ensures_element op rank source) fun _ hright => .pure ⟨hleft, hright.plain⟩
  have hcall (function : String) (hfunction : Plain function) :
      Ensures arena strays (Stmt.Tidy strays) (do
        let again ← element op rank target
        return .assign .set left (.call function [again, ← element op rank source]) (some op.note)) := by
    refine .bind (ensures_element op rank target) fun again hagain => ?_
    refine .bind (ensures_element op rank source) fun right hright => .pure ⟨hleft, ?_⟩
    exact plain_call hfunction (by simp [hagain.plain, hright.plain])
  cases kind with
  | add => exact hset .add
  | assign => exact hset .set
  | multiply => exact hset .multiply
  | max => exact hcall "max" (by decide)
  | min => exact hcall "min" (by decide)

/-! ## Yields -/

/-- Pairing the operands of a yield changes no name. -/
theorem ensures_yielded (op : Op) (results : List ValueId) :
    Ensures arena strays (fun _ => True) (yielded op results) := by
  unfold yielded
  dsimp only
  split
  · exact .bind (ensures_raise _ _) fun _ _ => .pure trivial
  · exact .pure trivial

/-- The assignments of all pairs are tidy. -/
theorem ensures_computeEach (op : Op) (pairs : List (ValueId × ValueId)) :
    Ensures arena strays (StmtsTidy strays) (computeEach op pairs) := by
  induction pairs with
  | nil => exact .pure trivial
  | cons pair rest ih =>
    refine .bind (ensures_compute op pair.1 (show (Formula.copy pair.2).Tidy from trivial)) fun _ hfirst => ?_
    exact .bind ih fun _ hothers => .pure (stmtsTidy_append.2 ⟨hfirst, hothers⟩)

/-- The reduction steps of all pairs are tidy. -/
theorem ensures_combineEach (op owner : Op) (result : Nat) (pairs : List (ValueId × ValueId)) :
    Ensures arena strays (StmtsTidy strays) (combineEach op owner result pairs) := by
  induction pairs generalizing result with
  | nil => exact .pure trivial
  | cons pair rest ih =>
    have hrest (first : List Stmt) (hfirst : StmtsTidy strays first) :
        Ensures arena strays (StmtsTidy strays)
          (combineEach op owner (result + 1) rest >>= fun others => Pure.pure (first ++ others)) :=
      .bind (ih (result + 1)) fun _ hothers => .pure (stmtsTidy_append.2 ⟨hfirst, hothers⟩)
    unfold combineEach
    dsimp only
    split
    · exact .bind (ensures_combine op _ _ _) hrest
    · refine .bind (ensures_raise _ _) fun _ _ => ?_
      exact .bind (.pure trivial) hrest

/-- The test that all indices are zero is plain. -/
theorem ensures_allZero (op : Op) (indices : List ValueId) :
    Ensures arena strays (fun code => Plain code.text) (allZero op indices) := by
  refine .bind (ensures_operands op indices) fun codes hcodes => .pure (plain_all ?_)
  rw [List.forall_mem_map]
  exact fun code hcode => plain_operation .eq (hcodes code hcode).plain (plain_int 0)

/-- Looking for the arguments of the first region changes no name. -/
theorem ensures_regionArgs (owner : Op) : Ensures arena strays (fun _ => True) (regionArgs owner) := by
  unfold regionArgs
  split
  · exact .pure trivial
  · exact .bind (ensures_overrun _) fun _ _ => .pure trivial

/-- The statements at the end of a reducing nest are tidy. -/
theorem ensures_reduce (op owner : Op) :
    Ensures arena strays (StmtsTidy strays) (reduce op owner) := by
  refine .bind (ensures_yielded op owner.results) fun pairs _ => ?_
  refine .bind (ensures_regionArgs owner) fun args _ => ?_
  refine .bind (ensures_allZero op args) fun _ hcondition => ?_
  refine .bind (ensures_computeEach op pairs) fun _ hfirst => ?_
  refine .bind (ensures_combineEach op owner 0 pairs) fun _ hothers => ?_
  exact .pure ⟨⟨hcondition, hfirst, hothers⟩, trivial⟩

/-! ## Loops and calls -/

/-- The line of a loop starts with its keyword. -/
theorem ensures_loopHead (op : Op) (index : ValueId) {lower upper step : Term} (hlower : lower.Tidy)
    (hupper : upper.Tidy) (hstep : step.Tidy) :
    Ensures arena strays (fun head => Begins head.text) (loopHead op index lower upper step) := by
  refine .bind (ensures_operand op index) fun _ hstart => ?_
  refine .bind (ensures_term op hlower) fun _ hlower => ?_
  refine .bind (ensures_operand op index) fun _ htest => ?_
  refine .bind (ensures_term op hupper) fun _ hupper => ?_
  refine .bind (ensures_operand op index) fun _ hadvance => ?_
  refine .bind (ensures_term op hstep) fun _ hstep => .pure ?_
  have hfor : Begins "for (" := ⟨by decide, 'f', _, rfl, by decide⟩
  have hinit := (hfor.append hstart.plain).append (by decide : Plain " = ")
  have htest := (((hinit.append hlower).append (by decide : Plain "; ")).append htest.plain).append
    (by decide : Plain " < ")
  have hadvance := (((htest.append hupper).append (by decide : Plain "; ")).append
    hadvance.plain).append (by decide : Plain " += ")
  exact (hadvance.append hstep).append (by decide)

/-- The heads of a nest begin well. -/
theorem ensures_nestHeads (op : Op) (loops : List NestLoop) :
    Ensures arena strays (fun heads => ∀ head ∈ heads, Begins head.text) (nestHeads op loops) := by
  induction loops with
  | nil => exact .pure (by simp)
  | cons loop rest ih =>
    have hhead : Ensures arena strays (fun head => Begins head.text) (nestHead op loop) := by
      refine .bind (ensures_affineCode loop.lower) fun _ hlower => ?_
      refine .bind (ensures_affineCode loop.upper) fun _ hupper => ?_
      exact ensures_loopHead op loop.index hlower hupper (plain_int _)
    refine .bind hhead fun head hhead => .bind ih fun heads hheads => .pure ?_
    exact List.forall_mem_cons.2 ⟨hhead, hheads⟩

/-- A nest of tidy parts is tidy. -/
theorem tidy_nestStmts {body : List Stmt} (hbody : StmtsTidy strays body) (closing : Option Note)
    {heads : List LoopHead} (hheads : ∀ head ∈ heads, Begins head.text) :
    StmtsTidy strays (nestStmts body closing heads) := by
  induction heads generalizing closing with
  | nil => exact hbody
  | cons head rest ih =>
    rw [List.forall_mem_cons] at hheads
    exact ⟨⟨hheads.1, ih none hheads.2⟩, trivial⟩

/-- References to results are plain. -/
theorem ensures_references (op : Op) (ids : List ValueId) :
    Ensures arena strays (fun codes => ∀ code ∈ codes, Plain code.text) (references op ids) := by
  induction ids with
  | nil => exact .pure (by simp)
  | cons id rest ih =>
    refine .bind (ensures_info id) fun info _ => .bind (ensures_operand op id) fun name hname => ?_
    refine .bind ih fun codes hcodes => .pure (List.forall_mem_cons.2 ⟨?_, hcodes⟩)
    split
    · exact hname.plain
    · exact Plain.append (by decide) hname.plain

/-- A call starts with the name of the function, or with a parenthesis if that is empty. -/
theorem begins_call {callee : String} (h : PlainName callee) {args : List Expr}
    (hargs : ∀ arg ∈ args, Plain arg.text) : Begins (Expr.call callee args).text := by
  have hplain := plain_call h.plain hargs
  refine ⟨hplain, ?_⟩
  have htext : (Expr.call callee args).text.toList =
      callee.toList ++ '(' :: (argsText args ++ ")").toList := by
    rw [Expr.text, String.append_assoc, String.append_assoc, String.toList_append,
      String.toList_append]
    rfl
  rw [htext]
  cases hname : callee.toList with
  | nil => exact ⟨'(', _, rfl, by decide⟩
  | cons c rest =>
    refine ⟨c, _, rfl, ?_⟩
    rintro rfl
    have hblank := (h ' ' (by simp [hname])).2.2
    cases hblank

/-! ## Plans -/

section Bodies

variable {bodies : List (Emission (List Stmt))}
variable (hbodies : ∀ body ∈ bodies, Ensures arena strays (StmtsTidy strays) body)

include hbodies

/-- The body of the first region is tidy. -/
theorem ensures_firstBody (op : Op) : Ensures arena strays (StmtsTidy strays) (firstBody op bodies) := by
  cases bodies with
  | nil => exact .bind (ensures_overrun _) fun _ _ => .pure trivial
  | cons body rest => exact hbodies body List.mem_cons_self

/-- The body of the second region is tidy if it is there. -/
theorem ensures_secondBody :
    Ensures arena strays (fun body => ∀ stmts ∈ body, StmtsTidy strays stmts) (secondBody bodies) := by
  unfold secondBody
  split
  · next body _ =>
    refine .bind (hbodies body (by simp)) fun stmts hstmts => .pure ?_
    rintro _ ⟨⟩
    exact hstmts
  · exact .pure nofun

/-- The statements of a plan with plain texts are tidy. -/
theorem ensures_render (op : Op) {plan : Plan} (hplan : plan.Tidy strays) :
    Ensures arena strays (StmtsTidy strays) (render op bodies plan) := by
  -- One case per plan, each in the order in which its lines are written.
  cases plan with
  | nothing => exact .pure trivial
  | compute target formula => exact ensures_compute op target hplan
  | assign target source =>
    refine .bind (ensures_target op hplan.2.1 hplan.1) fun _ hleft => ?_
    exact .bind (ensures_source op hplan.2.2) fun _ hright => .pure ⟨⟨hleft, hright⟩, trivial⟩
  | allocate array =>
    refine .bind (ensures_arrayDeclarator (some op) array) fun _ hdeclarator => ?_
    exact .bind (ensures_arrayPragmas (some op) array) fun _ hpragmas => .pure ⟨hdeclarator, hpragmas⟩
  | define array elements =>
    refine .bind (ensures_arrayDeclarator (some op) array) fun _ hdeclarator => ?_
    exact .pure ⟨⟨hdeclarator, hplan⟩, trivial⟩
  | share source result =>
    exact .bind (ensures_share op source result) fun _ _ => ensures_arrayPragmas (some op) result
  | call callee =>
    refine .bind (ensures_predeclare op op.results) fun _ hdeclarations => ?_
    refine .bind (ensures_operands op op.operands) fun _ hargs => ?_
    refine .bind (ensures_references op op.results) fun _ hresults => .pure ?_
    have hall := List.forall_mem_append.2 ⟨fun arg harg => (hargs arg harg).plain, hresults⟩
    exact stmtsTidy_append.2 ⟨hdeclarations, begins_call hplan hall, trivial⟩
  | blockCall name =>
    refine .bind (ensures_operands op op.operands) fun _ hargs => .pure ⟨?_, trivial⟩
    have hhead : PlainName ("__IP__" ++ name) := by
      rw [PlainName, String.toList_append, List.forall_mem_append]
      exact ⟨by decide, hplan⟩
    exact begins_call hhead fun arg harg => (hargs arg harg).plain
  | accelerator operands lines => exact .pure ⟨hplan, trivial⟩
  | loop index lower upper step =>
    refine .bind (ensures_loopHead op index hplan.1 hplan.2.1 hplan.2.2) fun _ hhead => ?_
    refine .bind (ensures_firstBody hbodies op) fun body hbody => .pure ?_
    have hpragmas : StmtsTidy strays op.attrs.loopPragmas := by
      refine stmtsTidy_append.2 ⟨?_, ?_⟩
      · split
        · exact ⟨tidy_pipeline _, trivial⟩
        · trivial
      · split
        · exact ⟨⟨by decide, '#', _, rfl, by decide⟩, trivial⟩
        · trivial
    exact ⟨⟨hhead, stmtsTidy_append.2 ⟨hpragmas, hbody⟩⟩, trivial⟩
  | branch condition =>
    refine .bind (ensures_predeclare op op.results) fun _ hdeclarations => ?_
    refine .bind (ensures_term op hplan) fun _ hcondition => ?_
    refine .bind (ensures_firstBody hbodies op) fun _ htrue => ?_
    refine .bind (ensures_secondBody hbodies) fun onFalse hfalse => .pure ?_
    refine stmtsTidy_append.2 ⟨hdeclarations, ?_, trivial⟩
    cases onFalse with
    | none => exact ⟨hcondition, htrue⟩
    | some onFalse => exact ⟨hcondition, htrue, hfalse onFalse rfl⟩
  | nest loops =>
    refine .bind (ensures_predeclare op op.results) fun _ hdeclarations => ?_
    refine .bind (ensures_nestHeads op loops) fun _ hheads => ?_
    refine .bind (ensures_firstBody hbodies op) fun _ hbody => .pure ?_
    exact stmtsTidy_append.2 ⟨hdeclarations, tidy_nestStmts hbody _ hheads⟩
  | deliver results =>
    exact .bind (ensures_yielded op results) fun pairs _ => ensures_computeEach op pairs
  | reduce owner => exact ensures_reduce op owner

end Bodies

end Emission

end HlsEmit
