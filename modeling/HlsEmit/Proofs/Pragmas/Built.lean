import HlsEmit.Emission.Program
import HlsEmit.Proofs.Primitives

/-!
# How emissions are built

All emissions are sequences of a few primitive ones: they find something out, give a name, report a
problem or note the turn of an operation. `Built` says so, and what all primitive emissions do holds of
every sequence of them by induction. Writing is built without turns; those are noted by operations only.

## Key results

- `Built.keeps`: names once given are kept
- `Built.dispatched`: where no turns may be noted, there are none
- `built_compute`, `built_reduce`, `built_loopHead`: what is written for an operation itself
-/

namespace HlsEmit.Emission

open Code

/-- An emission is made of primitive ones. If `turns` does not hold, it notes no turns. -/
inductive Built (turns : Prop) : {α : Type} → Emission α → Prop where
  | pure {α : Type} (value : α) : Built turns (pure value)
  | bind {α β : Type} {e : Emission α} {next : α → Emission β} (he : Built turns e)
      (hnext : ∀ value, Built turns (next value)) : Built turns (e >>= next)
  | inspect {α : Type} (f : Scope → NameTable → α) : Built turns (inspect f)
  | raise (op : Option Op) (problem : Problem) : Built turns (raise op problem)
  | overrun (missing : Overrun) : Built turns (overrun missing)
  | declare (id : ValueId) (pointer : Bool) : Built turns (declare id pointer)
  | share (op : Op) (existing fresh : ValueId) : Built turns (share op existing fresh)
  | dispatch (h : turns) (owner : Option Op) (op : Op) : Built turns (dispatch owner op)
  | inFunction {α : Type} {e : Emission α} (name : String) (he : Built turns e) :
      Built turns (inFunction name e)

/-! ## Where names are given -/

/-- A table, or the same with one more name that no value had. -/
inductive Names (t : NameTable) : NameTable → Prop where
  | none : Names t t
  | one {id : ValueId} (binding : Binding) (hnew : t.isDeclared id = false) :
    Names t (t.insert id binding)

/-- A fresh entry hides none. -/
theorem Names.keeps {t t' : NameTable} (h : Names t t') : t.Keeps t' := by
  intro id binding hbound
  cases h with
  | none => exact hbound
  | @one fresh _ hnew =>
    have hne : id ≠ fresh := by
      rintro rfl
      rw [NameTable.isDeclared, hbound] at hnew
      cases hnew
    rw [NameTable.binding?_insert, if_neg hne, hbound]

/-- A declaration changes the names only. -/
theorem names_declare (id : ValueId) (pointer : Bool) (scope : Scope) (t : NameTable) :
    ∃ value names, (declare id pointer).run scope t = ⟨value, names, [], [], []⟩ ∧
      Names t names := by
  simp only [run, declare, NameTable.declare]
  cases hdeclared : t.isDeclared id with
  | true => exact ⟨_, _, rfl, .none⟩
  | false => exact ⟨_, _, rfl, .one _ hdeclared⟩

/-- A value that shares a name gets an entry, unless it has one or there is no name to share. -/
theorem share_cases (op : Op) (existing fresh : ValueId) (scope : Scope) (t : NameTable) :
    (∃ owner, t.isDeclared fresh = false ∧
      (share op existing fresh).run scope t =
        ⟨(), t.insert fresh (.shared owner), [], [], []⟩) ∨
    ∃ error, (share op existing fresh).run scope t =
      ⟨(), t, [(Problem.naming error).report (Origin.at scope.function (some op))], [], []⟩ := by
  cases hdeclared : t.isDeclared fresh with
  | true =>
    refine .inr ⟨.alreadyDeclared fresh, ?_⟩
    simp [share, run, NameTable.share, hdeclared, bind, raise, Outcome.andThen]
  | false =>
    have hfree : t.binding? fresh = none := by simpa [NameTable.isDeclared] using hdeclared
    cases howner : t.owner? existing with
    | none => exact .inr ⟨_, share_apply_of_unnamed hfree howner scope⟩
    | some owner => exact .inl ⟨owner, rfl, share_apply hfree howner scope⟩

namespace Built

variable {α β : Type} {turns : Prop} {e : Emission α}

/-- What is made of the code of an emission. -/
theorem map (f : α → β) (he : Built turns e) : Built turns (do return f (← e)) :=
  .bind he fun value => .pure (f value)

/-- Names once given are kept. -/
theorem keeps (he : Built turns e) (scope : Scope) (t : NameTable) :
    t.Keeps (e.run scope t).names := by
  induction he generalizing scope t with
  | pure | inspect | raise | overrun | dispatch => exact .refl t
  -- the table of the second emission is the one that the first leaves
  | bind he hnext ih ihnext => exact (ih _ _).trans (ihnext _ _ _)
  | declare id pointer =>
    obtain ⟨value, names, hrun, hnames⟩ := names_declare id pointer scope t
    exact hrun ▸ hnames.keeps
  | share op existing fresh =>
    rcases share_cases op existing fresh scope t with ⟨owner, hnew, hrun⟩ | ⟨error, hrun⟩
    · exact hrun ▸ (Names.one _ hnew).keeps
    · exact hrun ▸ .refl t
  | inFunction name he ih => exact ih _ _

/-- Where no turns may be noted, there are none. -/
theorem dispatched (he : Built False e) (scope : Scope) (t : NameTable) :
    (e.run scope t).dispatched = [] := by
  -- the index of `Built` has to be a variable for the induction
  generalize hturns : False = turns at he
  induction he generalizing scope t with
  | pure | inspect | raise | overrun => rfl
  | bind he hnext ih ihnext =>
    rw [bind_apply, Outcome.andThen, ih, ihnext, List.append_nil]
  | declare id pointer =>
    obtain ⟨value, names, hrun, -⟩ := names_declare id pointer scope t
    rw [hrun]
  | share op existing fresh =>
    rcases share_cases op existing fresh scope t with ⟨owner, -, hrun⟩ | ⟨error, hrun⟩ <;> rw [hrun]
  -- a turn needs the permission that there is none of
  | dispatch h => exact (hturns ▸ h).elim
  | inFunction name he ih => exact ih _ _

end Built

/-! ## Looking up -/

variable {turns : Prop}

/-- Looking up a value is built without turns. -/
theorem built_info (id : ValueId) : Built turns (info id) := by
  refine .bind (.bind (.inspect _) fun missing => ?_) fun _ => .inspect _
  split
  · exact .overrun _
  · exact .pure _

/-- Asking whether a value is bound is built without turns. -/
theorem built_isBound (id : ValueId) : Built turns (isBound id) := by
  refine .bind (.inspect _) fun declared => ?_
  split
  · exact .pure _
  · exact (built_info id).map _

/-! ## Mentions -/

/-- Looking up a type is built without turns. -/
theorem built_typeOf (op : Option Op) (id : ValueId) : Built turns (typeOf op id) := by
  refine .bind (built_info id) fun info => ?_
  dsimp only
  split
  · exact .bind (.raise ..) fun _ => .pure _
  · exact .pure _

/-- The mention of a value is built without turns. -/
theorem built_mentionAs (pointer : Bool) (op : Option Op) (id : ValueId) :
    Built turns (mentionAs pointer op id) := by
  refine .bind (built_isBound id) fun bound => ?_
  split
  · exact .map _ (.inspect _)
  refine .bind (built_typeOf op id) fun type => .bind (.declare id pointer) fun name => ?_
  split
  · exact .pure _
  · exact .bind (.raise ..) fun _ => .map _ (.inspect _)

/-- An operand is built without turns. -/
theorem built_operand (op : Op) (id : ValueId) : Built turns (operand op id) :=
  (built_mentionAs false (some op) id).map _

/-- An element is built without turns. -/
theorem built_element (op : Op) (rank : Nat) (id : ValueId) : Built turns (element op rank id) :=
  (built_operand op id).map _

/-- Operands are built without turns. -/
theorem built_operands (op : Op) (ids : List ValueId) : Built turns (operands op ids) := by
  induction ids with
  | nil => exact .pure _
  | cons id rest ih => exact .bind (built_operand op id) fun first => ih.map _

/-- The declarator of an array is built without turns. -/
theorem built_arrayDeclarator (op : Option Op) (id : ValueId) :
    Built turns (arrayDeclarator op id) := by
  refine .bind (built_info id) fun info => ?_
  split
  · exact (built_mentionAs false op id).map _
  · exact .bind (.raise ..) fun _ => (built_mentionAs true op id).map _

/-- The declarator of a value is built without turns. -/
theorem built_declarator (op : Option Op) (id : ValueId) : Built turns (declarator op id) := by
  refine .bind (built_info id) fun info => ?_
  split
  · exact built_arrayDeclarator op id
  · exact (built_mentionAs false op id).map _

/-- Declarations of results are built without turns. -/
theorem built_predeclare (op : Op) (ids : List ValueId) : Built turns (predeclare op ids) := by
  induction ids with
  | nil => exact .pure _
  | cons id rest ih =>
    refine .bind (built_isBound id) fun bound => ?_
    split
    · exact ih
    · exact .bind (built_declarator (some op) id) fun first => ih.map _

/-! ## Statements -/

/-- Loops over elements are built without turns if the statement is. -/
theorem built_elementwise (op : Op) (target : ValueId) {statement : Nat → Emission Stmt}
    (h : ∀ rank, Built turns (statement rank)) : Built turns (elementwise op target statement) := by
  have hextents : Built turns (loopExtents op target) := by
    refine .bind (built_info target) fun info => ?_
    split
    · exact .pure _
    split
    · exact .bind (.raise ..) fun _ => .pure _
    refine .bind (built_isBound target) fun bound => ?_
    split
    · exact .pure _
    · exact (built_arrayDeclarator (some op) target).map _
  exact .bind hextents fun _ => (h _).map _

/-- A formula is built without turns. -/
theorem built_formula (op : Op) (rank : Nat) (formula : Formula) :
    Built turns (Emission.formula op rank formula) := by
  have helement (rank : Nat) (id : ValueId) : Built turns (element op rank id) :=
    built_element op rank id
  cases formula with
  | copy source => exact helement rank source
  | binary operator lhs rhs => exact .bind (helement rank lhs) fun left => (helement rank rhs).map _
  | function head operand => exact (helement rank operand).map _
  | select condition onTrue onFalse =>
    refine .bind (built_info condition) fun info => .bind (helement _ condition) fun code => ?_
    exact .bind (helement rank onTrue) fun onTrue => (helement rank onFalse).map _

/-- A computation is built without turns. -/
theorem built_compute (op : Op) (target : ValueId) (source : Formula) :
    Built turns (compute op target source) :=
  built_elementwise op target fun rank =>
    .bind (built_element op rank target) fun _ => (built_formula op rank source).map _

/-- A reduction step is built without turns. -/
theorem built_combine (op : Op) (kind : ReductionKind) (target source : ValueId) :
    Built turns (combine op kind target source) := by
  refine built_elementwise op target fun rank => ?_
  have htarget : Built turns (element op rank target) := built_element op rank target
  have hsource : Built turns (element op rank source) := built_element op rank source
  refine .bind htarget fun left => ?_
  cases kind with
  | add | assign | multiply => exact hsource.map _
  | max | min => exact .bind htarget fun again => hsource.map _

/-- The pairs of a yield are built without turns. -/
theorem built_yielded (op : Op) (results : List ValueId) : Built turns (yielded op results) := by
  unfold yielded
  split
  · exact .bind (.raise ..) fun _ => .pure _
  · exact .pure _

/-- The assignments of a yield are built without turns. -/
theorem built_computeEach (op : Op) (pairs : List (ValueId × ValueId)) :
    Built turns (computeEach op pairs) := by
  induction pairs with
  | nil => exact .pure _
  | cons pair rest ih => exact .bind (built_compute op _ _) fun first => ih.map _

/-- The reduction steps are built without turns. -/
theorem built_combineEach (op owner : Op) (result : Nat) (pairs : List (ValueId × ValueId)) :
    Built turns (combineEach op owner result pairs) := by
  induction pairs generalizing result with
  | nil => exact .pure _
  | cons pair rest ih =>
    unfold combineEach
    split
    · exact .bind (built_combine op _ _ _) fun first => (ih _).map _
    · exact .bind (.raise ..) fun _ => .bind (.pure _) fun first => (ih _).map _

/-- The end of a reducing nest is built without turns. -/
theorem built_reduce (op owner : Op) : Built turns (reduce op owner) := by
  have hargs : Built turns (regionArgs owner) := by
    unfold regionArgs
    split
    · exact .pure _
    · exact .bind (.overrun _) fun _ => .pure _
  refine .bind (built_yielded op owner.results) fun pairs => .bind hargs fun indices => ?_
  refine .bind ((built_operands op indices).map _) fun condition => ?_
  refine .bind (built_computeEach op pairs) fun onFirst => ?_
  exact (built_combineEach op owner 0 pairs).map _

/-! ## Terms and loops -/

/-- The code of an affine value is built without turns. -/
theorem built_affineCode (value : AffineValue) : Built turns (affineCode value) :=
  .map _ (.inspect _)

/-- A term is built without turns. -/
theorem built_term (op : Op) (term : Term) : Built turns (Emission.term op term) := by
  have hcodes (values : List AffineValue) : Built turns (affineCodes values) := by
    induction values with
    | nil => exact .pure _
    | cons value rest ih => exact .bind (built_affineCode value) fun first => ih.map _
  cases term with
  | value id => exact built_operand op id
  | code code => exact .pure _
  | affine function values => exact (hcodes values).map _

/-- A place is built without turns. -/
theorem built_place (op : Op) (place : Place) : Built turns (Emission.place op place) := by
  have hterms (subscripts : List Term) : Built turns (terms op subscripts) := by
    induction subscripts with
    | nil => exact .pure _
    | cons term rest ih => exact .bind (built_term op term) fun first => ih.map _
  exact .bind (built_term op place.base) fun base => (hterms place.subscripts).map _

/-- A loop head is built without turns. -/
theorem built_loopHead (op : Op) (index : ValueId) (lower upper step : Term) :
    Built turns (loopHead op index lower upper step) := by
  have hindex : Built turns (operand op index) := built_operand op index
  refine .bind hindex fun start => .bind (built_term op lower) fun lower => ?_
  refine .bind hindex fun test => .bind (built_term op upper) fun upper => ?_
  exact .bind hindex fun advance => (built_term op step).map _

/-- A head of a nest is built without turns. -/
theorem built_nestHead (op : Op) (loop : NestLoop) : Built turns (nestHead op loop) := by
  refine .bind (built_affineCode loop.lower) fun lower => ?_
  exact .bind (built_affineCode loop.upper) fun upper => built_loopHead op _ _ _ _

/-- The heads of a nest are built without turns. -/
theorem built_nestHeads (op : Op) (loops : List NestLoop) : Built turns (nestHeads op loops) := by
  induction loops with
  | nil => exact .pure _
  | cons loop rest ih => exact .bind (built_nestHead op loop) fun first => ih.map _

/-- References to results are built without turns. -/
theorem built_references (op : Op) (ids : List ValueId) : Built turns (references op ids) := by
  induction ids with
  | nil => exact .pure _
  | cons id rest ih =>
    exact .bind (built_info id) fun info => .bind (built_operand op id) fun name => ih.map _

/-! ## Pragmas -/

/-- The pragmas of an array are built without turns. -/
theorem built_arrayPragmas (op : Option Op) (id : ValueId) : Built turns (arrayPragmas op id) := by
  refine .bind (built_info id) fun info => ?_
  split
  · exact .pure _
  refine .bind (.inspect _) fun array => ?_
  dsimp only
  split
  · exact .bind (.raise ..) fun _ => .pure _
  · exact .pure _

/-! ## Signatures -/

/-- The arguments of a signature are built without turns. -/
theorem built_arguments (args : List ValueId) : Built turns (arguments args) := by
  induction args with
  | nil => exact .pure _
  | cons arg rest ih => exact .bind (built_declarator none arg) fun first => ih.map _

/-- A returned value is built without turns. -/
theorem built_returned (ret : Op) (id : ValueId) : Built turns (returned ret id) := by
  refine .bind (built_isBound id) fun bound => ?_
  split
  · exact .bind (.raise ..) fun _ => (built_mentionAs false (some ret) id).map _
  refine .bind (built_info id) fun info => ?_
  split
  · exact built_arrayDeclarator (some ret) id
  · exact (built_mentionAs true (some ret) id).map _

/-- The returned values are built without turns. -/
theorem built_returnedAll (ret : Op) (ids : List ValueId) : Built turns (returnedAll ret ids) := by
  induction ids with
  | nil => exact .pure _
  | cons id rest ih => exact .bind (built_returned ret id) fun first => ih.map _

/-- The results of a signature are built without turns. -/
theorem built_results (ret : Option Op) : Built turns (results ret) := by
  cases ret with
  | none => exact .pure _
  | some ret => exact built_returnedAll ret ret.operands

/-- The check of the structure is built without turns. -/
theorem built_checkStructure (function : Function) : Built turns (checkStructure function) := by
  have hreturns : Built turns (if 1 < function.returnCount then
      raise none (.returnCount function.returnCount) else Pure.pure ()) := by
    split
    · exact .raise ..
    · exact .pure _
  unfold checkStructure
  dsimp only
  split
  · exact .bind (.raise ..) fun _ => hreturns
  · exact hreturns

/-- Looking for the return is built without turns. -/
theorem built_returnOp? (function : Function) : Built turns (returnOp? function) := by
  unfold returnOp?
  dsimp only
  split
  · exact .bind (.raise ..) fun _ => .pure _
  · exact .pure _

/-- The interface lines are built without turns. -/
theorem built_interfaces (ids : List ValueId) : Built turns (interfaces ids) := by
  induction ids with
  | nil => exact .pure _
  | cons id rest ih =>
    have hfirst : Built turns (interface id) :=
      .bind (built_info id) fun info => .map _ (.inspect _)
    exact .bind hfirst fun first => ih.map _

/-- The memory lines of ports are built without turns. -/
theorem built_portArrayPragmas (ids : List ValueId) : Built turns (portArrayPragmas ids) := by
  induction ids with
  | nil => exact .pure _
  | cons id rest ih =>
    refine .bind (built_info id) fun info => ?_
    split
    · exact .bind (built_arrayPragmas none id) fun first => ih.map _
    · exact .bind (.pure _) fun first => ih.map _

/-- The first lines of a function are built without turns. -/
theorem built_functionPragmas (attrs : FuncAttrs) (ports : List ValueId) :
    Built turns (functionPragmas attrs ports) := by
  unfold functionPragmas
  dsimp only
  split
  · exact .pure _
  · exact .bind (built_interfaces ports) fun interfaces => (built_portArrayPragmas ports).map _

end HlsEmit.Emission
