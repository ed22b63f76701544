import HlsEmit.Emission.Program
import HlsEmit.Proofs.Stages.Admission

/-!
# What emissions report

`Reports` says that whatever an emission reports is a problem of certain stages, from every table.
Writing reports problems of its own stage only, an operation also those of admission and what it
lacks, and a function also those of its structure and its signature.

## Key results

- `reports_render`: carrying out a plan reports problems of writing
- `reports_ofOp`: an operation reports problems of admission and of writing
- `reports_functions`: missing values are not reported by the emission of functions
-/

namespace HlsEmit.Emission

open Code

/-- Whatever an emission reports is a problem of one of these stages. -/
def Reports {α : Type} (may : Stage → Prop) (e : Emission α) : Prop :=
  ∀ scope t, ∀ report ∈ (e.run scope t).raised,
    ∃ problem origin, may (Problem.stage problem) ∧ report = problem.report origin

variable {α β : Type} {may may' : Stage → Prop}

/-! ## Sequences -/

namespace Reports

/-- A value reports nothing. -/
theorem pure (value : α) : Reports may (pure value) := by
  intro scope t report hreport
  cases hreport

/-- A sequence reports what its parts report. -/
theorem bind {e : Emission α} {next : α → Emission β} (he : Reports may e)
    (hnext : ∀ value, Reports may (next value)) : Reports may (e >>= next) := by
  intro scope t report hreport
  rw [bind_apply, Outcome.andThen, List.mem_append] at hreport
  exact hreport.elim (he scope t report) (hnext _ scope _ report)

/-- What is made of the code of an emission. -/
theorem map {e : Emission α} (f : α → β) (he : Reports may e) :
    Reports may (do return f (← e)) :=
  .bind he fun value => .pure (f value)

/-- An emission that leaves no report. -/
theorem none {e : Emission α} (h : ∀ scope t, (e.run scope t).raised = []) : Reports may e := by
  intro scope t report hreport
  rw [h] at hreport
  cases hreport

end Reports

/-- A problem is reported. -/
theorem reports_raise (op : Option Op) {problem : Problem} (h : may problem.stage) :
    Reports may (raise op problem) := by
  intro scope t report hreport
  rw [raise_apply, List.mem_singleton] at hreport
  exact ⟨problem, _, h, hreport⟩

/-! ## Looking up -/

/-- Looking a value up reports nothing. -/
theorem reports_checkEntry (id : ValueId) : Reports may (checkEntry id) := by
  refine .bind (.none fun _ _ => rfl) fun missing => ?_
  split
  · exact .none fun _ _ => rfl
  · exact .pure _

/-- What is known of a value is looked up without a report. -/
theorem reports_info (id : ValueId) : Reports may (info id) :=
  .bind (reports_checkEntry id) fun _ => .none fun _ _ => rfl

/-- Asking for a name reports nothing. -/
theorem reports_isBound (id : ValueId) : Reports may (isBound id) := by
  refine .bind (.none fun _ _ => rfl) fun declared => ?_
  split
  · exact .pure _
  · exact (reports_info id).map _

/-- Using a value reports nothing. -/
theorem reports_use (id : ValueId) : Reports may (use id) :=
  .none fun _ _ => rfl

/-- Declaring a value reports nothing. -/
theorem reports_declare (id : ValueId) (pointer : Bool) : Reports may (declare id pointer) := by
  refine .none fun scope t => ?_
  unfold run declare
  split <;> rfl

/-! ## Parts without reports of their own -/

/-- An affine value is written without a report. -/
theorem reports_affineCode (value : AffineValue) : Reports may (affineCode value) :=
  .none fun _ _ => rfl

/-- Affine values are written without a report. -/
theorem reports_affineCodes (values : List AffineValue) : Reports may (affineCodes values) := by
  induction values with
  | nil => exact .pure _
  | cons value rest ih => exact .bind (reports_affineCode value) fun first => ih.map _

/-- The arguments of regions are looked up without a report. -/
theorem reports_regionArgs (owner : Op) : Reports may (regionArgs owner) := by
  unfold regionArgs
  split
  · exact .pure _
  · exact .none fun _ _ => rfl

/-- Interfaces are written without a report. -/
theorem reports_interfaces (ids : List ValueId) : Reports may (interfaces ids) := by
  induction ids with
  | nil => exact .pure _
  | cons id rest ih =>
    have hport : Reports may (interface id) :=
      .bind (reports_info id) fun info => (reports_use id).map _
    exact .bind hport fun first => ih.map _

/-- The first body reports what the bodies report. -/
theorem reports_firstBody (op : Op) {bodies : List (Emission (List Stmt))}
    (hbodies : ∀ body ∈ bodies, Reports may body) : Reports may (firstBody op bodies) := by
  unfold firstBody
  split
  · exact hbodies _ (List.mem_cons_self ..)
  · exact .none fun _ _ => rfl

/-- The second body reports what the bodies report. -/
theorem reports_secondBody {bodies : List (Emission (List Stmt))}
    (hbodies : ∀ body ∈ bodies, Reports may body) : Reports may (secondBody bodies) := by
  unfold secondBody
  split
  · next first second rest => exact (hbodies second (by simp)).map _
  · exact .pure _

/-! ## Writing -/

section Writing

variable (hwriting : may .writing)

include hwriting

/-! ### Mentions -/

/-- The type of a value reports problems of writing. -/
theorem reports_typeOf (op : Option Op) (id : ValueId) : Reports may (typeOf op id) := by
  refine .bind (reports_info id) fun info => ?_
  dsimp only
  split
  · exact .bind (reports_raise op hwriting) fun _ => .pure _
  · exact .pure _

/-- A mention of a value reports problems of writing. -/
theorem reports_mentionAs (pointer : Bool) (op : Option Op) (id : ValueId) :
    Reports may (mentionAs pointer op id) := by
  refine .bind (reports_isBound id) fun bound => ?_
  split
  · exact (reports_use id).map _
  refine .bind (reports_typeOf hwriting op id) fun type => ?_
  refine .bind (reports_declare id pointer) fun name => ?_
  split
  · exact .pure _
  · exact .bind (reports_raise op hwriting) fun _ => (reports_use id).map _

/-- An operand reports problems of writing. -/
theorem reports_operand (op : Op) (id : ValueId) : Reports may (operand op id) :=
  (reports_mentionAs hwriting false (some op) id).map _

/-- An element reports problems of writing. -/
theorem reports_element (op : Op) (rank : Nat) (id : ValueId) : Reports may (element op rank id) :=
  (reports_operand hwriting op id).map _

/-- Operands report problems of writing. -/
theorem reports_operands (op : Op) (ids : List ValueId) : Reports may (operands op ids) := by
  induction ids with
  | nil => exact .pure _
  | cons id rest ih => exact .bind (reports_operand hwriting op id) fun first => ih.map _

/-- The declarator of an array reports problems of writing. -/
theorem reports_arrayDeclarator (op : Option Op) (id : ValueId) :
    Reports may (arrayDeclarator op id) := by
  refine .bind (reports_info id) fun info => ?_
  split
  · exact (reports_mentionAs hwriting false op id).map _
  · refine .bind (reports_raise op hwriting) fun _ => ?_
    exact (reports_mentionAs hwriting true op id).map _

/-- A declarator reports problems of writing. -/
theorem reports_declarator (op : Option Op) (id : ValueId) : Reports may (declarator op id) := by
  refine .bind (reports_info id) fun info => ?_
  split
  · exact reports_arrayDeclarator hwriting op id
  · exact (reports_mentionAs hwriting false op id).map _

/-- Declarations in front report problems of writing. -/
theorem reports_predeclare (op : Op) (ids : List ValueId) : Reports may (predeclare op ids) := by
  induction ids with
  | nil => exact .pure _
  | cons id rest ih =>
    refine .bind (reports_isBound id) fun bound => ?_
    split
    · exact ih
    · exact .bind (reports_declarator hwriting (some op) id) fun first => ih.map _

/-! ### Terms and places -/

/-- A term reports problems of writing. -/
theorem reports_term (op : Op) (term : Term) : Reports may (Emission.term op term) := by
  cases term with
  | value id => exact reports_operand hwriting op id
  | code code => exact .pure _
  | affine function values => exact (reports_affineCodes values).map _

/-- Terms report problems of writing. -/
theorem reports_terms (op : Op) (terms : List Term) : Reports may (Emission.terms op terms) := by
  induction terms with
  | nil => exact .pure _
  | cons term rest ih => exact .bind (reports_term hwriting op term) fun first => ih.map _

/-- A place reports problems of writing. -/
theorem reports_place (op : Op) (place : Place) : Reports may (Emission.place op place) :=
  .bind (reports_term hwriting op place.base) fun _ =>
    (reports_terms hwriting op place.subscripts).map _

/-! ### Elementwise statements -/

/-- The extents of generated loops report problems of writing. -/
theorem reports_loopExtents (op : Op) (target : ValueId) :
    Reports may (loopExtents op target) := by
  refine .bind (reports_info target) fun info => ?_
  split
  · exact .pure _
  split
  · exact .bind (reports_raise (some op) hwriting) fun _ => .pure _
  refine .bind (reports_isBound target) fun bound => ?_
  split
  · exact .pure _
  · exact (reports_arrayDeclarator hwriting (some op) target).map _

/-- Generated loops report problems of writing. -/
theorem reports_elementwise (op : Op) (target : ValueId) {statement : Nat → Emission Stmt}
    (hstatement : ∀ rank, Reports may (statement rank)) :
    Reports may (elementwise op target statement) :=
  .bind (reports_loopExtents hwriting op target) fun _ => (hstatement _).map _

/-- A formula reports problems of writing. -/
theorem reports_formula (op : Op) (rank : Nat) (formula : Formula) :
    Reports may (Emission.formula op rank formula) := by
  have helement (rank : Nat) (id : ValueId) := reports_element hwriting op rank id
  cases formula with
  | copy source => exact helement rank source
  | binary operator lhs rhs => exact .bind (helement rank lhs) fun left => (helement rank rhs).map _
  | function head operand => exact (helement rank operand).map _
  | select condition onTrue onFalse =>
    refine .bind (reports_info condition) fun info => ?_
    refine .bind (helement _ condition) fun code => ?_
    exact .bind (helement rank onTrue) fun onTrue => (helement rank onFalse).map _

/-- An elementwise computation reports problems of writing. -/
theorem reports_compute (op : Op) (target : ValueId) (formula : Formula) :
    Reports may (compute op target formula) := by
  refine reports_elementwise hwriting op target fun rank => ?_
  refine .bind (reports_element hwriting op rank target) fun left => ?_
  exact (reports_formula hwriting op rank formula).map _

/-- A reduction step reports problems of writing. -/
theorem reports_combine (op : Op) (kind : ReductionKind) (target source : ValueId) :
    Reports may (combine op kind target source) := by
  refine reports_elementwise hwriting op target fun rank => ?_
  have htarget := reports_element hwriting op rank target
  have hsource := reports_element hwriting op rank source
  refine .bind htarget fun left => ?_
  cases kind with
  | add | assign | multiply => exact hsource.map _
  | max | min => exact .bind htarget fun again => hsource.map _

/-! ### Yields -/

/-- Values that are yielded report problems of writing. -/
theorem reports_yielded (op : Op) (results : List ValueId) : Reports may (yielded op results) := by
  unfold yielded
  split
  · exact .bind (reports_raise (some op) hwriting) fun _ => .pure _
  · exact .pure _

/-- Copies of what is yielded report problems of writing. -/
theorem reports_computeEach (op : Op) (pairs : List (ValueId × ValueId)) :
    Reports may (computeEach op pairs) := by
  induction pairs with
  | nil => exact .pure _
  | cons pair rest ih => exact .bind (reports_compute hwriting op _ _) fun first => ih.map _

/-- Reduction steps report problems of writing. -/
theorem reports_combineEach (op owner : Op) (result : Nat) (pairs : List (ValueId × ValueId)) :
    Reports may (combineEach op owner result pairs) := by
  induction pairs generalizing result with
  | nil => exact .pure _
  | cons pair rest ih =>
    unfold combineEach
    split
    · exact .bind (reports_combine hwriting op _ _ _) fun first => (ih _).map _
    · refine .bind (reports_raise (some owner) hwriting) fun _ => ?_
      exact .bind (.pure _) fun first => (ih _).map _

/-- The guard of the first iteration reports problems of writing. -/
theorem reports_allZero (op : Op) (indices : List ValueId) : Reports may (allZero op indices) :=
  (reports_operands hwriting op indices).map _

/-- A reduction reports problems of writing. -/
theorem reports_reduce (op owner : Op) : Reports may (reduce op owner) := by
  refine .bind (reports_yielded hwriting op owner.results) fun pairs => ?_
  refine .bind (reports_regionArgs owner) fun indices => ?_
  refine .bind (reports_allZero hwriting op indices) fun condition => ?_
  refine .bind (reports_computeEach hwriting op pairs) fun onFirst => ?_
  exact (reports_combineEach hwriting op owner 0 pairs).map _

/-! ### Loops and calls -/

/-- The head of a loop reports problems of writing. -/
theorem reports_loopHead (op : Op) (index : ValueId) (lower upper step : Term) :
    Reports may (loopHead op index lower upper step) := by
  have hindex := reports_operand hwriting op index
  refine .bind hindex fun start => ?_
  refine .bind (reports_term hwriting op lower) fun lower => ?_
  refine .bind hindex fun test => ?_
  refine .bind (reports_term hwriting op upper) fun upper => ?_
  exact .bind hindex fun advance => (reports_term hwriting op step).map _

/-- The heads of a nest report problems of writing. -/
theorem reports_nestHeads (op : Op) (loops : List NestLoop) :
    Reports may (nestHeads op loops) := by
  induction loops with
  | nil => exact .pure _
  | cons loop rest ih =>
    have hhead : Reports may (nestHead op loop) :=
      .bind (reports_affineCode loop.lower) fun lower =>
        .bind (reports_affineCode loop.upper) fun upper => reports_loopHead hwriting op _ _ _ _
    exact .bind hhead fun first => ih.map _

/-- References report problems of writing. -/
theorem reports_references (op : Op) (ids : List ValueId) : Reports may (references op ids) := by
  induction ids with
  | nil => exact .pure _
  | cons id rest ih =>
    refine .bind (reports_info id) fun info => ?_
    exact .bind (reports_operand hwriting op id) fun name => ih.map _

/-- Sharing a name reports problems of writing. -/
theorem reports_share (op : Op) (existing fresh : ValueId) :
    Reports may (share op existing fresh) := by
  refine .bind (.none fun scope t => ?_) fun failure => ?_
  · unfold run
    dsimp only
    split <;> rfl
  · split
    · exact .pure _
    · exact reports_raise (some op) hwriting

/-! ### Pragmas -/

/-- The pragmas of an array report problems of writing. -/
theorem reports_arrayPragmas (op : Option Op) (id : ValueId) :
    Reports may (arrayPragmas op id) := by
  refine .bind (reports_info id) fun info => ?_
  split
  · exact .pure _
  refine .bind (reports_use id) fun array => ?_
  dsimp only
  split
  · exact .bind (reports_raise op hwriting) fun _ => .pure _
  · exact .pure _

/-- The pragmas of ports report problems of writing. -/
theorem reports_portArrayPragmas (ids : List ValueId) : Reports may (portArrayPragmas ids) := by
  induction ids with
  | nil => exact .pure _
  | cons id rest ih =>
    refine .bind (reports_info id) fun info => ?_
    split
    · exact .bind (reports_arrayPragmas hwriting none id) fun first => ih.map _
    · exact .bind (.pure _) fun first => ih.map _

/-- The pragmas of a function report problems of writing. -/
theorem reports_functionPragmas (attrs : FuncAttrs) (ports : List ValueId) :
    Reports may (functionPragmas attrs ports) := by
  unfold functionPragmas
  dsimp only
  split
  · exact .pure _
  · refine .bind (reports_interfaces ports) fun interfaces => ?_
    exact (reports_portArrayPragmas hwriting ports).map _

/-! ### Plans -/

/-- Carrying out a plan reports problems of writing, apart from what its regions report. -/
theorem reports_render (op : Op) {bodies : List (Emission (List Stmt))}
    (hbodies : ∀ body ∈ bodies, Reports may body) (plan : Plan) :
    Reports may (render op bodies plan) := by
  -- One case for each plan, along the parts that it writes.
  cases plan with
  | nothing | accelerator operands lines => exact .pure _
  | compute target source => exact reports_compute hwriting op target source
  | assign target source =>
    refine .bind (reports_place hwriting op target) fun target => ?_
    exact (reports_place hwriting op source).map _
  | allocate array =>
    refine .bind (reports_arrayDeclarator hwriting (some op) array) fun declarator => ?_
    exact (reports_arrayPragmas hwriting (some op) array).map _
  | define array elements => exact (reports_arrayDeclarator hwriting (some op) array).map _
  | share source result =>
    refine .bind (reports_share hwriting op source result) fun _ => ?_
    exact reports_arrayPragmas hwriting (some op) result
  | call callee =>
    refine .bind (reports_predeclare hwriting op op.results) fun declarations => ?_
    refine .bind (reports_operands hwriting op op.operands) fun args => ?_
    exact (reports_references hwriting op op.results).map _
  | blockCall name => exact (reports_operands hwriting op op.operands).map _
  | loop index lower upper step =>
    refine .bind (reports_loopHead hwriting op index lower upper step) fun head => ?_
    exact (reports_firstBody op hbodies).map _
  | branch condition =>
    refine .bind (reports_predeclare hwriting op op.results) fun declarations => ?_
    refine .bind (reports_term hwriting op condition) fun condition => ?_
    refine .bind (reports_firstBody op hbodies) fun onTrue => ?_
    exact (reports_secondBody hbodies).map _
  | nest loops =>
    refine .bind (reports_predeclare hwriting op op.results) fun declarations => ?_
    refine .bind (reports_nestHeads hwriting op loops) fun heads => ?_
    exact (reports_firstBody op hbodies).map _
  | deliver results =>
    exact .bind (reports_yielded hwriting op results) fun pairs =>
      reports_computeEach hwriting op pairs
  | reduce owner => exact reports_reduce hwriting op owner

end Writing

/-! ## Operations -/

/-- Operations may lack operands, results or regions only if that may be reported. -/
def Lacking (may : Stage → Prop) (ops : List Op) : Prop :=
  ∀ op ∈ ops, op.counts.covers op.kind.needs = false → may .counting

/-- An operation reports what it lacks and problems of admission and of writing, apart from what its
regions report. -/
theorem reports_operation (hadmission : may .admission) (hwriting : may .writing)
    (owner : Option Op) (op : Op) {bodies : List (Emission (List Stmt))}
    (hcounting : op.counts.covers op.kind.needs = false → may .counting)
    (hbodies : ∀ body ∈ bodies, Reports may body) : Reports may (operation owner op bodies) := by
  refine .bind (.none fun _ _ => rfl) fun _ => ?_
  intro scope t
  rw [bind_of_quiet (inspect_apply _ _)]
  -- Counting comes first, then admission, and writing only of a plan that is admitted.
  cases hcovers : op.counts.covers op.kind.needs with
  | false =>
    rw [Op.plan_of_lacking owner hcovers]
    exact Reports.bind (reports_raise (some op) (hcounting hcovers)) (fun _ => .pure _) scope t
  | true =>
    have hchecks : Checks (op.plan scope.values t owner) := op.plan_checks owner hcovers
    cases hplan : op.plan scope.values t owner with
    | ok plan => exact reports_render hwriting op hbodies plan scope t
    | error obstacle =>
      rw [hplan] at hchecks
      cases obstacle with
      | problem p =>
        have hstage : p.stage = .admission := hchecks
        have hmay : may p.stage := by rwa [hstage]
        exact Reports.bind (reports_raise (some op) hmay) (fun _ => .pure _) scope t
      | overrun missing => exact Reports.bind (.none fun _ _ => rfl) (fun _ => .pure _) scope t

mutual

/-- An operation with everything inside of it. -/
theorem reports_ofOp (hadmission : may .admission) (hwriting : may .writing)
    (owner : Option Op) : (op : Op) → Lacking may op.within → Reports may (ofOp owner op)
  | ⟨kind, operands, results, attrs, regions, line⟩, hlacking => by
    rw [Op.within, Lacking, List.forall_mem_cons] at hlacking
    rw [ofOp]
    exact reports_operation hadmission hwriting owner _ hlacking.1
      (reports_ofRegions hadmission hwriting _ regions hlacking.2)

/-- Each region of an operation. -/
theorem reports_ofRegions (hadmission : may .admission) (hwriting : may .writing) (owner : Op) :
    (regions : List (BlockOf Op)) → Lacking may (withinBlocks regions) →
    ∀ body ∈ ofRegions owner regions, Reports may body
  | [], _ => by simp [ofRegions]
  | region :: rest, hlacking => by
    rw [withinBlocks, Lacking, List.forall_mem_append] at hlacking
    simp only [ofRegions, List.forall_mem_cons]
    exact ⟨reports_ofBlock hadmission hwriting (some owner) region hlacking.1,
      reports_ofRegions hadmission hwriting owner rest hlacking.2⟩

/-- A block. -/
theorem reports_ofBlock (hadmission : may .admission) (hwriting : may .writing)
    (owner : Option Op) : (block : BlockOf Op) → Lacking may (withinBlock block) →
    Reports may (ofBlock owner block)
  | ⟨_, ops⟩, hlacking => reports_ofOps hadmission hwriting owner ops hlacking

/-- Some operations with everything inside of them. -/
theorem reports_ofOps (hadmission : may .admission) (hwriting : may .writing)
    (owner : Option Op) : (ops : List Op) → Lacking may (withinOps ops) →
    Reports may (ofOps owner ops)
  | [], _ => .pure _
  | op :: rest, hlacking => by
    rw [withinOps, Lacking, List.forall_mem_append] at hlacking
    exact .bind (reports_ofOp hadmission hwriting owner op hlacking.1) fun _ =>
      (reports_ofOps hadmission hwriting owner rest hlacking.2).map _

end

/-! ## Functions -/

section Functions

variable (hfunction : may .function) (hsignature : may .signature)
variable (hadmission : may .admission) (hwriting : may .writing)

/-- Inside of a function. -/
theorem Reports.inFunction {e : Emission α} (name : String) (he : Reports may e) :
    Reports may (inFunction name e) :=
  fun scope t => he { scope with function := some name } t

include hwriting in
/-- Arguments report problems of writing. -/
theorem reports_arguments (args : List ValueId) : Reports may (arguments args) := by
  induction args with
  | nil => exact .pure _
  | cons arg rest ih => exact .bind (reports_declarator hwriting none arg) fun first => ih.map _

include hsignature hwriting in
/-- A value that is returned reports problems of writing. -/
theorem reports_returned (ret : Op) (id : ValueId) : Reports may (returned ret id) := by
  refine .bind (reports_isBound id) fun bound => ?_
  split
  · refine .bind (reports_raise (some ret) hsignature) fun _ => ?_
    exact (reports_mentionAs hwriting false (some ret) id).map _
  · refine .bind (reports_info id) fun info => ?_
    split
    · exact reports_arrayDeclarator hwriting (some ret) id
    · exact (reports_mentionAs hwriting true (some ret) id).map _

include hsignature hwriting in
/-- Results report problems of writing. -/
theorem reports_results (ret : Option Op) : Reports may (results ret) := by
  have hall (ret : Op) (ids : List ValueId) : Reports may (returnedAll ret ids) := by
    induction ids with
    | nil => exact .pure _
    | cons id rest ih =>
      exact .bind (reports_returned hsignature hwriting ret id) fun first => ih.map _
  cases ret with
  | none => exact .pure _
  | some ret => exact hall ret ret.operands

include hfunction in
/-- Faults in the structure of a function are its problems. -/
theorem reports_checkStructure (function : Function) : Reports may (checkStructure function) := by
  have hreturns : Reports may (if 1 < function.returnCount then
      raise none (.returnCount function.returnCount) else Pure.pure ()) := by
    split
    · exact reports_raise none hfunction
    · exact .pure _
  unfold checkStructure
  dsimp only
  split
  · exact .bind (reports_raise none hfunction) fun _ => hreturns
  · exact hreturns

include hfunction in
/-- A missing return is a problem of the function. -/
theorem reports_returnOp? (function : Function) : Reports may (returnOp? function) := by
  unfold returnOp?
  dsimp only
  split
  · exact .bind (reports_raise none hfunction) fun _ => .pure _
  · exact .pure _

include hadmission hwriting in
/-- A body reports what its operations may. -/
theorem reports_body (blocks : List Block) (hlacking : Lacking may (withinBlocks blocks)) :
    Reports may (body blocks) := by
  cases blocks with
  | nil => exact .pure _
  | cons block rest =>
    rw [withinBlocks, Lacking, List.forall_mem_append] at hlacking
    exact reports_ofBlock hadmission hwriting none block hlacking.1

include hfunction hsignature hadmission hwriting

/-- A function, its signature and its pragmas included. -/
theorem reports_function (function : Function)
    (hlacking : Lacking may (withinBlocks function.blocks)) :
    Reports may (Emission.function function) := by
  refine .inFunction function.name ?_
  refine .bind (reports_checkStructure hfunction function) fun _ => ?_
  refine .bind (reports_arguments hwriting function.args) fun arguments => ?_
  refine .bind (reports_returnOp? hfunction function) fun ret => ?_
  refine .bind (reports_results hsignature hwriting ret) fun results => ?_
  refine .bind (reports_functionPragmas hwriting _ _) fun pragmas => ?_
  exact (reports_body hadmission hwriting function.blocks hlacking).map _

/-- Missing values are not reported by the emission of functions. -/
theorem reports_functions (functions : List Function)
    (hlacking : ∀ function ∈ functions, Lacking may (withinBlocks function.blocks)) :
    Reports may (Emission.functions functions) := by
  induction functions with
  | nil => exact .pure _
  | cons function rest ih =>
    rw [List.forall_mem_cons] at hlacking
    refine .bind (reports_function hfunction hsignature hadmission hwriting function hlacking.1)
      fun code => ?_
    exact (ih hlacking.2).map _

end Functions

end HlsEmit.Emission
