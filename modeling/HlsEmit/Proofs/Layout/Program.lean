import Mathlib.Data.List.Forall2
import HlsEmit.Emission.Program
import HlsEmit.Proofs.Account.Operation
import HlsEmit.Proofs.Layout.Admission

/-!
# The layout of functions and programs

Every operation leaves tidy statements behind: an admitted one those of its plan, a rejected one
none. So do blocks and functions, by induction on the operations.

## Key results

- `ensures_ofOps`: some operations with everything inside of them
- `ensures_functions`: functions, in the order in which they are declared
-/

namespace HlsEmit

open Code

/-- The names that some operations are written with are plain. -/
def NamesPlain (ops : List Op) : Prop :=
  ∀ op ∈ ops, ∀ name ∈ op.kind.called?, PlainName name

instance (ops : List Op) : Decidable (NamesPlain ops) :=
  inferInstanceAs (Decidable (∀ op ∈ ops, ∀ name ∈ op.kind.called?, PlainName name))

/-- The names of two lists are plain if those of each are. -/
theorem namesPlain_append {ops ops' : List Op} :
    NamesPlain (ops ++ ops') ↔ NamesPlain ops ∧ NamesPlain ops' :=
  List.forall_mem_append

namespace Emission

variable {arena : Arena} {strays : Prop}

/-! ## Operations -/

/-- An operation whose regions are tidy. A call of an accelerator has its turn before its lines are
filled in, and its lines can only be stray if the turn was. -/
theorem ensures_operation (owner : Option Op) (op : Op) {bodies : List (Emission (List Stmt))}
    (hnames : ∀ name ∈ op.kind.called?, PlainName name)
    (hbodies : ∀ body ∈ bodies, Ensures arena strays (StmtsTidy strays) body) :
    Ensures arena strays (StmtsTidy strays) (operation owner op bodies) := by
  intro function t ht hturns
  rw [operation_run, bind_apply, dispatch_apply, Outcome.andThen, List.singleton_append,
    List.forall_mem_cons] at hturns
  rw [operation_run, bind_apply, dispatch_apply, Outcome.andThen]
  obtain ⟨hturn, hturns⟩ := hturns
  have hplan := op.plan_tidy hnames hturn
  -- The turn that was dispatched carries the condition on stray lines to the plan.
  suffices hcarry : Ensures arena strays (StmtsTidy strays) (carryOut op bodies (op.plan arena t owner)) by
    exact hcarry function t ht hturns
  cases hadmitted : op.plan arena t owner with
  | ok plan =>
    rw [hadmitted] at hplan
    exact ensures_render hbodies op hplan
  | error obstacle =>
    cases obstacle with
    | problem problem => exact .bind (ensures_raise (some op) problem) fun _ _ => .pure trivial
    | overrun missing => exact .bind (ensures_overrun missing) fun _ _ => .pure trivial

mutual

/-- An operation with everything inside of it. -/
theorem ensures_ofOp (owner : Option Op) : (op : Op) → NamesPlain op.within →
    Ensures arena strays (StmtsTidy strays) (ofOp owner op)
  | ⟨kind, operands, results, attrs, regions, line⟩, hnames => by
    rw [Op.within, NamesPlain, List.forall_mem_cons] at hnames
    rw [ofOp]
    exact ensures_operation owner _ hnames.1 (ensures_ofRegions _ regions hnames.2)

/-- The bodies of regions are tidy. -/
theorem ensures_ofRegions (owner : Op) : (regions : List (BlockOf Op)) →
    NamesPlain (withinBlocks regions) →
    ∀ body ∈ ofRegions owner regions, Ensures arena strays (StmtsTidy strays) body
  | [], _ => List.forall_mem_nil _
  | region :: rest, hnames => by
    rw [withinBlocks, namesPlain_append] at hnames
    rw [ofRegions]
    exact List.forall_mem_cons.2
      ⟨ensures_ofBlock (some owner) region hnames.1, ensures_ofRegions owner rest hnames.2⟩

/-- The statements of a block are tidy. -/
theorem ensures_ofBlock (owner : Option Op) : (block : BlockOf Op) → NamesPlain (withinBlock block) →
    Ensures arena strays (StmtsTidy strays) (ofBlock owner block)
  | ⟨_, ops⟩, hnames => ensures_ofOps owner ops hnames

/-- Some operations with everything inside of them. -/
theorem ensures_ofOps (owner : Option Op) : (ops : List Op) → NamesPlain (withinOps ops) →
    Ensures arena strays (StmtsTidy strays) (ofOps owner ops)
  | [], _ => .pure trivial
  | op :: rest, hnames => by
    rw [withinOps, namesPlain_append] at hnames
    rw [ofOps]
    refine .bind (ensures_ofOp owner op hnames.1) fun first hfirst => ?_
    refine .bind (ensures_ofOps owner rest hnames.2) fun others hothers => .pure ?_
    exact stmtsTidy_append.2 ⟨hfirst, hothers⟩

end

/-! ## Signatures -/

/-- The arguments of a signature begin well. -/
theorem ensures_arguments (args : List ValueId) :
    Ensures arena strays (fun ports => ∀ port ∈ ports, Begins port.text) (arguments args) := by
  induction args with
  | nil => exact .pure (List.forall_mem_nil _)
  | cons arg rest ih =>
    refine .bind (ensures_declarator none arg) fun first hfirst => .bind ih fun others hothers => .pure ?_
    exact List.forall_mem_cons.2 ⟨hfirst, hothers⟩

/-- A returned value begins well. -/
theorem ensures_returned (ret : Op) (id : ValueId) :
    Ensures arena strays (fun port => Begins port.text) (returned ret id) := by
  refine .bind (ensures_isBound id) fun bound _ => ?_
  split
  · refine .bind (ensures_raise _ _) fun _ _ => ?_
    exact .bind (ensures_mention _ id) fun _ hmention => .pure (begins_declarator hmention [])
  · refine .bind (ensures_info id) fun info _ => ?_
    split
    · exact ensures_arrayDeclarator _ id
    · exact .bind (ensures_pointerMention _ id) fun _ hmention => .pure (begins_declarator hmention [])

/-- The returned values begin well. -/
theorem ensures_returnedAll (ret : Op) (ids : List ValueId) :
    Ensures arena strays (fun ports => ∀ port ∈ ports, Begins port.text) (returnedAll ret ids) := by
  induction ids with
  | nil => exact .pure (List.forall_mem_nil _)
  | cons id rest ih =>
    refine .bind (ensures_returned ret id) fun first hfirst => .bind ih fun others hothers => .pure ?_
    exact List.forall_mem_cons.2 ⟨hfirst, hothers⟩

/-- The results of a signature begin well. -/
theorem ensures_results (ret : Option Op) :
    Ensures arena strays (fun ports => ∀ port ∈ ports, Begins port.text) (results ret) := by
  cases ret with
  | none => exact .pure (List.forall_mem_nil _)
  | some ret => exact ensures_returnedAll ret ret.operands

/-! ## Functions -/

/-- The check of the structure changes no name. -/
theorem ensures_checkStructure (function : Function) :
    Ensures arena strays (fun _ => True) (checkStructure function) := by
  have hreturns : Ensures arena strays (fun _ => True) (if 1 < function.returnCount then
      raise none (.returnCount function.returnCount) else pure ()) := by
    split
    · exact ensures_raise _ _
    · exact .pure trivial
  unfold checkStructure
  dsimp only
  split
  · exact .bind (ensures_raise _ _) fun _ _ => hreturns
  · exact hreturns

/-- Looking for the return changes no name. -/
theorem ensures_returnOp? (function : Function) :
    Ensures arena strays (fun _ => True) (returnOp? function) := by
  unfold returnOp?
  dsimp only
  split
  · exact .bind (ensures_raise _ _) fun _ _ => .pure trivial
  · exact .pure trivial

/-- The body of a function is tidy. -/
theorem ensures_body (blocks : List Block) (hnames : NamesPlain (withinBlocks blocks)) :
    Ensures arena strays (StmtsTidy strays) (body blocks) := by
  cases blocks with
  | nil => exact .pure trivial
  | cons block rest =>
    rw [withinBlocks, namesPlain_append] at hnames
    exact ensures_ofBlock none block hnames.1

/-- The remarks of a function are plain. -/
theorem FuncAttrs.plain_remarks (attrs : FuncAttrs) : ∀ remark ∈ attrs.remarks, Plain remark := by
  unfold FuncAttrs.remarks
  rw [List.forall_mem_append, List.forall_mem_append]
  refine ⟨⟨?_, ?_⟩, ?_⟩
  · split
    · exact List.forall_mem_singleton.2 (by decide)
    · exact List.forall_mem_nil _
  · intro remark hremark
    obtain ⟨latency, -, rfl⟩ := Option.map_eq_some_iff.1 (Option.mem_toList.1 hremark)
    refine (Plain.append (by decide) (plain_int _)).append ?_
    split
    · exact Plain.append (by decide) (plain_int _)
    · decide
  · intro remark hremark
    obtain ⟨dsp, -, rfl⟩ := Option.map_eq_some_iff.1 (Option.mem_toList.1 hremark)
    exact Plain.append (by decide) (plain_int _)

/-- An emission that keeps its promise does so in every function. -/
theorem Ensures.inFunction {α : Type} {P : α → Prop} {e : Emission α} (name : String)
    (he : Ensures arena strays P e) : Ensures arena strays P (inFunction name e) :=
  fun _ t ht hturns => he (some name) t ht hturns

/-- The code of a function is tidy and has its name. -/
theorem ensures_function (function : Function) (hname : PlainName function.name)
    (hnames : NamesPlain (withinBlocks function.blocks)) :
    Ensures arena strays (fun code => code.Tidy strays ∧ code.name = function.name)
      (Emission.function function) := by
  refine .inFunction function.name ?_
  refine .bind (ensures_checkStructure function) fun _ _ => ?_
  refine .bind (ensures_arguments function.args) fun arguments harguments => ?_
  refine .bind (ensures_returnOp? function) fun ret _ => ?_
  refine .bind (ensures_results ret) fun results hresults => ?_
  refine .bind (ensures_functionPragmas _ _) fun pragmas hpragmas => ?_
  refine .bind (ensures_body function.blocks hnames) fun body hbody => .pure ⟨?_, rfl⟩
  exact {
    name := hname.plain
    remarks := FuncAttrs.plain_remarks function.attrs
    ports := List.forall_mem_append.2
      ⟨fun port hport => (harguments port hport).plain, fun port hport => (hresults port hport).plain⟩
    body := stmtsTidy_append.2 ⟨hpragmas, hbody⟩ }

/-- The functions of a program, in the order in which they are declared. -/
theorem ensures_functions (functions : List Function)
    (hname : ∀ function ∈ functions, PlainName function.name)
    (hnames : ∀ function ∈ functions, NamesPlain (withinBlocks function.blocks)) :
    Ensures arena strays
      (fun codes => List.Forall₂ (fun function code => code.Tidy strays ∧ code.name = function.name)
        functions codes)
      (Emission.functions functions) := by
  induction functions with
  | nil => exact .pure .nil
  | cons function rest ih =>
    rw [List.forall_mem_cons] at hname hnames
    refine .bind (ensures_function function hname.1 hnames.1) fun code hcode => ?_
    exact .bind (ih hname.2 hnames.2) fun codes hcodes => .pure (.cons hcode hcodes)

end Emission

end HlsEmit
