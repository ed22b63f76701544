import HlsEmit.Emission.Values
import HlsEmit.Proofs.Lockstep.Basic

/-!
# Mentions, elementwise loops and pragmas in lockstep

## Key results

- `lockstep_declarator`, `lockstep_predeclare`: declarations
- `lockstep_elementwise`: loops over the elements of a target, given the statement for one element
- `lockstep_functionPragmas`: the first lines of a function body
-/

namespace HlsEmit.Emission

open Code

variable {c : Comparison} {op op' : Op} {op? op?' : Option Op}

/-! ## Mentions -/

/-- A mention goes in lockstep. -/
theorem lockstep_mention (h : OpAlike? c.exact op? op?') {id : ValueId} (hid : c.ids id) :
    Lockstep c Eq (mention op? id) (mention op?' id) :=
  lockstep_mentionAs false h hid

/-- The mention of a returned scalar goes in lockstep. -/
theorem lockstep_pointerMention (h : OpAlike? c.exact op? op?') {id : ValueId} (hid : c.ids id) :
    Lockstep c Eq (pointerMention op? id) (pointerMention op?' id) :=
  lockstep_mentionAs true h hid

/-- An operand goes in lockstep. -/
theorem lockstep_operand (h : op.Alike c.exact op') {id : ValueId} (hid : c.ids id) :
    Lockstep c Eq (operand op id) (operand op' id) :=
  .bindEq (lockstep_mention h.some hid) fun _ => .pure rfl

/-- An element goes in lockstep. -/
theorem lockstep_element (h : op.Alike c.exact op') (rank : Nat) {id : ValueId} (hid : c.ids id) :
    Lockstep c Eq (element op rank id) (element op' rank id) :=
  .bindEq (lockstep_operand h hid) fun _ => .pure rfl

/-- Operands go in lockstep. -/
theorem lockstep_operands (h : op.Alike c.exact op') {ids : List ValueId}
    (hids : ∀ id ∈ ids, c.ids id) : Lockstep c Eq (operands op ids) (operands op' ids) := by
  induction ids with
  | nil => exact .pure rfl
  | cons id rest ih =>
    rw [List.forall_mem_cons] at hids
    exact .bindEq (lockstep_operand h hids.1) fun first => .bindEq (ih hids.2) fun _ => .pure rfl

/-! ## Declarators -/

/-- The declarator of an array goes in lockstep. -/
theorem lockstep_arrayDeclarator (h : OpAlike? c.exact op? op?') {id : ValueId} (hid : c.ids id) :
    Lockstep c Eq (arrayDeclarator op? id) (arrayDeclarator op?' id) := by
  refine .bindEq (lockstep_info id) fun info => ?_
  split
  · exact .bindEq (lockstep_mention h hid) fun _ => .pure rfl
  · refine .bindEq (lockstep_raise h _) fun _ => ?_
    exact .bindEq (lockstep_pointerMention h hid) fun _ => .pure rfl

/-- The declarator of a value goes in lockstep. -/
theorem lockstep_declarator (h : OpAlike? c.exact op? op?') {id : ValueId} (hid : c.ids id) :
    Lockstep c Eq (declarator op? id) (declarator op?' id) := by
  refine .bindEq (lockstep_info id) fun info => ?_
  split
  · exact lockstep_arrayDeclarator h hid
  · exact .bindEq (lockstep_mention h hid) fun _ => .pure rfl

/-- The declarations in front of a structured operation go in lockstep. -/
theorem lockstep_predeclare (h : op.Alike c.exact op') {ids : List ValueId}
    (hids : ∀ id ∈ ids, c.ids id) : Lockstep c Eq (predeclare op ids) (predeclare op' ids) := by
  induction ids with
  | nil => exact .pure rfl
  | cons id rest ih =>
    rw [List.forall_mem_cons] at hids
    refine .bindEq (lockstep_isBound hids.1) fun bound => ?_
    split
    · exact ih hids.2
    · refine .bindEq (lockstep_declarator h.some hids.1) fun first => ?_
      exact .bindEq (ih hids.2) fun _ => .pure rfl

/-! ## Loops over the elements of an array -/

/-- Loops around alike statements are alike. -/
theorem alike_counterLoops {exact : Bool} {stmts stmts' : List Stmt}
    (h : StmtsAlike exact stmts stmts') (dim : Nat) (extents : List Int64) :
    StmtsAlike exact (counterLoops stmts dim extents) (counterLoops stmts' dim extents) := by
  refine h.map (fun stmts => Emission.counterLoops stmts dim extents) fun stmts stmts' hbare => ?_
  induction extents generalizing dim with
  | nil => exact hbare
  | cons extent rest ih => simp only [Emission.counterLoops, bareStmts, Stmt.bare, ih]

/-- The declaration of a computed array goes in lockstep. -/
theorem lockstep_loopExtents (h : op.Alike c.exact op') {target : ValueId} (hid : c.ids target) :
    Lockstep c Eq (loopExtents op target) (loopExtents op' target) := by
  refine .bindEq (lockstep_info target) fun info => ?_
  split
  · exact .pure rfl
  · split
    · exact .bindEq (lockstep_raise h.some _) fun _ => .pure rfl
    · refine .bindEq (lockstep_isBound hid) fun bound => ?_
      split
      · exact .pure rfl
      · exact .bindEq (lockstep_arrayDeclarator h.some hid) fun _ => .pure rfl

/-- One statement is alike as a list of statements. -/
def StmtAlike (exact : Bool) (stmt stmt' : Stmt) : Prop :=
  StmtsAlike exact [stmt] [stmt']

/-- The statements for one element are compared as they are inside of all loops. -/
theorem lockstep_elementwise (h : op.Alike c.exact op') {target : ValueId} (hid : c.ids target)
    {statement statement' : Nat → Emission Stmt}
    (hstatement : ∀ rank, Lockstep c (StmtAlike c.exact) (statement rank) (statement' rank)) :
    Lockstep c (StmtsAlike c.exact) (elementwise op target statement)
      (elementwise op' target statement') := by
  refine .bindEq (lockstep_loopExtents h hid) fun loops => ?_
  refine .bind (hstatement _) fun body body' hbody => .pure ?_
  exact .append bareStmts_append (.refl loops.1) (alike_counterLoops hbody 0 loops.2)

/-! ## Pragmas -/

/-- The pragmas of an array go in lockstep. -/
theorem lockstep_arrayPragmas (h : OpAlike? c.exact op? op?') {id : ValueId} (hid : c.ids id) :
    Lockstep c Eq (arrayPragmas op? id) (arrayPragmas op?' id) := by
  refine .bindEq (lockstep_info id) fun info => ?_
  split
  · exact .pure rfl
  · refine .bindEq (lockstep_use hid) fun array => ?_
    dsimp only
    split
    · exact .bindEq (lockstep_raise h _) fun _ => .pure rfl
    · exact .pure rfl

/-- The interface lines of ports go in lockstep. -/
theorem lockstep_interfaces {ids : List ValueId} (hids : ∀ id ∈ ids, c.ids id) :
    Lockstep c Eq (interfaces ids) (interfaces ids) := by
  induction ids with
  | nil => exact .pure rfl
  | cons id rest ih =>
    rw [List.forall_mem_cons] at hids
    have hfirst : Lockstep c Eq (interface id) (interface id) :=
      .bindEq (lockstep_info id) fun _ => .bindEq (lockstep_use hids.1) fun _ => .pure rfl
    exact .bindEq hfirst fun _ => .bindEq (ih hids.2) fun _ => .pure rfl

/-- The memory lines of the arrays among the ports go in lockstep. -/
theorem lockstep_portArrayPragmas {ids : List ValueId} (hids : ∀ id ∈ ids, c.ids id) :
    Lockstep c Eq (portArrayPragmas ids) (portArrayPragmas ids) := by
  induction ids with
  | nil => exact .pure rfl
  | cons id rest ih =>
    rw [List.forall_mem_cons] at hids
    have hrest (first : List Stmt) : Lockstep c Eq (portArrayPragmas rest >>= fun others =>
        Pure.pure (first ++ others)) (portArrayPragmas rest >>= fun others =>
        Pure.pure (first ++ others)) :=
      .bindEq (ih hids.2) fun _ => .pure rfl
    refine .bindEq (lockstep_info id) fun info => ?_
    split
    · exact .bindEq (lockstep_arrayPragmas (.refl none) hids.1) hrest
    · exact .bindEq (.pure rfl) hrest

/-- The first lines of a function body. -/
theorem lockstep_functionPragmas (attrs : FuncAttrs) {ports : List ValueId}
    (hports : ∀ id ∈ ports, c.ids id) :
    Lockstep c Eq (functionPragmas attrs ports) (functionPragmas attrs ports) := by
  unfold functionPragmas
  dsimp only
  split
  · exact .pure rfl
  · refine .bindEq (lockstep_interfaces hports) fun interfaces => ?_
    exact .bindEq (lockstep_portArrayPragmas hports) fun _ => .pure rfl

end HlsEmit.Emission
