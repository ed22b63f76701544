import HlsEmit.Proofs.Account.Basic

/-!
# The account of mentions and elementwise loops

Mentions, declarations of arrays, and the loops over all elements of an array are accounted for.

## Key results

- `emits_declarator`: a declarator writes one mention
- `emits_elementwise`: loops over the elements of a target add at most the declaration of the target
-/

namespace HlsEmit.Emission

open Code

variable {c : Contract} {given : List Mention}

/-! ## Mentions -/

/-- The mention of a value. -/
theorem emits_mention (op : Option Op) {id : ValueId} (hid : c.values id) :
    Emits c [] (mention op id) fun m => [m] :=
  emits_mentionAs false op hid

/-- The mention of a returned scalar, which is declared as a pointer. -/
theorem emits_pointerMention (op : Option Op) {id : ValueId} (hid : c.values id) :
    Emits c [] (pointerMention op id) fun m => [m] :=
  emits_mentionAs true op hid

/-- An operand is written as its mention. -/
theorem emits_operand (op : Op) {id : ValueId} (hid : c.values id) :
    Emits c [] (operand op id) Expr.mentions := by
  refine .bindNew (emits_mention (some op) hid) fun m => ?_
  exact .pure (.refl _)

/-- An element of a value is written as its mention under counters. -/
theorem emits_element (op : Op) (rank : Nat) {id : ValueId} (hid : c.values id) :
    Emits c [] (element op rank id) Expr.mentions := by
  refine .bindNew (emits_operand op hid) fun code => ?_
  exact .pure (by simp)

/-- The operands of a call, from left to right. -/
theorem emits_operands (op : Op) {ids : List ValueId} (hids : ∀ id ∈ ids, c.values id) :
    Emits c [] (operands op ids) mentionsOfExprs := by
  induction ids with
  | nil => exact .pure (.refl _)
  | cons id rest ih =>
    rw [List.forall_mem_cons] at hids
    refine .bindNew (emits_operand op hids.1) fun first => ?_
    refine .bindNew (ih hids.2) fun rest => ?_
    exact .pure (.refl _)

/-! ## Declarators -/

/-- The declarator of an array is its mention. -/
theorem emits_arrayDeclarator (op : Option Op) {id : ValueId} (hid : c.values id) :
    Emits c [] (arrayDeclarator op id) Declarator.mentions := by
  refine .bindNew (emits_info hid) fun info => ?_
  split
  · refine .bindNew (emits_mention op hid) fun m => ?_
    exact .pure (.refl _)
  · refine .bindNew (emits_raise op (by simp)) fun _ => ?_
    refine .bindNew (emits_pointerMention op hid) fun m => ?_
    exact .pure (.refl _)

/-- The declarator of a value is its mention. -/
theorem emits_declarator (op : Option Op) {id : ValueId} (hid : c.values id) :
    Emits c [] (declarator op id) Declarator.mentions := by
  refine .bindNew (emits_info hid) fun info => ?_
  split
  · exact emits_arrayDeclarator op hid
  · refine .bindNew (emits_mention op hid) fun m => ?_
    exact .pure (.refl _)

/-- The declarations in front of a structured operation. -/
theorem emits_predeclare (op : Op) {ids : List ValueId} (hids : ∀ id ∈ ids, c.values id) :
    Emits c [] (predeclare op ids) mentionsOfStmts := by
  induction ids with
  | nil => exact .pure (.refl _)
  | cons id rest ih =>
    rw [List.forall_mem_cons] at hids
    refine .bindNew (emits_isBound hids.1) fun bound => ?_
    split
    · exact ih hids.2
    · refine .bindNew (emits_declarator (some op) hids.1) fun first => ?_
      refine .bindNew (ih hids.2) fun rest => ?_
      exact .pure (by simp [mentionsOfStmts, Stmt.mentions])

/-! ## Loops over the elements of an array -/

/-- Loops over counters mention what their body mentions. -/
@[simp] theorem mentionsOfStmts_counterLoops (body : List Stmt) (dim : Nat) (extents : List Int64) :
    mentionsOfStmts (counterLoops body dim extents) = mentionsOfStmts body := by
  induction extents generalizing dim with
  | nil => rfl
  | cons extent rest ih =>
    simp [counterLoops, mentionsOfStmts, Stmt.mentions, LoopHead.mentions, ih]

/-- The declaration of an array whose elements are computed. -/
theorem emits_loopExtents (op : Op) {target : ValueId} (hid : c.values target) :
    Emits c [] (loopExtents op target) fun loops => mentionsOfStmts loops.1 := by
  refine .bindNew (emits_info hid) fun info => ?_
  split
  · exact .pure (.refl _)
  · split
    · refine .bindNew (emits_raise (some op) (by simp)) fun _ => ?_
      exact .pure (.refl _)
    · refine .bindNew (emits_isBound hid) fun bound => ?_
      split
      · exact .pure (.refl _)
      · refine .bindNew (emits_arrayDeclarator (some op) hid) fun declarator => ?_
        exact .pure (by simp [mentionsOfStmts, Stmt.mentions])

/-- The statement for one element may be any emission that is accounted for. -/
theorem emits_elementwise (op : Op) {target : ValueId} {statement : Nat → Emission Stmt}
    (hid : c.values target) (hstatement : ∀ rank, Emits c [] (statement rank) Stmt.mentions) :
    Emits c [] (elementwise op target statement) mentionsOfStmts := by
  refine .bindNew (emits_loopExtents op hid) fun loops => ?_
  refine .bindNew (hstatement _) fun body => ?_
  exact .pure (by simp [mentionsOfStmts])

end HlsEmit.Emission
