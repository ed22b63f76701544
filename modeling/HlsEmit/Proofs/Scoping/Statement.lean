import HlsEmit.Proofs.Account.Operation
import HlsEmit.Proofs.Scoping.Basic

/-!
# Scopes of statements

The statements that define the results of an operation declare them in front of every loop and
branch that they open. Statements that only use values need no lemma of their own: what is known of
them from their account is enough.

## Key results

- `places_compute`: a target is declared before the loops over its elements
- `places_predeclare`: a line for each result that has no name yet
- `places_loopHead`, `places_nestHeads`: an index is declared in the head of its loop
-/

namespace HlsEmit

open Code

/-- Statements that stand in scope, behind which `results` are visible. -/
def Writes (arena : Arena) (results inside : List ValueId) (visible : List Name) (t : NameTable)
    (stmts : List Stmt) (t' : NameTable) : Prop :=
  StmtsScoped visible stmts ∧
    Defines arena results inside visible t (scopeAfter visible stmts) t'

namespace Writes

variable {arena : Arena} {results inside results' inside' : List ValueId} {visible : List Name}
variable {t t' t'' : NameTable} {stmts stmts' : List Stmt}

/-- No statements define nothing. -/
theorem nil : Writes arena [] [] visible t [] t :=
  ⟨trivial, .refl⟩

/-- Statements one behind the other define what both do. -/
theorem append (h : Writes arena results inside visible t stmts t')
    (h' : Writes arena results' inside' (scopeAfter visible stmts) t' stmts' t'')
    (hv : t.Valid arena) :
    Writes arena (results ++ results') (inside ++ inside') visible t (stmts ++ stmts') t'' := by
  refine ⟨stmtsScoped_append.2 ⟨h.1, h'.1⟩, ?_⟩
  rw [scopeAfter_append]
  exact h.2.trans h'.2 hv

/-- Statements that use placed values only, behind others. -/
theorem appendReads (h : Writes arena results inside visible t stmts t')
    (h' : ∀ m ∈ mentionsOfStmts stmts', m.Reads (scopeAfter visible stmts)) :
    Writes arena results inside visible t (stmts ++ stmts') t' := by
  obtain ⟨hscoped, hscope⟩ := stmtsScoped_of_reads stmts' h'
  refine ⟨stmtsScoped_append.2 ⟨h.1, hscoped⟩, ?_⟩
  rw [scopeAfter_append, hscope]
  exact h.2

/-- Statements that use placed values only. -/
theorem reads (h : ∀ m ∈ mentionsOfStmts stmts, m.Reads visible) :
    Writes arena [] [] visible t stmts t :=
  nil.appendReads h

/-- The order of the definitions does not matter, nor whether they are said to be inside. -/
theorem weaken (h : Writes arena results inside visible t stmts t')
    (hresults : ∀ id ∈ results', id ∈ results)
    (hinside : ∀ id, id ∈ results ∨ id ∈ inside → id ∈ results' ∨ id ∈ inside') :
    Writes arena results' inside' visible t stmts t' :=
  ⟨h.1, h.2.weaken hresults hinside⟩

/-- A declaration on a line of its own. -/
theorem declaration {declarator : Declarator} {note : Option Note}
    (h : declarator.mention.Scoped visible ∧
      Defines arena results inside visible t (declarator.mention.introduces ++ visible) t') :
    Writes arena results inside visible t [.declaration declarator note] t' :=
  ⟨⟨h.1, trivial⟩, h.2⟩

end Writes

namespace Emission

variable {c : Contract} {function : Option String} {visible : List Name} {t : NameTable}

/-! ## Declarations -/

/-- The declarator of an array places it. -/
theorem places_arrayDeclarator (op : Option Op) {id : ValueId} (hid : c.values id)
    (hready : c.arena.Ready visible t id) :
    Places c function t (arrayDeclarator op id) fun declarator t' =>
      declarator.mention.Scoped visible ∧
        Defines c.arena [id] [] visible t (declarator.mention.introduces ++ visible) t' := by
  refine .bindQuiet (info_apply (c.known id hid)) ?_
  split
  · refine .bind ((places_mentionAs false op hid hready).mono fun m t' hm => ?_)
    exact .pure hm
  · exact .bindError rfl

/-- The declarator of a value places it. -/
theorem places_declarator (op : Option Op) {id : ValueId} (hid : c.values id)
    (hready : c.arena.Ready visible t id) :
    Places c function t (declarator op id) fun declarator t' =>
      declarator.mention.Scoped visible ∧
        Defines c.arena [id] [] visible t (declarator.mention.introduces ++ visible) t' := by
  refine .bindQuiet (info_apply (c.known id hid)) ?_
  split
  · exact places_arrayDeclarator op hid hready
  · refine .bind ((places_mentionAs false op hid hready).mono fun m t' hm => ?_)
    exact .pure hm

/-- A line for each value that has no name yet. -/
theorem places_predeclare (op : Op) {ids : List ValueId} (hv : t.Valid c.arena)
    (hids : ∀ id ∈ ids, c.values id ∧ c.arena.Ready visible t id) :
    Places c function t (predeclare op ids) (Writes c.arena ids [] visible t) := by
  induction ids generalizing visible t with
  | nil => exact .pure .nil
  | cons id rest ih =>
    rw [List.forall_mem_cons] at hids
    obtain ⟨⟨hid, hready⟩, hrest⟩ := hids
    refine .bindQuiet (isBound_apply (c.known id hid)) ?_
    -- A value that has a name is skipped; it is placed already.
    split
    · next hbound =>
      refine (ih hv hrest).mono fun stmts t' hwrites => ⟨hwrites.1, ?_⟩
      have hplaced : c.arena.Placed visible t id := hready hbound
      refine ⟨?_, hwrites.2.visible, ?_⟩
      · exact hwrites.2.grows.mono fun id' hid' => hid'.imp_left (List.mem_cons_of_mem _)
      · rw [List.forall_mem_cons]
        exact ⟨hwrites.2.placed_of hv hplaced, hwrites.2.placed⟩
    · refine .bind ((places_declarator (some op) hid hready).mono fun first t₁ hfirst => ?_)
      have hwrites : Writes c.arena [id] [] visible t [.declaration first none] t₁ :=
        .declaration hfirst
      have hrest₁ : ∀ id ∈ rest, c.values id ∧
          c.arena.Ready (scopeAfter visible [.declaration first none]) t₁ id := by
        intro id hid
        exact ⟨(hrest id hid).1, hwrites.2.ready_of hv (hrest id hid).2 (by simp)⟩
      refine .bind ((ih (hwrites.2.valid hv) hrest₁).mono fun stmts t₂ hstmts => ?_)
      exact .pure (hwrites.append hstmts hv)

/-! ## Elementwise statements -/

/-- What is placed stays so while further values are named. -/
theorem among_of_defines {ids results inside : List ValueId} {visible' : List Name}
    {t' : NameTable} (hids : ∀ id ∈ ids, c.values id ∧ c.arena.Placed visible t id)
    (hv : t.Valid c.arena) (h : Defines c.arena results inside visible t visible' t') :
    ∀ id ∈ ids, (c.among (c.arena.Placed visible' t')).values id :=
  fun id hid => ⟨(hids id hid).1, h.placed_of hv (hids id hid).2⟩

/-- The same for code that does not see the new names yet. -/
theorem among_of_grows {ids : List ValueId} {P : ValueId → Prop} {t' : NameTable}
    (hids : ∀ id ∈ ids, c.values id ∧ c.arena.Placed visible t id)
    (hv : t.Valid c.arena) (h : t.Grows c.arena P t') :
    ∀ id ∈ ids, (c.among (c.arena.Placed visible t')).values id :=
  fun id hid => ⟨(hids id hid).1, (hids id hid).2.mono hv h (List.Subset.refl _)⟩

/-- A scalar target has no loops, and every other one is placed in front of them. -/
theorem places_loopExtents (op : Op) {target : ValueId} (hid : c.values target)
    (hready : c.arena.Ready visible t target) :
    Places c function t (loopExtents op target) fun loops t' =>
      loops = ([], []) ∧ t' = t ∨ Writes c.arena [target] [] visible t loops.1 t' := by
  refine .bindQuiet (info_apply (c.known target hid)) ?_
  split
  · exact .pure (.inl ⟨rfl, rfl⟩)
  · split
    · exact .bindError rfl
    · refine .bindQuiet (isBound_apply (c.known target hid)) ?_
      split
      · next hbound =>
        refine .pure (.inr ⟨trivial, .refl, List.Subset.refl _, ?_⟩)
        rw [List.forall_mem_singleton]
        exact hready hbound
      · refine .bind ((places_arrayDeclarator (some op) hid hready).mono fun first t' hfirst => ?_)
        exact .pure (.inr (.declaration hfirst))

/-- A scalar is declared by the statement that sets it. -/
theorem places_setScalar (op : Op) {target : ValueId} {source : Formula} (hv : t.Valid c.arena)
    (hid : c.values target) (hready : c.arena.Ready visible t target)
    (hsource : ∀ id ∈ source.values, c.values id ∧ c.arena.Placed visible t id) :
    Places c function t (setElement op target source 0) fun stmt t' =>
      Writes c.arena [target] [] visible t [stmt] t' := by
  refine .bind (.bind (.bind ((places_mentionAs false (some op) hid hready).mono ?_)))
  rintro m t' ⟨hm, hdefines⟩
  refine .pure (.pure ?_)
  -- the source is written where the name of the target is not visible yet
  have hvalues := among_of_grows hsource hv hdefines.grows
  refine .bindRead (emits_formula op 0 hvalues) (hdefines.valid hv) (by simp) fun value hvalue => ?_
  exact .pure ⟨⟨⟨hm, .inl rfl, hvalue⟩, trivial⟩, hdefines⟩

/-- A target is declared before the loops over its elements, or by the statement that sets it. -/
theorem places_compute (op : Op) {target : ValueId} {source : Formula} (hv : t.Valid c.arena)
    (hid : c.values target) (hready : c.arena.Ready visible t target)
    (hsource : ∀ id ∈ source.values, c.values id ∧ c.arena.Placed visible t id) :
    Places c function t (compute op target source) (Writes c.arena [target] [] visible t) := by
  refine .bind ((places_loopExtents op hid hready).mono ?_)
  rintro ⟨declaration, extents⟩ t' (⟨hscalar, rfl⟩ | hdeclared)
  · obtain ⟨rfl, rfl⟩ := Prod.mk.inj hscalar
    refine .bind ((places_setScalar op hv hid hready hsource).mono fun body t'' hbody => ?_)
    exact .pure hbody
  · have htarget := hdeclared.2.placed target (List.mem_singleton_self target)
    have hvalues := among_of_defines hsource hv hdeclared.2
    refine .bindRead (emits_setElement op _ ⟨hid, htarget⟩ hvalues) (hdeclared.2.valid hv) (by simp)
      fun body hbody => ?_
    refine .pure (hdeclared.appendReads ?_)
    simpa [mentionsOfStmts] using hbody

/-- One scalar is declared by the statement that sets it to some code. -/
theorem places_assign (op : Op) {target : ValueId} {source : Place} (hv : t.Valid c.arena)
    (hid : c.values target) (hready : c.arena.Ready visible t target)
    (hsource : ∀ id ∈ source.values, c.values id ∧ c.arena.Placed visible t id)
    (hgiven : ∀ m ∈ source.mentions, m.Reads visible) (bodies : List (Emission (List Stmt))) :
    Places c function t (render op bodies (.assign (.scalar target) source))
      (Writes c.arena [target] [] visible t) := by
  refine .bind (.bind (.bind ((places_mentionAs false (some op) hid hready).mono ?_)))
  rintro m t' ⟨hm, hdefines⟩
  refine .pure (.bind (.pure (.pure ?_)))
  have hvalues := among_of_grows hsource hv hdefines.grows
  refine .bindRead (emits_place op hvalues) (hdefines.valid hv) hgiven fun value hvalue => ?_
  exact .pure ⟨⟨⟨hm, .inl rfl, hvalue⟩, trivial⟩, hdefines⟩

/-! ## Heads of loops -/

/-- The index of a loop is declared in its head and visible from there on. -/
theorem places_loopHead (op : Op) {index : ValueId} {lower upper step : Term}
    (hv : t.Valid c.arena) (hid : c.values index) (hready : c.arena.Ready visible t index)
    (hterms : ∀ id ∈ lower.values ++ upper.values ++ step.values,
      c.values id ∧ c.arena.Placed visible t id)
    (hgiven : ∀ m ∈ lower.mentions ++ upper.mentions ++ step.mentions, m.Reads visible) :
    Places c function t (loopHead op index lower upper step) fun head t' =>
      head.Scoped visible ∧
        Defines c.arena [index] [] visible t (head.introduces ++ visible) t' := by
  simp only [List.forall_mem_append] at hterms hgiven
  obtain ⟨⟨hlower, hupper⟩, hstep⟩ := hterms
  obtain ⟨⟨hlowerGiven, hupperGiven⟩, hstepGiven⟩ := hgiven
  refine .bind (.bind ((places_mentionAs false (some op) hid hready).mono ?_))
  rintro start t' ⟨hstart, hdefines⟩
  have hv' := hdefines.valid hv
  have hindex : (c.among (c.arena.Placed (start.introduces ++ visible) t')).values index :=
    ⟨hid, hdefines.placed index (List.mem_singleton_self index)⟩
  refine .pure ?_
  -- the first bound is written where the index is not visible yet
  refine .bindRead (emits_term op (among_of_grows hlower hv hdefines.grows)) hv' hlowerGiven
    fun lowerCode hlowerCode => ?_
  refine .bindRead (emits_operand op hindex) hv' (by simp) fun test htest => ?_
  refine .bindRead (emits_term op (among_of_defines hupper hv hdefines)) hv' (?_)
    fun upperCode hupperCode => ?_
  · exact fun m hm => (hupperGiven m hm).mono hdefines.visible
  refine .bindRead (emits_operand op hindex) hv' (by simp) fun advance hadvance => ?_
  refine .bindRead (emits_term op (among_of_defines hstep hv hdefines)) hv' (?_)
    fun stepCode hstepCode => ?_
  · exact fun m hm => (hstepGiven m hm).mono hdefines.visible
  exact .pure ⟨⟨hstart, hlowerCode, htest, hupperCode, hadvance, hstepCode⟩, hdefines⟩

/-- The names that are visible inside of loops within each other. -/
def headScope (visible : List Name) (heads : List LoopHead) : List Name :=
  heads.foldl (fun visible head => head.introduces ++ visible) visible

/-- Heads of loops each of which is inside of the ones before. -/
def HeadsScoped (visible : List Name) : List LoopHead → Prop
  | [] => True
  | head :: rest => head.Scoped visible ∧ HeadsScoped (head.introduces ++ visible) rest

/-- A nest is in scope if its heads are, and its body behind them. -/
theorem stmtsScoped_nestStmts {body : List Stmt} {heads : List LoopHead} (closing : Option Note)
    (hheads : HeadsScoped visible heads) (hbody : StmtsScoped (headScope visible heads) body) :
    StmtsScoped visible (nestStmts body closing heads) := by
  induction heads generalizing visible closing with
  | nil => exact hbody
  | cons head rest ih => exact ⟨⟨hheads.1, ih none hheads.2 hbody⟩, trivial⟩

/-- Nothing that is declared inside of a nest is visible behind it. -/
theorem scopeAfter_nestStmts {body : List Stmt} {heads : List LoopHead} (closing : Option Note)
    (h : heads ≠ []) : scopeAfter visible (nestStmts body closing heads) = visible := by
  cases heads with
  | nil => exact absurd rfl h
  | cons head rest => rfl

/-- The head of one loop of a nest. -/
theorem places_nestHead (op : Op) {loop : NestLoop} (hv : t.Valid c.arena)
    (hid : c.values loop.index) (hready : c.arena.Ready visible t loop.index)
    (hbounds : ∀ id ∈ loop.lower.operands ++ loop.upper.operands,
      c.values id ∧ c.arena.Placed visible t id) :
    Places c function t (nestHead op loop) fun head t' =>
      head.Scoped visible ∧
        Defines c.arena [loop.index] [] visible t (head.introduces ++ visible) t' := by
  rw [List.forall_mem_append] at hbounds
  refine .bindRead (emits_affineCode hbounds.1) hv (by simp) fun lower hlower => ?_
  refine .bindRead (emits_affineCode hbounds.2) hv (by simp) fun upper hupper => ?_
  refine places_loopHead op hv hid hready (by simp [Term.values]) ?_
  simp only [Term.mentions, List.forall_mem_append]
  exact ⟨⟨hlower, hupper⟩, by simp [Expr.mentions]⟩

/-- The heads of a nest declare all indices. -/
theorem places_nestHeads (op : Op) {loops : List NestLoop} (hv : t.Valid c.arena)
    (hindices : ∀ id ∈ loops.map NestLoop.index, c.values id ∧ c.arena.Ready visible t id)
    (hbounds : ∀ loop ∈ loops, ∀ id ∈ loop.lower.operands ++ loop.upper.operands,
      c.values id ∧ c.arena.Placed visible t id) :
    Places c function t (nestHeads op loops) fun heads t' =>
      HeadsScoped visible heads ∧ heads.length = loops.length ∧
        Defines c.arena (loops.map NestLoop.index) [] visible t (headScope visible heads) t' := by
  induction loops generalizing visible t with
  | nil => exact .pure ⟨trivial, rfl, .refl⟩
  | cons loop rest ih =>
    rw [List.map_cons, List.forall_mem_cons] at hindices
    rw [List.forall_mem_cons] at hbounds
    refine .bind ((places_nestHead op hv hindices.1.1 hindices.1.2 hbounds.1).mono ?_)
    rintro first t₁ ⟨hfirst, hdefines⟩
    -- Behind the first head, the other indices are still waiting and their bounds are placed.
    have hindices₁ : ∀ id ∈ rest.map NestLoop.index,
        c.values id ∧ c.arena.Ready (first.introduces ++ visible) t₁ id := fun id hid =>
      ⟨(hindices.2 id hid).1, hdefines.ready_of hv (hindices.2 id hid).2 (by simp)⟩
    have hbounds₁ : ∀ loop ∈ rest, ∀ id ∈ loop.lower.operands ++ loop.upper.operands,
        c.values id ∧ c.arena.Placed (first.introduces ++ visible) t₁ id := fun loop hloop id hid =>
      ⟨(hbounds.2 loop hloop id hid).1, hdefines.placed_of hv (hbounds.2 loop hloop id hid).2⟩
    refine .bind ((ih (hdefines.valid hv) hindices₁ hbounds₁).mono ?_)
    rintro heads t₂ ⟨hheads, hlength, hrest⟩
    exact .pure ⟨⟨hfirst, hheads⟩, congrArg (· + 1) hlength, hdefines.trans hrest hv⟩

end Emission

end HlsEmit
