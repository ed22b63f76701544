import HlsEmit.Proofs.Account.Program
import HlsEmit.Proofs.Scoping.Operation

/-!
# Scopes of functions and modules

The ports of a function are its arguments and the values that it returns. They are declared in front
of the body, so a value that is returned has its name before its operation has its turn.

## Key results

- `places_function`, `places_functions`: functions, whatever was named before
-/

namespace HlsEmit

open Code

/-! ## Values of operations -/

mutual

/-- An operation mentions what it defines. -/
theorem Op.mentioned_of_defined {id : ValueId} : (op : Op) → id ∈ op.defined → id ∈ op.mentioned
  | ⟨kind, operands, results, attrs, regions, line⟩, h => by
    rw [Op.defined, List.mem_append] at h
    simp only [Op.mentioned, List.mem_append]
    rcases h with h | h
    · exact .inl (.inl (.inr h))
    · exact .inr (mentionedInBlocks_of_defined regions h)

/-- What some blocks define is mentioned in them. -/
theorem mentionedInBlocks_of_defined {id : ValueId} : (blocks : List (BlockOf Op)) →
    id ∈ definedInBlocks blocks → id ∈ mentionedInBlocks blocks
  | [], h => by cases h
  | block :: rest, h => by
    rw [definedInBlocks, List.mem_append] at h
    rw [mentionedInBlocks, List.mem_append]
    exact h.imp (mentionedInBlock_of_defined block) (mentionedInBlocks_of_defined rest)

/-- What a block defines is mentioned in it. -/
theorem mentionedInBlock_of_defined {id : ValueId} : (block : BlockOf Op) →
    id ∈ definedInBlock block → id ∈ mentionedInBlock block
  | ⟨args, ops⟩, h => by
    rw [definedInBlock, List.mem_append] at h
    rw [mentionedInBlock, List.mem_append]
    exact h.imp_right (mentionedInOps_of_defined ops)

/-- What some operations define is mentioned in them. -/
theorem mentionedInOps_of_defined {id : ValueId} : (ops : List Op) →
    id ∈ definedInOps ops → id ∈ mentionedInOps ops
  | [], h => by cases h
  | op :: rest, h => by
    rw [definedInOps, List.mem_append] at h
    rw [mentionedInOps, List.mem_append]
    exact h.imp (op.mentioned_of_defined) (mentionedInOps_of_defined rest)

end

/-- A function mentions what it defines. -/
theorem Function.mentioned_of_defined {function : Function} {id : ValueId}
    (h : id ∈ function.defined) : id ∈ function.mentioned := by
  rw [Function.defined, List.mem_append] at h
  rw [Function.mentioned, List.mem_append]
  exact h.imp_right (mentionedInBlocks_of_defined function.blocks)

/-- An operation of a block uses what is in scope in front of the block or defined in it. -/
theorem OpsDominated.operands {ops : List Op} {scope : List ValueId} (h : OpsDominated scope ops)
    {op : Op} (hop : op ∈ ops) {id : ValueId} (hid : id ∈ op.operands) :
    id ∈ scope ∨ id ∈ definedInOps ops := by
  induction ops generalizing scope with
  | nil => cases hop
  | cons first rest ih =>
    rw [definedInOps, List.mem_append]
    rcases List.mem_cons.1 hop with rfl | hop
    · cases op
      exact .inl (h.1.1 id (List.mem_append_left _ hid))
    · rcases ih h.2 hop with hscope | hlater
      · rcases List.mem_append.1 hscope with hresult | hscope
        · exact .inr (.inl (first.defined_eq ▸ List.mem_append_left _ hresult))
        · exact .inl hscope
      · exact .inr (.inr hlater)

namespace Emission

variable {c : Contract} {name : Option String} {visible : List Name} {t : NameTable}

/-! ## Signatures -/

/-- The ports of the arguments are in scope from left to right. -/
theorem places_arguments {args : List ValueId} (hv : t.Valid c.arena)
    (hargs : Waiting c visible t args) :
    Places c name t (arguments args) fun ports t' =>
      PortsScoped visible ports ∧
        Defines c.arena args [] visible t (portScope visible ports) t' := by
  induction args generalizing visible t with
  | nil => exact .pure ⟨trivial, .refl⟩
  | cons arg rest ih =>
    obtain ⟨hid, hready⟩ := hargs arg (List.mem_cons_self ..)
    refine .bind ((places_declarator none hid hready).mono ?_)
    rintro first t₁ ⟨hfirst, hdefines⟩
    have hrest : Waiting c (first.mention.introduces ++ visible) t₁ rest :=
      Waiting.behind (fun id hid => hargs id (List.mem_cons_of_mem _ hid)) hv hdefines (by simp)
    refine .bind ((ih (hdefines.valid hv) hrest).mono ?_)
    rintro ports t₂ ⟨hports, hdefines'⟩
    exact .pure ⟨⟨hfirst, hports⟩, hdefines.trans hdefines' hv⟩

/-- A returned value has no name before its port, or that is reported. -/
theorem places_returned (ret : Op) {id : ValueId} (visible : List Name) (hid : c.values id) :
    Places c name t (returned ret id) fun port t' =>
      port.mention.Scoped visible ∧
        Defines c.arena [id] [] visible t (port.mention.introduces ++ visible) t' := by
  refine .bindQuiet (isBound_apply (c.known id hid)) ?_
  cases hbound : c.arena.isBound t id with
  | true => exact .bindError rfl
  | false =>
    have hready : c.arena.Ready visible t id := fun h => by rw [hbound] at h; cases h
    refine .bindQuiet (info_apply (c.known id hid)) ?_
    split
    · exact places_arrayDeclarator (some ret) hid hready
    · refine .bind ((places_mentionAs true (some ret) hid hready).mono fun m t' hm => ?_)
      exact .pure hm

/-- The ports of the results are in scope from left to right. -/
theorem places_returnedAll (ret : Op) {ids : List ValueId} (visible : List Name)
    (hv : t.Valid c.arena) (hids : ∀ id ∈ ids, c.values id) :
    Places c name t (returnedAll ret ids) fun ports t' =>
      PortsScoped visible ports ∧
        Defines c.arena ids [] visible t (portScope visible ports) t' := by
  induction ids generalizing visible t with
  | nil => exact .pure ⟨trivial, .refl⟩
  | cons id rest ih =>
    rw [List.forall_mem_cons] at hids
    refine .bind ((places_returned ret visible hids.1).mono ?_)
    rintro first t₁ ⟨hfirst, hdefines⟩
    refine .bind ((ih (first.mention.introduces ++ visible) (hdefines.valid hv) hids.2).mono ?_)
    rintro ports t₂ ⟨hports, hdefines'⟩
    exact .pure ⟨⟨hfirst, hports⟩, hdefines.trans hdefines' hv⟩

/-- More ports are in scope behind the first ones. -/
theorem portsScoped_append {ports ports' : List Declarator} :
    PortsScoped visible (ports ++ ports') ↔
      PortsScoped visible ports ∧ PortsScoped (portScope visible ports) ports' := by
  induction ports generalizing visible with
  | nil => simp [PortsScoped, portScope]
  | cons port rest ih =>
    simp only [List.cons_append, PortsScoped, ih, and_assoc]
    rfl

/-- The scope behind more ports. -/
theorem portScope_append (visible : List Name) (ports ports' : List Declarator) :
    portScope visible (ports ++ ports') = portScope (portScope visible ports) ports' :=
  List.foldl_append

/-! ## Functions -/

/-- The body of a function is one block, or that is reported. -/
theorem places_checkStructure (function : Function) :
    Places c name t (checkStructure function) fun _ t' =>
      t' = t ∧ ∃ block, function.blocks = [block] := by
  have hreturns : Places c name t (if 1 < function.returnCount then
      raise none (.returnCount function.returnCount) else pure ()) fun _ t' => t' = t := by
    split
    · exact fun _ => rfl
    · exact .pure rfl
  unfold checkStructure
  dsimp only
  split
  · exact .bindError rfl
  · next hblocks =>
    have hone : ∃ block, function.blocks = [block] :=
      List.length_eq_one_iff.1 (Decidable.not_not.1 hblocks)
    exact hreturns.mono fun _ t' ht => ⟨ht, hone⟩

/-- A function ends with a return, or that is reported. -/
theorem places_returnOp? (function : Function) :
    Places c name t (returnOp? function) fun ret t' =>
      t' = t ∧ ∃ op, ret = some op ∧ function.blocks.head?.bind BlockOf.returnOp? = some op := by
  unfold returnOp?
  dsimp only
  cases hret : function.blocks.head?.bind BlockOf.returnOp? with
  | none => exact .bindError rfl
  | some op => exact .pure ⟨rfl, op, rfl, rfl⟩

/-- Inside of a function. -/
theorem Places.inFunction {α : Type} {e : Emission α} {post : α → NameTable → Prop}
    {inside : String} (h : Places c (some inside) t e post) :
    Places c name t (inFunction inside e) post := h

/-- A value that was not mentioned yet is ready. -/
theorem ready_of_fresh {arena : Arena} {id : ValueId} (h : t.binding? id = none) :
    arena.Ready visible t id := by
  intro hbound
  rcases Arena.isBound_iff.1 hbound with hdeclared | ⟨text, htext⟩
  · rw [NameTable.isDeclared_eq_false_iff.2 h] at hdeclared
    cases hdeclared
  · simp [Arena.Placed, Arena.designator, htext, Designator.Visible]

/-- A function, whatever was named before. -/
theorem places_function {function : Function} (hv : t.Valid c.arena)
    (hfresh : ∀ id ∈ function.defined, c.values id ∧ t.binding? id = none)
    (hdistinct : function.defined.Nodup)
    (hdominated : BlocksDominated function.args function.blocks)
    (hexact : ∀ op ∈ withinBlocks function.blocks, op.Exact)
    (hargs : ∀ block ∈ function.blocks, block.args = []) :
    Places c name t (Emission.function function) fun code t' =>
      code.Scoped ∧ t.Grows c.arena (· ∈ function.defined) t' := by
  have hwaiting : Waiting c [] t function.defined := fun id hid =>
    (hfresh id hid).imp_right ready_of_fresh
  refine .inFunction ?_
  refine .bind ((places_checkStructure function).mono ?_)
  rintro _ t' ⟨rfl, ⟨_, ops⟩, hblocks⟩
  obtain rfl := hargs _ (hblocks ▸ List.mem_singleton_self _)
  -- from here on, the body is one block without arguments
  simp only [Function.defined, hblocks, definedInBlocks, definedInBlock, List.nil_append,
    List.append_nil] at hwaiting hdistinct ⊢
  simp only [hblocks, BlocksDominated, BlockDominated, withinBlocks, withinBlock, List.nil_append,
    List.append_nil, and_true] at hdominated hexact
  rw [List.nodup_append] at hdistinct
  have hargsWaiting : Waiting c [] t' function.args := fun id hid =>
    hwaiting id (List.mem_append_left _ hid)
  have hopsWaiting : Waiting c [] t' (definedInOps ops) := fun id hid =>
    hwaiting id (List.mem_append_right _ hid)
  refine .bind ((places_arguments hv hargsWaiting).mono ?_)
  rintro arguments t₁ ⟨harguments, hdefines₁⟩
  refine .bind ((places_returnOp? function).mono ?_)
  rintro _ t₁' ⟨rfl, ret, rfl, hret⟩
  have hreturned : ∀ id ∈ ret.operands, id ∈ function.args ++ definedInOps ops := by
    intro id hid
    have hop : ret ∈ ops := by
      rw [hblocks] at hret
      exact BlockOf.mem_ops_of_returnOp? hret
    exact List.mem_append.2 (OpsDominated.operands hdominated hop hid)
  have hreturnedValues : ∀ id ∈ ret.operands, c.values id := fun id hid =>
    (hwaiting id (hreturned id hid)).1
  refine .bind ((places_returnedAll ret (portScope [] arguments) (hdefines₁.valid hv)
    hreturnedValues).mono ?_)
  rintro results t₂ ⟨hresults, hdefines₂⟩
  have hports := hdefines₁.trans hdefines₂ hv
  have hv₂ := hports.valid hv
  have hplaced : ∀ id ∈ function.args ++ ret.operands, (c.among (c.arena.Placed
      (portScope (portScope [] arguments) results) t₂)).values id := by
    intro id hid
    refine ⟨?_, hports.placed id hid⟩
    rcases List.mem_append.1 hid with hid | hid
    · exact (hargsWaiting id hid).1
    · exact hreturnedValues id hid
  refine .bindRead (emits_functionPragmas function.attrs hplaced) hv₂ (by simp)
    fun pragmas hpragmas => ?_
  have hsetting : Setting c (portScope (portScope [] arguments) results) t₂ function.args none :=
    ⟨hv₂, fun id hid => hplaced id (List.mem_append_left _ hid), by simp, by simp, by simp⟩
  have hbody : Places c (some function.name) t₂ (body [{ ops := ops }]) fun stmts t' =>
      StmtsScoped (portScope (portScope [] arguments) results) stmts ∧
        t₂.Grows c.arena (· ∈ definedInOps ops) t' :=
    places_ofOps none ops hsetting hdominated hdistinct.2.1
      (hopsWaiting.behind hv hports (by simp)) hexact
  refine .bind (hbody.mono ?_)
  rintro stmts t₃ ⟨hstmts, hgrows⟩
  obtain ⟨hpragmasScoped, hscope⟩ := stmtsScoped_of_reads pragmas hpragmas
  refine .pure ⟨⟨portsScoped_append.2 ⟨harguments, hresults⟩, ?_⟩, ?_⟩
  · rw [portScope_append, stmtsScoped_append, hscope]
    exact ⟨hpragmasScoped, hstmts⟩
  · refine NameTable.Grows.trans (hports.grows.mono fun id hid => ?_)
      (hgrows.mono fun id hid => List.mem_append_right _ hid)
    simp only [List.mem_append, List.append_nil, List.not_mem_nil, or_false] at hid
    rcases hid with hid | hid
    · exact List.mem_append_left _ hid
    · exact hreturned id hid

/-- Several functions that define different values. -/
theorem places_functions {functions : List Function} (hv : t.Valid c.arena)
    (hfresh : ∀ id ∈ functions.flatMap Function.defined, c.values id ∧ t.binding? id = none)
    (hdistinct : (functions.flatMap Function.defined).Nodup)
    (hdominated : ∀ function ∈ functions, BlocksDominated function.args function.blocks)
    (hexact : ∀ function ∈ functions, ∀ op ∈ withinBlocks function.blocks, op.Exact)
    (hargs : ∀ function ∈ functions, ∀ block ∈ function.blocks, block.args = []) :
    Places c name t (Emission.functions functions) fun codes _ => ∀ code ∈ codes, code.Scoped := by
  induction functions generalizing t with
  | nil => exact .pure (by simp)
  | cons function rest ih =>
    simp only [List.flatMap_cons, List.forall_mem_append] at hfresh
    rw [List.flatMap_cons, List.nodup_append] at hdistinct
    rw [List.forall_mem_cons] at hdominated hexact hargs
    refine .bind ((places_function hv hfresh.1 hdistinct.1 hdominated.1 hexact.1 hargs.1).mono ?_)
    rintro code t' ⟨hcode, hgrows⟩
    -- the first function did not name what the others define
    have hrest : ∀ id ∈ rest.flatMap Function.defined, c.values id ∧ t'.binding? id = none := by
      intro id hid
      obtain ⟨hvalue, hunnamed⟩ := hfresh.2 id hid
      refine ⟨hvalue, ?_⟩
      cases hbinding : t'.binding? id with
      | none => rfl
      | some binding =>
        have hfirst := (hgrows.mentioned hbinding hunnamed).1
        exact absurd rfl (hdistinct.2.2 id hfirst id hid)
    refine .bind ((ih (hgrows.valid hv) hrest hdistinct.2.1 hdominated.2 hexact.2 hargs.2).mono ?_)
    intro codes _ hcodes
    exact .pure (List.forall_mem_cons.2 ⟨hcode, hcodes⟩)

end Emission

end HlsEmit
