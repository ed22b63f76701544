import HlsEmit.Accelerator.Catalogue
import HlsEmit.Emission.Pragmas
import HlsEmit.Emission.Values
import HlsEmit.Proofs.Layout.Words
import HlsEmit.Proofs.Primitives

/-!
# The layout of mentions

Where a value is mentioned there is something: a name, a literal, or a declaration. So no line that
starts with a mention starts with a blank.

## Key results

- `Ensures.bind`: emissions that leave behind what is laid out well
- `ensures_mentionAs`: a mention is never empty
- `ensures_elementwise`, `ensures_functionPragmas`: loops over elements and pragmas
-/

namespace HlsEmit

open Code

/-- An accelerator call that sets an operand which has no name, and so nothing. -/
def Dispatch.Strays (arena : Arena) (turn : Dispatch) : Prop :=
  ∃ kind result, turn.op.kind = .ip kind ∧ "{res} = l_res;" ∈ (Accelerator.Template.of kind).lines ∧
    (Accelerator.Template.of kind).operand? (turn.op.operands.map (arena.use turn.names)) "res" =
      some result ∧ result.designator = .missing

namespace Emission

variable {α β : Type} {arena : Arena} {strays : Prop}

/-- From tables in which shared names are those of declarations, an emission leaves behind what has a
property, and such a table. Stray lines are admitted if accelerator calls can have any. -/
def Ensures (arena : Arena) (strays : Prop) (P : α → Prop) (e : Emission α) : Prop :=
  ∀ function t, t.Closed →
    (∀ turn ∈ (e.run ⟨arena, function⟩ t).dispatched, turn.Strays arena → strays) →
    P (e.run ⟨arena, function⟩ t).value ∧ (e.run ⟨arena, function⟩ t).names.Closed

namespace Ensures

variable {P : α → Prop} {Q : β → Prop} {e : Emission α} {next : α → Emission β}

/-- A value alone has its property. -/
theorem pure {x : α} (h : P x) : Ensures arena strays P (pure x) :=
  fun _ _ ht _ => ⟨h, ht⟩

/-- What follows may use the property of what it follows. -/
theorem bind (he : Ensures arena strays P e) (hnext : ∀ x, P x → Ensures arena strays Q (next x)) :
    Ensures arena strays Q (e >>= next) := by
  intro function t ht hturns
  rw [bind_apply] at hturns ⊢
  rw [Outcome.andThen, List.forall_mem_append] at hturns
  have hfirst := he function t ht hturns.1
  exact hnext _ hfirst.1 function _ hfirst.2 hturns.2

/-- A weaker property suffices. -/
theorem mono {P' : α → Prop} (he : Ensures arena strays P e) (h : ∀ x, P x → P' x) :
    Ensures arena strays P' e :=
  fun function t ht hturns => (he function t ht hturns).imp_left (h _)

end Ensures

/-! ## Primitives -/

/-- What is looked up has a property that closed tables give. -/
theorem ensures_inspect {f : Scope → NameTable → α} {P : α → Prop}
    (h : ∀ function t, t.Closed → P (f ⟨arena, function⟩ t)) :
    Ensures arena strays P (inspect f) :=
  fun function t ht _ => ⟨h function t ht, ht⟩

/-- A report changes no name. -/
theorem ensures_raise (op : Option Op) (problem : Problem) :
    Ensures arena strays (fun _ => True) (raise op problem) :=
  fun _ _ ht _ => ⟨trivial, ht⟩

/-- An overrun changes no name. -/
theorem ensures_overrun (missing : Overrun) :
    Ensures arena strays (fun _ => True) (overrun missing) :=
  fun _ _ ht _ => ⟨trivial, ht⟩

/-- Looking up a value changes no name. -/
theorem ensures_info (id : ValueId) : Ensures arena strays (fun _ => True) (info id) := by
  have hcheck : Ensures arena strays (fun _ => True) (checkEntry id) := by
    refine .bind (ensures_inspect (P := fun _ => True) fun _ _ _ => trivial) fun missing _ => ?_
    split
    · exact ensures_overrun _
    · exact .pure trivial
  exact .bind hcheck fun _ _ => ensures_inspect fun _ _ _ => trivial

/-- Asking whether a value is bound changes no name. -/
theorem ensures_isBound (id : ValueId) : Ensures arena strays (fun _ => True) (isBound id) := by
  refine .bind (ensures_inspect (P := fun _ => True) fun _ _ _ => trivial) fun declared _ => ?_
  split
  · exact .pure trivial
  · exact .bind (ensures_info id) fun _ _ => .pure trivial

/-- What stands for a value is plain, also where it stands for a port. -/
theorem ensures_use (id : ValueId) :
    Ensures arena strays (fun u => Plain u.designator.text ∧ Plain u.designator.portText) (use id) :=
  ensures_inspect fun _ t _ => ⟨arena.plain_use t id, arena.plain_port t id⟩

/-- What stands for the operands of a map is plain. -/
theorem ensures_operandAt (operands : List ValueId) :
    Ensures arena strays (fun code => ∀ position, Plain (code position).text) (operandAt operands) := by
  refine ensures_inspect fun _ t _ position => ?_
  unfold Arena.operandAt
  split
  · exact arena.plain_use t _
  · exact (by decide : Plain "")

/-- A shared name points to one that was given. -/
theorem ensures_share (op : Op) (source result : ValueId) :
    Ensures arena strays (fun _ => True) (share op source result) := by
  refine Ensures.bind (P := fun _ => True) ?_ fun failure _ => ?_
  · intro function t ht _
    refine ⟨trivial, ?_⟩
    simp only [run, NameTable.share]
    -- The table only changes if the result is new and the source has a name.
    cases hnew : t.isDeclared result with
    | true => exact ht
    | false =>
      cases howner : t.owner? source with
      | none => exact ht
      | some owner =>
        refine ht.insert hnew ?_
        rintro _ ⟨⟩
        exact ht.ownName?_owner howner
  · cases failure with
    | none => exact .pure trivial
    | some error => exact ensures_raise _ _

/-! ## Mentions -/

/-- A type begins well. -/
theorem ensures_typeOf (op : Option Op) (id : ValueId) :
    Ensures arena strays (fun type => ∀ name ∈ type, Begins name) (typeOf op id) := by
  refine .bind (ensures_info id) fun info _ => ?_
  have htype : ∀ name ∈ info.elem.cppName?, Begins name := fun name hname =>
    ElemType.begins hname
  dsimp only
  split
  · exact .bind (ensures_raise op _) fun _ _ => .pure htype
  · exact .pure htype

/-- An emission that names nothing. -/
def NamesNothing (e : Emission α) : Prop :=
  ∀ scope t, (e.run scope t).names = t

/-- Two emissions that name nothing name nothing together. -/
theorem NamesNothing.bind {e : Emission α} {next : α → Emission β} (he : NamesNothing e)
    (hnext : ∀ x, NamesNothing (next x)) : NamesNothing (e >>= next) := by
  intro scope t
  rw [bind_apply]
  exact (hnext _ scope _).trans (he scope t)

/-- Looking up a value names nothing. -/
theorem info_namesNothing (id : ValueId) : NamesNothing (info id) := by
  have hcheck : NamesNothing (checkEntry id) := by
    refine .bind (fun _ _ => rfl) fun missing => ?_
    split <;> exact fun _ _ => rfl
  exact hcheck.bind fun _ _ _ => rfl

/-- Looking up a type names nothing. -/
theorem typeOf_namesNothing (op : Option Op) (id : ValueId) : NamesNothing (typeOf op id) := by
  refine (info_namesNothing id).bind fun info => ?_
  dsimp only
  split
  · exact .bind (fun _ _ => rfl) fun _ _ _ => rfl
  · exact fun _ _ => rfl

/-- Asking whether a value is bound names nothing. -/
theorem isBound_namesNothing (id : ValueId) : NamesNothing (isBound id) := by
  refine .bind (fun _ _ => rfl) fun declared => ?_
  split
  · exact fun _ _ => rfl
  · exact (info_namesNothing id).bind fun _ _ _ => rfl

/-- The answer is whether the value is bound. -/
theorem isBound_value (id : ValueId) (function : Option String) (t : NameTable) :
    ((isBound id).run ⟨arena, function⟩ t).value = arena.isBound t id := by
  have hconstant : (arena.info id).constantText? = arena.constantText? id := by
    rw [Arena.info, Arena.constantText?]
    cases arena.info? id <;> rfl
  unfold isBound
  rw [bind_apply, Outcome.andThen, inspect_apply, Arena.isBound]
  by_cases hdeclared : t.isDeclared id = true
  · rw [if_pos hdeclared, hdeclared]
    rfl
  · rw [if_neg hdeclared, Bool.eq_false_iff.2 hdeclared, Bool.false_or, ← hconstant]
    rfl

/-- A mention is never empty: what is not declared by it was found to be bound just before. -/
theorem ensures_mentionAs (pointer : Bool) (op : Option Op) (id : ValueId) :
    Ensures arena strays (fun mention => Begins mention.text) (mentionAs pointer op id) := by
  intro function t ht _
  unfold mentionAs
  rw [bind_apply, isBound_value, isBound_namesNothing, Outcome.andThen]
  dsimp only
  -- Bound, so that something stands for it; or free, so that a name is given.
  by_cases hbound : arena.isBound t id = true
  · rw [if_pos hbound]
    refine ⟨?_, ht⟩
    obtain hbegins | hmissing := arena.use_cases t id
    · exact hbegins
    · exact absurd hmissing (arena.use_of_bound ht hbound)
  · have hnew : t.isDeclared id = false :=
      (Bool.or_eq_false_iff.1 (Bool.eq_false_iff.2 hbound)).1
    have hdeclare : (declare id pointer).run ⟨arena, function⟩ t =
        ⟨.ok ⟨t.size, pointer⟩, t.insert id (.declared ⟨t.size, pointer⟩), [], [], []⟩ := by
      simp [run, declare, NameTable.declare, hnew]
    have htypes : Ensures arena True (fun type => ∀ name ∈ type, Begins name) (typeOf op id) :=
      ensures_typeOf op id
    have htype := (htypes function t ht fun _ _ _ => trivial).1
    rw [if_neg hbound, bind_apply, typeOf_namesNothing, bind_apply, hdeclare]
    refine ⟨?_, ht.insert hnew (by simp)⟩
    have hname := Name.begins ⟨t.size, pointer⟩
    show Begins (Mention.declare id ((typeOf op id).run ⟨arena, function⟩ t).value
      ⟨t.size, pointer⟩).text
    cases hvalue : ((typeOf op id).run ⟨arena, function⟩ t).value with
    | none => exact hname
    | some type => exact ((htype type hvalue).append (by decide)).append hname.plain

/-- A mention begins well. -/
theorem ensures_mention (op : Option Op) (id : ValueId) :
    Ensures arena strays (fun mention => Begins mention.text) (mention op id) :=
  ensures_mentionAs false op id

/-- The mention of a returned scalar begins well. -/
theorem ensures_pointerMention (op : Option Op) (id : ValueId) :
    Ensures arena strays (fun mention => Begins mention.text) (pointerMention op id) :=
  ensures_mentionAs true op id

/-- An operand begins well. -/
theorem ensures_operand (op : Op) (id : ValueId) :
    Ensures arena strays (fun code => Begins code.text) (operand op id) :=
  .bind (ensures_mention (some op) id) fun _ hmention => .pure hmention

/-- An expression starts with the array that it indexes. -/
theorem begins_subscripts {array : Expr} {indices : List Expr} (harray : Begins array.text)
    (hindices : ∀ index ∈ indices, Plain index.text) : Begins (array.subscripts indices).text := by
  induction indices generalizing array with
  | nil => exact harray
  | cons index rest ih =>
    rw [List.forall_mem_cons] at hindices
    have hfirst : Begins (Expr.subscript array index).text :=
      ((harray.append (by decide)).append hindices.1).append (by decide)
    exact ih hfirst hindices.2

/-- Counters behind an element leave its beginning. -/
theorem begins_atCounters {array : Expr} (harray : Begins array.text) (rank : Nat) :
    Begins (array.atCounters rank).text := by
  refine begins_subscripts harray ?_
  rw [List.forall_mem_map]
  exact fun dim _ => Plain.append (by decide) (plain_nat dim)

/-- An element begins well. -/
theorem ensures_element (op : Op) (rank : Nat) (id : ValueId) :
    Ensures arena strays (fun code => Begins code.text) (element op rank id) :=
  .bind (ensures_operand op id) fun _ hcode => .pure (begins_atCounters hcode rank)

/-- Operands begin well. -/
theorem ensures_operands (op : Op) (ids : List ValueId) :
    Ensures arena strays (fun codes => ∀ code ∈ codes, Begins code.text) (operands op ids) := by
  induction ids with
  | nil => exact .pure (by simp)
  | cons id rest ih =>
    refine .bind (ensures_operand op id) fun code hcode => .bind ih fun codes hcodes => .pure ?_
    exact List.forall_mem_cons.2 ⟨hcode, hcodes⟩

/-! ## Declarators -/

/-- A declarator begins as its mention does. -/
theorem begins_declarator {mention : Mention} (h : Begins mention.text) (extents : List Int64) :
    Begins (Declarator.mk mention extents).text := by
  unfold Declarator.text
  dsimp only
  generalize mention.text = text at h
  induction extents generalizing text with
  | nil => exact h
  | cons extent rest ih =>
    exact ih _ (((h.append (by decide)).append (plain_int extent.toInt)).append (by decide))

/-- The declarator of an array begins well. -/
theorem ensures_arrayDeclarator (op : Option Op) (id : ValueId) :
    Ensures arena strays (fun declarator => Begins declarator.text) (arrayDeclarator op id) := by
  refine .bind (ensures_info id) fun info _ => ?_
  split
  · exact .bind (ensures_mention op id) fun _ hmention => .pure (begins_declarator hmention _)
  · refine .bind (ensures_raise op _) fun _ _ => ?_
    exact .bind (ensures_pointerMention op id) fun _ hmention => .pure (begins_declarator hmention [])

/-- The declarator of a value begins well. -/
theorem ensures_declarator (op : Option Op) (id : ValueId) :
    Ensures arena strays (fun declarator => Begins declarator.text) (declarator op id) := by
  refine .bind (ensures_info id) fun info _ => ?_
  split
  · exact ensures_arrayDeclarator op id
  · exact .bind (ensures_mention op id) fun _ hmention => .pure (begins_declarator hmention [])

/-- The declarations in front of a structured operation are tidy. -/
theorem ensures_predeclare (op : Op) (ids : List ValueId) :
    Ensures arena strays (StmtsTidy strays) (predeclare op ids) := by
  induction ids with
  | nil => exact .pure trivial
  | cons id rest ih =>
    refine .bind (ensures_isBound id) fun bound _ => ?_
    split
    · exact ih
    · refine .bind (ensures_declarator (some op) id) fun first hfirst => ?_
      exact .bind ih fun others hothers => .pure ⟨hfirst, hothers⟩

/-! ## Loops over the elements of an array -/

/-- Loops over counters are tidy around a tidy body. -/
theorem tidy_counterLoops {body : List Stmt} (h : StmtsTidy strays body) (dim : Nat)
    (extents : List Int64) : StmtsTidy strays (counterLoops body dim extents) := by
  induction extents generalizing dim with
  | nil => exact h
  | cons extent rest ih =>
    have hindex : Plain ("idx" ++ toString dim) := Plain.append (by decide) (plain_nat dim)
    have hstart : Begins ("for (int " ++ ("idx" ++ toString dim)) :=
      Begins.append ⟨by decide, 'f', _, rfl, by decide⟩ hindex
    have htest := ((hstart.append (by decide : Plain " = 0; ")).append hindex).append
      (by decide : Plain " < ")
    have hhead := (((htest.append (plain_int extent.toInt)).append (by decide : Plain "; ++")).append
      hindex).append (by decide : Plain ")")
    exact ⟨⟨hhead, ih (dim + 1)⟩, trivial⟩

/-- The declaration of a computed array is tidy. -/
theorem ensures_loopExtents (op : Op) (target : ValueId) :
    Ensures arena strays (fun loops => StmtsTidy strays loops.1) (loopExtents op target) := by
  refine .bind (ensures_info target) fun info _ => ?_
  split
  · exact .pure trivial
  · split
    · exact .bind (ensures_raise _ _) fun _ _ => .pure trivial
    · refine .bind (ensures_isBound target) fun bound _ => ?_
      split
      · exact .pure trivial
      · refine .bind (ensures_arrayDeclarator (some op) target) fun declarator hdeclarator => ?_
        exact .pure ⟨hdeclarator, trivial⟩

/-- Statements for all elements are tidy if the one for an element is. -/
theorem ensures_elementwise (op : Op) (target : ValueId) {statement : Nat → Emission Stmt}
    (hstatement : ∀ rank, Ensures arena strays (Stmt.Tidy strays) (statement rank)) :
    Ensures arena strays (StmtsTidy strays) (elementwise op target statement) := by
  refine .bind (ensures_loopExtents op target) fun loops hloops => ?_
  refine .bind (hstatement _) fun body hbody => .pure ?_
  have hsingle : StmtsTidy strays [body] := ⟨hbody, trivial⟩
  exact stmtsTidy_append.2 ⟨hloops, tidy_counterLoops hsingle 0 loops.2⟩

/-! ## Pragmas -/

/-- The partition of an array is tidy. -/
theorem tidy_partitionPragmas {array : Use} (h : Plain array.designator.portText) (dim : Nat)
    (parts : List DimPartition) : StmtsTidy strays (partitionPragmas array dim parts) := by
  induction parts generalizing dim with
  | nil => trivial
  | cons part rest ih =>
    unfold partitionPragmas
    dsimp only
    split
    · exact ih (dim + 1)
    · refine ⟨?_, ih (dim + 1)⟩
      have hkind : Plain (if decide (part.kind = .cyclic) then " cyclic" else " block") := by
        split <;> decide
      have hfront : Begins ("#pragma HLS array_partition variable=" ++ array.designator.portText) :=
        Begins.append ⟨by decide, '#', _, rfl, by decide⟩ h
      exact ((((hfront.append hkind).append (by decide)).append (plain_int part.factor.toInt)).append
        (by decide)).append (plain_nat (dim + 1))

/-- The memory lines of an array are tidy. -/
theorem tidy_memoryPragmas (info : ValueInfo) {array : Use} (h : Plain array.designator.portText) :
    StmtsTidy strays (info.memoryPragmas array) := by
  have hcore : Plain (info.memory.core?.getD MemoryKind.defaultCore) := by
    cases info.memory <;> decide
  have hresource : Begins (Pragma.resource array
      (info.memory.core?.getD MemoryKind.defaultCore)).text :=
    ((Begins.append ⟨by decide, '#', _, rfl, by decide⟩ h).append (by decide)).append hcore
  refine ⟨hresource, stmtsTidy_append.2 ⟨?_, trivial, trivial⟩⟩
  split
  · trivial
  · exact tidy_partitionPragmas h 0 _

/-- The pragmas of an array are tidy. -/
theorem ensures_arrayPragmas (op : Option Op) (id : ValueId) :
    Ensures arena strays (StmtsTidy strays) (arrayPragmas op id) := by
  refine .bind (ensures_info id) fun info _ => ?_
  split
  · exact .pure trivial
  · refine .bind (ensures_use id) fun array harray => ?_
    dsimp only
    split
    · exact .bind (ensures_raise op _) fun _ _ => .pure (tidy_memoryPragmas info harray.2)
    · exact .pure (tidy_memoryPragmas info harray.2)

/-- The interface lines of a port are tidy. -/
theorem tidy_interfacePragmas (info : ValueInfo) {port : Use} (h : Plain port.designator.portText) :
    StmtsTidy strays (info.interfacePragmas port) := by
  have hpragma (front : String) (hfront : Begins front) : Begins (front ++ port.designator.portText) :=
    hfront.append h
  unfold ValueInfo.interfacePragmas
  split
  · exact ⟨(hpragma _ ⟨by decide, '#', _, rfl, by decide⟩).append (by decide), trivial⟩
  · split
    · trivial
    · exact ⟨hpragma _ ⟨by decide, '#', _, rfl, by decide⟩, trivial⟩
    · exact ⟨hpragma _ ⟨by decide, '#', _, rfl, by decide⟩, trivial⟩

/-- The interface lines of all ports are tidy. -/
theorem ensures_interfaces (ids : List ValueId) :
    Ensures arena strays (StmtsTidy strays) (interfaces ids) := by
  induction ids with
  | nil => exact .pure trivial
  | cons id rest ih =>
    have hfirst : Ensures arena strays (StmtsTidy strays) (interface id) :=
      .bind (ensures_info id) fun info _ => .bind (ensures_use id) fun port hport =>
        .pure (tidy_interfacePragmas info hport.2)
    refine .bind hfirst fun first hfirst => .bind ih fun others hothers => .pure ?_
    exact stmtsTidy_append.2 ⟨hfirst, hothers⟩

/-- The memory lines of the arrays among the ports are tidy. -/
theorem ensures_portArrayPragmas (ids : List ValueId) :
    Ensures arena strays (StmtsTidy strays) (portArrayPragmas ids) := by
  induction ids with
  | nil => exact .pure trivial
  | cons id rest ih =>
    have hrest (first : List Stmt) (hfirst : StmtsTidy strays first) :
        Ensures arena strays (StmtsTidy strays)
          (portArrayPragmas rest >>= fun others => Pure.pure (first ++ others)) :=
      .bind ih fun others hothers => .pure (stmtsTidy_append.2 ⟨hfirst, hothers⟩)
    refine .bind (ensures_info id) fun info _ => ?_
    split
    · exact .bind (ensures_arrayPragmas none id) hrest
    · exact .bind (.pure trivial) hrest

/-- A pipeline pragma begins well. -/
theorem tidy_pipeline (interval : Int64) : Begins (Pragma.pipeline interval).text :=
  Begins.append ⟨by decide, '#', _, rfl, by decide⟩ (plain_int interval.toInt)

/-- The first lines of a function body. -/
theorem ensures_functionPragmas (attrs : FuncAttrs) (ports : List ValueId) :
    Ensures arena strays (StmtsTidy strays) (functionPragmas attrs ports) := by
  have hdataflow : StmtsTidy strays
      (if attrs.dataflow then [.pragma .dataflow, .blank] else []) := by
    -- A top function has the lines of its ports as well.
    split
    · exact ⟨⟨by decide, '#', _, rfl, by decide⟩, trivial, trivial⟩
    · trivial
  have hpipeline : StmtsTidy strays
      (if attrs.pipeline then [.pragma (.pipeline (attrs.targetInterval.getD 1)), .blank] else []) := by
    split
    · exact ⟨tidy_pipeline _, trivial, trivial⟩
    · trivial
  have hfirst := stmtsTidy_append.2 ⟨hdataflow, hpipeline⟩
  unfold functionPragmas
  dsimp only
  split
  · exact .pure hfirst
  · refine .bind (ensures_interfaces ports) fun interfaces hinterfaces => ?_
    refine .bind (ensures_portArrayPragmas ports) fun arrays harrays => .pure ?_
    have hreturn : Begins Pragma.returnInterface.text := ⟨by decide, '#', _, rfl, by decide⟩
    exact stmtsTidy_append.2 ⟨stmtsTidy_append.2 ⟨hfirst, hreturn, hinterfaces⟩, trivial, harrays⟩

end Emission

end HlsEmit
