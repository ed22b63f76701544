import HlsEmit.Construction.Elementwise
import HlsEmit.Emission.Program
import HlsEmit.Proofs.Elementwise.Line

/-!
# Emissions that go through

`Completes` says of an emission that it reports nothing, looks nothing up in vain, and leaves code and
a table behind that are in order. Over values of one common shape that are no literals, the table
decides alone which mention declares a value: `NameTable.Declares` lists the values that have a name.

## Key results

- `Completes.bind`: emissions piece by piece
- `completes_mentionAs`: whoever is mentioned has a name behind that
- `writesElements_of`: the lines of a formula over named values
- `completes_compute`: a value of the common shape is computed from others that have names
-/

namespace HlsEmit

open Code

/-! ## Tables -/

/-- These values have names, each from a declaration of its own, and no others. -/
def NameTable.Declares (t : NameTable) (ids : List ValueId) : Prop :=
  ∀ id, if id ∈ ids then ∃ name, t.binding? id = some (.declared name) else t.binding? id = none

/-- The empty table declares nothing. -/
theorem NameTable.declares_empty : NameTable.empty.Declares [] := by
  intro id
  rfl

namespace NameTable.Declares

variable {t : NameTable} {ids ids' : List ValueId} {id : ValueId}

/-- A new name declares one more value. -/
theorem insert (h : t.Declares ids) (id : ValueId) (name : Name) :
    (t.insert id (.declared name)).Declares (id :: ids) := by
  intro id'
  rw [binding?_insert]
  by_cases heq : id' = id
  · rw [if_pos (heq ▸ List.mem_cons_self ..)]
    exact ⟨name, if_pos heq⟩
  · have hmem : id' ∈ id :: ids ↔ id' ∈ ids := by simp [heq]
    simpa only [hmem, if_neg heq] using h id'

/-- The order of the declared values does not matter. -/
theorem congr (h : t.Declares ids) (hmem : ∀ id, id ∈ ids ↔ id ∈ ids') : t.Declares ids' := by
  intro id
  simpa only [hmem] using h id

/-- A value that is declared already may be listed again. -/
theorem cons_of_mem (h : t.Declares ids) (hid : id ∈ ids) : t.Declares (id :: ids) :=
  h.congr fun id' => by
    rw [List.mem_cons]
    exact (or_iff_right_of_imp fun heq => heq ▸ hid).symm

/-- A declared value has a name of its own. -/
theorem exists_name (h : t.Declares ids) (hid : id ∈ ids) :
    ∃ name, t.binding? id = some (.declared name) := by
  simpa only [if_pos hid] using h id

/-- A value that is not declared is not bound. -/
theorem unbound (h : t.Declares ids) (hid : id ∉ ids) : t.binding? id = none := by
  simpa only [if_neg hid] using h id

end NameTable.Declares

/-! ## Value tables -/

/-- All values have one shape and can be declared. -/
def Arena.Uniform (extents : List Int64) (arena : Arena) : Prop :=
  ∀ info ∈ arena, info.IsVariable extents

/-- A shape of extents has these extents. -/
theorem Shape.extents?_ofExtents (extents : List Int64) :
    (Shape.ofExtents extents).extents? = some extents := by
  have hall (extents : List Int64) : (extents.map some).mapM id = some extents := by
    induction extents with
    | nil => rfl
    | cons extent rest ih => simp [ih]
  cases extents with
  | nil => rfl
  | cons extent rest => exact hall (extent :: rest)

/-- A shape of extents is an array unless it has none. -/
theorem Shape.isShaped_ofExtents (extents : List Int64) :
    (Shape.ofExtents extents).isShaped = !extents.isEmpty := by
  cases extents <;> rfl

namespace Arena.Uniform

variable {arena : Arena} {extents : List Int64} {t : NameTable} {ids : List ValueId} {id : ValueId}

section Known

variable (hu : arena.Uniform extents) (hid : (arena.info? id).isSome)

include hu hid

/-- The entry of a known value is a variable. -/
theorem info : (arena.info id).IsVariable extents := by
  obtain ⟨info, hinfo⟩ := Option.isSome_iff_exists.1 hid
  rw [Arena.info, hinfo]
  exact hu info (Array.mem_of_getElem? hinfo)

/-- A variable has no literal. -/
theorem constantText : arena.constantText? id = none := by
  rw [← Emission.constantText?_info hid]
  exact (hu.info hid).noLiteral

/-- A variable is bound just if it is declared. -/
theorem isBound (ht : t.Declares ids) : arena.isBound t id = decide (id ∈ ids) := by
  by_cases hmem : id ∈ ids
  · obtain ⟨name, hname⟩ := ht.exists_name hmem
    rw [decide_eq_true hmem, Arena.isBound_iff]
    exact .inl (NameTable.isDeclared_iff.2 ⟨_, hname⟩)
  · rw [decide_eq_false hmem, Arena.isBound_eq_false_iff]
    exact ⟨ht.unbound hmem, hu.constantText hid⟩

/-- A declared variable has a name of its own. -/
theorem named (ht : t.Declares ids) (hmem : id ∈ ids) : arena.Named t id := by
  obtain ⟨name, hname⟩ := ht.exists_name hmem
  exact ⟨name, Arena.designator_of_declared (hu.constantText hid) hname⟩

end Known

end Arena.Uniform

/-! ## Emissions without reports -/

namespace Emission

variable {α β : Type} {scope : Scope} {t : NameTable} {e : Emission α} {next : α → Emission β}

/-- An emission reports nothing and looks nothing up in vain, and its value and the table behind it
are in order. -/
structure Completes (scope : Scope) (t : NameTable) (e : Emission α)
    (post : α → NameTable → Prop) : Prop where
  raised : (e.run scope t).raised = []
  overruns : (e.run scope t).overruns = []
  post : post (e.run scope t).value (e.run scope t).names

namespace Completes

variable {post post' : α → NameTable → Prop} {postNext : β → NameTable → Prop}

/-- An emission with a known outcome without reports completes. -/
theorem of_run {value : α} {t' : NameTable} {dispatched : List Dispatch}
    (h : e.run scope t = ⟨value, t', [], dispatched, []⟩) (hpost : post value t') :
    Completes scope t e post := by
  constructor <;> rw [h]
  exact hpost

/-- A value alone completes. -/
theorem pure {value : α} (h : post value t) : Completes scope t (pure value) post :=
  .of_run (pure_apply value scope t) h

/-- Two emissions complete one after the other. -/
theorem bind (h : Completes scope t e fun value t' => Completes scope t' (next value) postNext) :
    Completes scope t (e >>= next) postNext := by
  constructor
  · rw [bind_apply, Outcome.andThen, h.raised, h.post.raised, List.append_nil]
  · rw [bind_apply, Outcome.andThen, h.overruns, h.post.overruns, List.append_nil]
  · exact h.post.post

/-- A sequence whose first emission only finds something out. -/
theorem bindQuiet {value : α} (h : e.run scope t = ⟨value, t, [], [], []⟩)
    (hnext : Completes scope t (next value) postNext) :
    Completes scope t (e >>= next) postNext :=
  .bind (.of_run h hnext)

/-- An emission completes inside of a function if it does with its name. -/
theorem inFunction {name : String} (h : Completes { scope with function := some name } t e post) :
    Completes scope t (inFunction name e) post :=
  ⟨h.raised, h.overruns, h.post⟩

/-- A weaker condition on the outcome suffices. -/
theorem mono (h : Completes scope t e post) (hpost : ∀ value t', post value t' → post' value t') :
    Completes scope t e post' :=
  ⟨h.raised, h.overruns, hpost _ _ h.post⟩

end Completes

/-! ## Mentions -/

/-- A use needs no type. -/
theorem isTyped_use (u : Use) : (Mention.use u).IsTyped := by
  simp [Mention.IsTyped]

/-- A declaration with a type is typed. -/
theorem isTyped_declare (id : ValueId) (type : String) (name : Name) :
    (Mention.declare id (some type) name).IsTyped := by
  simp [Mention.IsTyped]

section Uniform

variable {arena : Arena} {extents : List Int64} {function : Option String} {ids : List ValueId}
variable {id : ValueId} (hu : arena.Uniform extents) (ht : t.Declares ids)

include hu ht

variable (function) in
/-- The first mention of a value declares it with its type. -/
theorem completes_declare (pointer : Bool) (op : Option Op) (hid : (arena.info? id).isSome)
    (hfree : id ∉ ids) : Completes ⟨arena, function⟩ t (mentionAs pointer op id) fun m t' =>
      (∃ type name, m = .declare id (some type) name ∧ (arena.info id).elem.cppName? = some type) ∧
        t'.Declares (id :: ids) := by
  obtain ⟨type, htype⟩ := Option.isSome_iff_exists.1 (hu.info hid).typed
  have hbound : arena.isBound t id = false := by rw [hu.isBound hid ht, decide_eq_false hfree]
  have hrun : (mentionAs pointer op id).run ⟨arena, function⟩ t =
      ⟨.declare id (some type) ⟨t.size, pointer⟩, t.insert id (.declared ⟨t.size, pointer⟩),
        [], [], []⟩ := by
    rw [mentionAs_of_free hid hbound, htype]
    rfl
  exact .of_run hrun ⟨⟨type, _, rfl, htype⟩, ht.insert id _⟩

variable (function) in
/-- Any mention of a value leaves a name behind. -/
theorem completes_mentionAs (pointer : Bool) (op : Option Op) (hid : (arena.info? id).isSome) :
    Completes ⟨arena, function⟩ t (mentionAs pointer op id) fun m t' =>
      (m.value = id ∧ m.IsTyped) ∧ t'.Declares (id :: ids) := by
  by_cases hmem : id ∈ ids
  · have hbound : arena.isBound t id = true := by rw [hu.isBound hid ht, decide_eq_true hmem]
    exact .of_run (mentionAs_of_bound hbound) ⟨⟨rfl, isTyped_use _⟩, ht.cons_of_mem hmem⟩
  · refine (completes_declare function hu ht pointer op hid hmem).mono ?_
    rintro m t' ⟨⟨type, name, rfl, -⟩, ht'⟩
    exact ⟨⟨rfl, isTyped_declare id type name⟩, ht'⟩

omit ht in
/-- The declarator of an array has all extents behind its mention. -/
theorem completes_arrayDeclarator {post : Mention → NameTable → Prop} (op : Option Op)
    (hid : (arena.info? id).isSome) (hmention : Completes ⟨arena, function⟩ t (mention op id) post) :
    Completes ⟨arena, function⟩ t (arrayDeclarator op id) fun declarator t' =>
      declarator.extents = extents ∧ post declarator.mention t' := by
  refine .bindQuiet (info_apply hid) ?_
  rw [(hu.info hid).shape, Shape.extents?_ofExtents]
  exact .bind (hmention.mono fun m t' hpost => .pure ⟨rfl, hpost⟩)

omit ht in
/-- So has the declarator of any value of the common shape. -/
theorem completes_declarator {post : Mention → NameTable → Prop} (op : Option Op)
    (hid : (arena.info? id).isSome) (hmention : Completes ⟨arena, function⟩ t (mention op id) post) :
    Completes ⟨arena, function⟩ t (declarator op id) fun declarator t' =>
      declarator.extents = extents ∧ post declarator.mention t' := by
  refine .bindQuiet (info_apply hid) ?_
  rw [ValueInfo.isShaped, (hu.info hid).shape, Shape.isShaped_ofExtents]
  cases extents with
  | nil => exact .bind (hmention.mono fun m t' hpost => .pure ⟨rfl, hpost⟩)
  | cons extent rest => exact completes_arrayDeclarator hu op hid hmention

/-! ## Loops over all elements -/

/-- Nothing is declared in front of the loops if the target has a name or is a scalar. -/
theorem loopExtents_of_ready (op : Op) (hid : (arena.info? id).isSome)
    (hready : id ∈ ids ∨ extents = []) :
    (loopExtents op id).run ⟨arena, function⟩ t = ⟨([], extents), t, [], [], []⟩ := by
  unfold loopExtents
  rw [bind_of_quiet (info_apply hid)]
  simp only [ValueInfo.isShaped, (hu.info hid).shape, Shape.isShaped_ofExtents, Bool.not_not,
    List.isEmpty_iff, Shape.extents?_ofExtents]
  by_cases hscalar : extents = []
  · rw [if_pos hscalar, hscalar]
    rfl
  · have hbound : arena.isBound t id = true := by
      rw [hu.isBound hid ht]
      exact decide_eq_true (hready.resolve_right hscalar)
    rw [if_neg hscalar, bind_of_quiet (isBound_apply hid), hbound]
    rfl

/-- Any other target is declared in front of the loops. -/
theorem completes_loopExtents (op : Op) (hid : (arena.info? id).isSome) (hfree : id ∉ ids)
    (hshaped : extents ≠ []) :
    Completes ⟨arena, function⟩ t (loopExtents op id) fun loops t' =>
      (∃ declarator type name, loops = ([.declaration declarator none], extents) ∧
        declarator.extents = extents ∧ declarator.mention = .declare id (some type) name) ∧
        t'.Declares (id :: ids) := by
  have hbound : arena.isBound t id = false := by rw [hu.isBound hid ht, decide_eq_false hfree]
  refine .bindQuiet (info_apply hid) ?_
  simp only [ValueInfo.isShaped, (hu.info hid).shape, Shape.isShaped_ofExtents, Bool.not_not,
    List.isEmpty_iff, Shape.extents?_ofExtents, if_neg hshaped]
  refine .bindQuiet (isBound_apply hid) ?_
  rw [hbound, if_neg Bool.false_ne_true]
  have hmention := completes_declare function hu ht false (some op) hid hfree
  refine .bind ((completes_arrayDeclarator hu (some op) hid hmention).mono ?_)
  rintro declarator t' ⟨hextents, ⟨type, name, hmention, -⟩, ht'⟩
  exact .pure ⟨⟨declarator, type, name, rfl, hextents, hmention⟩, ht'⟩

end Uniform

/-! ## Sources -/

/-- Values of the table that have names. -/
def Ready (arena : Arena) (ids values : List ValueId) : Prop :=
  ∀ id ∈ values, (arena.info? id).isSome ∧ id ∈ ids

namespace Ready

variable {arena : Arena} {extents : List Int64} {ids values : List ValueId}
variable (h : Ready arena ids values)

include h

/-- The first of the declared values is ready. -/
theorem cons (id : ValueId) : Ready arena (id :: ids) values :=
  fun id' hid' => ⟨(h id' hid').1, List.mem_cons_of_mem _ (h id' hid').2⟩

variable (hu : arena.Uniform extents)

include hu

/-- Only without extents are there scalars. -/
theorem scalar : ∀ id ∈ values, (arena.info id).isShaped = false → extents.length = 0 := by
  intro id hid hscalar
  rw [ValueInfo.isShaped, (hu.info (h id hid).1).shape, Shape.isShaped_ofExtents] at hscalar
  simpa using hscalar

variable (ht : t.Declares ids)

include ht

/-- Values that are ready are bound. -/
theorem bound : Bound arena t values := by
  intro id hid
  obtain ⟨hknown, hmem⟩ := h id hid
  have hbound : arena.isBound t id = true := by
    rw [hu.isBound hknown ht, decide_eq_true hmem]
  exact ⟨hknown, hbound⟩

/-- Values that are ready have names of their own. -/
theorem named : ∀ id ∈ values, arena.Named t id := by
  intro id hid
  obtain ⟨hknown, hmem⟩ := h id hid
  exact hu.named hknown ht hmem

end Ready

/-! ## Computing -/

/-- The code of a formula uses its values in order. -/
theorem mentions_heldCode (formula : Formula) (arena : Arena) (t : NameTable) (rank : Nat) :
    (formula.heldCode arena t rank).mentions = formula.values.map fun id => .use (arena.use t id) := by
  cases formula <;>
    simp [Formula.heldCode, Formula.values, Arena.useCode, Expr.mentions, mentionsOfExprs]

/-- The code of a formula mentions its values. -/
theorem values_heldCode (formula : Formula) (arena : Arena) (t : NameTable) (rank : Nat) :
    (formula.heldCode arena t rank).mentions.map Mention.value = formula.values := by
  rw [mentions_heldCode, List.map_map]
  exact List.map_id _

/-- The statements that set each element of a target, behind a declaration of the target if there is
one. -/
def elementStmts (declaration : Option Declarator) (left value : Expr) (extents : List Int64) :
    List Stmt :=
  (declaration.map (Stmt.declaration · none)).toList ++
    counterLoops [.assign .set left value (some {})] 0 extents

/-- The text of the statements that compute every element. -/
theorem stmtsText_elementStmts (declaration : Option Declarator) (left value : Expr)
    (extents : List Int64) :
    stmtsText 1 (elementStmts declaration left value extents) =
      declaration.elim "" (fun declarator => indent 1 ++ declarator.text ++ ";\n")
        ++ loopLines (left.text ++ " = " ++ value.text ++ ";\t//") 0 extents := by
  have hloops := stmtsText_counterLoops (Code.text_assign left value) 0 extents
  cases declaration with
  | none => simpa [elementStmts] using hloops
  | some declarator =>
    have hend : ";\n" = ";" ++ "\n" := rfl
    rw [← hloops]
    simp only [elementStmts, Option.map_some, Option.toList_some, List.cons_append, List.nil_append,
      stmtsText, Stmt.text, lineEnd, Option.elim_some, hend, String.append_assoc]

/-- The statements mention the declarator, the target and the value. -/
theorem mentions_elementStmts (declaration : Option Declarator) (left value : Expr)
    (extents : List Int64) :
    mentionsOfStmts (elementStmts declaration left value extents) =
      (declaration.map Declarator.mention).toList ++ left.mentions ++ value.mentions := by
  have hloops (dim : Nat) : mentionsOfStmts (counterLoops [.assign .set left value (some {})] dim
      extents) = left.mentions ++ value.mentions := by
    induction extents generalizing dim with
    | nil => simp [counterLoops, mentionsOfStmts, Stmt.mentions]
    | cons extent rest ih => simp [counterLoops, mentionsOfStmts, Stmt.mentions, LoopHead.mentions, ih]
  cases declaration <;>
    simp [elementStmts, hloops, mentionsOfStmts, Stmt.mentions, Declarator.mentions]

section Compute

variable {arena : Arena} {extents : List Int64} {function : Option String} {ids : List ValueId}
variable {op : Op} {target : ValueId} {formula : Formula}

/-- The lines of a formula over named values, if the left side is the target with its brackets. -/
theorem writesElements_of (declaration : Option Declarator) {left : Expr}
    (hdeclaration : ∀ declarator ∈ declaration, declarator.extents = extents ∧
      ∃ type name, declarator.mention = .declare target (some type) name)
    (htarget : left.mentions.map Mention.value = [target])
    (htyped : ∀ m ∈ left.mentions, m.IsTyped)
    (hleft : ∀ {cs}, Stops cs → Spelled (counterGroups extents.length) cs →
      Spelled (counterGroups extents.length) (left.text.toList ++ cs))
    (hplain : formula.Plain)
    (hvalues : ∀ id ∈ formula.values,
      arena.Named t id ∧ ((arena.info id).isShaped = false → extents.length = 0)) :
    WritesElements extents formula.values target
      (elementStmts declaration left (formula.heldCode arena t extents.length) extents) := by
  refine ⟨declaration, left, _, stmtsText_elementStmts declaration left _ extents, hdeclaration,
    htarget, values_heldCode formula arena t _, ?_, Spelled.subscripted ?_⟩
  · simp only [mentions_elementStmts, mentions_heldCode, List.mem_append, Option.mem_toList,
      Option.map_eq_some_iff, List.mem_map]
    rintro m ((⟨declarator, hdeclarator, rfl⟩ | hm) | ⟨id, -, rfl⟩)
    · obtain ⟨-, type, name, hmention⟩ := hdeclaration declarator hdeclarator
      rw [hmention]
      exact isTyped_declare target type name
    · exact htyped m hm
    · exact isTyped_use _
  simp only [String.toList_append, List.append_assoc]
  refine hleft (stops_cons (by decide) (by decide) _) (.append (by decide) ?_)
  refine Formula.spelled hplain hvalues (stops_cons (by decide) (by decide) _) ?_
  -- only the end of the line is left
  have hend : 'v' ∉ ";\t//".toList := by decide
  simpa using Spelled.append hend .nil

/-! ### A target with a name -/

/-- One element is computed into a target that is bound. -/
theorem setElement_of_bound (hnote : op.note = {})
    (htarget : Bound arena t [target]) (hvalues : Bound arena t formula.values) (rank : Nat) :
    (setElement op target formula rank).run ⟨arena, function⟩ t =
      ⟨.assign .set ((arena.useCode t target).atCounters rank) (formula.heldCode arena t rank)
        (some {}), t, [], [], []⟩ := by
  obtain ⟨-, hbound⟩ := htarget target (List.mem_singleton_self _)
  unfold setElement
  rw [bind_of_quiet (element_of_bound op hbound rank),
    bind_of_quiet (formula_of_bound op hvalues rank), pure_apply, hnote]

variable (hu : arena.Uniform extents) (ht : t.Declares ids) (hnote : op.note = {})
variable (hplain : formula.Plain)

include hu ht hplain

/-- The lines if the target has a name when its element is set. -/
theorem writesElements_of_ready (declaration : Option Declarator)
    (hdeclaration : ∀ declarator ∈ declaration, declarator.extents = extents ∧
      ∃ type name, declarator.mention = .declare target (some type) name)
    (htarget : Ready arena ids [target]) (hvalues : Ready arena ids formula.values) :
    WritesElements extents formula.values target
      (elementStmts declaration ((arena.useCode t target).atCounters extents.length)
        (formula.heldCode arena t extents.length) extents) := by
  refine writesElements_of declaration hdeclaration ?_ ?_ ?_ hplain ?_
  · rw [Expr.mentions_atCounters]
    rfl
  · rw [Expr.mentions_atCounters]
    exact List.forall_mem_singleton.2 (isTyped_use _)
  · exact (htarget.named hu ht target (List.mem_singleton_self _)).spelled
  · exact fun id hid => ⟨hvalues.named hu ht id hid, hvalues.scalar hu id hid⟩

include hnote

/-- A computation into a declared target. -/
theorem completes_compute_of_ready (htarget : Ready arena ids [target])
    (hvalues : Ready arena ids formula.values) :
    Completes ⟨arena, function⟩ t (compute op target formula) fun stmts t' =>
      WritesElements extents formula.values target stmts ∧ t'.Declares ids := by
  obtain ⟨hknown, hmem⟩ := htarget target (List.mem_singleton_self _)
  refine .bindQuiet (loopExtents_of_ready hu ht op hknown (.inl hmem)) ?_
  refine .bindQuiet
    (setElement_of_bound hnote (htarget.bound hu ht) (hvalues.bound hu ht) extents.length) ?_
  have hlines := writesElements_of_ready hu ht hplain none (by simp) htarget hvalues
  exact .pure ⟨hlines, ht⟩

/-! ### A target without a name -/

/-- A computation that declares its array first. -/
theorem completes_compute_of_array (htarget : (arena.info? target).isSome) (hfree : target ∉ ids)
    (hvalues : Ready arena ids formula.values) (hshaped : extents ≠ []) :
    Completes ⟨arena, function⟩ t (compute op target formula) fun stmts t' =>
      WritesElements extents formula.values target stmts ∧ t'.Declares (target :: ids) := by
  refine .bind ((completes_loopExtents hu ht op htarget hfree hshaped).mono ?_)
  rintro loops t' ⟨⟨declarator, type, name, rfl, hextents, hmention⟩, ht'⟩
  -- behind its declaration, the target is one of the values with names
  have htarget' : Ready arena (target :: ids) [target] := by simpa [Ready] using htarget
  have hvalues' := hvalues.cons target
  refine .bindQuiet
    (setElement_of_bound hnote (htarget'.bound hu ht') (hvalues'.bound hu ht') extents.length) ?_
  have hlines := writesElements_of_ready hu ht' hplain (some declarator)
    (by simp [hextents, hmention]) htarget' hvalues'
  exact .pure ⟨hlines, ht'⟩

omit hplain in
/-- A scalar is declared in the line that sets it. -/
theorem completes_setElement_of_scalar (htarget : (arena.info? target).isSome) (hfree : target ∉ ids)
    (hvalues : Ready arena ids formula.values) :
    Completes ⟨arena, function⟩ t (setElement op target formula 0) fun stmt t' =>
      (∃ type name, stmt = .assign .set (.mention (.declare target (some type) name))
          (formula.heldCode arena t' 0) (some {}) ∧ (arena.info target).elem.cppName? = some type) ∧
        t'.Declares (target :: ids) := by
  have hleft := completes_declare function hu ht false (some op) htarget hfree
  refine .bind (.bind (.bind (hleft.mono ?_)))
  rintro m t' ⟨⟨type, name, rfl, htype⟩, ht'⟩
  -- the right side is written with the table that the declaration leaves behind
  have hvalues' := hvalues.cons target
  refine .pure (.pure (.bindQuiet (formula_of_bound op (hvalues'.bound hu ht') 0) ?_))
  rw [hnote]
  exact .pure ⟨⟨type, name, rfl, htype⟩, ht'⟩

/-- A computation that declares its scalar as it assigns it. -/
theorem completes_compute_of_scalar (htarget : (arena.info? target).isSome) (hfree : target ∉ ids)
    (hvalues : Ready arena ids formula.values) (hscalar : extents = []) :
    Completes ⟨arena, function⟩ t (compute op target formula) fun stmts t' =>
      WritesElements extents formula.values target stmts ∧ t'.Declares (target :: ids) := by
  subst hscalar
  refine .bindQuiet (loopExtents_of_ready hu ht op htarget (.inr rfl)) ?_
  refine .bind ((completes_setElement_of_scalar hu ht hnote htarget hfree hvalues).mono ?_)
  rintro stmt t' ⟨⟨type, name, rfl, htype⟩, ht'⟩
  have hvalues' := hvalues.cons target
  refine .pure ⟨?_, ht'⟩
  have htyped := List.forall_mem_singleton.2 (isTyped_declare target type name)
  refine writesElements_of none (by simp) rfl htyped (fun hstops hcs => ?_) hplain
    fun id hid => ⟨hvalues'.named hu ht' id hid, fun _ => rfl⟩
  have hname := name.spelled hstops hcs
  simp only [Expr.text, Mention.text, String.toList_append, List.append_assoc]
  refine .append (ElemType.not_mem_of_cppName htype) (.append (by decide) ?_)
  simpa [counterGroups] using hname

variable (function) in
/-- The elements of a value are computed from values with names, and the value has a name behind
that. -/
theorem completes_compute (htarget : (arena.info? target).isSome)
    (hvalues : Ready arena ids formula.values) :
    Completes ⟨arena, function⟩ t (compute op target formula) fun stmts t' =>
      WritesElements extents formula.values target stmts ∧ t'.Declares (target :: ids) := by
  by_cases hmem : target ∈ ids
  · have htarget' : Ready arena ids [target] := by simpa [Ready] using ⟨htarget, hmem⟩
    refine (completes_compute_of_ready hu ht hnote hplain htarget' hvalues).mono ?_
    exact fun stmts t' h => ⟨h.1, h.2.cons_of_mem hmem⟩
  · by_cases hscalar : extents = []
    · exact completes_compute_of_scalar hu ht hnote hplain htarget hmem hvalues hscalar
    · exact completes_compute_of_array hu ht hnote hplain htarget hmem hvalues hscalar

end Compute

end Emission

end HlsEmit
