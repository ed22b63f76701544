import HlsEmit.Proofs.Meaning.Pragmas
import HlsEmit.Proofs.Meaning.Store

/-!
# Statements that do what an operation means

Statements simulate a change of the state if they change the objects in the same way. `Simulates`
says so from all states and objects that match; `Carries` says in addition what becomes of the name
table and that the statements can be read.

The target of a statement is declared by it, or it has been declared before, as the port of a value
that is returned.

## Key results

- `Carries.append`: statements one behind the other
- `carries_setScalar`: a scalar is set to the value of an expression
- `carries_declaration`, `carries_predeclare`: declarations without a content
-/

namespace HlsEmit

open Cpp (Object Machine Env)
open Code

variable {V : Type}

/-! ## Simulation -/

/-- Whatever `run` makes of a state, the statements make of its objects. -/
def Simulates (m : Machine V) (limit : Nat) (arena : Arena) (t : NameTable)
    (held : ValueId → Prop) (t' : NameTable) (held' : ValueId → Prop)
    (run : State V → Option (State V)) (stmts : List Stmt) : Prop :=
  ∀ σ σ' env, Matches m arena t held σ env → run σ = some σ' →
    ∃ env', m.execAll limit (stmtsCpp stmts) env = some env' ∧
      Matches m arena t' held' σ' env' ∧ Env.Extends t.size env env'

/-- Statements that simulate a change of the state. Behind them, the results are held as well, and
values inside of closed blocks may have been named. -/
structure Carries (m : Machine V) (limit : Nat) (arena : Arena) (results inside : List ValueId)
    (held : ValueId → Prop) (t : NameTable) (run : State V → Option (State V)) (stmts : List Stmt)
    (t' : NameTable) : Prop where
  grows : t.Grows arena (fun id => id ∈ results ∨ id ∈ inside) t'
  holding : Holding arena t' fun id => id ∈ results ∨ held id
  readable : StmtsReadable stmts
  simulates : Simulates m limit arena t held t' (fun id => id ∈ results ∨ held id) run stmts

/-- The machine computes what is meant. The values are scalars or arrays of extents that it counts
to in fewer steps than a loop may take. -/
structure Supports (m : Machine V) (meaning : Meaning V) (c : Contract) (limit : Nat) : Prop where
  implements : m.Implements meaning
  static : ∀ id, c.values id → (c.arena.info id).shape.isStatic = true
  counts : ∀ id, c.values id → ∀ extents, (c.arena.info id).shape.extents? = some extents →
    ∀ extent ∈ extents, m.CountsTo extent.toInt ∧ extent.toInt.toNat < limit

/-- A value whose turn is to come. If it has a name already, its object is there. -/
structure Awaits (c : Contract) (held : ValueId → Prop) (t : NameTable) (id : ValueId) : Prop where
  value : c.values id
  declared : ∀ binding, t.binding? id = some binding → held id

section Simulation

variable {m : Machine V} {meaning : Meaning V} {limit : Nat} {arena : Arena} {c : Contract}
variable {t t' t'' : NameTable} {held held' held'' : ValueId → Prop} {id : ValueId}
variable {run run' : State V → Option (State V)} {stmts stmts' : List Stmt}
variable {results inside results' inside' : List ValueId}

/-- A value of the function is known. -/
theorem Supports.known (hs : Supports m meaning c limit) (hid : c.values id) : c.arena.Known id :=
  ⟨c.known id hid, hs.static id hid⟩

/-- A value that is to come waits on while further values are named. -/
theorem Awaits.grows {P : ValueId → Prop} (h : Awaits c held t id)
    (hgrows : t.Grows c.arena P t') (hheld : ∀ id, held id → held' id) (hP : P id → held' id) :
    Awaits c held' t' id := by
  refine ⟨h.value, fun binding hbinding => ?_⟩
  cases hbefore : t.binding? id with
  | some before => exact hheld id (h.declared before hbefore)
  | none => exact hP (hgrows.mentioned hbinding hbefore).1

/-- A value that is no literal is bound by its name. -/
theorem binding_of_bound (hconst : arena.constantText? id = none) (hbound : arena.isBound t id = true) :
    ∃ binding, t.binding? id = some binding := by
  rcases Arena.isBound_iff.1 hbound with hdeclared | ⟨text, htext⟩
  · exact NameTable.isDeclared_iff.1 hdeclared
  · rw [hconst] at htext
    cases htext

/-- Two lists of statements are executed one behind the other. -/
theorem execAll_append (m : Machine V) (limit : Nat) (xs ys : List Cpp.Stmt) (env : Env V) :
    m.execAll limit (xs ++ ys) env = (m.execAll limit xs env).bind (m.execAll limit ys) := by
  induction xs generalizing env with
  | nil => rfl
  | cons x xs ih =>
    rw [List.cons_append, Machine.execAll, Machine.execAll]
    simp only [ih, Option.bind_eq_bind, Option.bind_assoc]

/-- A single statement is executed alone. -/
theorem execAll_singleton (m : Machine V) (limit : Nat) (stmt : Cpp.Stmt) (env : Env V) :
    m.execAll limit [stmt] env = m.exec limit stmt env := by
  rw [Machine.execAll]
  simp [Machine.execAll]

namespace Simulates

/-- A run that does less is simulated as well. -/
theorem congr (h : Simulates m limit arena t held t' held' run stmts)
    (hrun : ∀ σ σ', run' σ = some σ' → run σ = some σ') :
    Simulates m limit arena t held t' held' run' stmts :=
  fun σ σ' env hmatches hrun' => h σ σ' env hmatches (hrun σ σ' hrun')

/-- Two simulations stand one behind the other. -/
theorem append (h : Simulates m limit arena t held t' held' run stmts)
    (h' : Simulates m limit arena t' held' t'' held'' run' stmts') (hsize : t.size ≤ t'.size) :
    Simulates m limit arena t held t'' held'' (fun σ => do run' (← run σ)) (stmts ++ stmts') := by
  intro σ σ'' env hmatches hrun
  obtain ⟨σ', hσ', hrun'⟩ := Option.bind_eq_some_iff.1 hrun
  obtain ⟨env', hexec, hmatches', hextends⟩ := h σ σ' env hmatches hσ'
  obtain ⟨env'', hexec', hmatches'', hextends'⟩ := h' σ' σ'' env' hmatches' hrun'
  refine ⟨env'', ?_, hmatches'', hextends.trans hextends' hsize⟩
  rw [stmtsCpp_append, execAll_append, hexec]
  exact hexec'

end Simulates

namespace Carries

/-- Lines that are no part of the syntax do nothing. -/
theorem silent (h : Holding arena t held) (hstmts : Silent stmts) :
    Carries m limit arena [] [] held t some stmts t := by
  refine ⟨.refl, h.mono (by simp), hstmts.readable, ?_⟩
  rintro σ _ env hmatches ⟨⟩
  exact ⟨env, by rw [hstmts.cpp]; rfl, hmatches.mono (by simp), .refl⟩

/-- Nor do they in front of others. -/
theorem behindSilent (h : Carries m limit arena results inside held t run stmts t')
    (hstmts : Silent stmts') :
    Carries m limit arena results inside held t run (stmts' ++ stmts) t' := by
  refine ⟨h.grows, h.holding, stmtsReadable_append.2 ⟨hstmts.readable, h.readable⟩, ?_⟩
  rw [Simulates, stmtsCpp_append, hstmts.cpp]
  exact h.simulates

/-- A run that does less is carried as well. -/
theorem congr (h : Carries m limit arena results inside held t run stmts t')
    (hrun : ∀ σ σ', run' σ = some σ' → run σ = some σ') :
    Carries m limit arena results inside held t run' stmts t' :=
  ⟨h.grows, h.holding, h.readable, h.simulates.congr hrun⟩

/-- What two lists carry out is carried out one behind the other. -/
theorem append (h : Carries m limit arena results inside held t run stmts t')
    (h' : Carries m limit arena results' inside' (fun id => id ∈ results ∨ held id) t' run' stmts'
      t'') :
    Carries m limit arena (results ++ results') (inside ++ inside') held t
      (fun σ => do run' (← run σ)) (stmts ++ stmts') t'' := by
  have hheld : ∀ id, id ∈ results ++ results' ∨ held id →
      id ∈ results' ∨ id ∈ results ∨ held id := by
    intro id hid
    rw [List.mem_append, or_assoc] at hid
    exact or_left_comm.1 hid
  refine ⟨?_, h'.holding.mono hheld, stmtsReadable_append.2 ⟨h.readable, h'.readable⟩, ?_⟩
  · refine NameTable.Grows.trans (h.grows.mono fun id hid => ?_) (h'.grows.mono fun id hid => ?_)
    · exact hid.imp (List.mem_append_left _) (List.mem_append_left _)
    · exact hid.imp (List.mem_append_right _) (List.mem_append_right _)
  -- the second list is executed where the first one stops
  · intro σ σ' env hmatches hrun
    obtain ⟨env', hexec, hmatches', hextends⟩ :=
      h.simulates.append h'.simulates h.grows.size_le σ σ' env hmatches hrun
    exact ⟨env', hexec, hmatches'.mono hheld, hextends⟩

/-- Some of the results may be forgotten. -/
theorem weaken (h : Carries m limit arena results inside held t run stmts t')
    (hresults : ∀ id ∈ results', id ∈ results)
    (hinside : ∀ id, id ∈ results ∨ id ∈ inside → id ∈ results' ∨ id ∈ inside') :
    Carries m limit arena results' inside' held t run stmts t' := by
  have hheld : ∀ id, id ∈ results' ∨ held id → id ∈ results ∨ held id :=
    fun id hid => hid.imp_left (hresults id)
  refine ⟨h.grows.mono hinside, h.holding.mono hheld, h.readable, ?_⟩
  intro σ σ' env hmatches hrun
  obtain ⟨env', hexec, hmatches', hextends⟩ := h.simulates σ σ' env hmatches hrun
  exact ⟨env', hexec, hmatches'.mono hheld, hextends⟩

/-- Results that have been held before are no news. -/
theorem settle (h : Carries m limit arena results inside held t run stmts t')
    (hheld : Holding arena t held) (hresults : ∀ id ∈ results, held id) :
    Carries m limit arena [] inside held t run stmts t' := by
  refine ⟨h.grows.restrict fun id hid => ?_, h.holding.mono fun id hid => ?_, h.readable, ?_⟩
  · exact hid.imp (fun hid => hheld.isBound (hresults id hid)) .inr
  · exact .inr (hid.resolve_left (by simp))
  · intro σ σ' env hmatches hrun
    obtain ⟨env', hexec, hmatches', hextends⟩ := h.simulates σ σ' env hmatches hrun
    exact ⟨env', hexec, hmatches'.mono fun id hid => .inr (hid.resolve_left (by simp)), hextends⟩

/-- A state that says less matches as well. -/
theorem forget (h : Carries m limit arena results inside held t run stmts t')
    (hrun : ∀ σ σ', run' σ = some σ' → ∃ more, run σ = some more ∧
      ∀ id content, σ' id = some content → more id = some content) :
    Carries m limit arena results inside held t run' stmts t' := by
  refine ⟨h.grows, h.holding, h.readable, fun σ σ' env hmatches hrun' => ?_⟩
  obtain ⟨more, hmore, hless⟩ := hrun σ σ' hrun'
  obtain ⟨env', hexec, hmatches', hextends⟩ := h.simulates σ more env hmatches hmore
  exact ⟨env', hexec, hmatches'.weaken fun id _ => hless id, hextends⟩

end Carries

/-! ## Targets -/

/-- How the target of a statement is mentioned: it is used if it is held, else declared. -/
inductive Targets (arena : Arena) (held : ValueId → Prop) (t : NameTable) (pointer : Bool)
    (id : ValueId) : Mention → NameTable → Prop
  | use (hid : held id) : Targets arena held t pointer id (.use (arena.use t id)) t
  | declare {type : String} (hfree : t.binding? id = none)
      (htype : (arena.info id).elem.cppName? = some type) :
      Targets arena held t pointer id (.declare id (some type) ⟨t.size, pointer⟩)
        (t.insert id (.declared ⟨t.size, pointer⟩))

namespace Targets

variable {pointer : Bool} {target : Mention}

/-- A target adds its own name, if it needs one. -/
theorem grows (h : Targets arena held t pointer id target t')
    (hconst : arena.constantText? id = none) : t.Grows arena (· = id) t' := by
  cases h with
  | use hid => exact .refl
  | declare hfree htype => exact .declare pointer .refl rfl hfree hconst

/-- A target is held behind its mention. -/
theorem holding (h : Targets arena held t pointer id target t') (hheld : Holding arena t held)
    (hconst : arena.constantText? id = none) (hknown : arena.Known id)
    (hpointer : pointer = true → (arena.info id).isShaped = false) :
    Holding arena t' fun id' => id' = id ∨ held id' := by
  cases h with
  | use hid =>
    refine hheld.mono ?_
    rintro id' (rfl | hid')
    · exact hid
    · exact hid'
  -- A new name is the next one; the values held before keep theirs.
  | @declare type hfree htype =>
    have hgrows : t.Grows arena (· = id) (t.insert id (.declared ⟨t.size, pointer⟩)) :=
      .declare pointer .refl rfl hfree hconst
    have hothers := hheld.grows hgrows
    refine ⟨hothers.valid, ?_, ?_⟩
    · rintro id' (rfl | hid')
      · exact hknown
      · exact hothers.known id' hid'
    · rintro id' (rfl | hid') hconst'
      · exact ⟨⟨t.size, pointer⟩, by simp, hpointer⟩
      · exact hothers.named id' hid' hconst'

end Targets

end Simulation

namespace Emission

variable {m : Machine V} {meaning : Meaning V} {limit : Nat} {c : Contract}
variable {function : Option String} {t t' : NameTable} {held : ValueId → Prop} {id : ValueId}

/-- A value whose turn has come is mentioned. -/
theorem places_target (pointer : Bool) (op : Option Op) (h : Awaits c held t id)
    (hconst : c.arena.constantText? id = none) :
    Places c function t (mentionAs pointer op id) (Targets c.arena held t pointer id) := by
  have hknown := c.known id h.value
  intro hclean
  cases hbinding : t.binding? id with
  | some binding =>
    have hbound : c.arena.isBound t id = true :=
      Arena.isBound_iff.2 (.inl (NameTable.isDeclared_iff.2 ⟨binding, hbinding⟩))
    rw [mentionAs_of_bound hbound]
    exact .use (h.declared binding hbinding)
  | none =>
    have hbound := Arena.isBound_eq_false_iff.2 ⟨hbinding, hconst⟩
    rw [mentionAs_of_free hknown hbound] at hclean ⊢
    cases htype : (c.arena.info id).elem.cppName? with
    | some type => exact .declare hbinding htype
    | none =>
      -- a missing type would have been reported
      have herror := hclean.raised _ (by simp [htype]; rfl)
      cases herror

/-! ## Scalars -/

/-- A scalar is set to what the value of an expression is converted to. -/
theorem carries_setScalar (hs : Supports m meaning c limit) (h : Holding c.arena t held)
    (hid : c.values id) (hconst : c.arena.constantText? id = none) {target : Mention}
    (htarget : Targets c.arena held t false id target t') {value : Expr}
    (hreadable : value.Readable true) {f : State V → Option V}
    (hvalue : ∀ σ env, Matches m c.arena t' held σ env →
      SetsAlike m meaning c.arena id (f σ) (m.eval env value.cpp))
    (note : Option Note) :
    Carries m limit c.arena [id] [] held t (fun σ => do meaning.setScalar c.arena σ id (← f σ))
      [.assign .set (.mention target) value note] t' := by
  have hset {σ σ' : State V}
      (hrun : (do meaning.setScalar c.arena σ id (← f σ)) = some σ') : ∃ converted,
        (c.arena.info id).isShaped = false ∧
          (do meaning.convert (c.arena.info id).elem (← f σ)) = some converted ∧
            σ' = σ.set id (.scalar (some converted)) := by
    obtain ⟨value, hvalue, hrun⟩ := Option.bind_eq_some_iff.1 hrun
    obtain ⟨converted, hshaped, hconvert, rfl⟩ := of_setScalar hrun
    exact ⟨converted, hshaped, Option.bind_eq_some_iff.2 ⟨value, hvalue, hconvert⟩, rfl⟩
  refine ⟨(htarget.grows hconst).mono (by simp), ?_, ?_, ?_⟩
  · refine (htarget.holding h hconst (hs.known hid) (by simp)).mono fun id' hid' => ?_
    rwa [List.mem_singleton] at hid'
  · refine ⟨⟨?_, hreadable⟩, trivial⟩
    cases htarget with
    | use hid => exact .place (h.readable_use hid false)
    | declare hfree htype => exact .declare ⟨id, t.size, htype⟩
  · intro σ σ' env hmatches hrun
    obtain ⟨converted, hshaped, hconverted, rfl⟩ := hset hrun
    simp only [List.mem_singleton]
    cases htarget with
    -- A name that is there is assigned to.
    | use hheld =>
      obtain ⟨_, _, -, -, hfits, -⟩ := hmatches.objects id hheld hconst
      obtain ⟨type, htype⟩ := hfits.exists_type
      obtain ⟨number, heval, hconvert⟩ :=
        Option.bind_eq_some_iff.1 (hvalue σ env hmatches type htype converted hconverted)
      obtain ⟨env', hstore, hmatches', hnames⟩ :=
        hmatches.store_scalar h.valid hheld hconst hshaped htype hconvert
      refine ⟨env', ?_, hmatches'.mono ?_, .of_names hnames⟩
      · show m.execAll limit [.assign _ _] env = _
        rw [execAll_singleton]
        exact Option.bind_eq_some_iff.2 ⟨number, heval, hstore⟩
      · rintro id' (rfl | hid')
        · exact hheld
        · exact hid'
    -- A new name is defined by the assignment, and visible in its right side.
    | @declare type hfree htype =>
      obtain ⟨htypeName, -⟩ := Code.typeCpp_eq htype
      obtain ⟨object, hdefine, hmatches'⟩ := hmatches.define_scalar h.valid hconst hfree hshaped htype
        fun env' henv' => hvalue σ env' henv' _ htypeName converted hconverted
      refine ⟨_, ?_, hmatches', .cons (Nat.le_refl _)⟩
      show m.execAll limit [.define _ _ _] env = _
      rw [execAll_singleton]
      exact hdefine

/-! ## Declarations without a content -/

/-- Nothing is refined by the content of any object that fits. -/
theorem blank_refines {object : Object V} {pointer : Bool} (h : object.Fits m c.arena id pointer) :
    (if (c.arena.info id).isShaped then Content.array fun _ => none else .scalar none).Refines
      object.content := by
  cases object with
  | scalar type value => rw [h.2.1]; exact fun _ hnone => by cases hnone
  | pointer type value => rw [h.2.1]; exact fun _ hnone => by cases hnone
  | array type extents elements => rw [h.2.1]; exact fun _ _ hnone => by cases hnone

/-- A value whose object is there needs no declaration. -/
theorem carries_setBlank (h : Holding c.arena t held) (hid : held id)
    (hconst : c.arena.constantText? id = none) :
    Carries m limit c.arena [id] [] held t (fun σ => some (Meaning.setBlank c.arena σ id)) [] t := by
  have hheld : ∀ id', id' ∈ [id] ∨ held id' → held id' := by
    rintro id' (hid' | hid')
    · rwa [List.mem_singleton.1 hid']
    · exact hid'
  refine ⟨.refl, h.mono hheld, trivial, ?_⟩
  rintro σ _ env hmatches ⟨⟩
  refine ⟨env, rfl, ?_, .refl⟩
  obtain ⟨name, object, hname, hlookup, hfits, -⟩ := hmatches.objects id hid hconst
  have hassign := (hmatches.mono fun _ hid' => hid'.1).assign h.valid hconst hname hlookup hfits
    (blank_refines hfits)
  rw [Env.assign_of_lookup hlookup] at hassign
  exact hassign.mono fun id' hid' => .inr (hheld id' hid')

/-- A declaration of a value without a name. -/
theorem carries_declaration (hs : Supports m meaning c limit) (h : Holding c.arena t held)
    (hid : c.values id) (hconst : c.arena.constantText? id = none) (hfree : t.binding? id = none)
    {type : String} (htype : (c.arena.info id).elem.cppName? = some type) {extents : List Int64}
    (hextents : (c.arena.info id).shape.extents? = some extents) (note : Option Note) :
    Carries m limit c.arena [id] [] held t (fun σ => some (Meaning.setBlank c.arena σ id))
      [.declaration ⟨.declare id (some type) ⟨t.size, false⟩, extents⟩ note]
      (t.insert id (.declared ⟨t.size, false⟩)) := by
  have htarget : Targets c.arena held t false id (.declare id (some type) ⟨t.size, false⟩)
      (t.insert id (.declared ⟨t.size, false⟩)) := .declare hfree htype
  have hcounts := hs.counts id hid extents hextents
  have hpositive := Shape.extents_nonneg (hs.static id hid) hextents
  refine ⟨(htarget.grows hconst).mono (by simp), ?_, ?_, ?_⟩
  · refine (htarget.holding h hconst (hs.known hid) (by simp)).mono fun id' hid' => ?_
    rwa [List.mem_singleton] at hid'
  · exact ⟨⟨⟨⟨false, id, t.size, htype⟩, hpositive⟩, id, t.size, htype⟩, trivial⟩
  · rintro σ _ env hmatches ⟨⟩
    obtain ⟨htypeName, -⟩ := Code.typeCpp_eq htype
    obtain ⟨object, hblank, hfits, hcontent⟩ := exists_blank (hs.static id hid) hextents
      (fun extent hextent => (hcounts extent hextent).1) htypeName
    refine ⟨(Name.identifier ⟨t.size, false⟩, object) :: env, ?_, ?_, .cons (Nat.le_refl _)⟩
    · show m.execAll limit [.declare _ _ _] env = _
      rw [execAll_singleton]
      exact Option.bind_eq_some_iff.2 ⟨object, hblank, rfl⟩
    · simp only [List.mem_singleton]
      -- The new name hides nothing, so the other values are matched as before.
      refine (hmatches.setOther _ (hmatches.not_held hconst hfree)).declare h.valid hconst hfree hfits
        fun content hset => ?_
      rw [State.set_self, Option.some.injEq] at hset
      exact hset ▸ blank_refines hfits

/-- A declaration of a value that has no name yet, with the extents of the value. -/
inductive Introduces (arena : Arena) (t : NameTable) (pointer : Bool) (id : ValueId) :
    Declarator → NameTable → Prop
  | declare {type : String} {extents : List Int64} (hfree : t.binding? id = none)
      (htype : (arena.info id).elem.cppName? = some type)
      (hextents : (arena.info id).shape.extents? = some extents) :
      Introduces arena t pointer id ⟨.declare id (some type) ⟨t.size, pointer⟩, extents⟩
        (t.insert id (.declared ⟨t.size, pointer⟩))

/-- A value without a name is declared where it is mentioned. -/
theorem places_introduction {pointer : Bool} (op : Option Op) (hid : c.values id)
    (hconst : c.arena.constantText? id = none) (hfree : t.binding? id = none) {extents : List Int64}
    (hextents : (c.arena.info id).shape.extents? = some extents) :
    Places c function t (do return ⟨← mentionAs pointer op id, extents⟩)
      (Introduces c.arena t pointer id) := by
  have hawaits : Awaits c (fun _ => False) t id :=
    ⟨hid, fun binding hbinding => by rw [hfree] at hbinding; cases hbinding⟩
  refine .bind ((places_target pointer op hawaits hconst).mono ?_)
  intro target t' htarget
  cases htarget with
  | use hnot => exact hnot.elim
  | declare _ htype => exact .pure (.declare hfree htype hextents)

/-- An array without a name is declared. -/
theorem introduces_array (op : Option Op) (hid : c.values id)
    (hconst : c.arena.constantText? id = none) (hfree : t.binding? id = none) :
    Places c function t (arrayDeclarator op id) (Introduces c.arena t false id) := by
  refine .bindQuiet (info_apply (c.known id hid)) ?_
  split
  · next extents hextents => exact places_introduction op hid hconst hfree hextents
  · exact .bindError rfl

/-- A value without a name is declared. -/
theorem introduces_declarator (op : Option Op) (hid : c.values id)
    (hconst : c.arena.constantText? id = none) (hfree : t.binding? id = none) :
    Places c function t (declarator op id) (Introduces c.arena t false id) := by
  refine .bindQuiet (info_apply (c.known id hid)) ?_
  split
  · exact introduces_array op hid hconst hfree
  · next hshaped =>
    exact places_introduction op hid hconst hfree
      (Shape.extents?_of_scalar (Bool.not_eq_true _ ▸ hshaped))

/-- What is declared holds nothing yet. -/
theorem Introduces.carries {declarator : Declarator} (h : Introduces c.arena t false id declarator t')
    (hs : Supports m meaning c limit) (hholding : Holding c.arena t held) (hid : c.values id)
    (hconst : c.arena.constantText? id = none) (note : Option Note) :
    Carries m limit c.arena [id] [] held t (fun σ => some (Meaning.setBlank c.arena σ id))
      [.declaration declarator note] t' := by
  cases h with
  | declare hfree htype hextents =>
    exact carries_declaration hs hholding hid hconst hfree htype hextents note

/-- The results of a conditional are declared in front of it, and hold nothing. -/
theorem carries_predeclare (hs : Supports m meaning c limit) (op : Op) {ids : List ValueId}
    (h : Holding c.arena t held)
    (hids : ∀ id ∈ ids, Awaits c held t id ∧ c.arena.constantText? id = none) :
    Places c function t (predeclare op ids)
      (Carries m limit c.arena ids [] held t fun σ => some (σ.clear ids)) := by
  -- Clearing a value leaves no more than a blank does.
  have hclear (σ : State V) (id : ValueId) (rest : List ValueId) (id' : ValueId)
      (content : Content V) (hcontent : σ.clear (id :: rest) id' = some content) :
      (Meaning.setBlank c.arena σ id).clear rest id' = some content := by
    unfold State.clear at hcontent ⊢
    split at hcontent
    · cases hcontent
    · next hnot =>
      rw [List.mem_cons, not_or] at hnot
      rw [if_neg hnot.2, Meaning.setBlank, State.set_of_ne hnot.1]
      exact hcontent
  induction ids generalizing t held with
  | nil =>
    refine .pure ((Carries.silent h .nil).forget ?_)
    rintro σ σ' ⟨⟩
    exact ⟨σ, rfl, fun id content hcontent => by simpa [State.clear] using hcontent⟩
  | cons id rest ih =>
    rw [List.forall_mem_cons] at hids
    obtain ⟨⟨hid, hconst⟩, hrest⟩ := hids
    -- Behind the first declaration the others are declared in the same way.
    have hbehind {stmts : List Stmt} {t' : NameTable} (hfirst : Carries m limit c.arena [id] [] held t
        (fun σ => some (Meaning.setBlank c.arena σ id)) stmts t') :
        Places c function t' (predeclare op rest) fun stmts' t'' =>
          Carries m limit c.arena (id :: rest) [] held t (fun σ => some (σ.clear (id :: rest)))
            (stmts ++ stmts') t'' := by
      refine (ih hfirst.holding fun id' hid' => ?_).mono fun stmts' t'' hstmts' => ?_
      · obtain ⟨hawaits, hconst'⟩ := hrest id' hid'
        exact ⟨hawaits.grows hfirst.grows (fun _ => .inr) fun hid' => .inl (by simpa using hid'), hconst'⟩
      · refine (hfirst.append hstmts').forget ?_
        rintro σ σ' ⟨⟩
        exact ⟨_, rfl, hclear σ id rest⟩
    refine .bindQuiet (isBound_apply (c.known id hid.value)) ?_
    split
    · next hbound =>
      obtain ⟨binding, hbinding⟩ := binding_of_bound hconst hbound
      exact hbehind (carries_setBlank h (hid.declared binding hbinding) hconst)
    · next hbound =>
      have hfree := (Arena.isBound_eq_false_iff.1 (Bool.not_eq_true _ ▸ hbound)).1
      refine .bind ((introduces_declarator (some op) hid.value hconst hfree).mono ?_)
      intro first t' hfirst
      refine .bind ((hbehind (hfirst.carries hs h hid.value hconst none)).mono fun stmts t'' hstmts => ?_)
      exact .pure hstmts

end Emission

end HlsEmit
