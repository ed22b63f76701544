import HlsEmit.Execution.Implements
import HlsEmit.Proofs.History

/-!
# States and objects

The state of the evaluation and the objects of the generated code hold the same. `Matches` says so
for the values that are `held`: those whose objects are visible. An object may hold more than its
value does, which counts only from the operation on that sets it: the port of a returned value is
there from the start.

Behind a block, the objects of its own are gone and all others are as they were left. `Env.Extends`
is what code makes of the visible objects up to there.

## Key results

- `Matches.declare`, `Matches.assign`: a value and its object are set together
- `Matches.leave`: what is left of the objects behind a block
-/

namespace HlsEmit

open Cpp (Object Machine Env)

variable {V : Type}

/-! ## Contents -/

/-- Every value refines itself. -/
theorem Refines.refl {α : Type} (value : Option α) : Refines value value :=
  fun _ h => h

/-- Whatever has no result is followed by anything. -/
theorem Refines.none {α : Type} {actual : Option α} : Refines Option.none actual :=
  fun _ h => by cases h

/-- Two steps refine two steps. -/
theorem Refines.bind {α β : Type} {x y : Option α} {f g : α → Option β} (h : Refines x y)
    (hnext : ∀ value, x = some value → Refines (f value) (g value)) :
    Refines (x >>= f) (y >>= g) := by
  intro result hresult
  obtain ⟨value, hx, hf⟩ := Option.bind_eq_some_iff.1 hresult
  exact Option.bind_eq_some_iff.2 ⟨value, h value hx, hnext value hx result hf⟩

/-- Every content refines itself. -/
theorem Content.Refines.refl : (content : Content V) → content.Refines content
  | .scalar value => HlsEmit.Refines.refl value
  | .array elements => fun indices => HlsEmit.Refines.refl (elements indices)

/-- A scalar that has been set is followed by a scalar that is the same. -/
theorem Content.Refines.scalar {value : V} {content : Content V}
    (h : (Content.scalar (some value)).Refines content) : content = .scalar (some value) := by
  cases content with
  | scalar value' => exact congrArg Content.scalar (h value rfl)
  | array elements => exact h.elim

/-- A value that is set to either of these is set to the same: what the first is converted to in the
evaluation, the second is converted to in C++. -/
def SetsAlike (m : Machine V) (meaning : Meaning V) (arena : Arena) (id : ValueId)
    (expected actual : Option V) : Prop :=
  ∀ type, (arena.info id).elem.typeName? = some type →
    Refines (do meaning.convert (arena.info id).elem (← expected)) (do m.convert type (← actual))

/-- A refined value is set alike. -/
theorem SetsAlike.of_refines {m : Machine V} {meaning : Meaning V} (hm : m.Implements meaning)
    {arena : Arena} {id : ValueId} {expected actual : Option V} (h : Refines expected actual) :
    SetsAlike m meaning arena id expected actual :=
  fun type htype => h.bind fun value _ => hm.convert _ type htype value

/-! ## Objects -/

/-- An object is of the kind, the type and the extents of a value, and what it holds are numbers of
that type. -/
def Cpp.Object.Fits (m : Machine V) (arena : Arena) (id : ValueId) (pointer : Bool) : Object V → Prop
  | .scalar type value =>
    pointer = false ∧ (arena.info id).isShaped = false ∧
      (arena.info id).elem.typeName? = some type ∧ ∀ x ∈ value, m.HasType type x
  | .pointer type value =>
    pointer = true ∧ (arena.info id).isShaped = false ∧
      (arena.info id).elem.typeName? = some type ∧ ∀ x ∈ value, m.HasType type x
  | .array type extents elements =>
    pointer = false ∧ (arena.info id).isShaped = true ∧
      (arena.info id).elem.typeName? = some type ∧ arena.bounds? id = some extents ∧
        ∀ indices, ∀ x ∈ elements indices, m.HasType type x

/-- What a number is converted to is of the type. -/
theorem hasType_of_bind {m : Machine V} {type : Cpp.TypeName} {value : Option V} {x : V}
    (h : value.bind (m.convert type) = some x) : m.HasType type x := by
  obtain ⟨other, -, hconvert⟩ := Option.bind_eq_some_iff.1 h
  exact ⟨other, hconvert⟩

/-- A value with an object is of a type of C++. -/
theorem Cpp.Object.Fits.exists_type {m : Machine V} {arena : Arena} {id : ValueId} {pointer : Bool}
    {object : Object V} (h : object.Fits m arena id pointer) :
    ∃ type, (arena.info id).elem.typeName? = some type := by
  cases object with
  | scalar type value => exact ⟨type, h.2.2.1⟩
  | pointer type value => exact ⟨type, h.2.2.1⟩
  | array type extents elements => exact ⟨type, h.2.2.1⟩

namespace Cpp.Env

variable {env env' env'' : Env V} {name other : String} {object : Object V} {given given' : Nat}

/-- The object of another name is passed over. -/
theorem lookup_cons_of_ne (h : other ≠ name) :
    ((name, object) :: env : Env V).lookup other = env.lookup other := by
  have hne : (other == name) = false := by simpa using h
  rw [List.lookup_cons, hne]

/-- Assigning keeps the names. -/
theorem names_assign (name : String) (object : Object V) (env : Env V) :
    (env.assign name object).map Prod.fst = env.map Prod.fst := by
  induction env with
  | nil => rfl
  | cons entry rest ih =>
    rw [assign]
    split
    · rfl
    · rw [List.map_cons, List.map_cons, ih]

/-- Assigning leaves the objects of other names. -/
theorem lookup_assign_of_ne (h : other ≠ name) (object : Object V) (env : Env V) :
    (env.assign name object).lookup other = env.lookup other := by
  induction env with
  | nil => rfl
  | cons entry rest ih =>
    rw [assign]
    split
    · next heq => rw [← heq] at h; rw [lookup_cons_of_ne h, lookup_cons_of_ne h]
    · rw [List.lookup_cons, List.lookup_cons, ih]

/-- The latest declaration of a name is the one that is set. -/
theorem lookup_assign {before : Object V} (h : env.lookup name = some before) (object : Object V) :
    (env.assign name object).lookup name = some object := by
  induction env with
  | nil => cases h
  | cons entry rest ih =>
    rw [assign]
    split
    · next heq => rw [← heq, List.lookup_cons_self]
    · next hne =>
      rw [lookup_cons_of_ne fun heq => hne heq.symm] at h ⊢
      exact ih h

/-- An object that is set to what it is. -/
theorem assign_of_lookup (h : env.lookup name = some object) : env.assign name object = env := by
  induction env with
  | nil => cases h
  | cons entry rest ih =>
    rw [assign]
    split
    · next heq =>
      rw [← heq, List.lookup_cons_self, Option.some.injEq] at h
      rw [← h]
    · next hne =>
      rw [lookup_cons_of_ne fun heq => hne heq.symm] at h
      rw [ih h]

/-- What is set twice is as it was set last. -/
theorem assign_assign (name : String) (before object : Object V) (env : Env V) :
    (env.assign name before).assign name object = env.assign name object := by
  induction env with
  | nil => rfl
  | cons entry rest ih =>
    rw [assign, assign]
    split
    · next heq => rw [assign, if_pos heq]
    · next hne => rw [assign, if_neg hne, ih]

/-- A name that is not there is not there either where the names are the same. -/
theorem lookup_eq_none_of_names (h : env'.map Prod.fst = env.map Prod.fst)
    (hnone : env.lookup name = none) : env'.lookup name = none := by
  have hnames : ∀ names : Env V, names.lookup name = none ↔ name ∉ names.map Prod.fst := by
    intro names
    rw [List.lookup_eq_none_iff, List.mem_map]
    constructor
    · rintro hall ⟨entry, hentry, rfl⟩
      simpa using hall entry hentry
    · intro hnot entry hentry
      exact bne_iff_ne.2 fun heq => hnot ⟨entry, hentry, heq.symm⟩
  rw [hnames] at hnone ⊢
  rwa [h]

/-! ### Further objects -/

/-- In front of the objects that were there, and may have been set since, stand objects with numbers
that had not been given then. -/
def Extends (given : Nat) (env env' : Env V) : Prop :=
  ∃ added : List Name, (∀ name ∈ added, given ≤ name.number) ∧
    env'.map Prod.fst = added.map Name.identifier ++ env.map Prod.fst

namespace Extends

/-- The same names extend a scope by nothing. -/
theorem of_names (h : env'.map Prod.fst = env.map Prod.fst) : Extends given env env' :=
  ⟨[], by simp, h⟩

/-- A scope extends itself. -/
theorem refl : Extends given env env :=
  of_names rfl

/-- A scope is extended by a new name. -/
theorem cons {name : Name} (h : given ≤ name.number) :
    Extends given env ((name.identifier, object) :: env) :=
  ⟨[name], by simpa using h, rfl⟩

/-- A scope is extended step by step. -/
theorem trans (h : Extends given env env') (h' : Extends given' env' env'') (hle : given ≤ given') :
    Extends given env env'' := by
  obtain ⟨added, hadded, hnames⟩ := h
  obtain ⟨added', hadded', hnames'⟩ := h'
  refine ⟨added' ++ added, ?_, by rw [hnames', hnames, List.map_append, List.append_assoc]⟩
  intro name hname
  rcases List.mem_append.1 hname with hname | hname
  · exact Nat.le_trans hle (hadded' name hname)
  · exact hadded name hname

/-- The objects that are left behind a block are those that were there in front of it. -/
theorem names_leave (h : Extends given env env') :
    (env'.leave env.length).map Prod.fst = env.map Prod.fst := by
  obtain ⟨added, -, hnames⟩ := h
  have hlength := congrArg List.length hnames
  simp only [List.length_map, List.length_append] at hlength
  rw [leave, List.map_drop, hnames, List.drop_left' (by rw [List.length_map]; omega)]

/-- What was visible in front of a block is found again behind it. -/
theorem lookup_leave (h : Extends given env env')
    (hname : ∀ number, given ≤ number → name ≠ Name.identifier ⟨number, false⟩) :
    (env'.leave env.length).lookup name = env'.lookup name := by
  obtain ⟨added, hadded, hnames⟩ := h
  obtain ⟨front, back, rfl, hfront, hback⟩ := List.map_eq_append_iff.1 hnames
  have hlength := congrArg List.length hback
  simp only [List.length_map] at hlength
  have hleave : leave (front ++ back) env.length = back := by
    rw [leave, List.drop_left' (by rw [List.length_append]; omega)]
  -- What is left behind has new names only, and the name is not new.
  have hnone : List.lookup name front = none := by
    rw [List.lookup_eq_none_iff]
    intro entry hentry
    have hmem : entry.1 ∈ added.map Name.identifier := hfront ▸ List.mem_map_of_mem hentry
    obtain ⟨number, hnumber, heq⟩ := List.mem_map.1 hmem
    refine bne_iff_ne.2 fun h => hname number.number (hadded number hnumber) ?_
    rw [h, ← heq]
    rfl
  rw [hleave, List.lookup_append, hnone, Option.none_or]

end Extends

end Cpp.Env

/-! ## States and objects -/

/-- The values that are held stand for what their objects hold. -/
structure Matches (m : Machine V) (arena : Arena) (t : NameTable) (held : ValueId → Prop)
    (σ : State V) (env : Env V) : Prop where
  literals : ∀ id text content, held id → arena.constantText? id = some text →
    σ id = some content → ∃ value, content = .scalar (some value) ∧ m.literal text = some value
  objects : ∀ id, held id → arena.constantText? id = none → ∃ name object,
    t.binding? id = some (.declared name) ∧ env.lookup name.identifier = some object ∧
      object.Fits m arena id name.pointer ∧ ∀ content, σ id = some content →
        content.Refines object.content
  /-- The only name of a literal is not that of an object. -/
  plain : env.lookup "INFINITY" = none

/-- No value is named like the infinite literal. -/
theorem Name.identifier_ne_infinity (name : Name) : name.identifier ≠ "INFINITY" := by
  intro h
  have hfirst : name.identifier.toList.head? = some 'v' := by
    rw [Name.identifier, String.toList_append]
    rfl
  rw [h] at hfirst
  exact absurd hfirst (by decide)

/-- A scalar has a number if its content is that number. -/
theorem State.scalar?_eq_some_iff {σ : State V} {id : ValueId} {value : V} :
    σ.scalar? id = some value ↔ σ id = some (.scalar (some value)) := by
  unfold State.scalar?
  split <;> simp_all

namespace State

variable {σ : State V} {id other : ValueId} {content : Content V}

/-- What is set is there. -/
@[simp] theorem set_self : σ.set id content id = some content := by
  simp [set]

/-- Other values are not set. -/
theorem set_of_ne (h : other ≠ id) : σ.set id content other = σ other := by
  simp [set, h]

end State

namespace Matches

variable {m : Machine V} {arena : Arena} {t t' : NameTable} {held held' : ValueId → Prop}
variable {σ σ' : State V} {env env' : Env V} {id : ValueId} {P : ValueId → Prop}

/-- Fewer values are matched. -/
theorem mono (h : Matches m arena t held σ env) (hheld : ∀ id, held' id → held id) :
    Matches m arena t held' σ env :=
  ⟨fun id text content hid => h.literals id text content (hheld id hid),
    fun id hid => h.objects id (hheld id hid), h.plain⟩

/-- A state that says less. -/
theorem weaken (h : Matches m arena t held σ env)
    (hσ : ∀ id, held id → ∀ content, σ' id = some content → σ id = some content) :
    Matches m arena t held σ' env := by
  refine ⟨fun id text content hid htext hcontent => ?_, fun id hid hconst => ?_, h.plain⟩
  · exact h.literals id text content hid htext (hσ id hid content hcontent)
  · obtain ⟨name, object, hname, hlookup, hfits, hcontent⟩ := h.objects id hid hconst
    exact ⟨name, object, hname, hlookup, hfits, fun content hid' =>
      hcontent content (hσ id hid content hid')⟩

/-- The names that were given stay. -/
theorem grows (h : Matches m arena t held σ env) (hgrows : t.Grows arena P t') :
    Matches m arena t' held σ env := by
  refine ⟨h.literals, fun id hid hconst => ?_, h.plain⟩
  obtain ⟨name, object, hname, hrest⟩ := h.objects id hid hconst
  exact ⟨name, object, hgrows.binding?_eq hname, hrest⟩

/-- The numbers of the objects of held values had all been given. -/
theorem number_lt (h : Matches m arena t held σ env) (hv : t.Valid arena) (hid : held id)
    (hconst : arena.constantText? id = none) :
    ∃ name, t.binding? id = some (.declared name) ∧ name.number < t.size := by
  obtain ⟨name, object, hname, -⟩ := h.objects id hid hconst
  exact ⟨name, hname, hv.number_lt hname⟩

/-- Another object in front, which no held value stands for. -/
theorem cons {name : String} (object : Object V) (h : Matches m arena t held σ env)
    (hplain : name ≠ "INFINITY") (hother : ∀ id name', held id →
      t.binding? id = some (.declared name') → name'.identifier ≠ name) :
    Matches m arena t held σ ((name, object) :: env) := by
  refine ⟨h.literals, fun id hid hconst => ?_, ?_⟩
  · obtain ⟨name', object', hname, hlookup, hrest⟩ := h.objects id hid hconst
    refine ⟨name', object', hname, ?_, hrest⟩
    rwa [Env.lookup_cons_of_ne (hother id name' hid hname)]
  · rw [Env.lookup_cons_of_ne hplain.symm]
    exact h.plain

/-- Another object in front, with a number that has not been given. -/
theorem fresh (name : Name) (object : Object V) (h : Matches m arena t held σ env)
    (hv : t.Valid arena) (hname : t.size ≤ name.number) :
    Matches m arena t held σ ((name.identifier, object) :: env) := by
  refine h.cons object name.identifier_ne_infinity fun id name' _ hname' heq => ?_
  have hlt := hv.number_lt hname'
  rw [Name.number_eq_of_identifier heq] at hlt
  omega

/-- The object of another value is set. -/
theorem assignOther {name : Name} (object : Object V) (h : Matches m arena t held σ env)
    (hv : t.Valid arena) (hname : t.binding? id = some (.declared name)) (hid : ¬held id) :
    Matches m arena t held σ (env.assign name.identifier object) := by
  refine ⟨h.literals, fun id' hid' hconst => ?_, ?_⟩
  · obtain ⟨name', object', hname', hlookup, hrest⟩ := h.objects id' hid' hconst
    refine ⟨name', object', hname', ?_, hrest⟩
    rw [Env.lookup_assign_of_ne fun heq => ?_, hlookup]
    have hsame := hv.ownName?_injective hname' hname (Name.number_eq_of_identifier heq)
    exact hid (hsame ▸ hid')
  · rw [Env.lookup_assign_of_ne name.identifier_ne_infinity.symm]
    exact h.plain

/-- A state that differs in values that are not held. -/
theorem congr (h : Matches m arena t held σ env) (hσ : ∀ id, held id → σ' id = σ id) :
    Matches m arena t held σ' env :=
  h.weaken fun id hid _ hcontent => hσ id hid ▸ hcontent

/-- A value without an object is not held. -/
theorem not_held (h : Matches m arena t held σ env) (hconst : arena.constantText? id = none)
    (hfree : t.binding? id = none) : ¬held id := by
  intro hid
  obtain ⟨name, object, hname, -⟩ := h.objects id hid hconst
  rw [hfree] at hname
  cases hname

/-- A value that is not held is set. -/
theorem setOther (h : Matches m arena t held σ env) (content : Content V) (hid : ¬held id) :
    Matches m arena t held (σ.set id content) env :=
  h.congr fun _ hid' => State.set_of_ne fun heq => hid (heq ▸ hid')

/-- One more value is held, whose object is there. -/
theorem hold {name : Name} {object : Object V} (h : Matches m arena t held σ env)
    (hconst : arena.constantText? id = none) (hname : t.binding? id = some (.declared name))
    (hlookup : env.lookup name.identifier = some object) (hfits : object.Fits m arena id name.pointer)
    (hcontent : ∀ content, σ id = some content → content.Refines object.content) :
    Matches m arena t (fun id' => id' = id ∨ held id') σ env := by
  refine ⟨?_, ?_, h.plain⟩
  · rintro id' text content (rfl | hid') htext hcontent'
    · rw [hconst] at htext
      cases htext
    · exact h.literals id' text content hid' htext hcontent'
  · rintro id' (rfl | hid') hconst'
    · exact ⟨name, object, hname, hlookup, hfits, hcontent⟩
    · exact h.objects id' hid' hconst'

/-- A value is set together with its object. -/
theorem assign {name : Name} {before object : Object V} {content : Content V}
    (h : Matches m arena t (fun id' => held id' ∧ id' ≠ id) σ env) (hv : t.Valid arena)
    (hconst : arena.constantText? id = none) (hname : t.binding? id = some (.declared name))
    (hlookup : env.lookup name.identifier = some before)
    (hfits : object.Fits m arena id name.pointer) (hcontent : content.Refines object.content) :
    Matches m arena t (fun id' => id' = id ∨ held id') (σ.set id content)
      (env.assign name.identifier object) := by
  -- The other values have other names, so they are matched as before.
  have hothers : Matches m arena t (fun id' => held id' ∧ id' ≠ id) (σ.set id content)
      (env.assign name.identifier object) :=
    (h.assignOther object hv hname fun hid => hid.2 rfl).setOther content fun hid => hid.2 rfl
  have hheld := hothers.hold hconst hname (Env.lookup_assign hlookup object) hfits
    (fun _ hcontent' => by
      rw [State.set_self, Option.some.injEq] at hcontent'
      exact hcontent' ▸ hcontent)
  refine hheld.mono fun id' hid' => ?_
  by_cases heq : id' = id
  · exact .inl heq
  · exact .inr ⟨hid'.resolve_left heq, heq⟩

/-- The object of a value is declared. -/
theorem declare {pointer : Bool} {object : Object V} (h : Matches m arena t held σ env)
    (hv : t.Valid arena) (hconst : arena.constantText? id = none) (hfree : t.binding? id = none)
    (hfits : object.Fits m arena id pointer)
    (hcontent : ∀ content, σ id = some content → content.Refines object.content) :
    Matches m arena (t.insert id (.declared ⟨t.size, pointer⟩)) (fun id' => id' = id ∨ held id') σ
      ((Name.identifier ⟨t.size, pointer⟩, object) :: env) := by
  have hgrows : t.Grows arena (fun _ => True) (t.insert id (.declared ⟨t.size, pointer⟩)) :=
    .declare pointer .refl trivial hfree hconst
  have hothers := (h.fresh ⟨t.size, pointer⟩ object hv (Nat.le_refl _)).grows hgrows
  exact hothers.hold hconst (by simp) List.lookup_cons_self hfits hcontent

/-- A value that is a literal is set to it. -/
theorem literal {text : String} {value : V} (h : Matches m arena t held σ env)
    (htext : arena.constantText? id = some text) (hvalue : m.literal text = some value) :
    Matches m arena t (fun id' => id' = id ∨ held id') (σ.set id (.scalar (some value))) env := by
  -- The literals, with the new one among them, then the objects, which are those of other values.
  refine ⟨?_, ?_, h.plain⟩
  · intro id' text' content' hid' htext' hcontent'
    by_cases heq : id' = id
    · rw [heq, State.set_self] at hcontent'
      rw [heq, htext] at htext'
      cases htext'
      cases hcontent'
      exact ⟨value, rfl, hvalue⟩
    · rw [State.set_of_ne heq] at hcontent'
      exact h.literals id' text' content' (hid'.resolve_left heq) htext' hcontent'
  · intro id' hid' hconst
    have hne : id' ≠ id := by
      rintro rfl
      rw [htext] at hconst
      cases hconst
    rw [State.set_of_ne hne]
    exact h.objects id' (hid'.resolve_left hne) hconst

/-- Behind a block, the values that were held in front of it are held again. -/
theorem leave (h : Matches m arena t held σ env) (hinside : Matches m arena t' held' σ' env')
    (hv : t.Valid arena) (hgrows : t.Grows arena P t') (hheld : ∀ id, held id → held' id)
    (hextends : Env.Extends t.size env env') :
    Matches m arena t held σ' (env'.leave env.length) := by
  refine ⟨fun id text content hid => hinside.literals id text content (hheld id hid), ?_, ?_⟩
  · intro id hid hconst
    obtain ⟨name, hname, hlt⟩ := h.number_lt hv hid hconst
    obtain ⟨name', object, hname', hlookup, hrest⟩ := hinside.objects id (hheld id hid) hconst
    rw [hgrows.binding?_eq hname] at hname'
    cases hname'
    refine ⟨name, object, hname, ?_, hrest⟩
    rw [hextends.lookup_leave, hlookup]
    intro number hnumber heq
    have hsame := Name.number_eq_of_identifier heq
    simp only at hsame
    omega
  · exact Env.lookup_eq_none_of_names hextends.names_leave h.plain

end Matches

end HlsEmit
