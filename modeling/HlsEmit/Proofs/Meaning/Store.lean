import HlsEmit.Proofs.Meaning.Expression

/-!
# Setting values together with their objects

What the evaluation sets and what an assignment or a declaration of the generated code sets go
together: a state and its objects match again behind both.

## Key results

- `Matches.store_scalar`, `Matches.store_element`: a value that is held
- `Matches.define_scalar`: a scalar that is declared where it is set
- `exists_blank`: a declaration without a content
-/

namespace HlsEmit

open Cpp (Object Machine Env)
open Code (Expr typeCpp)

/-- If all dimensions are known, each of them is. -/
theorem eq_map_some_of_mapM {α : Type} {dims : List (Option α)} {extents : List α}
    (h : dims.mapM id = some extents) : dims = extents.map some := by
  induction dims generalizing extents with
  | nil =>
    cases h
    rfl
  | cons dim rest ih =>
    rw [List.mapM_cons] at h
    obtain ⟨extent, hextent, h⟩ := Option.bind_eq_some_iff.1 h
    obtain ⟨others, hothers, h⟩ := Option.bind_eq_some_iff.1 h
    cases h
    rw [List.map_cons, ← ih hothers]
    exact congrArg (· :: rest) hextent

/-- The extents of a static array are not negative. -/
theorem Shape.extents_nonneg {shape : Shape} {extents : List Int64} (hstatic : shape.isStatic = true)
    (hextents : shape.extents? = some extents) : ∀ extent ∈ extents, 0 ≤ extent.toInt := by
  cases shape with
  | scalar =>
    cases hextents
    simp
  | unranked => cases hextents
  | ranked dims =>
    simp only [Shape.isStatic, Bool.and_eq_true] at hstatic
    intro extent hextent
    have hdim : some extent ∈ dims := by
      rw [eq_map_some_of_mapM hextents]
      exact List.mem_map_of_mem hextent
    have hpositive : 0 < extent := by simpa using List.all_eq_true.1 hstatic.2 _ hdim
    exact Int.le_of_lt (Int64.lt_iff_toInt_lt.1 hpositive)

/-- A scalar has no extents. -/
theorem Shape.extents?_of_scalar {shape : Shape} (h : shape.isShaped = false) :
    shape.extents? = some [] := by
  cases shape with
  | scalar => rfl
  | ranked dims => cases h
  | unranked => cases h

variable {V : Type} {m : Machine V} {meaning : Meaning V} {arena : Arena} {t t' : NameTable}
variable {held : ValueId → Prop} {σ σ' : State V} {env : Env V} {id : ValueId}

/-- What the elements are set to in the evaluation, they are set to in the object. -/
theorem refines_setElement {elements elements' : List Int → Option V}
    (h : ∀ indices, Refines (elements indices) (elements' indices)) (indices : List Int) (value : V) :
    (Content.array (setElement elements indices value)).Refines
      (.array (setElement elements' indices value)) := by
  intro others
  unfold setElement
  split
  · exact .refl _
  · exact h others

/-- An array holds numbers of its type if it did before and is set to one. -/
theorem hasType_setElement {type : Cpp.TypeName} {elements : List Int → Option V}
    (h : ∀ indices, ∀ x ∈ elements indices, m.HasType type x) (indices : List Int) {value converted : V}
    (hconvert : m.convert type value = some converted) :
    ∀ others, ∀ x ∈ setElement elements indices converted others, m.HasType type x := by
  intro others x hx
  unfold setElement at hx
  split at hx
  · cases hx
    exact ⟨value, hconvert⟩
  · exact h others x hx

/-- The extents of a value as numbers. -/
theorem Arena.bounds?_eq {extents : List Int64} (h : (arena.info id).shape.extents? = some extents) :
    arena.bounds? id = some (extents.map Int64.toInt) := by
  simp [bounds?, h]

/-- The extents are read back from their text. -/
theorem extents_eq {extents : List Int64}
    (h : ∀ extent ∈ extents, m.CountsTo extent.toInt) :
    m.extents (extents.map fun extent => toString extent.toInt) =
      some (extents.map Int64.toInt) := by
  induction extents with
  | nil => rfl
  | cons extent rest ih =>
    rw [List.forall_mem_cons] at h
    have hfirst : (do m.index (← m.constant (toString extent.toInt))) = some extent.toInt := h.1.bound
    rw [Machine.extents, List.map_cons, List.mapM_cons, hfirst]
    exact Option.bind_eq_some_iff.2 ⟨_, rfl, Option.bind_eq_some_iff.2 ⟨_, ih h.2, rfl⟩⟩

/-- A declaration without a content fits its value and holds nothing. -/
theorem exists_blank {extents : List Int64} {type : Cpp.TypeName}
    (hstatic : (arena.info id).shape.isStatic = true)
    (hextents : (arena.info id).shape.extents? = some extents)
    (hcounts : ∀ extent ∈ extents, m.CountsTo extent.toInt)
    (htype : (arena.info id).elem.typeName? = some type) :
    ∃ object, m.blank type (extents.map fun extent => toString extent.toInt) = some object ∧
      object.Fits m arena id false ∧
      object.content = if (arena.info id).isShaped then .array fun _ => none else .scalar none := by
  have hbounds := Arena.bounds?_eq hextents
  -- A scalar has no extents, an array has at least one.
  cases hshaped : (arena.info id).isShaped with
  | false =>
    have hnil : extents = [] :=
      (Option.some.inj ((Shape.extents?_of_scalar hshaped).symm.trans hextents)).symm
    subst hnil
    exact ⟨.scalar type none, rfl, ⟨rfl, hshaped, htype, by simp⟩, rfl⟩
  | true =>
    have hne : extents ≠ [] := by
      rintro rfl
      exact Arena.bounds?_ne_nil hstatic hshaped hbounds rfl
    have hextents' := extents_eq hcounts
    refine ⟨.array type (extents.map Int64.toInt) fun _ => none, ?_,
      ⟨rfl, hshaped, htype, hbounds, by simp⟩, rfl⟩
    obtain ⟨extent, rest, rfl⟩ := List.exists_cons_of_ne_nil hne
    rw [List.map_cons] at hextents' ⊢
    exact Option.bind_eq_some_iff.2 ⟨_, hextents', rfl⟩

/-- A scalar is set to what a number is converted to. -/
theorem of_setScalar {value : V} (h : meaning.setScalar arena σ id value = some σ') :
    ∃ converted, (arena.info id).isShaped = false ∧
      meaning.convert (arena.info id).elem value = some converted ∧
        σ' = σ.set id (.scalar (some converted)) := by
  unfold Meaning.setScalar at h
  split at h
  · cases h
  · next hshaped =>
    obtain ⟨content, hcontent, ⟨⟩⟩ := Option.bind_eq_some_iff.1 h
    rw [Meaning.content, if_neg hshaped] at hcontent
    obtain ⟨converted, hconvert, ⟨⟩⟩ := Option.bind_eq_some_iff.1 hcontent
    exact ⟨converted, Bool.eq_false_iff.2 hshaped, hconvert, rfl⟩

/-- The elements of an array that is computed. -/
theorem compute_array {bounds : List Int} {formula : List Int → Option V}
    (hshaped : (arena.info id).isShaped = true) (hbounds : arena.bounds? id = some bounds)
    (h : meaning.compute arena σ id formula = some σ') :
    (∀ indices ∈ allIndices bounds,
      ((formula indices).bind (meaning.convert (arena.info id).elem)).isSome) ∧
      σ' = σ.set id (.array fun indices => if indices ∈ allIndices bounds then
        (formula indices).bind (meaning.convert (arena.info id).elem) else none) := by
  obtain ⟨content, hcontent, h⟩ := Option.bind_eq_some_iff.1 h
  cases h
  rw [Meaning.content, if_pos hshaped, hbounds] at hcontent
  obtain ⟨_, ⟨⟩, hcontent⟩ := Option.bind_eq_some_iff.1 hcontent
  obtain ⟨elements, helements, ⟨⟩⟩ := Option.bind_eq_some_iff.1 hcontent
  simp only [Option.bind_eq_bind, tabulate] at helements
  -- The array is there only if every element is.
  split at helements
  · next hall =>
    cases helements
    exact ⟨fun indices hindices => List.all_eq_true.1 hall indices hindices, rfl⟩
  · cases helements

namespace Matches

/-- The state matches the same objects by an older table that has all names of held values. -/
theorem shrinks {P : ValueId → Prop} (h : Matches m arena t' held σ env)
    (hheld : Holding arena t held) (hgrows : t.Grows arena P t') : Matches m arena t held σ env := by
  refine ⟨h.literals, fun id hid hconst => ?_, h.plain⟩
  obtain ⟨name, object, hname, hrest⟩ := h.objects id hid hconst
  obtain ⟨name', hname', -⟩ := hheld.named id hid hconst
  rw [hgrows.binding?_eq hname'] at hname
  cases hname
  exact ⟨name, object, hname', hrest⟩

/-- A scalar that is held is set. -/
theorem store_scalar (h : Matches m arena t held σ env) (hv : t.Valid arena) (hid : held id)
    (hconst : arena.constantText? id = none) (hshaped : (arena.info id).isShaped = false)
    {type : Cpp.TypeName} (htype : (arena.info id).elem.typeName? = some type) {value converted : V}
    (hconvert : m.convert type value = some converted) :
    ∃ env', m.store env (arena.useCode t id).cpp value = some env' ∧
      Matches m arena t held (σ.set id (.scalar (some converted))) env' ∧
      env'.map Prod.fst = env.map Prod.fst := by
  obtain ⟨name, object, hname, hlookup, hfits, -⟩ := h.objects id hid hconst
  have hcode : (arena.useCode t id).cpp = Code.designatorCpp (.named name) := by
    rw [← Arena.designator_of_declared hconst hname]
    rfl
  -- Either kind of object holds the number behind the assignment.
  have hset (object' : Object V) (hfits' : object'.Fits m arena id name.pointer)
      (hcontent : object'.content = .scalar (some converted)) :
      Matches m arena t held (σ.set id (.scalar (some converted)))
        (env.assign name.identifier object') := by
    have hrefines : (Content.scalar (some converted)).Refines object'.content := by
      rw [hcontent]
      exact .refl _
    have hassign := (h.mono fun _ hid' => hid'.1).assign hv hconst hname hlookup hfits' hrefines
    exact hassign.mono fun _ => .inr
  have hnumber : ∀ x ∈ some converted, m.HasType type x := by
    rintro _ ⟨⟩
    exact ⟨value, hconvert⟩
  cases object with
  | scalar type' before =>
    obtain ⟨hpointer, -, htype', -⟩ := hfits
    obtain rfl : type' = type := Option.some.inj (htype'.symm.trans htype)
    refine ⟨_, ?_, hset (.scalar type' (some converted)) ⟨hpointer, hshaped, htype, hnumber⟩ rfl,
      Env.names_assign _ _ _⟩
    simp [hcode, Code.designatorCpp, hpointer, Machine.store, Machine.setName, hlookup, hconvert]
  | pointer type' before =>
    obtain ⟨hpointer, -, htype', -⟩ := hfits
    obtain rfl : type' = type := Option.some.inj (htype'.symm.trans htype)
    refine ⟨_, ?_, hset (.pointer type' (some converted)) ⟨hpointer, hshaped, htype, hnumber⟩ rfl,
      Env.names_assign _ _ _⟩
    simp [hcode, Code.designatorCpp, hpointer, Machine.store, Machine.setTarget, hlookup, hconvert]
  | array type extents elements =>
    rw [hfits.2.1] at hshaped
    cases hshaped

/-- An element of an array that is held is set. -/
theorem store_element (h : Matches m arena t held σ env) (hheld : Holding arena t held)
    (hm : m.Implements meaning) (hid : held id) (hshaped : (arena.info id).isShaped = true)
    {codes : List Expr} {indices : List Int} (hne : codes ≠ [])
    (hindices : m.evalIndices env (codes.map Expr.cpp) = some indices) {value : V}
    (hset : meaning.setElement arena σ id indices value = some σ') :
    ∃ env', m.store env ((arena.useCode t id).subscripts codes).cpp value = some env' ∧
      Matches m arena t held σ' env' ∧ env'.map Prod.fst = env.map Prod.fst := by
  obtain ⟨hconst, name, hname, hcode⟩ := hheld.cpp_array hid hshaped
  obtain ⟨name', object, hname', hlookup, hfits, hcontent⟩ := h.objects id hid hconst
  rw [hname] at hname'
  cases hname'
  unfold Meaning.setElement at hset
  split at hset
  · next elements extents helements hextents =>
    split at hset
    · next hin =>
      obtain ⟨converted, hconvert, hset⟩ := Option.bind_eq_some_iff.1 hset
      cases hset
      have hobject := hcontent _ helements
      -- The object is an array with the extents of the value, so the same indices are within it.
      cases object with
      | scalar type before => exact hobject.elim
      | pointer type before => exact hobject.elim
      | array type extents' elements' =>
        obtain ⟨hpointer, -, htype, hextents', hnumbers⟩ := hfits
        rw [hextents] at hextents'
        cases hextents'
        have hconvert' := hm.convert _ _ htype value converted hconvert
        have hfits' : (Object.array type extents (setElement elements' indices converted)).Fits m arena
            id name.pointer :=
          ⟨hpointer, hshaped, htype, hextents, hasType_setElement hnumbers indices hconvert'⟩
        have hassign := (h.mono fun _ hid' => hid'.1).assign hheld.valid hconst hname hlookup hfits'
          (refines_setElement hobject indices converted)
        refine ⟨_, ?_, hassign.mono fun _ => .inr, Env.names_assign _ _ _⟩
        rw [Code.cpp_subscripts hcode hne, Machine.store, hindices]
        simp [Machine.setElement, hlookup, hin, hconvert']
    · cases hset
  · cases hset

/-- A scalar is declared where it is set. Its name is visible in what it is set to. -/
theorem define_scalar (h : Matches m arena t held σ env) (hv : t.Valid arena)
    (hconst : arena.constantText? id = none) (hfree : t.binding? id = none)
    (hshaped : (arena.info id).isShaped = false) {type : String}
    (htype : (arena.info id).elem.cppName? = some type) {e : Cpp.Expr} {converted : V}
    (heval : ∀ env', Matches m arena (t.insert id (.declared ⟨t.size, false⟩)) held σ env' →
      (do m.convert (typeCpp type) (← m.eval env' e)) = some converted) :
    ∃ object, m.define env (typeCpp type) (Name.identifier ⟨t.size, false⟩) e =
        some ((Name.identifier ⟨t.size, false⟩, object) :: env) ∧
      Matches m arena (t.insert id (.declared ⟨t.size, false⟩)) (fun id' => id' = id ∨ held id')
        (σ.set id (.scalar (some converted))) ((Name.identifier ⟨t.size, false⟩, object) :: env) := by
  obtain ⟨htypeName, -⟩ := Code.typeCpp_eq htype
  have hgrows : t.Grows arena (fun _ => True) (t.insert id (.declared ⟨t.size, false⟩)) :=
    .declare false .refl trivial hfree hconst
  -- The right side is read with the new name in scope, which no value has.
  have hinside := (h.fresh ⟨t.size, false⟩ (.scalar (typeCpp type) none) hv (Nat.le_refl _)).grows hgrows
  obtain ⟨value, hvalue, hconvert⟩ := Option.bind_eq_some_iff.1 (heval _ hinside)
  refine ⟨.scalar (typeCpp type) (some converted), ?_, ?_⟩
  · simp [Machine.define, hvalue, hconvert]
  · refine (h.setOther _ (h.not_held hconst hfree)).declare hv hconst hfree
      ⟨rfl, hshaped, htypeName, ?_⟩ fun content hcontent => ?_
    · rintro _ ⟨⟩
      exact ⟨value, hconvert⟩
    · rw [State.set_self, Option.some.injEq] at hcontent
      exact hcontent ▸ .refl _

end Matches

end HlsEmit
