import HlsEmit.Proofs.Meaning.Elements
import HlsEmit.Proofs.Meaning.Formula
import HlsEmit.Proofs.Meaning.Statement

/-!
# Values that are computed from others

A scalar is computed by one statement, an array by loops that set its elements one after the other.
They do not read the array that they set, since no operand of an operation is its own result.

A yield sets the results of the conditional around one after the other. In the evaluation they are
set all at once; that is the same, since none of them is yielded.

## Key results

- `exec_elements`: the loops over the elements of an array
- `carries_compute`: a value is computed from others
- `carries_deliver`: a yield
-/

namespace HlsEmit

open Cpp (Object Machine Env)
open Code

namespace Emission

variable {V : Type} {m : Machine V} {meaning : Meaning V} {limit : Nat} {c : Contract}
variable {function : Option String} {t t' : NameTable} {held : ValueId → Prop} {id : ValueId}

/-! ## Elements -/

/-- An array is there in front of the loops over its elements. -/
theorem carries_loopExtents (hs : Supports m meaning c limit) (h : Holding c.arena t held) (op : Op)
    (hid : Awaits c held t id) (hconst : c.arena.constantText? id = none)
    (hshaped : (c.arena.info id).isShaped = true) :
    Places c function t (loopExtents op id) fun loops t' =>
      (c.arena.info id).shape.extents? = some loops.2 ∧
        Carries m limit c.arena [id] [] held t (fun σ => some (Meaning.setBlank c.arena σ id)) loops.1
          t' := by
  refine .bindQuiet (info_apply (c.known id hid.value)) ?_
  simp only [hshaped, Bool.not_true, Bool.false_eq_true, if_false]
  -- Named already, so that its old elements are dropped; or free, so that it is declared.
  split
  · exact .bindError rfl
  · next extents hextents =>
    refine .bindQuiet (isBound_apply (c.known id hid.value)) ?_
    split
    · next hbound =>
      obtain ⟨binding, hbinding⟩ := binding_of_bound hconst hbound
      exact .pure ⟨hextents, carries_setBlank h (hid.declared binding hbinding) hconst⟩
    · next hbound =>
      have hfree := (Arena.isBound_eq_false_iff.1 (Bool.not_eq_true _ ▸ hbound)).1
      refine .bind ((introduces_array (some op) hid.value hconst hfree).mono ?_)
      intro first t' hfirst
      exact .pure ⟨hextents, hfirst.carries hs h hid.value hconst none⟩

/-- Loops over counters are readable around a readable body. -/
theorem stmtsReadable_counterLoops {body : List Stmt} (hbody : StmtsReadable body) (dim : Nat)
    {extents : List Int64} (hextents : ∀ extent ∈ extents, 0 ≤ extent.toInt) :
    StmtsReadable (counterLoops body dim extents) := by
  induction extents generalizing dim with
  | nil => exact hbody
  | cons extent rest ih =>
    rw [List.forall_mem_cons] at hextents
    exact ⟨⟨.counter dim hextents.1, ih (dim + 1) hextents.2⟩, trivial⟩

/-- The statement for one element, inside of the loops. -/
theorem exec_element (limit : Nat) (h : Holding c.arena t held)
    (hheld : held id) (hshaped : (c.arena.info id).isShaped = true) {name : Name}
    (hname : t.binding? id = some (.declared name)) {type : Cpp.TypeName}
    (htype : (c.arena.info id).elem.typeName? = some type) {source : Formula}
    {element : State V → List Int → Option V} {others : ValueId → Prop}
    (hsource : source.Denotes m meaning c.arena others id element)
    (hothers : ∀ id', others id' → held id')
    (note : Option Note) {σ : State V} {env front : Env V}
    (hmatches : Matches m c.arena t others σ env) {bounds inner : List Int}
    {elements : List Int → Option V}
    (hlookup : env.lookup name.identifier = some (.array type bounds elements)) (hne : inner ≠ [])
    (hinner : inBounds bounds inner = true) (hfront : CounterFront m inner front) {value : V}
    (hvalue : (element σ inner).bind (meaning.convert (c.arena.info id).elem) = some value) :
    m.execAll limit (stmtsCpp [.assign .set ((c.arena.useCode t id).atCounters inner.length)
      (source.heldCode c.arena t inner.length) note]) (front ++ env) =
      some (front ++ env.assign name.identifier
        (.array type bounds (HlsEmit.setElement elements inner value))) := by
  have hcounted := hfront.counted env
  obtain ⟨number, heval, hconvert⟩ := Option.bind_eq_some_iff.1 (hsource.alike t σ (front ++ env) inner
    (h.mono hothers) (hfront.matches_front hmatches) hcounted type htype value hvalue)
  have hreadable : ((c.arena.useCode t id).atCounters inner.length).Readable false :=
    h.readable_element hheld (fun _ => hshaped) false
  obtain ⟨-, name', hname', hcode⟩ := h.cpp_array hheld hshaped
  rw [hname] at hname'
  cases hname'
  -- The target is the element at the counters, which stand for the indices.
  have htarget : ((c.arena.useCode t id).atCounters inner.length).cpp = .element name.identifier
      ((List.range inner.length).map fun dim => .name (counterName dim)) := by
    rw [← Code.map_counters_cpp]
    exact Code.cpp_subscripts hcode (by simpa using hne)
  have hidentifier := Code.identifier_ne_counterName name
  have hfound : (front ++ env).lookup name.identifier = some (.array type bounds elements) := by
    rw [hfront.lookup hidentifier, hlookup]
  rw [stmtsCpp, Stmt.cpp, assignCpp_of_readable hreadable, stmtsCpp, List.append_nil,
    execAll_singleton, Machine.exec, htarget]
  -- The counters stand in front, so the array is found and changed behind them.
  have hset : m.setElement (front ++ env) name.identifier inner number = some (front ++
      env.assign name.identifier (.array type bounds (HlsEmit.setElement elements inner value))) := by
    simp [Machine.setElement, hfound, hinner, hconvert, hfront.assign hidentifier]
  exact Option.bind_eq_some_iff.2 ⟨number, heval, Option.bind_eq_some_iff.2 ⟨inner, hcounted, hset⟩⟩

/-- An array that matches where it was left alone, and holds what was computed elsewhere. -/
theorem matches_elements (hm : m.Implements meaning) (hv : t.Valid c.arena) {σ : State V}
    {env : Env V} (h : Matches m c.arena t (fun id' => held id' ∧ id' ≠ id) σ env)
    (hconst : c.arena.constantText? id = none) {name : Name}
    (hname : t.binding? id = some (.declared name)) {type : Cpp.TypeName} {bounds : List Int}
    {before : List Int → Option V}
    (hlookup : env.lookup name.identifier = some (.array type bounds before))
    (hfits : (Object.array type bounds before).Fits m c.arena id name.pointer)
    (numbers : List Int → Option V) :
    Matches m c.arena t held
      (σ.set id (.array fun indices => if indices ∈ allIndices bounds then
        (numbers indices).bind (meaning.convert (c.arena.info id).elem) else none))
      (env.assign name.identifier (.array type bounds fun indices =>
        if indices ∈ allIndices bounds then
          (numbers indices).bind (meaning.convert (c.arena.info id).elem) else before indices)) := by
  let computed (indices : List Int) : Option V :=
    (numbers indices).bind (meaning.convert (c.arena.info id).elem)
  obtain ⟨hpointer, hshaped, htype, hbounds, hbefore⟩ := hfits
  have hnumbers : ∀ indices, ∀ x ∈ if indices ∈ allIndices bounds then computed indices
      else before indices, m.HasType type x := by
    intro indices x hx
    split at hx
    · obtain ⟨value, -, hconvert⟩ := Option.bind_eq_some_iff.1 hx
      exact ⟨value, hm.convert _ type htype value x hconvert⟩
    · exact hbefore indices x hx
  have hrefines : (Content.array fun indices =>
      if indices ∈ allIndices bounds then computed indices else none).Refines
        (.array fun indices => if indices ∈ allIndices bounds then computed indices
          else before indices) := by
    intro indices value hvalue
    by_cases hmem : indices ∈ allIndices bounds
    · simpa [hmem] using hvalue
    · simp [hmem] at hvalue
  have hfits : (Object.array type bounds fun indices =>
      if indices ∈ allIndices bounds then computed indices else before indices).Fits m c.arena id
        name.pointer := ⟨hpointer, hshaped, htype, hbounds, hnumbers⟩
  exact (h.assign hv hconst hname hlookup hfits hrefines).mono fun _ => .inr

/-- Loops that set all elements of an array, which is not read in them. -/
theorem exec_elements (hs : Supports m meaning c limit) (h : Holding c.arena t held) (hheld : held id)
    (hid : c.values id) (hshaped : (c.arena.info id).isShaped = true) {extents : List Int64}
    (hextents : (c.arena.info id).shape.extents? = some extents) {source : Formula}
    {element : State V → List Int → Option V} {others : ValueId → Prop}
    (hsource : source.Denotes m meaning c.arena others id element)
    (hapart : ∀ id', others id' → held id' ∧ id' ≠ id)
    (note : Option Note) {σ σ' : State V} {env : Env V}
    (hmatches : Matches m c.arena t held (Meaning.setBlank c.arena σ id) env)
    (hrun : meaning.compute c.arena σ id (element σ) = some σ') :
    ∃ env', m.execAll limit (stmtsCpp (counterLoops [.assign .set
        ((c.arena.useCode t id).atCounters extents.length)
        (source.heldCode c.arena t extents.length) note] 0 extents)) env = some env' ∧
      Matches m c.arena t held σ' env' ∧ env'.map Prod.fst = env.map Prod.fst := by
  have hstatic := hs.static id hid
  have hbounds := Arena.bounds?_eq hextents
  have hne := Arena.bounds?_ne_nil hstatic hshaped hbounds
  obtain ⟨hall, rfl⟩ := compute_array hshaped hbounds hrun
  obtain ⟨hconst, name, hname, -⟩ := h.cpp_array hheld hshaped
  obtain ⟨name', object, hname', hlookup, hfits, -⟩ := hmatches.objects id hheld hconst
  rw [hname] at hname'
  cases hname'
  cases object with
  | scalar type value => rw [hfits.2.1] at hshaped; cases hshaped
  | pointer type value => rw [hfits.2.1] at hshaped; cases hshaped
  | array type bounds before =>
    have htype : (c.arena.info id).elem.typeName? = some type := hfits.2.2.1
    have hbounds' : c.arena.bounds? id = some bounds := hfits.2.2.2.1
    rw [hbounds] at hbounds'
    cases hbounds'
    have hbehind : Matches m c.arena t (fun id' => held id' ∧ id' ≠ id) σ env :=
      (hmatches.mono fun _ hid' => hid'.1).congr fun id' hid' => (State.set_of_ne hid'.2).symm
    have hothers := hbehind.mono hapart
    -- the objects for each content of the array
    let objects (elements : List Int → Option V) : Env V :=
      env.assign name.identifier (.array type (extents.map Int64.toInt) elements)
    have hobjects : objects before = env := Env.assign_of_lookup hlookup
    have hlength (elements : List Int → Option V) : (objects elements).length = env.length := by
      simpa using congrArg List.length (Env.names_assign name.identifier
        (.array type (extents.map Int64.toInt) elements) env)
    let converted (indices : List Int) : Option V :=
      (element σ indices).bind (meaning.convert (c.arena.info id).elem)
    have hbody : ∀ inner ∈ allIndices (extents.map Int64.toInt), ∀ front,
        CounterFront m ([] ++ inner) front → ∀ elements elements',
          (do return HlsEmit.setElement elements ([] ++ inner) (← converted ([] ++ inner))) =
            some elements' →
          m.execAll limit (stmtsCpp [.assign .set ((c.arena.useCode t id).atCounters extents.length)
            (source.heldCode c.arena t extents.length) note]) (front ++ objects elements) =
              some (front ++ objects elements') := by
      intro inner hinner front hfront elements elements' hset
      obtain ⟨value, hvalue, ⟨⟩⟩ := Option.bind_eq_some_iff.1 hset
      have hlen : extents.length = inner.length := by
        rw [length_of_mem_allIndices hinner, List.length_map]
      have hinnerNe : inner ≠ [] := by
        rintro rfl
        exact hne (List.map_eq_nil_iff.2 (List.length_eq_zero_iff.1 hlen))
      have hinside := hothers.assignOther (.array type (extents.map Int64.toInt) elements) h.valid hname
        fun hnot => (hapart id hnot).2 rfl
      have hexec := exec_element limit h hheld hshaped hname htype hsource
        (fun id' hid' => (hapart id' hid').1) note hinside (Env.lookup_assign hlookup _) hinnerNe
        (inBounds_of_mem hinner) hfront hvalue
      rw [hlen, hexec, Env.assign_assign]
      rfl
    have hloops := execAll_counterLoops objects hlength
      (fun indices elements => do return HlsEmit.setElement elements indices (← converted indices))
      (fun extent hextent => ⟨(hs.counts id hid extents hextents extent hextent).1,
        Shape.extents_nonneg hstatic hextents extent hextent,
        (hs.counts id hid extents hextents extent hextent).2⟩)
      CounterFront.nil hbody (foldlM_setElement converted _ hall before)
    rw [hobjects] at hloops
    refine ⟨_, hloops, ?_, Env.names_assign _ _ _⟩
    exact matches_elements hs.implements h.valid hbehind hconst hname hlookup hfits _

/-- A value is computed from others: a scalar by one statement, an array element by element. -/
theorem carries_compute (hs : Supports m meaning c limit) (h : Holding c.arena t held) (op : Op)
    (hid : Awaits c held t id) (hconst : c.arena.constantText? id = none) {source : Formula}
    {element : State V → List Int → Option V}
    (hsource : source.Denotes m meaning c.arena (fun id' => held id' ∧ id' ≠ id) id element) :
    Places c function t (compute op id source)
      (Carries m limit c.arena [id] [] held t fun σ => meaning.compute c.arena σ id (element σ)) := by
  cases hshaped : (c.arena.info id).isShaped with
  | false =>
    have hnone : (loopExtents op id).run ⟨c.arena, function⟩ t = ⟨([], []), t, [], [], []⟩ := by
      unfold loopExtents
      rw [bind_of_quiet (info_apply (c.known id hid.value))]
      simp [hshaped]
    refine .bindQuiet hnone (.bind (.bind (.bind (.bind ((places_target false (some op) hid hconst).mono
      ?_)))))
    intro target t' htarget
    have h' := htarget.holding h hconst (hs.known hid.value) (by simp)
    have hothers : Holding c.arena t' fun id' => held id' ∧ id' ≠ id :=
      h'.mono fun _ hid' => .inr hid'.1
    refine .pure (.pure (.bindQuiet (formula_of_held hothers op hsource.values 0) (.pure (.pure ?_))))
    have hscalar := carries_setScalar hs h hid.value hconst htarget
      (hsource.readable t' hothers 0 (by simp)) (f := fun σ => element σ []) (fun σ env hmatches =>
        hsource.alike t' σ env [] hothers (hmatches.mono fun _ => And.left) rfl) (some op.note)
    refine hscalar.congr fun σ σ' hrun => ?_
    simp only [Meaning.compute, Meaning.content, Meaning.setScalar, hshaped, Bool.false_eq_true,
      if_false] at hrun ⊢
    obtain ⟨content, hcontent, hrun⟩ := Option.bind_eq_some_iff.1 hrun
    obtain ⟨converted, hconvert, hcontent⟩ := Option.bind_eq_some_iff.1 hcontent
    obtain ⟨value, hvalue, hconvert⟩ := Option.bind_eq_some_iff.1 hconvert
    simp [hvalue, hconvert, Option.some.inj hcontent, Option.some.inj hrun]
  | true =>
    refine .bind ((carries_loopExtents hs h op hid hconst hshaped).mono ?_)
    rintro ⟨declaration, extents⟩ t' ⟨hextents, hdeclared⟩
    have h' := hdeclared.holding
    have htarget : (Emission.element op extents.length id).run ⟨c.arena, function⟩ t' =
        ⟨(c.arena.useCode t' id).atCounters extents.length, t', [], [], []⟩ :=
      element_of_held h' op (.inl (List.mem_singleton_self id)) extents.length
    have hothers : Holding c.arena t' fun id' => held id' ∧ id' ≠ id :=
      h'.mono fun _ hid' => .inr hid'.1
    refine .bind (.bindQuiet htarget (.bindQuiet (formula_of_held hothers op hsource.values _)
      (.pure (.pure ?_))))
    -- the loops run where the array has been declared
    refine ⟨hdeclared.grows, h', stmtsReadable_append.2 ⟨hdeclared.readable, ?_⟩, ?_⟩
    · have htargetReadable := h'.readable_element (.inl (List.mem_singleton_self id))
        (fun _ : extents.length ≠ 0 => hshaped) false
      have hbody : StmtsReadable [.assign .set ((c.arena.useCode t' id).atCounters extents.length)
          (source.heldCode c.arena t' extents.length) (some op.note)] :=
        ⟨⟨.place htargetReadable, hsource.readable t' hothers _ fun _ => hshaped⟩, trivial⟩
      exact stmtsReadable_counterLoops hbody 0 (Shape.extents_nonneg (hs.static id hid.value) hextents)
    · intro σ σ' env hmatches hrun
      obtain ⟨env', hexec, hmatches', hextends⟩ := hdeclared.simulates σ _ env hmatches rfl
      obtain ⟨env'', hexec', hmatches'', hnames⟩ := exec_elements hs h'
        (.inl (List.mem_singleton_self id)) hid.value hshaped hextents hsource
        (fun _ hid' => ⟨.inr hid'.1, hid'.2⟩) (some op.note) hmatches' hrun
      refine ⟨env'', ?_, hmatches'', hextends.trans (.of_names hnames) (Nat.le_refl _)⟩
      rw [stmtsCpp_append, execAll_append, hexec]
      exact hexec'

/-! ## Arrays without a content -/

/-- An array is declared, and what its elements are is open. -/
theorem carries_allocate (hs : Supports m meaning c limit) (h : Holding c.arena t held) (op : Op)
    (hid : c.values id) (hconst : c.arena.constantText? id = none) (hfree : t.binding? id = none)
    (bodies : List (Emission (List Stmt))) :
    Places c function t (render op bodies (.allocate id))
      (Carries m limit c.arena [id] [] held t fun σ => some (Meaning.setBlank c.arena σ id)) := by
  refine .bind ((introduces_array (some op) hid hconst hfree).mono ?_)
  intro declarator t' hintroduces
  have hdeclared := hintroduces.carries hs h hid hconst (some op.note)
  refine .bind ((silent_arrayPragmas (some op) hdeclared.holding (.inl (List.mem_singleton_self id))
    hconst).mono ?_)
  rintro pragmas t'' ⟨rfl, hpragmas⟩
  have hboth := hdeclared.append (.silent hdeclared.holding hpragmas)
  refine .pure ((hboth.congr ?_).weaken (by simp) (by simp))
  rintro σ σ' ⟨⟩
  rfl

/-! ## Yields -/

/-- What is copied depends on nothing but the sources. -/
theorem copies_congr {arena : Arena} {pairs : List (ValueId × ValueId)} {σ σ' : State V}
    (h : ∀ pair ∈ pairs, σ' pair.2 = σ pair.2) :
    meaning.copies arena σ' pairs = meaning.copies arena σ pairs := by
  induction pairs with
  | nil => rfl
  | cons pair rest ih =>
    rw [List.forall_mem_cons] at h
    have hsource : σ'.element? arena pair.2 = σ.element? arena pair.2 := by
      funext indices
      simp only [State.element?, h.1]
    rw [Meaning.copies, Meaning.copies, hsource, ih h.2]

/-- To set all targets at once is to set them one after the other, if no target is a source. -/
theorem deliver_cons {arena : Arena} {target source : ValueId} {rest : List (ValueId × ValueId)}
    {σ σ' : State V} (hapart : ∀ pair ∈ rest, pair.2 ≠ target)
    (h : meaning.deliver arena σ ((target, source) :: rest) = some σ') :
    ∃ behind, meaning.compute arena σ target (σ.element? arena source) = some behind ∧
      meaning.deliver arena behind rest = some σ' := by
  obtain ⟨contents, hcontents, ⟨⟩⟩ := Option.bind_eq_some_iff.1 h
  obtain ⟨content, hcontent, hcontents⟩ := Option.bind_eq_some_iff.1 hcontents
  obtain ⟨others, hothers, ⟨⟩⟩ := Option.bind_eq_some_iff.1 hcontents
  refine ⟨σ.set target content, Option.bind_eq_some_iff.2 ⟨content, hcontent, rfl⟩, ?_⟩
  have hsame : meaning.copies arena (σ.set target content) rest = some others := by
    rw [copies_congr fun pair hpair => State.set_of_ne (hapart pair hpair), hothers]
  exact Option.bind_eq_some_iff.2 ⟨others, hsame, rfl⟩

/-- Every target is set to its source. -/
theorem carries_computeEach (hs : Supports m meaning c limit) (op : Op)
    {pairs : List (ValueId × ValueId)} (h : Holding c.arena t held)
    (htargets : ∀ pair ∈ pairs, c.values pair.1 ∧ held pair.1 ∧ c.arena.constantText? pair.1 = none)
    (hsources : ∀ pair ∈ pairs, held pair.2 ∧
      (c.arena.info pair.2).isShaped = (c.arena.info pair.1).isShaped)
    (hapart : ∀ pair ∈ pairs, ∀ pair' ∈ pairs, pair.2 ≠ pair'.1) :
    Places c function t (computeEach op pairs)
      (Carries m limit c.arena [] [] held t fun σ => meaning.deliver c.arena σ pairs) := by
  -- On the pairs: no source is a target, so every source still has its value when its turn comes.
  induction pairs generalizing t held with
  | nil =>
    refine .pure ((Carries.silent h .nil).congr ?_)
    rintro σ σ' ⟨⟩
    rfl
  | cons pair rest ih =>
    obtain ⟨target, source⟩ := pair
    simp only [List.forall_mem_cons] at htargets hsources hapart
    obtain ⟨⟨hvalue, hheld, hconst⟩, htargets⟩ := htargets
    have hsource : (Formula.copy source).Denotes m meaning c.arena
        (fun id' => held id' ∧ id' ≠ target) target fun σ => σ.element? c.arena source :=
      Formula.denotes_copy hs.implements ⟨hsources.1.1, hapart.1.1⟩ hsources.1.2
    refine .bind ((carries_compute hs h op ⟨hvalue, fun _ _ => hheld⟩ hconst hsource).mono ?_)
    intro first t' hfirst
    have hsettled := hfirst.settle h (by simpa using hheld)
    have hrest := ih hsettled.holding (fun pair hpair => ?_) (fun pair hpair => ?_)
      fun pair hpair => (hapart.2 pair hpair).2
    · refine .bind (hrest.mono fun stmts t'' hstmts => .pure ?_)
      refine ((hsettled.append hstmts).congr fun σ σ' hrun => ?_).weaken (by simp) (by simp)
      obtain ⟨behind, hbehind, hrun⟩ := deliver_cons (fun pair hpair => (hapart.2 pair hpair).1) hrun
      exact Option.bind_eq_some_iff.2 ⟨behind, hbehind, hrun⟩
    · exact (htargets pair hpair).imp_right fun hpair => hpair.imp_left .inr
    · exact (hsources.2 pair hpair).imp_left .inr

end Emission

end HlsEmit
