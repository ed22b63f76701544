import HlsEmit.Proofs.Meaning.Operation
import HlsEmit.Proofs.Scoping.Program

/-!
# Functions

The ports of a function are declared in front of its body: first the arguments, then the values that
it returns, scalars among them as pointers. What a function is called with becomes the objects of its
ports, and these hold in the end what the values do.

## Key results

- `places_ports`, `Ports.enter`, `Ports.leave`: the ports of a function, a call and its end
- `performs_function`: a function of the core
-/

namespace HlsEmit

open Cpp (Object Machine Env)
open Code

variable {V : Type}

/-! ## Ports -/

/-- Declarations of values that have no names yet, those of `pointer` as pointers. -/
inductive Ports (arena : Arena) (pointer : ValueId → Bool) :
    NameTable → List ValueId → List Declarator → NameTable → Prop
  | nil {t : NameTable} : Ports arena pointer t [] [] t
  | cons {t t₁ t₂ : NameTable} {id : ValueId} {ids : List ValueId} {port : Declarator}
      {ports : List Declarator} (hconst : arena.constantText? id = none)
      (first : Emission.Introduces arena t (pointer id) id port t₁)
      (rest : Ports arena pointer t₁ ids ports t₂) :
      Ports arena pointer t (id :: ids) (port :: ports) t₂

section Ports

variable {m : Machine V} {meaning : Meaning V} {arena : Arena} {pointer : ValueId → Bool}
variable {t t' : NameTable} {id : ValueId} {ids : List ValueId} {port : Declarator}
variable {ports : List Declarator} {held : ValueId → Prop}

namespace Emission.Introduces

variable {flag : Bool}

/-- A port is free in front of its declaration. -/
theorem free (h : Introduces arena t flag id port t') : t.binding? id = none := by
  cases h with
  | declare hfree _ _ => exact hfree

/-- A port adds its own name. -/
theorem grows (h : Introduces arena t flag id port t') (hconst : arena.constantText? id = none) :
    t.Grows arena (· = id) t' := by
  cases h with
  | declare hfree _ _ => exact .declare flag .refl rfl hfree hconst

/-- A port has the next name. -/
theorem binding (h : Introduces arena t flag id port t') :
    t'.binding? id = some (.declared ⟨t.size, flag⟩) := by
  cases h with
  | declare _ _ _ => simp

/-- The parameter is called like the port. -/
theorem name_paramCpp (h : Introduces arena t flag id port t') :
    port.paramCpp.name = Name.identifier ⟨t.size, flag⟩ := by
  cases h with
  | declare _ _ _ => rfl

/-- A port of a static shape can be read. -/
theorem readable (h : Introduces arena t flag id port t')
    (hstatic : (arena.info id).shape.isStatic = true) : port.Readable := by
  cases h with
  | declare _ htype hextents =>
    exact ⟨⟨flag, id, t.size, htype⟩, Shape.extents_nonneg hstatic hextents⟩

end Emission.Introduces

namespace Ports

/-- Ports are no literals. -/
theorem const (h : Ports arena pointer t ids ports t') :
    ∀ id ∈ ids, arena.constantText? id = none := by
  induction h with
  | nil => simp
  | cons hconst first rest ih => exact List.forall_mem_cons.2 ⟨hconst, ih⟩

/-- Ports add their own names. -/
theorem grows (h : Ports arena pointer t ids ports t') : t.Grows arena (· ∈ ids) t' := by
  induction h with
  | nil => exact .refl
  | cons hconst first rest ih =>
    refine ((first.grows hconst).mono fun id hid => ?_).trans (ih.mono fun id hid => ?_)
    · exact List.mem_cons.2 (.inl hid)
    · exact List.mem_cons_of_mem _ hid

/-- No port had a name in front of all of them. -/
theorem free (h : Ports arena pointer t ids ports t') : ∀ id ∈ ids, t.binding? id = none := by
  induction h with
  | nil => simp
  | @cons t t₁ t₂ id ids port ports hconst first rest ih =>
    refine List.forall_mem_cons.2 ⟨first.free, fun id hid => ?_⟩
    cases hbinding : t.binding? id with
    | none => rfl
    | some binding =>
      have hlater := ih id hid
      rw [(first.grows hconst).binding?_eq hbinding] at hlater
      cases hlater

/-- All ports have names behind them. -/
theorem bound (h : Ports arena pointer t ids ports t') :
    ∀ id ∈ ids, ∃ binding, t'.binding? id = some binding := by
  induction h with
  | nil => simp
  | cons hconst first rest ih =>
    exact List.forall_mem_cons.2 ⟨⟨_, rest.grows.binding?_eq first.binding⟩, ih⟩

/-- Ports of static shapes can be read. -/
theorem readable (h : Ports arena pointer t ids ports t')
    (hstatic : ∀ id ∈ ids, (arena.info id).shape.isStatic = true) :
    ∀ port ∈ ports, port.Readable := by
  induction h with
  | nil => simp
  | cons hconst first rest ih =>
    rw [List.forall_mem_cons] at hstatic ⊢
    exact ⟨first.readable hstatic.1, ih hstatic.2⟩

/-- The ports are held behind their declarations. -/
theorem holding (h : Ports arena pointer t ids ports t') (hheld : Holding arena t held)
    (hknown : ∀ id ∈ ids, arena.Known id)
    (hpointer : ∀ id, pointer id = true → (arena.info id).isShaped = false) :
    Holding arena t' fun id => id ∈ ids ∨ held id := by
  induction h generalizing held with
  | nil => exact hheld.mono (by simp)
  | @cons t t₁ t₂ id ids port ports hconst first rest ih =>
    rw [List.forall_mem_cons] at hknown
    have hothers := hheld.grows (first.grows hconst)
    -- The first port is held from its declaration on.
    have hfirst : Holding arena t₁ fun id' => id' = id ∨ held id' := by
      refine ⟨hothers.valid, ?_, ?_⟩
      · rintro id' (rfl | hid')
        · exact hknown.1
        · exact hothers.known id' hid'
      · rintro id' (rfl | hid') hconst'
        · exact ⟨_, first.binding, hpointer id'⟩
        · exact hothers.named id' hid' hconst'
    refine (ih hfirst hknown.2).mono fun id' hid' => ?_
    rwa [List.mem_cons, or_assoc, or_left_comm] at hid'

/-! ### Calls -/

/-- What a port is called with makes an object that fits its value, and holds what the state says. -/
def Accepts (m : Machine V) (arena : Arena) (pointer : ValueId → Bool) (σ : State V) (id : ValueId)
    (content : Content V) : Prop :=
  ∀ t port t', Emission.Introduces arena t (pointer id) id port t' →
    ∃ object, m.argument port.paramCpp content = some object ∧ object.Fits m arena id (pointer id) ∧
      ∀ expected, σ id = some expected → expected.Refines object.content

/-- Behind a call, the objects of the ports match the state. -/
theorem enter (h : Ports arena pointer t ids ports t') {σ : State V} {env : Env V}
    {contents : List (Content V)} (hv : t.Valid arena) (hmatches : Matches m arena t held σ env)
    (hlength : ids.length = contents.length)
    (haccepts : ∀ pair ∈ ids.zip contents, Accepts m arena pointer σ pair.1 pair.2) :
    ∃ env', m.arguments env (ports.map Declarator.paramCpp) contents = some env' ∧
      Matches m arena t' (fun id => id ∈ ids ∨ held id) σ env' := by
  induction h generalizing env contents held with
  | nil =>
    obtain rfl := List.length_eq_zero_iff.1 hlength.symm
    exact ⟨env, rfl, hmatches.mono (by simp)⟩
  | @cons t t₁ t₂ id ids port ports hconst first rest ih =>
    cases contents with
    | nil => cases hlength
    | cons content contents =>
      rw [List.zip_cons_cons, List.forall_mem_cons] at haccepts
      -- The object of the first port is made from its content; the others are entered behind it.
      obtain ⟨object, hobject, hfits, hcontent⟩ := haccepts.1 t port t₁ first
      have hdeclared := hmatches.declare hv hconst first.free hfits hcontent
      have hfirst : Matches m arena t₁ (fun id' => id' = id ∨ held id') σ
          ((port.paramCpp.name, object) :: env) := by
        rw [first.name_paramCpp]
        cases first with
        | declare _ _ _ => exact hdeclared
      obtain ⟨env', henv', hmatches'⟩ := ih ((first.grows hconst).valid hv) hfirst
        (Nat.succ.inj hlength) haccepts.2
      refine ⟨env', ?_, hmatches'.mono fun id' hid' => ?_⟩
      · rw [List.map_cons, Machine.arguments, hobject]
        exact henv'
      · rwa [List.mem_cons, or_assoc, or_left_comm] at hid'

/-- In the end, the ports hold what the values do. -/
theorem leave (h : Ports arena pointer t ids ports t') {t'' : NameTable} {σ : State V} {env : Env V}
    {P : ValueId → Prop} (hgrows : t'.Grows arena P t'') (hmatches : Matches m arena t'' held σ env)
    (hheld : ∀ id ∈ ids, held id) {contents : List (Content V)} (hcontents : ids.mapM σ = some contents) :
    ∃ contents', (ports.map Declarator.paramCpp).mapM
        (fun param => (env.lookup param.name).map Object.content) = some contents' ∧
      Content.AllRefine contents contents' := by
  induction h generalizing contents with
  | nil =>
    cases hcontents
    exact ⟨[], rfl, trivial⟩
  | @cons t t₁ t₂ id ids port ports hconst first rest ih =>
    rw [List.forall_mem_cons] at hheld
    rw [List.mapM_cons] at hcontents
    obtain ⟨content, hcontent, hcontents⟩ := Option.bind_eq_some_iff.1 hcontents
    obtain ⟨others, hothers, hcontents⟩ := Option.bind_eq_some_iff.1 hcontents
    cases hcontents
    obtain ⟨contents', hcontents', hrefine⟩ := ih hgrows hheld.2 hothers
    obtain ⟨name, object, hname, hlookup, -, hobject⟩ := hmatches.objects id hheld.1 hconst
    -- The port still has the name of its parameter, since names are kept.
    have hsame : some (Binding.declared name) = some (.declared ⟨t.size, pointer id⟩) :=
      hname.symm.trans (hgrows.binding?_eq (rest.grows.binding?_eq first.binding))
    cases hsame
    refine ⟨object.content :: contents', ?_, hobject content hcontent, hrefine⟩
    rw [List.map_cons, List.mapM_cons, first.name_paramCpp, hlookup, hcontents']
    rfl

end Ports

/-! ### What ports are called with -/

/-- A port that is an array takes over the elements, as numbers of its type. -/
theorem argument_array {flag : Bool} (hport : Emission.Introduces arena t flag id port t')
    (hflag : flag = false) (hshaped : (arena.info id).isShaped = true)
    (hstatic : (arena.info id).shape.isStatic = true)
    (hcounts : ∀ extents, (arena.info id).shape.extents? = some extents →
      ∀ extent ∈ extents, m.CountsTo extent.toInt) (elements : List Int → Option V) :
    ∃ type extents, m.argument port.paramCpp (.array elements) =
        some (.array type extents fun indices => (elements indices).bind (m.convert type)) ∧
      (Object.array type extents fun indices => (elements indices).bind (m.convert type)).Fits m arena id
        flag := by
  subst hflag
  cases hport with
  | @declare type extents hfree htype hextents =>
    have hbounds := Arena.bounds?_eq hextents
    have htexts := extents_eq (hcounts extents hextents)
    obtain ⟨htypeName, -⟩ := Code.typeCpp_eq htype
    -- A static array has an extent, so its parameter is an array as well.
    have hne : extents ≠ [] := by
      rintro rfl
      exact Arena.bounds?_ne_nil hstatic hshaped hbounds rfl
    obtain ⟨extent, rest, rfl⟩ := List.exists_cons_of_ne_nil hne
    refine ⟨typeCpp type, _, ?_, ⟨rfl, hshaped, htypeName, hbounds, fun indices x hx => ?_⟩⟩
    · exact Option.bind_eq_some_iff.2 ⟨_, htexts, rfl⟩
    · exact hasType_of_bind hx

/-- An argument is converted to the type of its value by both. -/
theorem accepts_argument (hm : m.Implements meaning) {σ : State V} {content content' : Content V}
    (hstatic : (arena.info id).shape.isStatic = true)
    (hcounts : ∀ extents, (arena.info id).shape.extents? = some extents →
      ∀ extent ∈ extents, m.CountsTo extent.toInt)
    (hargument : meaning.argument arena id content = some content') (hσ : σ id = some content') :
    Ports.Accepts m arena (fun _ => false) σ id content := by
  intro t port t' hport
  rw [hσ]
  -- An array takes over its elements, a scalar its number, both as numbers of the type.
  cases hshaped : (arena.info id).isShaped with
  | true =>
    cases content with
    | scalar value => cases value <;> simp [Meaning.argument, hshaped] at hargument
    | array elements =>
      obtain ⟨type, extents, hobject, hfits⟩ := argument_array hport rfl hshaped hstatic hcounts elements
      simp only [Meaning.argument, hshaped, if_true, Option.some.injEq] at hargument
      refine ⟨_, hobject, hfits, ?_⟩
      rintro _ ⟨⟩
      rw [← hargument]
      exact fun indices => .bind (.refl _) fun x _ => hm.convert _ type hfits.2.2.1 x
  | false =>
    cases hport with
    | @declare type extents hfree htype hextents =>
      obtain ⟨htypeName, -⟩ := Code.typeCpp_eq htype
      obtain rfl : extents = [] :=
        (Option.some.inj ((Shape.extents?_of_scalar hshaped).symm.trans hextents)).symm
      cases content with
      | array elements => simp [Meaning.argument, hshaped] at hargument
      | scalar value =>
        cases value with
        | none =>
          simp only [Meaning.argument, hshaped] at hargument
          refine ⟨.scalar (typeCpp type) none, rfl, ⟨rfl, hshaped, htypeName, by simp⟩, ?_⟩
          rintro _ ⟨⟩
          cases hargument
          exact Content.Refines.refl _
        | some value =>
          simp only [Meaning.argument, hshaped] at hargument
          obtain ⟨converted, hconvert, ⟨⟩⟩ := Option.bind_eq_some_iff.1 hargument
          have hvalue := hm.convert _ _ htypeName value converted hconvert
          refine ⟨.scalar (typeCpp type) (some converted), ?_, ⟨rfl, hshaped, htypeName, ?_⟩, ?_⟩
          · exact Option.bind_eq_some_iff.2 ⟨converted, hvalue, rfl⟩
          · rintro _ ⟨⟩
            exact ⟨value, hvalue⟩
          · rintro _ ⟨⟩
            exact Content.Refines.refl _

/-- What is in the place of a returned value is nothing to the state. -/
theorem accepts_returned {σ : State V} {content : Content V}
    (hstatic : (arena.info id).shape.isStatic = true)
    (hcounts : ∀ extents, (arena.info id).shape.extents? = some extents →
      ∀ extent ∈ extents, m.CountsTo extent.toInt)
    (hfits : content.Fits arena id) (hσ : σ id = none) :
    Ports.Accepts m arena (fun id => !(arena.info id).isShaped) σ id content := by
  intro t port t' hport
  rw [hσ]
  -- An array by its elements, a scalar behind a pointer.
  cases content with
  | array elements =>
    obtain ⟨type, extents, hobject, hfits'⟩ := argument_array hport (by simp [show _ = true from hfits])
      hfits hstatic hcounts elements
    exact ⟨_, hobject, hfits', by simp⟩
  | scalar value =>
    have hshaped : (arena.info id).isShaped = false := hfits
    simp only [hshaped, Bool.not_false] at hport ⊢
    cases hport with
    | @declare type extents hfree htype hextents =>
      obtain ⟨htypeName, -⟩ := Code.typeCpp_eq htype
      obtain rfl : extents = [] :=
        (Option.some.inj ((Shape.extents?_of_scalar hshaped).symm.trans hextents)).symm
      exact ⟨.pointer (typeCpp type) (value.bind (m.convert (typeCpp type))), rfl,
        ⟨rfl, hshaped, htypeName, fun x hx => hasType_of_bind hx⟩, by simp⟩

end Ports

/-! ## Arguments -/

/-- The arguments of a function are set to what they are given, and nothing else is set. -/
theorem of_arguments {meaning : Meaning V} {arena : Arena} {ids : List ValueId}
    {contents : List (Content V)} {σ σ' : State V}
    (h : meaning.arguments arena σ ids contents = some σ') (hdistinct : ids.Nodup) :
    ids.length = contents.length ∧ (∀ id, id ∉ ids → σ' id = σ id) ∧
      ∀ pair ∈ ids.zip contents, ∃ content, meaning.argument arena pair.1 pair.2 = some content ∧
        σ' pair.1 = some content := by
  induction ids generalizing contents σ with
  | nil =>
    cases contents with
    | nil =>
      cases h
      simp
    | cons content contents => cases h
  | cons id ids ih =>
    cases contents with
    | nil => cases h
    | cons content contents =>
      rw [List.nodup_cons] at hdistinct
      -- The arguments are distinct, so the first one is not set again.
      obtain ⟨argument, hargument, hrest⟩ := Option.bind_eq_some_iff.1 h
      obtain ⟨hlength, hothers, hpairs⟩ := ih hrest hdistinct.2
      refine ⟨congrArg Nat.succ hlength, fun other hother => ?_, ?_⟩
      · rw [List.mem_cons, not_or] at hother
        rw [hothers other hother.2, State.set_of_ne hother.1]
      · rw [List.zip_cons_cons, List.forall_mem_cons]
        refine ⟨⟨argument, hargument, ?_⟩, hpairs⟩
        rw [hothers id hdistinct.1, State.set_self]

/-- A call with some parameters and then others. -/
theorem arguments_append {m : Machine V} {params params' : List Cpp.Param}
    {contents contents' : List (Content V)} {env env' : Env V}
    (h : m.arguments env params contents = some env') :
    m.arguments env (params ++ params') (contents ++ contents') =
      m.arguments env' params' contents' := by
  -- On the first parameters, each of which takes one content.
  induction params generalizing contents env with
  | nil =>
    cases contents with
    | nil =>
      cases h
      rfl
    | cons content contents => cases h
  | cons param params ih =>
    cases contents with
    | nil => cases h
    | cons content contents =>
      obtain ⟨object, hobject, hrest⟩ := Option.bind_eq_some_iff.1 h
      rw [List.cons_append, List.cons_append, Machine.arguments, hobject]
      exact ih hrest

/-! ## What is returned -/

/-- An operation of a block uses what is in scope in front of the block, or results of the block. -/
theorem OpsDominated.uses {ops : List Op} {scope : List ValueId} (h : OpsDominated scope ops) {op : Op}
    (hop : op ∈ ops) {id : ValueId} (hid : id ∈ op.operands) :
    id ∈ scope ∨ ∃ op' ∈ ops, id ∈ op'.results := by
  induction ops generalizing scope with
  | nil => cases hop
  | cons first rest ih =>
    rcases List.mem_cons.1 hop with rfl | hop
    · exact .inl (Op.uses_of_dominated h.1 id (List.mem_append_left _ hid))
    · rcases ih h.2 hop with hscope | ⟨op', hop', hresult⟩
      · rcases List.mem_append.1 hscope with hresult | hscope
        · exact .inr ⟨first, List.mem_cons_self .., hresult⟩
        · exact .inl hscope
      · exact .inr ⟨op', List.mem_cons_of_mem _ hop', hresult⟩

/-- A result of a block is not defined inside of an operation of it. -/
theorem not_inside_of_result {ops : List Op} (h : (definedInOps ops).Nodup) {op op' : Op}
    (hop : op ∈ ops) (hop' : op' ∈ ops) {id : ValueId} (hid : id ∈ op.results) :
    id ∉ definedInBlocks op'.regions := by
  induction ops with
  | nil => cases hop
  | cons first rest ih =>
    rw [definedInOps, List.nodup_append] at h
    have hresult : id ∈ op.defined := op.defined_eq ▸ List.mem_append_left _ hid
    intro hinside
    have hmem : id ∈ op'.defined := op'.defined_eq ▸ List.mem_append_right _ hinside
    -- Both are the first operation, or one of them is, or both come later; in each case the value
    -- would be defined twice.
    rcases List.mem_cons.1 hop with rfl | hlater
    · rcases List.mem_cons.1 hop' with rfl | hlater'
      · have hdistinct := h.1
        rw [Op.defined_eq, List.nodup_append] at hdistinct
        exact hdistinct.2.2 id hid id hinside rfl
      · exact h.2.2 id hresult id (mem_defined_of_mem_ops hlater' hmem) rfl
    · rcases List.mem_cons.1 hop' with rfl | hlater'
      · exact h.2.2 id hmem id (mem_defined_of_mem_ops hlater hresult) rfl
      · exact ih h.2.1 hlater hlater' hinside

/-! ## Functions -/

/-- What a function computes its code computes as well, whatever is in the places of the values that it
returns when it is called. -/
def Performs (m : Machine V) (meaning : Meaning V) (arena : Arena) (limit limit' : Nat)
    (function : Function) (code : FunctionCode) : Prop :=
  ∀ inputs room outputs, Content.AllFit arena function.returned room →
    meaning.evaluate arena limit' function inputs = some outputs →
    ∃ outputs', m.run limit code.cpp (inputs ++ room) = some outputs' ∧
      Content.AllRefine outputs outputs'

/-- Contents that fit values are as many as these, and each fits its own. -/
theorem Content.AllFit.zip {arena : Arena} {ids : List ValueId} {contents : List (Content V)}
    (h : Content.AllFit arena ids contents) : ids.length = contents.length ∧
      ∀ pair ∈ ids.zip contents, pair.2.Fits arena pair.1 := by
  induction ids generalizing contents with
  | nil =>
    cases contents with
    | nil => simp
    | cons content contents => exact h.elim
  | cons id ids ih =>
    cases contents with
    | nil => exact h.elim
    | cons content contents =>
      obtain ⟨hlength, hpairs⟩ := ih h.2
      rw [List.zip_cons_cons, List.forall_mem_cons]
      exact ⟨congrArg Nat.succ hlength, h.1, hpairs⟩

/-- Contents are refined part by part. -/
theorem Content.AllRefine.append {xs xs' ys ys' : List (Content V)} (h : Content.AllRefine xs xs')
    (h' : Content.AllRefine ys ys') : Content.AllRefine (xs ++ ys) (xs' ++ ys') := by
  induction xs generalizing xs' with
  | nil =>
    cases xs' with
    | nil => exact h'
    | cons x xs' => exact h.elim
  | cons x xs ih =>
    cases xs' with
    | nil => exact h.elim
    | cons x' xs' => exact ⟨h.1, ih h.2⟩

namespace Emission

variable {m : Machine V} {meaning : Meaning V} {limit limit' : Nat} {c : Contract}
variable {name : Option String} {t : NameTable}

/-- The arguments are declared as ports, in order. -/
theorem ports_arguments {args : List ValueId}
    (hargs : ∀ id ∈ args, c.values id ∧ c.arena.constantText? id = none ∧ t.binding? id = none)
    (hdistinct : args.Nodup) :
    Places c name t (arguments args) (Ports c.arena (fun _ => false) t args) := by
  induction args generalizing t with
  | nil => exact .pure .nil
  | cons arg rest ih =>
    rw [List.forall_mem_cons] at hargs
    rw [List.nodup_cons] at hdistinct
    obtain ⟨⟨hvalue, hconst, hfree⟩, hrest⟩ := hargs
    refine .bind ((introduces_declarator none hvalue hconst hfree).mono ?_)
    intro first t₁ hfirst
    -- The first declaration names its own argument only.
    have hrest₁ : ∀ id ∈ rest, c.values id ∧ c.arena.constantText? id = none ∧
        t₁.binding? id = none := by
      intro id hid
      obtain ⟨hvalue', hconst', hfree'⟩ := hrest id hid
      refine ⟨hvalue', hconst', ?_⟩
      cases hbinding : t₁.binding? id with
      | none => rfl
      | some binding =>
        have hsame := ((hfirst.grows hconst).mentioned hbinding hfree').1
        exact absurd (hsame ▸ hid) hdistinct.1
    refine .bind ((ih hrest₁ hdistinct.2).mono fun ports t₂ hports => ?_)
    exact .pure (.cons hconst hfirst hports)

/-- A returned value has no name before its port, or that is reported. -/
theorem port_returned (ret : Op) {id : ValueId} (hid : c.values id) :
    Places c name t (returned ret id) fun port t' => c.arena.constantText? id = none ∧
      Introduces c.arena t (!(c.arena.info id).isShaped) id port t' := by
  refine .bindQuiet (isBound_apply (c.known id hid)) ?_
  cases hbound : c.arena.isBound t id with
  | true => exact .bindError rfl
  | false =>
    obtain ⟨hfree, hconst⟩ := Arena.isBound_eq_false_iff.1 hbound
    refine .bindQuiet (info_apply (c.known id hid)) ?_
    cases hshaped : (c.arena.info id).isShaped with
    | true => exact (introduces_array (some ret) hid hconst hfree).mono fun _ _ h => ⟨hconst, h⟩
    | false =>
      exact (places_introduction (some ret) hid hconst hfree (Shape.extents?_of_scalar hshaped)).mono
        fun _ _ h => ⟨hconst, h⟩

/-- The returned values are declared as ports, scalars as pointers. -/
theorem ports_returned (ret : Op) {ids : List ValueId} (hids : ∀ id ∈ ids, c.values id) :
    Places c name t (returnedAll ret ids)
      (Ports c.arena (fun id => !(c.arena.info id).isShaped) t ids) := by
  induction ids generalizing t with
  | nil => exact .pure .nil
  | cons id rest ih =>
    rw [List.forall_mem_cons] at hids
    refine .bind ((port_returned ret hids.1).mono ?_)
    rintro first t₁ ⟨hconst, hfirst⟩
    refine .bind ((ih hids.2).mono fun ports t₂ hports => ?_)
    exact .pure (.cons hconst hfirst hports)

/-- Behind the ports, the operations of the body are to come. Those that are returned have their ports,
and none of them is defined inside of an operation. -/
theorem coming_body {args returned : List ValueId} {ops : List Op} {t₂ : NameTable}
    (hdominated : OpsDominated args ops) (hdistinct : (args ++ definedInOps ops).Nodup)
    (hwaiting : ∀ id ∈ definedInOps ops, c.values id ∧ t.binding? id = none)
    (hliterals : ∀ op ∈ withinOps ops, op.literalsFit c.arena = true)
    (hselects : ∀ op ∈ withinOps ops, m.Selects meaning c.arena op)
    (hgrows : t.Grows c.arena (fun id => id ∈ returned ∨ id ∈ args) t₂)
    (hreturned : ∀ id ∈ returned, ∀ op ∈ ops, id ∉ definedInBlocks op.regions) :
    Coming m meaning c (fun id => id ∈ returned ∨ id ∈ args) t₂ args [] ops := by
  rw [List.nodup_append] at hdistinct
  -- What the body defines has no name yet: it is neither an argument nor returned from inside.
  refine ⟨hdominated, hdistinct.2.1, fun id hid => ⟨fun harg => ?_, by simp⟩, fun op hop => ⟨?_, ?_⟩,
    hliterals, hselects⟩
  · exact hdistinct.2.2 id harg id hid rfl
  · intro id hid
    obtain ⟨hvalue, hfree⟩ :=
      hwaiting id (mem_defined_of_mem_ops hop (op.defined_eq ▸ List.mem_append_left _ hid))
    exact ⟨hvalue, fun binding hbinding => (hgrows.mentioned hbinding hfree).1⟩
  · intro id hid
    have hmem := mem_defined_of_mem_ops hop (op.defined_eq ▸ List.mem_append_right _ hid)
    obtain ⟨hvalue, hfree⟩ := hwaiting id hmem
    refine ⟨hvalue, fun binding hbinding => ?_⟩
    rcases (hgrows.mentioned hbinding hfree).1 with hport | harg
    · exact hreturned id hport op hop hid
    · exact hdistinct.2.2 id harg id hmem rfl

/-- A call of a function whose body carries out what its operations mean. -/
theorem performs_of_carries (hs : Supports m meaning c limit) {function : Function}
    {code : FunctionCode} {ops : List Op} (hblocks : function.blocks = [⟨[], ops⟩])
    (hvalues : ∀ id ∈ function.args ++ function.returned, c.values id)
    (hdistinct : function.args.Nodup) {t₁ t₂ t₃ : NameTable} {arguments results : List Declarator}
    (hv : t.Valid c.arena) (harguments : Ports c.arena (fun _ => false) t function.args arguments t₁)
    (hresults : Ports c.arena (fun id => !(c.arena.info id).isShaped) t₁ function.returned results t₂)
    (hports : code.ports = arguments ++ results) {inside : List ValueId}
    (hbody : Carries m limit c.arena [] inside
      (fun id => id ∈ function.returned ∨ id ∈ function.args) t₂
      (meaning.evalOps c.arena limit' [] ops) code.body t₃) :
    Performs m meaning c.arena limit limit' function code := by
  intro inputs room outputs hroom hevaluate
  rw [List.forall_mem_append] at hvalues
  have hstatic := fun id hid => hs.static id hid
  have hcounts (id : ValueId) (hid : c.values id) extents
      (hextents : (c.arena.info id).shape.extents? = some extents) :
      ∀ extent ∈ extents, m.CountsTo extent.toInt := fun extent hextent =>
    (hs.counts id hid extents hextents extent hextent).1
  rw [Meaning.evaluate, hblocks] at hevaluate
  obtain ⟨σ, hσ, hevaluate⟩ := Option.bind_eq_some_iff.1 hevaluate
  obtain ⟨σ', hσ', houtputs⟩ := Option.bind_eq_some_iff.1 hevaluate
  obtain ⟨hlength, hothers, hpairs⟩ := of_arguments hσ hdistinct
  -- the call
  have hempty : Matches m c.arena t (fun _ => False) σ [] := ⟨by simp, by simp, rfl⟩
  have hv₁ := harguments.grows.valid hv
  obtain ⟨env₁, henv₁, hmatches₁⟩ := harguments.enter hv hempty hlength fun pair hpair => by
    obtain ⟨content, hargument, hcontent⟩ := hpairs pair hpair
    have hid := hvalues.1 pair.1 (List.of_mem_zip hpair).1
    exact accepts_argument hs.implements (hstatic _ hid) (hcounts _ hid) hargument hcontent
  obtain ⟨hroomLength, hfits⟩ := hroom.zip
  obtain ⟨env₂, henv₂, hmatches₂⟩ := hresults.enter hv₁ hmatches₁ hroomLength fun pair hpair => by
    have hid := (List.of_mem_zip hpair).1
    have hnot : pair.1 ∉ function.args := by
      intro harg
      obtain ⟨binding, hbinding⟩ := harguments.bound pair.1 harg
      rw [hresults.free pair.1 hid] at hbinding
      cases hbinding
    exact accepts_returned (hstatic _ (hvalues.2 _ hid)) (hcounts _ (hvalues.2 _ hid))
      (hfits pair hpair) (hothers pair.1 hnot)
  have hentered : Matches m c.arena t₂ (fun id => id ∈ function.returned ∨ id ∈ function.args) σ env₂ :=
    hmatches₂.mono (by simp)
  -- the body and its end
  obtain ⟨env₃, hexec, hmatches₃, hextends⟩ := hbody.simulates σ σ' env₂ hentered hσ'
  have hleft := hentered.leave hmatches₃ (hresults.grows.valid hv₁) hbody.grows (fun _ => .inr) hextends
  rw [List.mapM_append] at houtputs
  obtain ⟨ofArgs, hofArgs, houtputs⟩ := Option.bind_eq_some_iff.1 houtputs
  obtain ⟨ofReturned, hofReturned, ⟨⟩⟩ := Option.bind_eq_some_iff.1 houtputs
  obtain ⟨ofArgs', hofArgs', hargsRefine⟩ :=
    harguments.leave hresults.grows hleft (fun _ => .inr) hofArgs
  obtain ⟨ofReturned', hofReturned', hreturnedRefine⟩ :=
    hresults.leave (show t₂.Grows c.arena (fun _ => True) t₂ from .refl) hleft (fun _ => .inl)
      hofReturned
  refine ⟨ofArgs' ++ ofReturned', ?_, hargsRefine.append hreturnedRefine⟩
  have hcall : m.arguments [] code.cpp.params (inputs ++ room) = some env₂ := by
    rw [FunctionCode.cpp, hports, List.map_append, arguments_append henv₁, henv₂]
  have hend : code.cpp.params.mapM (fun param =>
      ((env₃.leave env₂.length).lookup param.name).map Object.content) =
        some (ofArgs' ++ ofReturned') := by
    rw [FunctionCode.cpp, hports, List.map_append, List.mapM_append, hofArgs', hofReturned']
    rfl
  rw [Machine.run, hcall]
  exact Option.bind_eq_some_iff.2 ⟨env₂, rfl, Option.bind_eq_some_iff.2 ⟨env₃, hexec, hend⟩⟩

/-- A function of the core, whatever was named before. -/
theorem performs_function (hs : Supports m meaning c limit) (hlimit : limit' ≤ limit)
    {function : Function} (hv : t.Valid c.arena) (hcore : function.InCore c.arena)
    (hfaithful : function.Faithful c.arena)
    (hselects : ∀ op ∈ withinBlocks function.blocks, m.Selects meaning c.arena op)
    (hvalues : ∀ id ∈ function.mentioned, c.values id)
    (hfresh : ∀ id ∈ function.defined, t.binding? id = none)
    (hremarks : ∀ remark ∈ function.attrs.remarks, OneLine remark) :
    Places c name t (Emission.function function) fun code _ =>
      code.Readable ∧ Performs m meaning c.arena limit limit' function code := by
  refine .inFunction (.bind ((places_checkStructure function).mono ?_))
  rintro _ t₀ ⟨rfl, block, hblocks⟩
  have hbody := hcore.body
  obtain ⟨args, ops⟩ := block
  rw [Function.bodyInCore, hblocks] at hbody
  obtain rfl : args = [] := by
    cases args with
    | nil => rfl
    | cons arg args => cases hbody
  -- from here on, the body is one block without arguments
  have hdefined : function.defined = function.args ++ definedInOps ops := by
    simp [Function.defined, hblocks, definedInBlocks, definedInBlock]
  have hdistinct := hcore.distinct
  rw [hdefined, List.nodup_append] at hdistinct
  rw [hdefined, List.forall_mem_append] at hfresh
  have hdominated : OpsDominated function.args ops := by
    have hall := hcore.dominated
    rw [hblocks] at hall
    exact hall.1
  have hvalue : ∀ id ∈ function.args ++ definedInOps ops, c.values id := fun id hid =>
    hvalues id (Function.mentioned_of_defined (hdefined ▸ hid))
  rw [List.forall_mem_append] at hvalue
  refine .bind ((ports_arguments (fun id hid =>
    ⟨hvalue.1 id hid, hfaithful.args id hid, hfresh.1 id hid⟩) hdistinct.1).mono ?_)
  intro arguments t₁ harguments
  refine .bind ((places_returnOp? function).mono ?_)
  rintro _ t₁' ⟨rfl, ret, rfl, hret⟩
  have hreturned : function.returned = ret.operands := by simp [Function.returned, hret]
  have hretMem : ret ∈ ops := by
    rw [hblocks] at hret
    exact BlockOf.mem_ops_of_returnOp? hret
  have hretValues : ∀ id ∈ ret.operands, c.values id := fun id hid =>
    hvalues id (Function.mem_mentioned_of_return hret hid)
  refine .bind ((ports_returned ret hretValues).mono ?_)
  intro results t₂ hresults
  rw [← hreturned] at hresults hretValues
  -- behind the ports
  have hnone : Holding c.arena t₀ fun _ => False := ⟨hv, by simp, by simp⟩
  have h₁ := harguments.holding hnone (fun id hid => hs.known (hvalue.1 id hid)) (by simp)
  have h₂ := hresults.holding h₁ (fun id hid => hs.known (hretValues id hid)) (by simp)
  have hholding : Holding c.arena t₂ fun id => id ∈ function.returned ∨ id ∈ function.args :=
    h₂.mono (by simp)
  have hgrows : t₀.Grows c.arena (fun id => id ∈ function.returned ∨ id ∈ function.args) t₂ :=
    (harguments.grows.mono fun _ => .inr).trans (hresults.grows.mono fun _ => .inl)
  have hconsts : ∀ id ∈ function.args ++ ret.operands,
      (id ∈ function.returned ∨ id ∈ function.args) ∧ c.arena.constantText? id = none := by
    rw [List.forall_mem_append, ← hreturned]
    exact ⟨fun id hid => ⟨.inr hid, hfaithful.args id hid⟩, fun id hid => ⟨.inl hid, hresults.const id hid⟩⟩
  refine .bind ((silent_functionPragmas function.attrs hholding hconsts).mono ?_)
  rintro pragmas t₂ ⟨rfl, hpragmas⟩
  have hscene : Scene m meaning c limit (fun id => id ∈ function.returned ∨ id ∈ function.args) t₂
      function.args none [] := ⟨hs, hholding, fun _ => .inr, by simp, by simp⟩
  have hwithin : ∀ op ∈ withinOps ops, op ∈ withinBlocks function.blocks := fun op hop => by
    rw [hblocks]
    exact List.mem_append_left _ hop
  have hcoming : Coming m meaning c (fun id => id ∈ function.returned ∨ id ∈ function.args) t₂ function.args []
      ops := by
    refine coming_body hdominated (hdefined ▸ hcore.distinct)
      (fun id hid => ⟨hvalue.2 id hid, hfresh.2 id hid⟩) (fun op hop => hfaithful.ops op (hwithin op hop))
      (fun op hop => hselects op (hwithin op hop)) hgrows ?_
    · intro id hid op hop
      rw [hreturned] at hid
      rcases OpsDominated.uses hdominated hretMem hid with harg | ⟨op', hop', hresult⟩
      · intro hinside
        have hmem := mem_defined_of_mem_ops hop (op.defined_eq ▸ List.mem_append_right _ hinside)
        exact hdistinct.2.2 id harg id hmem rfl
      · exact not_inside_of_result hdistinct.2.1 hop' hop hresult
  rw [hblocks]
  refine .bind ((carries_body hlimit none hscene hcoming hbody).mono ?_)
  intro stmts t₃ hstmts
  have hcarries := hstmts.behindSilent hpragmas
  refine .pure ⟨⟨hfaithful.name, hremarks, ?_, hcarries.readable⟩, ?_⟩
  · rw [List.forall_mem_append]
    exact ⟨harguments.readable fun id hid => hs.static id (hvalue.1 id hid),
      hresults.readable fun id hid => hs.static id (hretValues id hid)⟩
  · exact performs_of_carries hs hblocks (List.forall_mem_append.2 ⟨hvalue.1, hretValues⟩)
      hdistinct.1 hv harguments hresults rfl hcarries

end Emission

end HlsEmit
