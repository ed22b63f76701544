import HlsEmit.Proofs.Meaning.Formula
import HlsEmit.Proofs.Meaning.Statement

/-!
# Loads, stores and bounds

Code whose value is that of a part of an operation, wherever the table has grown to: an operand, an
element of an array, a bound of a loop. The statements of loads and stores are made of such code.

## Key results

- `denotes_element`, `indexes_map`: elements of arrays
- `denotes_bound`: the greatest or the least of affine expressions
- `carries_assign`, `carries_store`: loads and stores
-/

namespace HlsEmit

open Cpp (Machine Env)
open Code

variable {V : Type}

/-- Code has the value of a part of an operation. -/
structure Denotes (m : Machine V) (arena : Arena) (held : ValueId → Prop) (t : NameTable)
    (code : NameTable → Expr) (f : State V → Option V) : Prop where
  readable : ∀ t', t.Grows arena (fun _ => True) t' → (code t').Readable false
  refines : ∀ t' σ env, t.Grows arena (fun _ => True) t' → Matches m arena t' held σ env →
    Refines (f σ) (m.eval env (code t').cpp)

/-- Terms that stand for the indices of an element. -/
structure Indexes (m : Machine V) (arena : Arena) (held : ValueId → Prop) (t : NameTable)
    (terms : List Term) (f : State V → Option (List Int)) : Prop where
  values : ∀ id ∈ terms.flatMap Term.values, held id
  readable : ∀ t', t.Grows arena (fun _ => True) t' →
    ∀ e ∈ terms.map (Term.heldCode arena t'), e.Readable true
  refines : ∀ t' σ env, t.Grows arena (fun _ => True) t' → Matches m arena t' held σ env →
    Refines (f σ) (m.evalIndices env ((terms.map (Term.heldCode arena t')).map Expr.cpp))

section Parts

variable {m : Machine V} {meaning : Meaning V} {arena : Arena} {t : NameTable}
variable {held : ValueId → Prop} {id : ValueId}

/-- A scalar that is held. -/
theorem denotes_scalar (h : Holding arena t held) (hid : held id) :
    Denotes m arena held t (fun t' => arena.useCode t' id) fun σ => σ.scalar? id :=
  ⟨fun _ hgrows => (h.grows hgrows).readable_use hid false,
    fun _ _ _ _ hmatches => hmatches.refines_use hid⟩

/-- An integer. -/
theorem denotes_integer (hm : m.Implements meaning) (value : Int64) :
    Denotes m arena held t (fun _ => .integer value.toInt) fun _ => meaning.constant (.int value) :=
  ⟨fun _ _ => .integer _, fun _ _ _ _ hmatches => refines_integer hm value hmatches.plain⟩

/-- An element of an array. -/
theorem denotes_element (h : Holding arena t held) {array : ValueId} (hid : held array)
    (hshaped : (arena.info array).isShaped = true) {terms : List Term} (hne : terms ≠ [])
    {f : State V → Option (List Int)} (hindices : Indexes m arena held t terms f) :
    Denotes m arena held t (fun t' => (⟨.value array, terms⟩ : Place).heldCode arena t') fun σ => do
      σ.element? arena array (← f σ) where
  readable t' hgrows := by
    have h' := h.grows hgrows
    obtain ⟨-, name, -, hcode⟩ := h'.cpp_array hid hshaped
    exact Code.readable_subscripts hcode (h'.readable_use hid false) (hindices.readable t' hgrows)
  refines t' σ env hgrows hmatches := by
    intro value hvalue
    obtain ⟨indices, hsome, hvalue⟩ := Option.bind_eq_some_iff.1 hvalue
    exact hmatches.refines_subscripts (h.grows hgrows) hid hshaped (by simpa using hne)
      (hindices.refines t' σ env hgrows hmatches indices hsome) value hvalue

/-- Indices that are values. -/
theorem indexes_values (h : Holding arena t held) (hm : m.Implements meaning) {ids : List ValueId}
    (hids : ∀ id ∈ ids, held id) :
    Indexes m arena held t (ids.map .value) fun σ => meaning.valueIndices σ ids where
  values := by simpa [List.flatMap_map, Term.values] using hids
  readable t' hgrows e he := by
    rw [List.map_map] at he
    obtain ⟨id, hid, rfl⟩ := List.mem_map.1 he
    exact (h.grows hgrows).readable_use (hids id hid) true
  refines t' σ env _ hmatches := by
    have hcodes : (ids.map Term.value).map (Term.heldCode arena t') = ids.map (arena.useCode t') := by
      rw [List.map_map]
      rfl
    rw [hcodes]
    exact hmatches.evalIndices_values hm hids

/-- Operands by their position have their values. -/
theorem refines_operand (h : Holding arena t held) {operands : List ValueId}
    (hids : ∀ id ∈ operands, held id) {t' : NameTable} (hgrows : t.Grows arena (fun _ => True) t')
    {σ : State V} {env : Env V} (hmatches : Matches m arena t' held σ env) (position : Nat) :
    Refines (Meaning.input σ operands position)
      (m.eval env (arena.operandAt t operands position).cpp) :=
  (hmatches.shrinks h hgrows).refines_operandAt hids position

/-- Indices that a map of the core gives. Its code was there before the statement. -/
theorem indexes_map (h : Holding arena t held) (hm : m.Implements meaning) {map : AffineMap}
    {operands : List ValueId} (hids : ∀ id ∈ operands, held id)
    (hcount : map.dims.toNat + map.symbols.toNat = operands.length)
    (hcore : map.inCore arena operands = true) :
    Indexes m arena held t ((map.code (arena.operandAt t operands)).map .code) fun σ =>
      meaning.mapIndices σ map operands where
  values := by simp [List.flatMap_map, Term.values]
  readable t' _ e he := by
    rw [List.map_map] at he
    obtain ⟨code, hcode, rfl⟩ := List.mem_map.1 he
    exact (AffineMap.readable_code h hids hcount hcore code hcode).any true
  refines t' σ env hgrows hmatches := by
    -- The code was made when the access was admitted, so later names do not change it.
    have hcodes : ((map.code (arena.operandAt t operands)).map Term.code).map (Term.heldCode arena t') =
        map.code (arena.operandAt t operands) := by
      rw [List.map_map]
      exact List.map_id _
    rw [hcodes]
    exact evalIndices_map hm hmatches.plain (refines_operand h hids hgrows hmatches) _ _

/-- The first result of a map of the core. -/
theorem denotes_map (h : Holding arena t held) (hm : m.Implements meaning) {map : AffineMap}
    {operands : List ValueId} (hids : ∀ id ∈ operands, held id)
    (hcount : map.dims.toNat + map.symbols.toNat = operands.length)
    (hcore : map.inCore arena operands = true) {first : AffineExpr} {rest : List AffineExpr}
    (hresults : map.results = first :: rest) :
    Denotes m arena held t (fun _ => first.code (arena.operandAt t operands) map.dims.toNat) fun σ => do
      meaning.affine (Meaning.input σ operands) map.dims.toNat (← map.results.head?) where
  readable _ _ := AffineMap.readable_code h hids hcount hcore _ (by simp [AffineMap.code, hresults])
  refines _ σ env hgrows hmatches := by
    rw [hresults]
    exact refines_affine hm hmatches.plain (refines_operand h hids hgrows hmatches) _ first

/-- The greatest or the least of the results of a map of the core. Its code is written over the names
that are known then. -/
theorem denotes_bound (h : Holding arena t held) (hm : m.Implements meaning) {function : String}
    (hfunction : function ∈ callees) {combine : V → V → Option V}
    (hcombine : ∀ x y, Refines (combine x y) (m.call function [x, y])) {bound : AffineBound}
    (hids : ∀ id ∈ bound.operands, held id)
    (hcount : bound.map.dims.toNat + bound.map.symbols.toNat = bound.operands.length)
    (hcore : bound.map.inCore arena bound.operands = true) (hne : bound.map.results ≠ []) :
    Denotes m arena held t (fun t' => (Term.affine function bound.values).heldCode arena t') fun σ =>
      meaning.bound combine σ bound := by
  obtain ⟨first, rest, hresults⟩ := List.exists_cons_of_ne_nil hne
  have hcode (t' : NameTable) : (Term.affine function bound.values).heldCode arena t' =
      .nestedCalls function (bound.map.code (arena.operandAt t' bound.operands)) := by
    simp [Term.heldCode, AffineBound.values, AffineMap.code, Function.comp_def]
  refine ⟨fun t' hgrows => ?_, fun t' σ env hgrows hmatches => ?_⟩
  · rw [hcode]
    refine Code.readable_nestedCalls hfunction (by simp [AffineMap.code, hresults]) ?_
    exact AffineMap.readable_code (h.grows hgrows) hids hcount hcore
  · rw [hcode, AffineMap.code, hresults]
    have hoperand := hmatches.refines_operandAt hids
    have hall := refines_nestedCalls hm hmatches.plain hoperand hfunction hcombine
      bound.map.dims.toNat rest (refines_affine hm hmatches.plain hoperand bound.map.dims.toNat first)
    -- The first value is the start, the others are combined with it from left to right.
    intro value hvalue
    refine hall value ?_
    rw [Meaning.bound, hresults] at hvalue
    obtain ⟨values, hvalues, hvalue⟩ := Option.bind_eq_some_iff.1 hvalue
    obtain ⟨x, hx, hvalues⟩ := Option.bind_eq_some_iff.1 hvalues
    obtain ⟨xs, hxs, ⟨⟩⟩ := Option.bind_eq_some_iff.1 hvalues
    exact Option.bind_eq_some_iff.2 ⟨xs, hxs, Option.bind_eq_some_iff.2 ⟨x, hx, hvalue⟩⟩

end Parts

namespace Emission

variable {m : Machine V} {meaning : Meaning V} {limit : Nat} {c : Contract}
variable {function : Option String} {t : NameTable} {held : ValueId → Prop} {id : ValueId}

/-- A scalar is set to the value of a place. -/
theorem carries_assign (hs : Supports m meaning c limit) (h : Holding c.arena t held) (op : Op)
    (hid : Awaits c held t id) (hconst : c.arena.constantText? id = none) {source : Place}
    (hvalues : ∀ id' ∈ source.values, held id') {f : State V → Option V}
    (hsource : Denotes m c.arena held t (fun t' => source.heldCode c.arena t') f)
    (bodies : List (Emission (List Stmt))) :
    Places c function t (render op bodies (.assign (.scalar id) source))
      (Carries m limit c.arena [id] [] held t fun σ => do
        meaning.setScalar c.arena σ id (← f σ)) := by
  refine .bind (.bind (.bind ((places_target false (some op) hid hconst).mono ?_)))
  intro target t' htarget
  have hgrows := (htarget.grows hconst).mono fun _ _ => trivial
  refine .pure (.bind (.pure (.pure ?_)))
  refine .bindQuiet (place_of_held (h.grows hgrows) op hvalues) (.pure ?_)
  exact carries_setScalar hs h hid.value hconst htarget ((hsource.readable t' hgrows).any true)
    (fun σ env hmatches => .of_refines hs.implements (hsource.refines t' σ env hgrows hmatches))
    (some op.note)

/-- An element of an array is set to a scalar. -/
theorem carries_store (hs : Supports m meaning c limit) (h : Holding c.arena t held) (op : Op)
    {array value : ValueId} (harray : held array) (hshaped : (c.arena.info array).isShaped = true)
    (hvalue : held value) {indices : List Term} (hne : indices ≠ [])
    {f : State V → Option (List Int)} (hindices : Indexes m c.arena held t indices f)
    (bodies : List (Emission (List Stmt))) :
    Places c function t (render op bodies (.assign ⟨.value array, indices⟩ (.scalar value)))
      (Carries m limit c.arena [] [] held t fun σ => do
        meaning.setElement c.arena σ array (← f σ) (← σ.scalar? value)) := by
  have htarget : ∀ id ∈ (⟨.value array, indices⟩ : Place).values, held id := by
    rw [Place.values, List.forall_mem_append]
    exact ⟨by simpa [Term.values] using harray, hindices.values⟩
  refine .bindQuiet (place_of_held h op htarget) ?_
  refine .bindQuiet (place_of_held h op (by simpa using hvalue)) (.pure ?_)
  have hcodes : indices.map (Term.heldCode c.arena t) ≠ [] := by simpa using hne
  obtain ⟨-, name, -, hcode⟩ := h.cpp_array harray hshaped
  -- The target can be read as an element of the array.
  have hreadable := Code.readable_subscripts hcode (h.readable_use harray false)
    (hindices.readable t .refl)
  refine ⟨.refl, h.mono (by simp), ⟨⟨.place hreadable, h.readable_use hvalue true⟩, trivial⟩, ?_⟩
  intro σ σ' env hmatches hrun
  -- The indices and the number are those of the program; the array is changed at these indices.
  obtain ⟨at', hat, hrun⟩ := Option.bind_eq_some_iff.1 hrun
  obtain ⟨number, hnumber, hrun⟩ := Option.bind_eq_some_iff.1 hrun
  have heval := hmatches.refines_use hvalue number hnumber
  obtain ⟨env', hstore, hmatches', hnames⟩ := hmatches.store_element h hs.implements harray hshaped hcodes
    (hindices.refines t σ env .refl hmatches at' hat) hrun
  refine ⟨env', ?_, hmatches'.mono (by simp), .of_names hnames⟩
  show m.execAll limit (assignCpp ((c.arena.useCode t array).subscripts
    (indices.map (Term.heldCode c.arena t))) (c.arena.useCode t value) ++ []) env = _
  rw [List.append_nil, assignCpp_of_readable hreadable, execAll_singleton]
  exact Option.bind_eq_some_iff.2 ⟨number, heval, hstore⟩

end Emission

end HlsEmit
