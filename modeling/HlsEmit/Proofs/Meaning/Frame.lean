import HlsEmit.Execution.Evaluation
import HlsEmit.Model.Dominance

/-!
# What evaluation leaves alone

An operation sets its results, and a yield those of the conditional around; everything else that it
changes is elements of arrays. So a scalar keeps its value while operations run that do not define
it: the bounds of a loop are the same in all iterations.

## Key results

- `Meaning.evalOps_frames`: some operations with everything inside of them
-/

namespace HlsEmit

variable {V : Type}

/-- Scalars other than these are the same in both states. -/
def State.Keeps (ids : List ValueId) (σ σ' : State V) : Prop :=
  ∀ id, id ∉ ids → ∀ value, σ id = some (.scalar value) → σ' id = some (.scalar value)

namespace State.Keeps

variable {ids ids' : List ValueId} {σ σ' σ'' : State V}

/-- A state keeps itself. -/
theorem refl : Keeps ids σ σ :=
  fun _ _ _ h => h

/-- What two steps keep is kept by both together. -/
theorem trans (h : Keeps ids σ σ') (h' : Keeps ids σ' σ'') : Keeps ids σ σ'' :=
  fun id hid value hvalue => h' id hid value (h id hid value hvalue)

/-- Fewer values are kept if more may change. -/
theorem mono (h : Keeps ids σ σ') (hids : ∀ id ∈ ids, id ∈ ids') : Keeps ids' σ σ' :=
  fun id hid => h id fun hmem => hid (hids id hmem)

/-- Setting one of the values keeps the others. -/
theorem set {id : ValueId} (content : Content V) (hid : id ∈ ids) : Keeps ids σ (σ.set id content) := by
  intro other hother value hvalue
  have hne : other ≠ id := fun heq => hother (heq ▸ hid)
  rw [State.set, if_neg hne]
  exact hvalue

/-- An array does not become a scalar. -/
theorem setArray {id : ValueId} {elements elements' : List Int → Option V}
    (h : σ id = some (.array elements)) : Keeps ids σ (σ.set id (.array elements')) := by
  intro other _ value hvalue
  have hne : other ≠ id := by
    rintro rfl
    rw [h] at hvalue
    cases hvalue
  rw [State.set, if_neg hne]
  exact hvalue

/-- Setting some of the values keeps the others. -/
theorem setAll {contents : List (ValueId × Content V)} (h : ∀ entry ∈ contents, entry.1 ∈ ids) :
    Keeps ids σ (σ.setAll contents) := by
  induction contents generalizing σ with
  | nil => exact refl
  | cons entry rest ih =>
    rw [List.forall_mem_cons] at h
    exact (set entry.2 h.1).trans (ih h.2)

/-- Clearing some of the values keeps the others. -/
theorem clear {cleared : List ValueId} (h : ∀ id ∈ cleared, id ∈ ids) :
    Keeps ids σ (σ.clear cleared) := by
  intro id hid value hvalue
  rw [State.clear, if_neg fun hmem => hid (h id hmem)]
  exact hvalue

/-- A scalar that is not set has the same value. -/
theorem scalar (h : Keeps ids σ σ') {id : ValueId} (hid : id ∉ ids) {value : V}
    (hvalue : σ.scalar? id = some value) : σ'.scalar? id = some value := by
  unfold State.scalar? at hvalue ⊢
  split at hvalue
  · next held hstate => rw [h id hid held hstate]; exact hvalue
  · cases hvalue

end State.Keeps

/-- What each step of a loop preserves holds behind the loop. -/
theorem iterate_preserves {α : Type} {P : α → Prop} {test : α → Option Bool} {step : α → Option α}
    (hstep : ∀ state next, P state → step state = some next → P next) {limit : Nat}
    {state behind : α} (h : P state) (hrun : iterate test step limit state = some behind) :
    P behind := by
  induction limit generalizing state with
  | zero => cases hrun
  | succ limit ih =>
    rw [iterate] at hrun
    obtain ⟨holds, hholds, hrun⟩ := Option.bind_eq_some_iff.1 hrun
    cases holds with
    | false =>
      cases hrun
      exact h
    | true =>
      obtain ⟨next, hnext, hrun⟩ := Option.bind_eq_some_iff.1 hrun
      exact ih (hstep state next h hnext) hrun

namespace Meaning

variable (m : Meaning V) (arena : Arena)

/-- A computation that leaves all scalars but these alone. -/
def Frames (ids : List ValueId) (run : State V → Option (State V)) : Prop :=
  ∀ σ σ', run σ = some σ' → σ.Keeps ids σ'

variable {m arena} {ids : List ValueId} {σ σ' : State V}

/-- A computation changes its target only. -/
theorem keeps_compute {id : ValueId} {formula : List Int → Option V}
    (h : m.compute arena σ id formula = some σ') (hid : id ∈ ids) : σ.Keeps ids σ' := by
  obtain ⟨content, -, h⟩ := Option.bind_eq_some_iff.1 h
  cases h
  exact .set content hid

/-- Setting a scalar changes it only. -/
theorem keeps_setScalar {id : ValueId} {value : V} (h : m.setScalar arena σ id value = some σ')
    (hid : id ∈ ids) : σ.Keeps ids σ' := by
  unfold setScalar at h
  split at h
  · cases h
  · exact keeps_compute h hid

/-- Setting a constant changes it only. -/
theorem keeps_setConstant {id : ValueId} (h : m.setConstant arena σ id = some σ') (hid : id ∈ ids) :
    σ.Keeps ids σ' := by
  unfold setConstant at h
  split at h
  · cases h
  · obtain ⟨literal, -, h⟩ := Option.bind_eq_some_iff.1 h
    obtain ⟨value, -, h⟩ := Option.bind_eq_some_iff.1 h
    cases h
    exact .set _ hid

/-- Setting an element of an array changes no scalar. -/
theorem keeps_setElement {array : ValueId} {indices : List Int} {value : V}
    (h : m.setElement arena σ array indices value = some σ') : σ.Keeps ids σ' := by
  unfold Meaning.setElement at h
  split at h
  · next elements extents helements hextents =>
    split at h
    · obtain ⟨converted, -, h⟩ := Option.bind_eq_some_iff.1 h
      cases h
      exact .setArray helements
    · cases h
  · cases h

/-- A loop changes its index and what its body changes. -/
theorem keeps_loop {limit : Nat} {index : ValueId} {lower upper step : V}
    {body : State V → Option (State V)} (h : m.loop arena limit σ index lower upper step body = some σ')
    (hindex : index ∈ ids) (hbody : Frames ids body) : σ.Keeps ids σ' := by
  obtain ⟨first, hfirst, hrun⟩ := Option.bind_eq_some_iff.1 h
  refine iterate_preserves ?_ (keeps_setScalar hfirst hindex) hrun
  intro state next hstate hstep
  obtain ⟨behind, hbehind, hstep⟩ := Option.bind_eq_some_iff.1 hstep
  obtain ⟨count, -, hstep⟩ := Option.bind_eq_some_iff.1 hstep
  obtain ⟨sum, -, hstep⟩ := Option.bind_eq_some_iff.1 hstep
  exact (hstate.trans (hbody state behind hbehind)).trans (keeps_setScalar hstep hindex)

/-- A conditional changes what its branches change. -/
theorem keeps_branch {condition : V} {onTrue : State V → Option (State V)}
    {onFalse : Option (State V → Option (State V))}
    (h : m.branch σ condition onTrue onFalse = some σ') (hTrue : Frames ids onTrue)
    (hFalse : ∀ run ∈ onFalse, Frames ids run) : σ.Keeps ids σ' := by
  obtain ⟨holds, -, h⟩ := Option.bind_eq_some_iff.1 h
  cases holds with
  | true => exact hTrue σ σ' h
  | false =>
    cases onFalse with
    | none =>
      cases h
      exact .refl
    | some run => exact hFalse run rfl σ σ' h

/-- The copies are made for the targets, in order. -/
theorem fst_of_copies {pairs : List (ValueId × ValueId)} {contents : List (ValueId × Content V)}
    (h : m.copies arena σ pairs = some contents) : contents.map Prod.fst = pairs.map Prod.fst := by
  induction pairs generalizing contents with
  | nil =>
    cases h
    rfl
  | cons pair rest ih =>
    obtain ⟨content, -, h⟩ := Option.bind_eq_some_iff.1 h
    obtain ⟨others, hothers, h⟩ := Option.bind_eq_some_iff.1 h
    cases h
    rw [List.map_cons, List.map_cons, ih hothers]

/-- A yield changes its targets only. -/
theorem keeps_deliver {pairs : List (ValueId × ValueId)} (h : m.deliver arena σ pairs = some σ')
    (hids : ∀ pair ∈ pairs, pair.1 ∈ ids) : σ.Keeps ids σ' := by
  obtain ⟨contents, hcontents, hrun⟩ := Option.bind_eq_some_iff.1 h
  cases hrun
  refine .setAll fun entry hentry => ?_
  have hfst : entry.1 ∈ pairs.map Prod.fst := fst_of_copies hcontents ▸ List.mem_map_of_mem hentry
  obtain ⟨pair, hpair, heq⟩ := List.mem_map.1 hfst
  exact heq ▸ hids pair hpair

/-- An operation changes no scalars but its results, its indices and those that it yields to. -/
theorem frames_operation {limit : Nat} {around : List ValueId} {op : Op} {bodies : List (Body V)}
    (hresults : ∀ id ∈ op.results, id ∈ ids) (haround : ∀ id ∈ around, id ∈ ids)
    (hbodies : ∀ body ∈ bodies, (∀ id ∈ body.args, id ∈ ids) ∧ Frames ids body.run) :
    Frames ids (m.operation arena limit around op bodies) := by
  intro σ σ' h
  have hresult {result : ValueId} (heq : op.results = [result]) : result ∈ ids :=
    hresults result (by simp [heq])
  have hyield (operands : List ValueId) : ∀ pair ∈ around.zip operands, pair.1 ∈ ids :=
    fun pair hpair => haround pair.1 (List.of_mem_zip hpair).1
  unfold operation at h
  split at h
  · exact keeps_setConstant h (hresult ‹_›)
  · exact keeps_compute h (hresult ‹_›)
  · exact keeps_compute h (hresult ‹_›)
  · exact keeps_compute h (hresult ‹_›)
  · exact keeps_compute h (hresult ‹_›)
  · exact keeps_compute h (hresult ‹_›)
  · exact keeps_compute h (hresult ‹_›)
  · cases h
    exact .set _ (hresult ‹_›)
  · -- a load
    obtain ⟨indices, -, h⟩ := Option.bind_eq_some_iff.1 h
    obtain ⟨value, -, h⟩ := Option.bind_eq_some_iff.1 h
    exact keeps_setScalar h (hresult ‹_›)
  · -- a store
    obtain ⟨indices, -, h⟩ := Option.bind_eq_some_iff.1 h
    obtain ⟨value, -, h⟩ := Option.bind_eq_some_iff.1 h
    exact keeps_setElement h
  · obtain ⟨indices, -, h⟩ := Option.bind_eq_some_iff.1 h
    obtain ⟨value, -, h⟩ := Option.bind_eq_some_iff.1 h
    exact keeps_setScalar h (hresult ‹_›)
  · obtain ⟨indices, -, h⟩ := Option.bind_eq_some_iff.1 h
    obtain ⟨value, -, h⟩ := Option.bind_eq_some_iff.1 h
    exact keeps_setElement h
  · obtain ⟨result, -, h⟩ := Option.bind_eq_some_iff.1 h
    obtain ⟨value, -, h⟩ := Option.bind_eq_some_iff.1 h
    exact keeps_setScalar h (hresult ‹_›)
  · -- loops
    obtain ⟨lower, -, h⟩ := Option.bind_eq_some_iff.1 h
    obtain ⟨upper, -, h⟩ := Option.bind_eq_some_iff.1 h
    obtain ⟨step, -, h⟩ := Option.bind_eq_some_iff.1 h
    rw [List.forall_mem_singleton] at hbodies
    exact keeps_loop h (hbodies.1 _ (List.mem_singleton_self _)) hbodies.2
  · obtain ⟨lower, -, h⟩ := Option.bind_eq_some_iff.1 h
    obtain ⟨upper, -, h⟩ := Option.bind_eq_some_iff.1 h
    obtain ⟨step, -, h⟩ := Option.bind_eq_some_iff.1 h
    rw [List.forall_mem_singleton] at hbodies
    exact keeps_loop h (hbodies.1 _ (List.mem_singleton_self _)) hbodies.2
  · -- conditionals
    obtain ⟨condition, -, h⟩ := Option.bind_eq_some_iff.1 h
    rw [List.forall_mem_singleton] at hbodies
    exact (State.Keeps.clear hresults).trans (keeps_branch h hbodies.2 (by simp))
  · obtain ⟨condition, -, h⟩ := Option.bind_eq_some_iff.1 h
    simp only [List.forall_mem_cons] at hbodies
    exact (State.Keeps.clear hresults).trans
      (keeps_branch h hbodies.1.2 (by simpa using hbodies.2.1.2))
  · exact keeps_deliver h (hyield _)
  · exact keeps_deliver h (hyield _)
  · cases h
    exact .refl
  · cases h

/-! ## Blocks -/

mutual

/-- An operation with everything inside of it. -/
theorem evalOp_frames (limit : Nat) (around : List ValueId) : (op : Op) →
    Frames (around ++ op.defined) (m.evalOp arena limit around op)
  | ⟨kind, operands, results, attrs, regions, line⟩ => by
    rw [evalOp]
    refine frames_operation (fun id hid => ?_) (fun id hid => List.mem_append_left _ hid) ?_
    · exact List.mem_append_right _ (List.mem_append_left _ hid)
    · intro body hbody
      -- What a yield inside may change are results of the operation, if it delivers to any.
      have htargets : ∀ id ∈ yieldTargets ⟨kind, operands, results, attrs, regions, line⟩,
          id ∈ results := by
        intro id hid
        unfold yieldTargets at hid
        split at hid
        · exact hid
        · cases hid
      obtain ⟨hargs, hrun⟩ := evalRegions_frames limit _ regions body hbody
      refine ⟨fun id hid => ?_, fun σ σ' h => (hrun σ σ' h).mono fun id hid => ?_⟩
      · exact List.mem_append_right _ (List.mem_append_right _ (hargs id hid))
      · rw [List.mem_append] at hid
        exact List.mem_append_right _ (List.mem_append.2 (hid.imp_left (htargets id)))

/-- Each region of an operation. -/
theorem evalRegions_frames (limit : Nat) (around : List ValueId) : (regions : List (BlockOf Op)) →
    ∀ body ∈ m.evalRegions arena limit around regions,
      (∀ id ∈ body.args, id ∈ definedInBlocks regions) ∧
        Frames (around ++ definedInBlocks regions) body.run
  | [], _, hbody => by cases hbody
  | ⟨args, ops⟩ :: rest, body, hbody => by
    rw [evalRegions] at hbody
    -- The first region, whose operations are inside of it, or one of the others.
    rcases List.mem_cons.1 hbody with rfl | hbody
    · refine ⟨fun id hid => ?_, fun σ σ' h => ?_⟩
      · exact List.mem_append_left _ (List.mem_append_left _ hid)
      · refine (evalOps_frames limit around ops σ σ' h).mono fun id hid => ?_
        rw [List.mem_append] at hid
        exact List.mem_append.2 (hid.imp_right fun hid =>
          List.mem_append_left _ (List.mem_append_right _ hid))
    · obtain ⟨hargs, hrun⟩ := evalRegions_frames limit around rest body hbody
      refine ⟨fun id hid => List.mem_append_right _ (hargs id hid), fun σ σ' h => ?_⟩
      refine (hrun σ σ' h).mono fun id hid => ?_
      rw [List.mem_append] at hid
      exact List.mem_append.2 (hid.imp_right (List.mem_append_right _))

/-- Some operations with everything inside of them. -/
theorem evalOps_frames (limit : Nat) (around : List ValueId) : (ops : List Op) →
    Frames (around ++ definedInOps ops) (m.evalOps arena limit around ops)
  | [], σ, σ', h => by
    cases h
    exact .refl
  | op :: rest, σ, σ', h => by
    obtain ⟨behind, hbehind, h⟩ := Option.bind_eq_some_iff.1 h
    refine State.Keeps.trans ((evalOp_frames limit around op σ behind hbehind).mono ?_)
      ((evalOps_frames limit around rest behind σ' h).mono ?_)
    · intro id hid
      rw [List.mem_append] at hid
      exact List.mem_append.2 (hid.imp_right (List.mem_append_left _))
    · intro id hid
      rw [List.mem_append] at hid
      exact List.mem_append.2 (hid.imp_right (List.mem_append_right _))

end

end Meaning

end HlsEmit
