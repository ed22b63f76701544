import HlsEmit.Proofs.Pragmas.Basic
import HlsEmit.Proofs.Pragmas.Built

/-!
# Names without errors

What is declared without an error has a name behind its declaration, and keeps it. A value that is
returned must not have one before, or that is reported.

## Key results

- `binds_mentionAs`, `binds_share`: the places where names are given
- `fresh_results`: the values that a function returns are different ones without names
-/

namespace HlsEmit

open Code

namespace Emission

variable {α β : Type} {turns : Prop} {arena : Arena} {scope : Scope} {t : NameTable} {id : ValueId}

/-- A value that is bound stays so. -/
theorem Built.bound {e : Emission α} (he : Built turns e) (h : arena.isBound t id = true) :
    arena.isBound (e.run scope t).names id = true :=
  Arena.isBound_of_keeps (he.keeps scope t) h

/-- A value that is not bound behind an emission was not bound before. -/
theorem Built.fresh {e : Emission α} (he : Built turns e)
    (h : arena.isBound (e.run scope t).names id = false) : arena.isBound t id = false := by
  cases hbound : arena.isBound t id with
  | false => rfl
  | true => rw [← h, he.bound hbound]

/-- An entry that is looked up without an overrun is there. -/
theorem known_of_clean (h : ((info id).run scope t).Clean) : (scope.values.info? id).isSome := by
  cases hinfo : scope.values.info? id with
  | some info => rfl
  | none =>
    have hcheck : ((checkEntry id).run scope t).overruns = [] := h.of_andThen.1.overruns
    simp [checkEntry, bind_apply, hinfo, Outcome.andThen] at hcheck

/-- A clean question whether a value is bound has its answer. -/
theorem isBound_of_clean (h : ((isBound id).run scope t).Clean) :
    (isBound id).run scope t = ⟨scope.values.isBound t id, t, [], [], []⟩ := by
  cases hdeclared : t.isDeclared id with
  | true =>
    unfold isBound
    rw [bind_of_quiet (inspect_apply _ _), hdeclared, if_pos rfl, pure_apply]
    simp [Arena.isBound, hdeclared]
  | false =>
    unfold isBound at h
    rw [bind_of_quiet (inspect_apply _ _), hdeclared] at h
    exact isBound_apply (known_of_clean h.of_andThen.1)

/-- Without errors, a value is bound behind an emission. -/
def Binds (e : Emission α) (id : ValueId) : Prop :=
  ∀ scope t, (e.run scope t).Clean → scope.values.isBound (e.run scope t).names id = true

namespace Binds

variable {e : Emission α} {next : α → Emission β}

/-- A value that is bound first stays bound. -/
theorem first (h : Binds e id) (hnext : ∀ value, Built False (next value)) :
    Binds (e >>= next) id := by
  intro scope t hclean
  rw [bind_apply] at hclean ⊢
  exact (hnext _).bound (h scope t hclean.of_andThen.1)

/-- A value that is bound later is bound in the end. -/
theorem later (h : ∀ value, Binds (next value) id) : Binds (e >>= next) id := by
  intro scope t hclean
  rw [bind_apply] at hclean ⊢
  exact h _ scope _ hclean.of_andThen.2

/-- Nothing is clean behind an error. -/
theorem error {op : Option Op} {problem : Problem} {next : Unit → Emission β}
    (h : problem.severity = .error) : Binds (raise op problem >>= next) id := by
  intro scope t hclean
  have hnever : Cleanly (raise op problem >>= next) fun _ => False := .error h
  exact (hnever scope t hclean).elim

end Binds

/-- The mention of a value binds it. -/
theorem binds_mentionAs (pointer : Bool) (op : Option Op) (id : ValueId) :
    Binds (mentionAs pointer op id) id := by
  intro scope t hclean
  cases hbound : scope.values.isBound t id with
  | true =>
    have hbuilt : Built False (mentionAs pointer op id) := built_mentionAs pointer op id
    exact hbuilt.bound hbound
  | false =>
    obtain ⟨hfree, -⟩ := Arena.isBound_eq_false_iff.1 hbound
    have hlook : ((isBound id).run scope t).Clean := hclean.of_andThen.1
    unfold isBound at hlook
    rw [bind_of_quiet (inspect_apply _ _), NameTable.isDeclared, hfree] at hlook
    rw [mentionAs_of_free (known_of_clean hlook.of_andThen.1) hbound]
    exact Arena.isBound_iff.2 (.inl (by simp [NameTable.isDeclared]))

/-- The declarator of an array binds it. -/
theorem binds_arrayDeclarator (op : Option Op) (id : ValueId) : Binds (arrayDeclarator op id) id := by
  refine .later fun info => ?_
  split
  · exact .first (binds_mentionAs false op id) fun _ => .pure _
  · exact .error rfl

/-- The declarator of a value binds it. -/
theorem binds_declarator (op : Option Op) (id : ValueId) : Binds (declarator op id) id := by
  refine .later fun info => ?_
  split
  · exact binds_arrayDeclarator op id
  · exact .first (binds_mentionAs false op id) fun _ => .pure _

/-- The arguments of a signature are bound. -/
theorem binds_arguments {args : List ValueId} (h : id ∈ args) : Binds (arguments args) id := by
  induction args with
  | nil => cases h
  | cons arg rest ih =>
    rcases List.mem_cons.1 h with rfl | h
    · exact .first (binds_declarator none id) fun _ => (built_arguments rest).map _
    · exact .later fun _ => .first (ih h) fun _ => .pure _

/-- Sharing a name binds the new value. -/
theorem binds_share (op : Op) (existing fresh : ValueId) : Binds (share op existing fresh) fresh := by
  intro scope t hclean
  rcases share_cases op existing fresh scope t with ⟨owner, hnew, hrun⟩ | ⟨error, hrun⟩
  · rw [hrun]
    exact Arena.isBound_iff.2 (.inl (by simp [NameTable.isDeclared]))
  · rw [hrun] at hclean
    cases hclean.raised _ (List.mem_singleton_self _)

/-! ### Returned values -/

/-- A returned value is bound. -/
theorem binds_returned (ret : Op) (id : ValueId) : Binds (returned ret id) id := by
  refine .later fun bound => ?_
  split
  · exact .error rfl
  refine .later fun info => ?_
  split
  · exact binds_arrayDeclarator (some ret) id
  · exact .first (binds_mentionAs true (some ret) id) fun _ => .pure _

/-- A returned value that is bound already is reported. -/
theorem fresh_returned {ret : Op} (h : ((returned ret id).run scope t).Clean) :
    scope.values.isBound t id = false := by
  have hlook := isBound_of_clean h.of_andThen.1
  cases hbound : scope.values.isBound t id with
  | false => rfl
  | true =>
    unfold returned at h
    rw [bind_of_quiet hlook, hbound, if_pos rfl] at h
    have hnever : Cleanly (raise (some ret) (.boundInSignature id) >>= fun _ => do
        return (⟨← mention (some ret) id, []⟩ : Declarator)) fun _ => False := .error rfl
    exact (hnever scope t h).elim

/-- The values that a function returns are different ones, none of them was bound before, and all of
them are bound behind. -/
theorem fresh_returnedAll {ret : Op} {ids : List ValueId}
    (h : ((returnedAll ret ids).run scope t).Clean) :
    ids.Nodup ∧ ∀ id ∈ ids, scope.values.isBound t id = false ∧
      scope.values.isBound ((returnedAll ret ids).run scope t).names id = true := by
  induction ids generalizing t with
  | nil => exact ⟨.nil, by simp⟩
  | cons id rest ih =>
    have hfirst := h.of_andThen.1
    obtain ⟨hnodup, hrest⟩ := ih h.of_andThen.2.of_andThen.1
    have hbound := binds_returned ret id scope t hfirst
    have hbuilt : Built False (returned ret id) := built_returned ret id
    have hothers : Built False (returnedAll ret rest) := built_returnedAll ret rest
    refine ⟨List.nodup_cons.2 ⟨fun hmem => ?_, hnodup⟩, List.forall_mem_cons.2 ⟨?_, fun other hmem => ?_⟩⟩
    · rw [(hrest id hmem).1] at hbound
      cases hbound
    · exact ⟨fresh_returned hfirst, hothers.bound hbound⟩
    · exact ⟨hbuilt.fresh (hrest other hmem).1, (hrest other hmem).2⟩

/-- The returned values are distinct, free before the signature and bound behind it. -/
theorem fresh_results {ret : Option Op} (h : ((results ret).run scope t).Clean) :
    (ret.elim [] Op.operands).Nodup ∧ ∀ id ∈ ret.elim [] Op.operands,
      scope.values.isBound t id = false ∧
        scope.values.isBound ((results ret).run scope t).names id = true := by
  cases ret with
  | none => exact ⟨.nil, by simp⟩
  | some ret => exact fresh_returnedAll h

end Emission

end HlsEmit
