import HlsEmit.Code.Scope
import HlsEmit.Proofs.Account.Basic

/-!
# Names and scopes

The name table is flat: a name that was given inside of a block is still there behind the block,
where it is not visible any more. So a value may be in one of three states where code is written:
it is `Placed`, which means that its name or its literal may be written; it has no name; or it has a
name that is out of scope. `Ready` excludes the last one.

`Defines` relates two places of the code with the names that are visible there and the tables, and
`Places` is what becomes of an emission that reports no error.

## Key results

- `Defines.placed_of`, `Defines.ready_of`: what later code preserves
- `Defines.trans`, `Defines.enclose`: places one behind the other, and code inside of a block
- `Places.bind`, `Places.read`: emissions piece by piece
- `places_mentionAs`: a value that is ready is placed by its mention
-/

namespace HlsEmit

open Code

/-! ## Places of values -/

namespace Arena

/-- What stands for a value may be written where these names are visible. -/
def Placed (arena : Arena) (visible : List Name) (t : NameTable) (id : ValueId) : Prop :=
  (arena.designator t id).Visible visible

/-- A value is placed, unless it has no name yet. -/
def Ready (arena : Arena) (visible : List Name) (t : NameTable) (id : ValueId) : Prop :=
  arena.isBound t id = true → arena.Placed visible t id

variable {arena : Arena} {visible visible' : List Name} {t t' : NameTable} {id : ValueId}
variable {P Q : ValueId → Prop}

/-- A value that is placed has a name. -/
theorem Placed.isBound (h : arena.Placed visible t id) : arena.isBound t id = true := by
  cases hbound : arena.isBound t id with
  | true => rfl
  | false =>
    rw [Placed, designator_of_unbound hbound] at h
    exact h.elim

/-- A placed value stays placed as long as its name is visible. -/
theorem Placed.mono (h : arena.Placed visible t id) (hv : t.Valid arena)
    (hgrows : t.Grows arena P t') (hvisible : visible ⊆ visible') :
    arena.Placed visible' t' id := by
  rw [Placed, designator_eq hgrows hv h.isBound]
  exact Designator.Visible.mono h hvisible

/-- A value with a declaration is placed where its name is visible. -/
theorem placed_of_declared {name : Name} (h : t.binding? id = some (.declared name))
    (hname : name ∈ visible) : arena.Placed visible t id := by
  unfold Placed designator
  split
  · trivial
  · rw [NameTable.name?_of_declared h]
    exact hname

end Arena

/-- The values that are bound already do not take part in the growth of a table. -/
theorem NameTable.Grows.restrict {arena : Arena} {P Q : ValueId → Prop} {t t' : NameTable}
    (h : t.Grows arena P t') (hPQ : ∀ id, P id → arena.isBound t id = true ∨ Q id) :
    t.Grows arena Q t' := by
  induction h with
  | refl => exact .refl
  | @declare later id pointer hgrows hid hfree hconst ih =>
    rcases hPQ id hid with hbound | hid
    · have hlater := Arena.isBound_mono hgrows hbound
      rw [Arena.isBound_eq_false_iff.2 ⟨hfree, hconst⟩] at hlater
      cases hlater
    · exact .declare pointer ih hid hfree hconst
  | @share later id owner name hgrows hid hfree hconst howner ih =>
    rcases hPQ id hid with hbound | hid
    · have hlater := Arena.isBound_mono hgrows hbound
      rw [Arena.isBound_eq_false_iff.2 ⟨hfree, hconst⟩] at hlater
      cases hlater
    · exact .share ih hid hfree hconst howner

/-! ## From one place to another -/

/-- Between two places of the code, `results` got names that are visible at the second one, and no
other value got a name but those `inside` of blocks that are closed again. -/
structure Defines (arena : Arena) (results inside : List ValueId) (visible : List Name)
    (t : NameTable) (visible' : List Name) (t' : NameTable) : Prop where
  grows : t.Grows arena (fun id => id ∈ results ∨ id ∈ inside) t'
  visible : visible ⊆ visible'
  placed : ∀ id ∈ results, arena.Placed visible' t' id

namespace Defines

variable {arena : Arena} {visible visible' visible'' : List Name} {t t' t'' : NameTable}
variable {results inside results' inside' : List ValueId} {id : ValueId}

/-- Nothing is defined. -/
theorem refl : Defines arena [] [] visible t visible t :=
  ⟨.refl, List.Subset.refl _, by simp⟩

/-- What was placed before is placed behind. -/
theorem placed_of (h : Defines arena results inside visible t visible' t') (hv : t.Valid arena)
    (hid : arena.Placed visible t id) : arena.Placed visible' t' id :=
  hid.mono hv h.grows h.visible

/-- What was ready before is ready behind, unless it got its name inside of a closed block. -/
theorem ready_of (h : Defines arena results inside visible t visible' t') (hv : t.Valid arena)
    (hid : arena.Ready visible t id) (hinside : id ∉ inside) : arena.Ready visible' t' id := by
  intro hbound
  by_cases hbefore : arena.isBound t id = true
  · exact h.placed_of hv (hid hbefore)
  · -- the name is a new one, so the value is among the results
    rw [Bool.not_eq_true, Arena.isBound_eq_false_iff] at hbefore
    obtain ⟨hfree, hconst⟩ := hbefore
    have hdeclared : t'.isDeclared id = true := by
      rcases Arena.isBound_iff.1 hbound with hd | ⟨text, htext⟩
      · exact hd
      · rw [hconst] at htext
        cases htext
    obtain ⟨binding, hbinding⟩ := NameTable.isDeclared_iff.1 hdeclared
    rcases (h.grows.mentioned hbinding hfree).1 with hresult | hin
    · exact h.placed id hresult
    · exact absurd hin hinside

/-- The table stays valid. -/
theorem valid (h : Defines arena results inside visible t visible' t') (hv : t.Valid arena) :
    t'.Valid arena :=
  h.grows.valid hv

/-- One place behind the other. -/
theorem trans (h : Defines arena results inside visible t visible' t')
    (h' : Defines arena results' inside' visible' t' visible'' t'') (hv : t.Valid arena) :
    Defines arena (results ++ results') (inside ++ inside') visible t visible'' t'' where
  grows := by
    refine NameTable.Grows.trans (h.grows.mono fun id hid => ?_) (h'.grows.mono fun id hid => ?_)
    · exact hid.imp (List.mem_append_left _) (List.mem_append_left _)
    · exact hid.imp (List.mem_append_right _) (List.mem_append_right _)
  visible := List.Subset.trans h.visible h'.visible
  placed := by
    intro id hid
    rcases List.mem_append.1 hid with hid | hid
    · exact h'.placed_of (h.valid hv) (h.placed id hid)
    · exact h'.placed id hid

/-- Behind a block, the names that were given inside of it are not visible any more. -/
theorem enclose (h : Defines arena results inside visible t visible' t') (hv : t.Valid arena)
    (hblock : t'.Grows arena (· ∈ inside') t'') :
    Defines arena results (inside ++ inside') visible t visible' t'' where
  grows := by
    refine NameTable.Grows.trans (h.grows.mono fun id hid => ?_) (hblock.mono fun id hid => ?_)
    · exact hid.imp_right (List.mem_append_left _)
    · exact .inr (List.mem_append_right _ hid)
  visible := h.visible
  placed := fun id hid => (h.placed id hid).mono (h.valid hv) hblock (List.Subset.refl _)

/-- Behind a block, nothing that was defined in its head or inside of it is visible. -/
theorem close (h : Defines arena results inside visible t visible' t')
    (hblock : t'.Grows arena (· ∈ inside') t'') :
    Defines arena [] (results ++ inside ++ inside') visible t visible t'' where
  grows := by
    refine NameTable.Grows.trans (h.grows.mono fun id hid => ?_) (hblock.mono fun id hid => ?_)
    · exact .inr (List.mem_append_left _ (List.mem_append.2 hid))
    · exact .inr (List.mem_append_right _ hid)
  visible := List.Subset.refl _
  placed := by simp

/-- The order of the definitions does not matter, nor whether they are said to be inside. -/
theorem weaken (h : Defines arena results inside visible t visible' t')
    (hresults : ∀ id ∈ results', id ∈ results)
    (hinside : ∀ id, id ∈ results ∨ id ∈ inside → id ∈ results' ∨ id ∈ inside') :
    Defines arena results' inside' visible t visible' t' where
  grows := h.grows.mono hinside
  visible := h.visible
  placed := fun id hid => h.placed id (hresults id hid)

end Defines

/-! ## Emissions without errors -/

/-- No error was reported, and nothing was looked up in vain. -/
structure Outcome.Clean {α : Type} (o : Outcome α) : Prop where
  raised : ∀ report ∈ o.raised, report.isError = false
  overruns : o.overruns = []

/-- A sequence is clean if both of its parts are. -/
theorem Outcome.Clean.of_andThen {α β : Type} {o : Outcome α} {o' : Outcome β}
    (h : (o.andThen o').Clean) : o.Clean ∧ o'.Clean := by
  have hoverruns := List.append_eq_nil_iff.1 h.overruns
  refine ⟨⟨?_, hoverruns.1⟩, ⟨?_, hoverruns.2⟩⟩
  · exact fun report hr => h.raised report (List.mem_append_left _ hr)
  · exact fun report hr => h.raised report (List.mem_append_right _ hr)

/-- The contract that is about fewer values. -/
def Contract.among (c : Contract) (p : ValueId → Prop) : Contract :=
  { c with
    values := fun id => c.values id ∧ p id
    known := fun id hid => c.known id hid.1 }

namespace Emission

variable {α β : Type} {c : Contract} {function : Option String} {visible : List Name}
variable {t : NameTable} {e : Emission α} {next : α → Emission β}

/-- If an emission is clean, its value and the table behind it are in order. -/
def Places (c : Contract) (function : Option String) (t : NameTable) (e : Emission α)
    (post : α → NameTable → Prop) : Prop :=
  (e.run ⟨c.arena, function⟩ t).Clean →
    post (e.run ⟨c.arena, function⟩ t).value (e.run ⟨c.arena, function⟩ t).names

namespace Places

variable {post post' : α → NameTable → Prop} {postNext : β → NameTable → Prop}

/-- A value that is returned is what was promised. -/
theorem pure {value : α} (h : post value t) : Places c function t (pure value) post :=
  fun _ => h

/-- A sequence, the second part behind what the first one places. -/
theorem bind (h : Places c function t e fun value t' => Places c function t' (next value) postNext) :
    Places c function t (e >>= next) postNext := by
  intro hclean
  rw [bind_apply] at hclean ⊢
  obtain ⟨hfirst, hrest⟩ := hclean.of_andThen
  exact h hfirst hrest

/-- What is promised may be weakened. -/
theorem mono (h : Places c function t e post) (hpost : ∀ value t', post value t' → post' value t') :
    Places c function t e post' :=
  fun hclean => hpost _ _ (h hclean)

/-- A sequence whose first emission only finds something out. -/
theorem bindQuiet {value : α} (h : e.run ⟨c.arena, function⟩ t = ⟨value, t, [], [], []⟩)
    (hnext : Places c function t (next value) postNext) :
    Places c function t (e >>= next) postNext := by
  rw [Places, bind_of_quiet h]
  exact hnext

/-- Nothing has to be in order behind an error. -/
theorem bindError {op : Option Op} {problem : Problem} {next : Unit → Emission β}
    (h : problem.severity = .error) :
    Places c function t (raise op problem >>= next) postNext := by
  refine bind fun hclean => ?_
  have herror := hclean.raised _ (List.mem_singleton_self _)
  simp [Diagnostic.isError, Problem.report, h] at herror

/-- An emission that is accounted for with placed values only uses them. -/
theorem read {given : List Mention} {mentions : α → List Mention}
    (he : Emits (c.among (c.arena.Placed visible t)) given e mentions) (hv : t.Valid c.arena)
    (hgiven : ∀ m ∈ given, m.Reads visible) :
    Places c function t e fun value t' => t' = t ∧ ∀ m ∈ mentions value, m.Reads visible := by
  intro _
  obtain ⟨events, hperm, hrun⟩ := he function t hv
  obtain ⟨hnames, huses⟩ := hrun.history.of_bound fun id hid => hid.2.isBound
  refine ⟨hrun.names.trans hnames, fun m hm => ?_⟩
  rcases List.mem_append.1 (hperm.mem_iff.1 hm) with hm | hm
  · exact hgiven m hm
  · obtain ⟨id, hid, rfl⟩ := huses m hm
    exact hid.2

/-- A sequence whose first emission only uses placed values. -/
theorem bindRead {given : List Mention} {mentions : α → List Mention}
    (he : Emits (c.among (c.arena.Placed visible t)) given e mentions) (hv : t.Valid c.arena)
    (hgiven : ∀ m ∈ given, m.Reads visible)
    (hnext : ∀ value, (∀ m ∈ mentions value, m.Reads visible) →
      Places c function t (next value) postNext) :
    Places c function t (e >>= next) postNext := by
  refine bind ((read he hv hgiven).mono ?_)
  rintro value t' ⟨rfl, hreads⟩
  exact hnext value hreads

end Places

/-! ## Mentions -/

/-- A value that is ready is placed by its mention. -/
theorem places_mentionAs (pointer : Bool) (op : Option Op) {id : ValueId} (hid : c.values id)
    (hready : c.arena.Ready visible t id) :
    Places c function t (mentionAs pointer op id) fun m t' =>
      m.Scoped visible ∧ Defines c.arena [id] [] visible t (m.introduces ++ visible) t' := by
  intro hclean
  have hknown := c.known id hid
  cases hbound : c.arena.isBound t id with
  | true =>
    rw [mentionAs_of_bound hbound]
    refine ⟨hready hbound, .refl, List.Subset.refl _, ?_⟩
    intro id' hid'
    rw [List.mem_singleton] at hid'
    exact hid' ▸ hready hbound
  | false =>
    rw [mentionAs_of_free hknown hbound] at hclean ⊢
    obtain ⟨hfree, hconst⟩ := Arena.isBound_eq_false_iff.1 hbound
    refine ⟨?_, ?_, ?_, ?_⟩
    · -- a missing type would have been reported
      show (c.arena.info id).elem.cppName?.isSome = true
      cases htype : (c.arena.info id).elem.cppName? with
      | some type => rfl
      | none =>
        have herror := hclean.raised _ (by simp [htype]; rfl)
        cases herror
    · exact .declare pointer .refl (.inl (List.mem_singleton_self id)) hfree hconst
    · exact List.subset_append_right _ _
    · intro id' hid'
      rw [List.mem_singleton] at hid'
      refine Arena.placed_of_declared ?_ (List.mem_cons_self ..)
      rw [NameTable.binding?_insert, if_pos hid']

end Emission

end HlsEmit
