import HlsEmit.Naming

/-!
# How name tables grow

A table only grows, by one entry at a time, and each entry is for a value that has none yet and is
no constant scalar. `NameTable.Grows` is this history; a table that grew from the empty one is
`Valid`.

## Key results

- `Grows.trans`: histories compose
- `Grows.binding?_eq`, `Arena.designator_of_keeps`: what a bound value is called never changes
- `Grows.mentioned`: only the values that the history names get an entry
- `Valid.ownName?_injective`: no two values have declarations of the same number
- `Valid.designator_ne_missing`: a bound value has a name or a literal
-/

namespace HlsEmit

namespace NameTable

/-! ## Single entries -/

/-- A new binding is found under its own value. -/
@[simp] theorem binding?_insert (table : NameTable) (id id' : ValueId) (binding : Binding) :
    (table.insert id binding).binding? id' =
      if id' = id then some binding else table.binding? id' := by
  by_cases h : id' = id
  · simp [insert, binding?, h]
  · have : (id' == id) = false := by simpa using h
    simp [insert, binding?, List.lookup_cons, this, h]

/-- A binding makes the table larger by one. -/
@[simp] theorem size_insert (table : NameTable) (id : ValueId) (binding : Binding) :
    (table.insert id binding).size = table.size + 1 := rfl

/-- A value is declared if it is bound in the table. -/
theorem isDeclared_iff {table : NameTable} {id : ValueId} :
    table.isDeclared id = true ↔ ∃ binding, table.binding? id = some binding := by
  simp [isDeclared, Option.isSome_iff_exists]

/-- A value is not declared if the table does not bind it. -/
theorem isDeclared_eq_false_iff {table : NameTable} {id : ValueId} :
    table.isDeclared id = false ↔ table.binding? id = none := by
  simp [isDeclared]

/-- A value has a name of its own if it is bound to one. -/
theorem ownName?_eq_some_iff {table : NameTable} {id : ValueId} {name : Name} :
    table.ownName? id = some name ↔ table.binding? id = some (.declared name) := by
  unfold ownName?
  split <;> simp_all

/-- A value has no owner if the table does not bind it. -/
theorem owner?_eq_none_iff {table : NameTable} {id : ValueId} :
    table.owner? id = none ↔ table.binding? id = none := by
  unfold owner?
  split <;> simp_all

/-- The name of a value with a declaration of its own. -/
theorem name?_of_declared {table : NameTable} {id : ValueId} {name : Name}
    (h : table.binding? id = some (.declared name)) : table.name? id = some name := by
  simp [name?, owner?, h, ownName?]

/-- The name of a value that shares one. -/
theorem name?_of_shared {table : NameTable} {id owner : ValueId}
    (h : table.binding? id = some (.shared owner)) : table.name? id = table.ownName? owner := by
  simp [name?, owner?, h]

/-- A value that the table does not bind has no name. -/
theorem name?_of_unbound {table : NameTable} {id : ValueId} (h : table.binding? id = none) :
    table.name? id = none := by
  simp [name?, owner?, h]

/-! ## Histories -/

/-- `later` arises from a table by naming some values that may be named, one after the other. -/
inductive Grows (arena : Arena) (mayName : ValueId → Prop) (table : NameTable) : NameTable → Prop
  | refl : Grows arena mayName table table
  | declare {later : NameTable} {id : ValueId} (pointer : Bool) :
      Grows arena mayName table later → mayName id → later.binding? id = none →
      arena.constantText? id = none →
      Grows arena mayName table (later.insert id (.declared ⟨later.size, pointer⟩))
  | share {later : NameTable} {id owner : ValueId} {name : Name} :
      Grows arena mayName table later → mayName id → later.binding? id = none →
      arena.constantText? id = none → later.ownName? owner = some name →
      Grows arena mayName table (later.insert id (.shared owner))

/-- A table that arose from the empty one. -/
def Valid (arena : Arena) (table : NameTable) : Prop :=
  Grows arena (fun _ => True) .empty table

variable {arena : Arena} {P Q : ValueId → Prop} {table later latest : NameTable}

/-- The empty table is valid. -/
theorem valid_empty (arena : Arena) : Valid arena .empty := .refl

namespace Grows

/-- A table that grows by some values grows by more. -/
theorem mono (h : Grows arena P table later) (hPQ : ∀ id, P id → Q id) :
    Grows arena Q table later := by
  induction h with
  | refl => exact .refl
  | declare pointer _ hid hfree hconst ih => exact .declare pointer ih (hPQ _ hid) hfree hconst
  | share _ hid hfree hconst howner ih => exact .share ih (hPQ _ hid) hfree hconst howner

/-- A table grows step by step. -/
theorem trans (h₁ : Grows arena P table later) (h₂ : Grows arena P later latest) :
    Grows arena P table latest := by
  induction h₂ with
  | refl => exact h₁
  | declare pointer _ hid hfree hconst ih => exact .declare pointer ih hid hfree hconst
  | share _ hid hfree hconst howner ih => exact .share ih hid hfree hconst howner

/-- What grows from a valid table is valid. -/
theorem valid (h : Grows arena P table later) (hv : Valid arena table) : Valid arena later :=
  trans hv (h.mono fun _ _ => trivial)

/-- A table grows in size. -/
theorem size_le (h : Grows arena P table later) : table.size ≤ later.size := by
  induction h with
  | refl => exact Nat.le_refl _
  | declare _ _ _ _ _ ih => rw [size_insert]; omega
  | share _ _ _ _ _ ih => rw [size_insert]; omega

/-- An entry stays as it is. -/
theorem binding?_eq (h : Grows arena P table later) {id : ValueId} {binding : Binding}
    (hb : table.binding? id = some binding) : later.binding? id = some binding := by
  induction h with
  | refl => exact hb
  | @declare t i _ _ _ hfree _ ih | @share t i _ _ _ _ hfree _ _ ih =>
    have hne : id ≠ i := by rintro rfl; rw [hfree] at ih; cases ih
    rw [binding?_insert, if_neg hne, ih]

/-- Only values that may be named get entries, and none of them is a constant scalar. -/
theorem mentioned (h : Grows arena P table later) {id : ValueId} {binding : Binding}
    (hb : later.binding? id = some binding) (hfree : table.binding? id = none) :
    P id ∧ arena.constantText? id = none := by
  induction h with
  | refl => rw [hb] at hfree; cases hfree
  | @declare t i _ _ hi _ hc ih | @share t i _ _ _ hi _ hc _ ih =>
    rw [binding?_insert] at hb
    split at hb
    · next heq => exact heq ▸ ⟨hi, hc⟩
    · exact ih hb

end Grows

/-! ## Earlier tables -/

/-- A table is all of itself. -/
@[simp] theorem upTo_size (table : NameTable) : table.upTo table.size = table := by
  simp [upTo]

/-- What was there before is not changed by a later binding. -/
theorem upTo_insert {given : Nat} (h : given ≤ table.size) (id : ValueId) (binding : Binding) :
    (table.insert id binding).upTo given = table.upTo given := by
  have hdrop : table.size + 1 - given = table.size - given + 1 := by omega
  simp only [upTo, size_insert, hdrop]
  rfl

/-- There is no more than the whole table. -/
theorem upTo_of_size_le {given : Nat} (h : table.size ≤ given) : table.upTo given = table := by
  have hdrop : table.size - given = 0 := by omega
  simp [upTo, hdrop]

/-- A table is found again in what grew from it. -/
theorem Grows.upTo_eq (h : Grows arena P table later) : later.upTo table.size = table := by
  induction h with
  | refl => exact upTo_size table
  | declare _ hg _ _ _ ih | share hg _ _ _ _ ih => rw [upTo_insert hg.size_le, ih]

/-- All that was between a table and what grew from it is part of the growth. -/
theorem Grows.upTo (h : Grows arena P table later) {given : Nat} (hgiven : table.size ≤ given) :
    Grows arena P table (later.upTo given) ∧ Grows arena P (later.upTo given) later := by
  induction h with
  | refl =>
    rw [upTo_of_size_le hgiven]
    exact ⟨.refl, .refl⟩
  | @declare t id pointer hg hid hfree hconst ih =>
    -- The last binding belongs to the first part, or it comes behind it.
    by_cases hle : given ≤ t.size
    · rw [upTo_insert hle]
      exact ⟨ih.1, .declare pointer ih.2 hid hfree hconst⟩
    · rw [upTo_of_size_le (by rw [size_insert]; omega)]
      exact ⟨.declare pointer hg hid hfree hconst, .refl⟩
  | @share t id owner name hg hid hfree hconst howner ih =>
    by_cases hle : given ≤ t.size
    · rw [upTo_insert hle]
      exact ⟨ih.1, .share ih.2 hid hfree hconst howner⟩
    · rw [upTo_of_size_le (by rw [size_insert]; omega)]
      exact ⟨.share hg hid hfree hconst howner, .refl⟩

/-! ## Valid tables -/

namespace Valid

/-- Declarations are numbered by the entries in front of them. -/
theorem number_lt (hv : Valid arena table) {id : ValueId} {name : Name}
    (hb : table.binding? id = some (.declared name)) : name.number < table.size := by
  induction hv with
  | refl => simp [binding?, empty] at hb
  | @declare t i pointer _ _ _ _ ih =>
    rw [binding?_insert] at hb
    split at hb
    · cases hb; exact Nat.lt_succ_self _
    · exact Nat.lt_succ_of_lt (ih hb)
  | @share t i owner _ _ _ _ _ _ ih =>
    rw [binding?_insert] at hb
    split at hb
    · cases hb
    · exact Nat.lt_succ_of_lt (ih hb)

/-- No two values have declarations of the same number. -/
theorem ownName?_injective (hv : Valid arena table) {id id' : ValueId} {name name' : Name}
    (h : table.binding? id = some (.declared name))
    (h' : table.binding? id' = some (.declared name')) (hn : name.number = name'.number) :
    id = id' := by
  induction hv with
  | refl => simp [binding?, empty] at h
  | @declare t i pointer hg _ _ _ ih =>
    rw [binding?_insert] at h h'
    -- The numbers given before are below the new one.
    split at h <;> split at h'
    · next h₁ h₂ => exact h₁.trans h₂.symm
    · cases h; have := number_lt hg h'; rw [← hn] at this; exact absurd this (Nat.lt_irrefl _)
    · cases h'; have := number_lt hg h; rw [hn] at this; exact absurd this (Nat.lt_irrefl _)
    · exact ih h h'
  | @share t i owner _ hg _ _ _ _ ih =>
    rw [binding?_insert] at h h'
    split at h
    · cases h
    · split at h'
      · cases h'
      · exact ih h h'

/-- A value that shares a name shares it with one that has a declaration. -/
theorem owner_declared (hv : Valid arena table) {id owner : ValueId}
    (hb : table.binding? id = some (.shared owner)) : ∃ name, table.ownName? owner = some name := by
  induction hv with
  | refl => simp [binding?, empty] at hb
  | @declare t i pointer hg _ hfree hc ih =>
    rw [binding?_insert] at hb
    -- The new binding itself, or one from before, whose owner still has its name.
    split at hb
    · cases hb
    · obtain ⟨name, hname⟩ := ih hb
      exact ⟨name, ownName?_eq_some_iff.2 <|
        (Grows.declare pointer (.refl : Grows arena (fun _ => True) t t) trivial hfree hc).binding?_eq
          (ownName?_eq_some_iff.1 hname)⟩
  | @share t i o name hg _ hfree hc howner ih =>
    have hgrow := Grows.share (.refl : Grows arena (fun _ => True) t t) trivial hfree hc howner
    rw [binding?_insert] at hb
    split at hb
    · cases hb
      exact ⟨name, ownName?_eq_some_iff.2 (hgrow.binding?_eq (ownName?_eq_some_iff.1 howner))⟩
    · obtain ⟨name, hname⟩ := ih hb
      exact ⟨name, ownName?_eq_some_iff.2 (hgrow.binding?_eq (ownName?_eq_some_iff.1 hname))⟩

/-- Constant scalars have no entry. -/
theorem constantText?_eq_none (hv : Valid arena table) {id : ValueId} {binding : Binding}
    (hb : table.binding? id = some binding) : arena.constantText? id = none :=
  (Grows.mentioned hv hb rfl).2

/-- The value whose declaration names another one has a declaration. -/
theorem ownName?_owner (hv : Valid arena table) {id owner : ValueId}
    (h : table.owner? id = some owner) : ∃ name, table.ownName? owner = some name := by
  unfold owner? at h
  split at h
  · next name hb =>
    cases h
    exact ⟨name, ownName?_eq_some_iff.2 hb⟩
  · next hb =>
    cases h
    exact hv.owner_declared hb
  · cases h

/-- A value with an entry has a name. -/
theorem exists_name (hv : Valid arena table) {id : ValueId} (hd : table.isDeclared id = true) :
    ∃ name, table.name? id = some name := by
  obtain ⟨binding, hb⟩ := isDeclared_iff.1 hd
  cases binding with
  | declared name => exact ⟨name, name?_of_declared hb⟩
  | shared owner =>
    obtain ⟨name, hname⟩ := hv.owner_declared hb
    exact ⟨name, (name?_of_shared hb).trans hname⟩

end Valid

/-! ## Later tables -/

/-- Every entry of a table is found in a later one. -/
def Keeps (table later : NameTable) : Prop :=
  ∀ id binding, table.binding? id = some binding → later.binding? id = some binding

/-- A table that grows keeps its bindings. -/
theorem Grows.keeps (h : Grows arena P table later) : table.Keeps later :=
  fun _ _ => h.binding?_eq

namespace Keeps

/-- A table keeps its own bindings. -/
theorem refl (table : NameTable) : table.Keeps table :=
  fun _ _ hb => hb

/-- Bindings are kept step by step. -/
theorem trans (h : table.Keeps later) (h' : later.Keeps latest) : table.Keeps latest :=
  fun id binding hb => h' id binding (h id binding hb)

/-- The name of a bound value stays. -/
theorem name?_eq (h : table.Keeps later) (hv : Valid arena table) {id : ValueId}
    (hd : table.isDeclared id = true) : later.name? id = table.name? id := by
  obtain ⟨binding, hb⟩ := isDeclared_iff.1 hd
  cases binding with
  | declared name => rw [name?_of_declared hb, name?_of_declared (h _ _ hb)]
  | shared owner =>
    obtain ⟨name, hname⟩ := hv.owner_declared hb
    rw [name?_of_shared hb, name?_of_shared (h _ _ hb), hname, ownName?_eq_some_iff]
    exact h _ _ (ownName?_eq_some_iff.1 hname)

end Keeps

end NameTable

/-! ## What stands for a value -/

namespace Arena

variable {arena : Arena} {P : ValueId → Prop} {table later : NameTable}

/-- The text of a constant is that of a scalar literal. -/
theorem exists_literal {id : ValueId} {text : String} (htext : arena.constantText? id = some text) :
    (arena.info id).isShaped = false ∧
      ∃ literal, (arena.info id).constant = some literal ∧ literal.scalarText? = some text := by
  obtain ⟨info, hinfo, htext⟩ := Option.bind_eq_some_iff.1 htext
  have hentry : arena.info id = info := by simp [Arena.info, hinfo]
  rw [ValueInfo.constantText?] at htext
  split at htext
  · cases htext
  · next hshaped =>
    obtain ⟨literal, hliteral, htext⟩ := Option.bind_eq_some_iff.1 htext
    rw [hentry]
    exact ⟨Bool.eq_false_iff.2 hshaped, literal, hliteral, htext⟩

/-- A value is bound by the table or by its literal. -/
theorem isBound_iff {id : ValueId} :
    arena.isBound table id = true ↔
      table.isDeclared id = true ∨ ∃ text, arena.constantText? id = some text := by
  simp [isBound, Option.isSome_iff_exists]

/-- A value is free if neither the table nor a literal binds it. -/
theorem isBound_eq_false_iff {id : ValueId} :
    arena.isBound table id = false ↔
      table.binding? id = none ∧ arena.constantText? id = none := by
  simp [isBound, NameTable.isDeclared_eq_false_iff]

/-- What is bound stays bound where bindings are kept. -/
theorem isBound_of_keeps (h : table.Keeps later) {id : ValueId}
    (hb : arena.isBound table id = true) : arena.isBound later id = true := by
  refine isBound_iff.2 ((isBound_iff.1 hb).imp_left fun hd => ?_)
  obtain ⟨binding, hbinding⟩ := NameTable.isDeclared_iff.1 hd
  exact NameTable.isDeclared_iff.2 ⟨binding, h _ _ hbinding⟩

/-- What is bound stays bound as the table grows. -/
theorem isBound_mono (h : table.Grows arena P later) {id : ValueId}
    (hb : arena.isBound table id = true) : arena.isBound later id = true :=
  isBound_of_keeps h.keeps hb

/-- What stands for a bound value stays. -/
theorem designator_of_keeps (h : table.Keeps later) (hv : table.Valid arena) {id : ValueId}
    (hb : arena.isBound table id = true) :
    arena.designator later id = arena.designator table id := by
  unfold designator
  cases hc : arena.constantText? id with
  | some text => rfl
  | none =>
    have hd : table.isDeclared id = true := by simpa [isBound, hc] using hb
    simp only [h.name?_eq hv hd]

/-- What stands for a bound value does not change as the table grows. -/
theorem designator_eq (h : table.Grows arena P later) (hv : table.Valid arena) {id : ValueId}
    (hb : arena.isBound table id = true) :
    arena.designator later id = arena.designator table id :=
  designator_of_keeps h.keeps hv hb

/-- A bound value has a name or a literal. -/
theorem designator_ne_missing (hv : table.Valid arena) {id : ValueId}
    (hb : arena.isBound table id = true) : arena.designator table id ≠ .missing := by
  unfold designator
  cases hc : arena.constantText? id with
  | some text => simp
  | none =>
    have hd : table.isDeclared id = true := by simpa [isBound, hc] using hb
    obtain ⟨name, hname⟩ := hv.exists_name hd
    simp [hname]

/-- Nothing stands for a value that is not bound. -/
theorem designator_of_unbound {id : ValueId} (hb : arena.isBound table id = false) :
    arena.designator table id = .missing := by
  obtain ⟨hfree, hc⟩ := isBound_eq_false_iff.1 hb
  simp [designator, hc, NameTable.name?_of_unbound hfree]

end Arena

end HlsEmit
