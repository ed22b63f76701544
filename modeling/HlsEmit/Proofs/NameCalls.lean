import HlsEmit.Proofs.History

/-!
# Calls of a name table

A name table is used by two calls: one gives a value a name of its own, the other one lets a value
share the name of another one. Nothing is asked of the caller: the calls may come in any order, they
may fail, and they may be about constants and about values that are in no value table.

The calls never look at the value table. So the table that they lead to is `Valid` for the value
table without entries, in which nothing is a constant, and all that is known of valid tables holds
of it.

## Key results

- `NameTable.Call.grows`: a call lets a table grow, or leaves it as it is
- `NameTable.valid_reached`: calls lead from the empty table to valid ones
- `NameTable.Call.enters_of_run`: a call that is not refused makes one entry and answers with its text
- `NameTable.reached_reliable`: what may be relied on behind any calls
-/

namespace HlsEmit

/-! ## Texts of names -/

/-- A text without the stars in front of it. -/
def withoutStars (text : String) : List Char :=
  text.toList.dropWhile (· = '*')

/-- A name without its stars is its identifier. -/
theorem Name.withoutStars_text (name : Name) : withoutStars name.text = name.identifier.toList := by
  have hidentifier : name.identifier.toList.dropWhile (· = '*') = name.identifier.toList := by
    simp [identifier]
  unfold withoutStars Name.text
  split
  · rw [String.toList_append]
    exact hidentifier
  · exact hidentifier

/-- Names that differ in nothing but a star have the same number. -/
theorem Name.number_eq_of_withoutStars {name name' : Name}
    (h : withoutStars name.text = withoutStars name'.text) : name.number = name'.number := by
  rw [withoutStars_text, withoutStars_text, String.toList_inj] at h
  exact number_eq_of_identifier h

namespace NameTable

/-! ## Entries -/

/-- A value has a name of its own. -/
def Owns (table : NameTable) (id : ValueId) (name : Name) : Prop :=
  (id, .declared name) ∈ table.entries

/-- A value has the name of its owner. -/
def Shares (table : NameTable) (id owner : ValueId) : Prop :=
  (id, .shared owner) ∈ table.entries

section Entries

variable {arena : Arena} {table : NameTable}

/-- Every entry of a valid table is the one that is found. -/
theorem Valid.mem_entries_iff (hv : Valid arena table) {id : ValueId} {binding : Binding} :
    (id, binding) ∈ table.entries ↔ table.binding? id = some binding := by
  induction hv with
  | refl => simp [empty, binding?]
  | @declare t i _ _ _ hfree _ ih | @share t i _ _ _ _ hfree _ _ ih =>
    simp only [insert, List.mem_cons, Prod.mk.injEq, ih]
    have hfound := binding?_insert t i id
    simp only [insert] at hfound
    rw [hfound]
    by_cases heq : id = i
    · subst heq
      simp [hfree, eq_comm]
    · simp [heq]

/-- A value owns a name just if it is bound to it. -/
theorem Valid.owns_iff (hv : Valid arena table) {id : ValueId} {name : Name} :
    table.Owns id name ↔ table.binding? id = some (.declared name) :=
  hv.mem_entries_iff

/-- A value shares a name just if it is bound to the owner. -/
theorem Valid.shares_iff (hv : Valid arena table) {id owner : ValueId} :
    table.Shares id owner ↔ table.binding? id = some (.shared owner) :=
  hv.mem_entries_iff

/-- Two values with the same owner have the same name, and the other way round. -/
theorem Valid.owner?_eq_iff (hv : Valid arena table) {id id' owner owner' : ValueId}
    {name name' : Name} (howner : table.owner? id = some owner) (hname : table.Owns owner name)
    (howner' : table.owner? id' = some owner') (hname' : table.Owns owner' name') :
    table.owner? id = table.owner? id' ↔ name.text = name'.text := by
  rw [hv.owns_iff] at hname hname'
  rw [howner, howner', Option.some.injEq]
  constructor
  · rintro rfl
    rw [hname] at hname'
    cases hname'
    rfl
  · intro htext
    exact hv.ownName?_injective hname hname' (Name.number_eq_of_withoutStars (by rw [htext]))

end Entries

/-! ## Calls -/

/-- What may be asked of a name table. -/
inductive Call where
  /-- A name for a value, maybe as a pointer. -/
  | declare (id : ValueId) (pointer : Bool)
  /-- The name of a value for another one. -/
  | share (existing fresh : ValueId)
deriving DecidableEq, Repr

/-- What is answered to a call, and the table behind it. -/
def Call.run (call : Call) (table : NameTable) : Except NameError String × NameTable :=
  match call with
  | .declare id pointer =>
    match table.declare id pointer with
    | .ok (name, later) => (.ok name.text, later)
    | .error error => (.error error, table)
  | .share existing fresh =>
    match table.share existing fresh with
    | .ok (name, later) => (.ok ((name.map Name.text).getD ""), later)
    | .error error => (.error error, table)

/-- Whether a call is refused. -/
def Call.Fails (call : Call) (table : NameTable) : Prop :=
  ∃ error, (call.run table).1 = .error error

/-- A call answers with a text and gives a value an entry; the entries of all others are left alone. -/
structure Call.Enters (call : Call) (table : NameTable) (text : String) (id : ValueId)
    (binding : Binding) : Prop where
  answer : (call.run table).1 = .ok text
  entry : (id, binding) ∈ (call.run table).2.entries
  others : ∀ other, other ≠ id → (call.run table).2.binding? other = table.binding? other

/-- The table behind some calls. -/
def after (table : NameTable) (calls : List Call) : NameTable :=
  calls.foldl (fun table call => (call.run table).2) table

/-- The value table without entries. -/
def noValues : Arena := #[]

/-- Without values there are no literals. -/
theorem constantText?_noValues (id : ValueId) : noValues.constantText? id = none := by
  simp [Arena.constantText?, Arena.info?, noValues]

section Calls

variable {table : NameTable} {id existing fresh : ValueId}

/-- A value is not declared twice. -/
theorem Call.run_declare_of_declared (pointer : Bool) (h : table.isDeclared id = true) :
    (Call.declare id pointer).run table = (.error (.alreadyDeclared id), table) := by
  simp [run, NameTable.declare, h]

/-- A free value is declared under the next name. -/
theorem Call.run_declare_of_free (pointer : Bool) (h : table.isDeclared id = false) :
    (Call.declare id pointer).run table =
      (.ok (Name.text ⟨table.size, pointer⟩), table.insert id (.declared ⟨table.size, pointer⟩)) := by
  simp [run, NameTable.declare, h]

/-- A name is not shared with a declared value. -/
theorem Call.run_share_of_declared (h : table.isDeclared fresh = true) :
    (Call.share existing fresh).run table = (.error (.alreadyDeclared fresh), table) := by
  simp [run, NameTable.share, h]

/-- A value without a name shares none. -/
theorem Call.run_share_of_unnamed (hfresh : table.isDeclared fresh = false)
    (h : table.owner? existing = none) :
    (Call.share existing fresh).run table = (.error (.undeclared existing), table) := by
  simp [run, NameTable.share, hfresh, h]

/-- A name is shared by its owner, also through a value that shares it. -/
theorem Call.run_share_of_owner (hfresh : table.isDeclared fresh = false) {owner : ValueId}
    (h : table.owner? existing = some owner) :
    (Call.share existing fresh).run table =
      (.ok (((table.ownName? owner).map Name.text).getD ""), table.insert fresh (.shared owner)) := by
  simp [run, NameTable.share, hfresh, h]

/-- A table with one more entry, behind a call that was answered with a text. -/
theorem Call.enters_of_run {call : Call} {text : String} {binding : Binding}
    (h : call.run table = (.ok text, table.insert id binding)) : call.Enters table text id binding where
  answer := by rw [h]
  entry := by rw [h]; exact List.mem_cons_self ..
  others := fun other hother => by rw [h, binding?_insert, if_neg hother]

/-- A declaration fails just if the value is declared. -/
theorem Call.declare_fails_iff {pointer : Bool} :
    (Call.declare id pointer).Fails table ↔ table.isDeclared id = true := by
  cases h : table.isDeclared id with
  | true => simp [Fails, run_declare_of_declared pointer h]
  | false => simp [Fails, run_declare_of_free pointer h]

/-- Sharing fails just if the new value is declared or the old one is not. -/
theorem Call.share_fails_iff :
    (Call.share existing fresh).Fails table ↔
      table.isDeclared fresh = true ∨ table.isDeclared existing = false := by
  have hunnamed : table.isDeclared existing = false ↔ table.owner? existing = none :=
    isDeclared_eq_false_iff.trans owner?_eq_none_iff.symm
  rw [hunnamed]
  cases hfresh : table.isDeclared fresh with
  | true => simp [Fails, run_share_of_declared hfresh]
  | false =>
    cases howner : table.owner? existing with
    | none => simp [Fails, run_share_of_unnamed hfresh howner]
    | some owner => simp [Fails, run_share_of_owner hfresh howner]

/-- A call that fails leaves the table. -/
theorem Call.run_of_fails {call : Call} (h : call.Fails table) : (call.run table).2 = table := by
  cases call with
  | declare id pointer => rw [run_declare_of_declared pointer (declare_fails_iff.1 h)]
  | share existing fresh =>
    cases hfresh : table.isDeclared fresh with
    | true => rw [run_share_of_declared hfresh]
    | false =>
      have hunnamed : table.isDeclared existing = false := by
        simpa [hfresh] using share_fails_iff.1 h
      have howner := owner?_eq_none_iff.2 (isDeclared_eq_false_iff.1 hunnamed)
      rw [run_share_of_unnamed hfresh howner]

/-- A call lets a table grow, or leaves it as it is. -/
theorem Call.grows (call : Call) (hv : Valid noValues table) :
    table.Grows noValues (fun _ => True) (call.run table).2 := by
  by_cases hfails : call.Fails table
  · rw [run_of_fails hfails]
    exact .refl
  cases call with
  | declare id pointer =>
    have hid : table.isDeclared id = false := by simpa [declare_fails_iff] using hfails
    rw [run_declare_of_free pointer hid]
    exact .declare pointer .refl trivial (isDeclared_eq_false_iff.1 hid) (constantText?_noValues id)
  | share existing fresh =>
    have hnames : table.isDeclared fresh = false ∧ table.isDeclared existing = true := by
      simpa [share_fails_iff] using hfails
    cases howner : table.owner? existing with
    | none =>
      rw [isDeclared_eq_false_iff.2 (owner?_eq_none_iff.1 howner)] at hnames
      cases hnames.2
    | some owner =>
      rw [run_share_of_owner hnames.1 howner]
      -- the owner is never a value that shares its name itself
      obtain ⟨name, hname⟩ := hv.ownName?_owner howner
      exact .share .refl trivial (isDeclared_eq_false_iff.1 hnames.1) (constantText?_noValues fresh)
        hname

/-- Calls let a table grow. -/
theorem grows_after (calls : List Call) (hv : Valid noValues table) :
    table.Grows noValues (fun _ => True) (table.after calls) := by
  induction calls generalizing table with
  | nil => exact .refl
  | cons call rest ih => exact (call.grows hv).trans (ih ((call.grows hv).valid hv))

end Calls

/-- Calls lead from the empty table to valid ones. -/
theorem valid_reached (calls : List Call) : Valid noValues (empty.after calls) :=
  grows_after calls (valid_empty noValues)

/-! ## What may be relied on -/

/-- What holds of a table and of all calls that may follow, over any value table. -/
structure Reliable (arena : Arena) (table : NameTable) : Prop where
  /-- No value has a name of its own and that of another one as well. -/
  exclusive : ∀ id name owner, table.Owns id name → ¬table.Shares id owner
  /-- A value has one name of its own at most. -/
  single : ∀ id name name', table.Owns id name → table.Owns id name' → name = name'
  /-- A value that shares a name shares it with one that has a name of its own. -/
  direct : ∀ id owner, table.Shares id owner → ∃ name, table.Owns owner name
  /-- Names of different values differ in more than the star of a pointer. -/
  distinct : ∀ id id' name name', table.Owns id name → table.Owns id' name' → id ≠ id' →
    withoutStars name.text ≠ withoutStars name'.text
  /-- Two values that have names and are no constants are written alike if they have the same owner,
  and only then. -/
  alike : ∀ id id', table.isDeclared id = true → table.isDeclared id' = true →
    arena.constantText? id = none → arena.constantText? id' = none →
    ((arena.designator table id).text = (arena.designator table id').text ↔
      table.owner? id = table.owner? id')
  /-- A name is refused to values that have one, and to no others. -/
  declare_fails : ∀ id pointer, (Call.declare id pointer).Fails table ↔ table.isDeclared id = true
  /-- To share a name is refused if there is one already, or if there is none to share. -/
  share_fails : ∀ existing fresh, (Call.share existing fresh).Fails table ↔
    table.isDeclared fresh = true ∨ table.isDeclared existing = false
  /-- A name that is not refused is the value's own from then on, with a star if it is a pointer. -/
  declared : ∀ id pointer, table.isDeclared id = false → ∃ name : Name, name.pointer = pointer ∧
    (Call.declare id pointer).Enters table name.text id (.declared name)
  /-- What is shared without refusal is the name of the owner, which the value then has as well. -/
  shared : ∀ existing fresh owner name, table.isDeclared fresh = false →
    table.owner? existing = some owner → table.Owns owner name →
    (Call.share existing fresh).Enters table name.text fresh (.shared owner)
  /-- A call that is refused changes nothing. -/
  unchanged : ∀ call : Call, call.Fails table → (call.run table).2 = table
  /-- A value that has a name is written in the same way for ever. -/
  stays : ∀ id, table.isDeclared id = true → ∀ later,
    (arena.designator (table.after later) id).text = (arena.designator table id).text

/-- What stands for a value with a name that is no constant. -/
theorem Valid.exists_named {table : NameTable} (hv : Valid noValues table) {arena : Arena}
    {id : ValueId} (hdeclared : table.isDeclared id = true) (hconst : arena.constantText? id = none) :
    ∃ owner name, table.owner? id = some owner ∧ table.Owns owner name ∧
      arena.designator table id = .named name := by
  cases howner : table.owner? id with
  | none =>
    rw [isDeclared_eq_false_iff.2 (owner?_eq_none_iff.1 howner)] at hdeclared
    cases hdeclared
  | some owner =>
    obtain ⟨name, hname⟩ := hv.ownName?_owner howner
    refine ⟨owner, name, rfl, hv.owns_iff.2 (ownName?_eq_some_iff.1 hname), ?_⟩
    simp [Arena.designator, hconst, name?, howner, hname]

/-- Whatever calls are made on a table that starts empty. -/
theorem reached_reliable (arena : Arena) (calls : List Call) :
    Reliable arena (empty.after calls) := by
  have hv := valid_reached calls
  refine ⟨?_, ?_, ?_, ?_, ?_, ?_, ?_, ?_, ?_, ?_, ?_⟩
  · intro id name owner howns hshares
    rw [hv.owns_iff] at howns
    rw [hv.shares_iff, howns] at hshares
    cases hshares
  · intro id name name' hname hname'
    rw [hv.owns_iff] at hname hname'
    rw [hname] at hname'
    cases hname'
    rfl
  · intro id owner hshares
    obtain ⟨name, hname⟩ := hv.owner_declared (hv.shares_iff.1 hshares)
    exact ⟨name, hv.owns_iff.2 (ownName?_eq_some_iff.1 hname)⟩
  · intro id id' name name' hname hname' hne hsame
    have hnumber := Name.number_eq_of_withoutStars hsame
    exact hne (hv.ownName?_injective (hv.owns_iff.1 hname) (hv.owns_iff.1 hname') hnumber)
  · intro id id' hid hid' hconst hconst'
    obtain ⟨owner, name, howner, hname, hnamed⟩ := hv.exists_named hid hconst
    obtain ⟨owner', name', howner', hname', hnamed'⟩ := hv.exists_named hid' hconst'
    rw [hnamed, hnamed']
    exact (hv.owner?_eq_iff howner hname howner' hname').symm
  · exact fun id pointer => Call.declare_fails_iff
  · exact fun existing fresh => Call.share_fails_iff
  · exact fun id pointer hfree =>
      ⟨⟨_, pointer⟩, rfl, Call.enters_of_run (Call.run_declare_of_free pointer hfree)⟩
  · intro existing fresh owner name hfree howner hname
    -- the owner is found under the name that it has of its own
    have hown : (empty.after calls).ownName? owner = some name :=
      ownName?_eq_some_iff.2 (hv.owns_iff.1 hname)
    have hrun := Call.run_share_of_owner hfree howner
    rw [hown] at hrun
    exact Call.enters_of_run hrun
  · exact fun call hfails => Call.run_of_fails hfails
  · intro id hid later
    -- a literal does not depend on the table, and the name of a value stays
    unfold Arena.designator
    rw [(grows_after later hv).keeps.name?_eq hv hid]

end NameTable

/-- Two values share a name before and behind a call that fails, and a third one is a pointer. -/
example : (NameTable.empty.after [.declare ⟨2⟩ false, .share ⟨2⟩ ⟨3⟩, .share ⟨5⟩ ⟨7⟩, .share ⟨3⟩ ⟨4⟩,
    .declare ⟨0⟩ true]).entries = [(⟨0⟩, .declared ⟨3, true⟩), (⟨4⟩, .shared ⟨2⟩),
      (⟨3⟩, .shared ⟨2⟩), (⟨2⟩, .declared ⟨0, false⟩)] := by decide

end HlsEmit
