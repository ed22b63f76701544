import HlsEmit.Proofs.History
import HlsEmit.Proofs.Primitives

/-!
# The account of an emission

An emission is held to a `Contract`: which values it may mention, and which reports and overruns it
may leave. `Emits` says that it keeps to it from every table, and that the mentions in its code are
accounted for: each declaration gave a fresh number, and each use stands for what the value is
called.

Code that was there before an emission may become a part of its code. `Emits` is told the mentions
in it, and the order in which mentions end up in the code does not matter.

## Key results

- `Dispatch.Shares`: the turns at which names are shared
- `Run.trans`: the accounts of two emissions, one after the other
- `Emits.pure`, `Emits.bind`: emissions are accounted for piece by piece
- `emits_mentionAs`: the only place where a declaration is written
-/

namespace HlsEmit

open Code

/-- Whether this was the turn of an operation that wanted its result to share the name of a source
without a name, and this report says so. -/
def Dispatch.Reports (turn : Dispatch) (report : Diagnostic) : Prop :=
  ∃ source, turn.op.kind = .tensorToMemref ∧ turn.op.operands.head? = some source ∧
    turn.names.name? source = none ∧
    report = (Problem.naming (.undeclared source)).report (Origin.at turn.function (some turn.op))

/-- At this turn, a value that is not bound yet is to get the name of a source that has one. -/
structure Dispatch.Shares (arena : Arena) (turn : Dispatch) (value owner : ValueId) : Prop where
  kind : turn.op.kind = .tensorToMemref
  result : turn.op.results.head? = some value
  free : arena.isBound turn.names value = false
  source : ∃ source, turn.op.operands.head? = some source ∧ turn.names.owner? source = some owner

/-- What an emission is held to. -/
structure Contract where
  arena : Arena
  /-- The values that it may mention. -/
  values : ValueId → Prop
  known : ∀ id, values id → (arena.info? id).isSome
  /-- The naming errors that it may report for an operation that was dispatched before. -/
  reports : Diagnostic → Prop
  overruns : Overrun → Prop

namespace Emission

variable {α β : Type} {c : Contract} {t : NameTable}

/-- The outcome of an emission that started with a table, with the events on the way. -/
structure Run (c : Contract) (t : NameTable) (events : List Event) (o : Outcome α) : Prop where
  history : History c.arena c.values t events
  names : o.names = replay t events
  raised : ∀ report ∈ o.raised, report.code = some "E0103" →
    c.reports report ∨ ∃ turn ∈ o.dispatched, turn.Reports report
  /-- Values that were to share names share them in the end. -/
  shares : ∀ turn ∈ o.dispatched, ∀ value owner, turn.Shares c.arena value owner →
    o.names.binding? value = some (.shared owner)
  overruns : ∀ missing ∈ o.overruns, c.overruns missing

namespace Run

/-- An emission that changes nothing and writes nothing. -/
theorem silent {value : α} {raised : List Diagnostic}
    (hraised : ∀ report ∈ raised, report.code ≠ some "E0103") :
    Run c t [] (⟨value, t, raised, [], []⟩ : Outcome α) :=
  ⟨trivial, rfl, fun report hr hcode => absurd hcode (hraised report hr), by simp, by simp⟩

/-- An emission that changes nothing and whose uses are those of the table. -/
theorem quiet {value : α} {raised : List Diagnostic} {ms : List Mention}
    (h : ∀ m ∈ ms, ∃ id, c.values id ∧ m = .use (c.arena.use t id))
    (hraised : ∀ report ∈ raised, report.code ≠ some "E0103") :
    Run c t (ms.map .mention) (⟨value, t, raised, [], []⟩ : Outcome α) := by
  have huses : History c.arena c.values t (ms.map .mention) ∧ t = replay t (ms.map .mention) := by
    induction ms with
    | nil => exact ⟨trivial, rfl⟩
    | cons m ms ih =>
      rw [List.forall_mem_cons] at h
      obtain ⟨id, hid, rfl⟩ := h.1
      exact ⟨⟨.use hid, (ih h.2).1⟩, (ih h.2).2⟩
  exact ⟨huses.1, huses.2, fun report hr hcode => absurd hcode (hraised report hr), by simp, by simp⟩

/-- A run only adds names, and only of the values it is about. -/
theorem grows {events : List Event} {o : Outcome α} (h : Run c t events o) :
    t.Grows c.arena c.values o.names :=
  h.names ▸ h.history.grows

/-- The account of an emission behind another one. -/
theorem trans {events events' : List Event} {o : Outcome α} {o' : Outcome β}
    (h : Run c t events o) (h' : Run c o.names events' o') :
    Run c t (events ++ events') (o.andThen o') where
  history := history_append.2 ⟨h.history, h.names ▸ h'.history⟩
  names := by rw [replay_append, ← h.names]; exact h'.names
  raised := by
    intro report hr hcode
    rcases List.mem_append.1 hr with hr | hr
    · rcases h.raised report hr hcode with hr | ⟨turn, ht, hr⟩
      · exact .inl hr
      · exact .inr ⟨turn, List.mem_append_left _ ht, hr⟩
    · rcases h'.raised report hr hcode with hr | ⟨turn, ht, hr⟩
      · exact .inl hr
      · exact .inr ⟨turn, List.mem_append_right _ ht, hr⟩
  shares := by
    intro turn ht value owner hturn
    rcases List.mem_append.1 ht with ht | ht
    -- an entry that the first emission made is still there behind the second
    · exact h'.grows.binding?_eq (h.shares turn ht value owner hturn)
    · exact h'.shares turn ht value owner hturn
  overruns := by
    intro missing hm
    rcases List.mem_append.1 hm with hm | hm
    · exact h.overruns missing hm
    · exact h'.overruns missing hm

end Run

/-- From a table, an emission keeps to a contract, and the mentions in its code are those that were
`given` to it and those that it wrote. -/
def EmitsFrom (c : Contract) (function : Option String) (t : NameTable) (given : List Mention)
    (e : Emission α) (mentions : α → List Mention) : Prop :=
  ∃ events, (mentions (e.run ⟨c.arena, function⟩ t).value).Perm (given ++ written events) ∧
    Run c t events (e.run ⟨c.arena, function⟩ t)

/-- An emission keeps to a contract in every function and from every table. -/
def Emits (c : Contract) (given : List Mention) (e : Emission α) (mentions : α → List Mention) :
    Prop :=
  ∀ function t, t.Valid c.arena → EmitsFrom c function t given e mentions

variable {given given' : List Mention} {e : Emission α} {mentions : α → List Mention}
variable {next : α → Emission β} {mentions' : β → List Mention}

/-- A sequence of emissions. The first one is given some mentions; the rest is given those of its
value and further ones. -/
theorem EmitsFrom.bind {function : Option String}
    (he : EmitsFrom c function t given e mentions)
    (hnext : EmitsFrom c function (e.run ⟨c.arena, function⟩ t).names
      (given' ++ mentions (e.run ⟨c.arena, function⟩ t).value)
      (next (e.run ⟨c.arena, function⟩ t).value) mentions') :
    EmitsFrom c function t (given' ++ given) (e >>= next) mentions' := by
  obtain ⟨events, hperm, hrun⟩ := he
  obtain ⟨events', hperm', hrun'⟩ := hnext
  refine ⟨events ++ events', hperm'.trans ?_, hrun.trans hrun'⟩
  have hleft := (hperm.append_left given').append_right (written events')
  simpa only [written_append, List.append_assoc] using hleft

/-- A sequence whose first emission writes nothing. -/
theorem EmitsFrom.bindEmpty {function : Option String}
    (he : EmitsFrom c function t [] e fun _ => [])
    (hnext : EmitsFrom c function (e.run ⟨c.arena, function⟩ t).names given
      (next (e.run ⟨c.arena, function⟩ t).value) mentions') :
    EmitsFrom c function t given (e >>= next) mentions' := by
  rw [← List.append_nil given] at hnext ⊢
  exact .bind he hnext

/-- The names behind a run from valid names are valid. -/
theorem EmitsFrom.valid {function : Option String} (hv : t.Valid c.arena)
    (he : EmitsFrom c function t given e mentions) :
    (e.run ⟨c.arena, function⟩ t).names.Valid c.arena := by
  obtain ⟨events, -, hrun⟩ := he
  exact hrun.grows.valid hv

/-- Two emissions that leave the same behind have the same account. -/
theorem EmitsFrom.of_run_eq {function : Option String} {e' : Emission α}
    (h : e'.run ⟨c.arena, function⟩ t = e.run ⟨c.arena, function⟩ t)
    (he : EmitsFrom c function t given e mentions) :
    EmitsFrom c function t given e' mentions := by
  rw [EmitsFrom, h]
  exact he

/-- A sequence whose first emission only finds something out. -/
theorem EmitsFrom.bindQuiet {function : Option String} {value : α}
    (h : e.run ⟨c.arena, function⟩ t = ⟨value, t, [], [], []⟩)
    (hnext : EmitsFrom c function t given (next value) mentions') :
    EmitsFrom c function t given (e >>= next) mentions' := by
  rw [EmitsFrom, bind_of_quiet h]
  exact hnext

/-- Code in which values are used as they are called in the table. -/
theorem EmitsFrom.reading {function : Option String} {value : α}
    (h : ∀ m ∈ mentions value, ∃ id, c.values id ∧ m = .use (c.arena.use t id)) :
    EmitsFrom c function t [] (pure value) mentions :=
  ⟨(mentions value).map .mention, by simp, .quiet h (by simp)⟩

namespace Emits

/-- Nothing is emitted by a value alone. -/
theorem pure {value : α} (h : (mentions value).Perm given) :
    Emits c given (pure value) mentions :=
  fun _ _ _ => ⟨[], by simpa [written] using h, .silent (by simp)⟩

/-- What two emissions mention stands one behind the other. -/
theorem bind (he : Emits c given e mentions)
    (hnext : ∀ value, Emits c (given' ++ mentions value) (next value) mentions') :
    Emits c (given' ++ given) (e >>= next) mentions' :=
  fun function t hv =>
    .bind (he function t hv) (hnext _ function _ ((he function t hv).valid hv))

/-- The mentions are counted up to their order. -/
theorem perm (h : given.Perm given') (he : Emits c given e mentions) :
    Emits c given' e mentions := by
  intro function t hv
  obtain ⟨events, hperm, hrun⟩ := he function t hv
  exact ⟨events, hperm.trans (h.append_right _), hrun⟩

/-- A sequence whose first emission needs no code that was there before. -/
theorem bindNew (he : Emits c [] e mentions)
    (hnext : ∀ value, Emits c (given ++ mentions value) (next value) mentions') :
    Emits c given (e >>= next) mentions' := by
  simpa only [List.append_nil] using bind he hnext

/-- A value that is put into another one with the same mentions. -/
theorem map {f : α → β} (he : Emits c [] e mentions) (h : ∀ value, mentions' (f value) = mentions value) :
    Emits c [] (f <$> e) mentions' :=
  bindNew he fun value => pure (.of_eq (h value))

/-- A sequence whose first emission takes some of the code that was there before and leaves the
rest. -/
theorem bindTaking (rest : List Mention) (he : Emits c given' e mentions)
    (h : (rest ++ given').Perm given)
    (hnext : ∀ value, Emits c (rest ++ mentions value) (next value) mentions') :
    Emits c given (e >>= next) mentions' :=
  perm h (bind he hnext)

/-- A sequence whose first emission finds out what is known. -/
theorem bindKnown {value : α} (he : Emits c [] e fun _ => [])
    (hvalue : ∀ function t, (e.run ⟨c.arena, function⟩ t).value = value)
    (hnext : Emits c given (next value) mentions') : Emits c given (e >>= next) mentions' := by
  intro function t hv
  refine .bindEmpty (he function t hv) ?_
  rw [hvalue]
  exact hnext function _ ((he function t hv).valid hv)

end Emits

/-! ## Primitives -/

/-- A report that is not one of naming mentions nothing. -/
theorem emits_raise (op : Option Op) {problem : Problem}
    (h : ∀ error, problem ≠ .naming error) : Emits c [] (raise op problem) fun _ => [] := by
  intro function t _
  refine ⟨[], .nil, .silent ?_⟩
  intro report hr hcode
  rw [List.mem_singleton] at hr
  subst hr
  obtain ⟨error, herror⟩ := Problem.eq_naming_of_code (Option.some.inj hcode)
  exact absurd herror (h error)

/-- An overrun that is allowed for mentions nothing. -/
theorem emits_overrun {missing : Overrun} (h : c.overruns missing) :
    Emits c [] (overrun missing) fun _ => [] := by
  intro function t _
  refine ⟨[], .nil, trivial, rfl, by simp, by simp, ?_⟩
  intro missing' hm
  rw [overrun_apply, List.mem_singleton] at hm
  rwa [hm]

/-- Looking up a value of the function mentions nothing. -/
theorem emits_info {id : ValueId} (hid : c.values id) : Emits c [] (info id) fun _ => [] := by
  intro function t _
  rw [EmitsFrom, info_apply (c.known id hid)]
  exact ⟨[], .nil, .silent (by simp)⟩

/-- Asking whether a value is bound mentions nothing. -/
theorem emits_isBound {id : ValueId} (hid : c.values id) :
    Emits c [] (isBound id) fun _ => [] := by
  intro function t _
  rw [EmitsFrom, isBound_apply (c.known id hid)]
  exact ⟨[], .nil, .silent (by simp)⟩

/-- The mention of a value: a use of what is bound, or the declaration of what is not. -/
theorem emits_mentionAs (pointer : Bool) (op : Option Op) {id : ValueId} (hid : c.values id) :
    Emits c [] (mentionAs pointer op id) fun m => [m] := by
  intro function t _
  cases hbound : c.arena.isBound t id with
  | true =>
    rw [EmitsFrom, mentionAs_of_bound hbound]
    exact ⟨[.mention (.use (c.arena.use t id))], .refl _, ⟨.use hid, trivial⟩, rfl, by simp,
      by simp, by simp⟩
  -- A free value is declared, so the names grow by it and later mentions are uses.
  | false =>
    rw [EmitsFrom, mentionAs_of_free (c.known id hid) hbound]
    refine ⟨[.mention _], .refl _, ⟨.declare _ pointer hid hbound, trivial⟩, rfl, ?_, by simp,
      by simp⟩
    intro report hr hcode
    split at hr
    · rw [List.mem_singleton] at hr
      subst hr
      simp [Problem.report, Problem.code] at hcode
    · cases hr

end Emission

end HlsEmit
