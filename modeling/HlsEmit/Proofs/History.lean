import HlsEmit.Code.Mentions
import HlsEmit.Proofs.Naming

/-!
# What happens to names while code is written

An emission mentions values and lets values share names. `Event` is one such step, `replay` is the
table that events lead to, and `History` says that every event is in order with the table that it
meets: a use is what the value is called there, and only a value without a name gets one.

What is true of a whole run follows from its history, by induction on the events.

## Key results

- `history_append`: a history may be cut anywhere
- `History.grows`: the table of a history grew
- `History.distinct`, `History.identifiers`, `History.values_nodup`: no two declarations have the same
  number, identifier or value
- `History.used`: every use is empty or what the value is called in the end
- `History.used_then`: every use is what the value was called when it was written
- `History.of_bound`: where all values are bound, they are used as they are called and none is named
-/

namespace HlsEmit

open Code

/-- One step of an emission that concerns names. -/
inductive Event where
  /-- A value is mentioned in the code. -/
  | mention (mention : Mention)
  /-- A value gets the name of its owner. -/
  | share (value owner : ValueId)
deriving DecidableEq, Repr

/-- Different names have different identifiers. -/
theorem Name.number_eq_of_identifier {name name' : Name} (h : name.identifier = name'.identifier) :
    name.number = name'.number := by
  simp only [identifier, String.append_right_inj, Nat.toString_eq_repr] at h
  have hdigits : Nat.toDigits 10 name.number = Nat.toDigits 10 name'.number := by
    rw [← Nat.toList_repr, ← Nat.toList_repr, h]
  rw [← @Nat.ofDigitChars_ten_toDigits name.number, hdigits, Nat.ofDigitChars_ten_toDigits]

namespace Event

/-- What an event writes. -/
def mention? : Event → Option Mention
  | .mention m => some m
  | .share .. => none

/-- The table behind an event. -/
def after (t : NameTable) : Event → NameTable
  | .mention (.use _) => t
  | .mention (.declare id _ name) => t.insert id (.declared name)
  | .share id owner => t.insert id (.shared owner)

/-- An event is in order with a table. -/
inductive Regular (arena : Arena) (values : ValueId → Prop) (t : NameTable) : Event → Prop
  | use {id : ValueId} : values id → Regular arena values t (.mention (.use (arena.use t id)))
  | declare {id : ValueId} (type : Option String) (pointer : Bool) : values id →
      arena.isBound t id = false →
      Regular arena values t (.mention (.declare id type ⟨t.size, pointer⟩))
  | share {id owner : ValueId} {name : Name} : values id → arena.isBound t id = false →
      t.ownName? owner = some name → Regular arena values t (.share id owner)

end Event

/-- The mentions that some events wrote, in the order of time. -/
def written (events : List Event) : List Mention :=
  events.filterMap Event.mention?

/-- The table that events lead to. -/
def replay (t : NameTable) (events : List Event) : NameTable :=
  events.foldl Event.after t

/-- Events each of which is in order with the table that it meets. -/
def History (arena : Arena) (values : ValueId → Prop) (t : NameTable) : List Event → Prop
  | [] => True
  | event :: rest => event.Regular arena values t ∧ History arena values (event.after t) rest

/-- What is written by two runs stands one behind the other. -/
@[simp] theorem written_append (events events' : List Event) :
    written (events ++ events') = written events ++ written events' :=
  List.filterMap_append

/-- Mentions alone are written as they are. -/
@[simp] theorem written_map_mention (ms : List Mention) : written (ms.map .mention) = ms := by
  induction ms with
  | nil => rfl
  | cons m ms ih => exact congrArg (m :: ·) ih

/-- A run replayed in two parts. -/
theorem replay_append (t : NameTable) (events events' : List Event) :
    replay t (events ++ events') = replay (replay t events) events' :=
  List.foldl_append

variable {arena : Arena} {values : ValueId → Prop} {t : NameTable}

/-- A history may be cut anywhere. -/
theorem history_append {events events' : List Event} :
    History arena values t (events ++ events') ↔
      History arena values t events ∧ History arena values (replay t events) events' := by
  induction events generalizing t with
  | nil => exact ⟨fun h => ⟨trivial, h⟩, And.right⟩
  | cons event rest ih =>
    simp only [List.cons_append, History, ih, and_assoc]
    rfl

/-- An event in order lets the table grow. -/
theorem Event.Regular.grows {event : Event} (h : event.Regular arena values t) :
    t.Grows arena values (event.after t) := by
  cases h with
  | use hid => exact .refl
  | declare type pointer hid hfree =>
    obtain ⟨hunnamed, hconst⟩ := Arena.isBound_eq_false_iff.1 hfree
    exact .declare pointer .refl hid hunnamed hconst
  | share hid hfree howner =>
    obtain ⟨hunnamed, hconst⟩ := Arena.isBound_eq_false_iff.1 hfree
    exact .share .refl hid hunnamed hconst howner

namespace History

variable {events : List Event}

/-- The table of a history grew. -/
theorem grows (h : History arena values t events) : t.Grows arena values (replay t events) := by
  induction events generalizing t with
  | nil => exact .refl
  | cons event rest ih => exact h.1.grows.trans (ih h.2)

/-! ## Declarations -/

/-- A declaration has a number beyond the names given before, and its value is called so in the
end. -/
theorem declared (h : History arena values t events) {d : ValueId × Name}
    (hd : d ∈ declarations (written events)) :
    t.size ≤ d.2.number ∧ (replay t events).binding? d.1 = some (.declared d.2) := by
  induction events generalizing t with
  | nil => cases hd
  | cons event rest ih =>
    have hrest (hd : d ∈ declarations (written rest)) :
        t.size ≤ d.2.number ∧ (replay t (event :: rest)).binding? d.1 = some (.declared d.2) := by
      obtain ⟨hsize, hbinding⟩ := ih h.2 hd
      exact ⟨Nat.le_trans h.1.grows.size_le hsize, hbinding⟩
    -- Only a declaration adds to the list; its number is the size of the table it finds.
    cases h.1 with
    | use hid => exact hrest hd
    | @declare id type pointer hid hfree =>
      rcases List.mem_cons.1 hd with rfl | hd
      · refine ⟨Nat.le_refl _, h.2.grows.binding?_eq ?_⟩
        simp [Event.after]
      · exact hrest hd
    | share hid hfree howner => exact hrest hd

/-- No two declarations have the same number. -/
theorem distinct (h : History arena values t events) (hv : t.Valid arena) :
    ((declarations (written events)).map fun d => d.2.number).Nodup := by
  induction events generalizing t with
  | nil => exact List.nodup_nil
  | cons event rest ih =>
    have hrest := ih h.2 (h.1.grows.valid hv)
    cases h.1 with
    | use hid => exact hrest
    | @declare id type pointer hid hfree =>
      refine List.nodup_cons.2 ⟨?_, hrest⟩
      intro hmem
      obtain ⟨d, hd, hnumber⟩ := List.mem_map.1 hmem
      -- all later numbers are beyond the table that holds this declaration
      have hlater := (h.2.declared hd).1
      simp only [Event.after, NameTable.size_insert] at hlater hnumber
      omega
    | share hid hfree howner => exact hrest

/-- No identifier is declared twice, in whichever order the mentions stand. -/
theorem identifiers (h : History arena values t events) (hv : t.Valid arena)
    {mentions : List Mention} (hperm : mentions.Perm (written events)) :
    ((declarations mentions).map fun d => d.2.identifier).Nodup := by
  have hdeclarations : (declarations mentions).Perm (declarations (written events)) :=
    hperm.filterMap _
  have hnumbers : ((declarations mentions).map fun d => d.2.number).Nodup :=
    (hdeclarations.map _).nodup_iff.2 (h.distinct hv)
  refine List.pairwise_map.2 ((List.pairwise_map.1 hnumbers).imp fun hne heq => hne ?_)
  exact Name.number_eq_of_identifier heq

/-- No value is declared twice either: it would have the same name both times. -/
theorem values_nodup (h : History arena values t events) (hv : t.Valid arena)
    {mentions : List Mention} (hperm : mentions.Perm (written events)) :
    ((declarations mentions).map Prod.fst).Nodup := by
  have hdeclarations : (declarations mentions).Perm (declarations (written events)) :=
    hperm.filterMap _
  have hname {d : ValueId × Name} (hd : d ∈ declarations mentions) :
      (replay t events).binding? d.1 = some (.declared d.2) :=
    (h.declared (hdeclarations.mem_iff.1 hd)).2
  refine List.pairwise_map.2 ((List.pairwise_map.1 (h.identifiers hv hperm)).imp_of_mem ?_)
  intro d d' hd hd' hne heq
  have hbinding := hname hd
  rw [heq, hname hd'] at hbinding
  simp only [Option.some.injEq, Binding.declared.injEq] at hbinding
  exact hne (congrArg Name.identifier hbinding.symm)

/-- Conversely, a value that got a name of its own on the way was declared. -/
theorem declaration_of (h : History arena values t events) {id : ValueId} {name : Name}
    (hbefore : t.binding? id = none)
    (hbehind : (replay t events).binding? id = some (.declared name)) :
    (id, name) ∈ declarations (written events) := by
  induction events generalizing t with
  | nil => rw [replay, List.foldl_nil, hbefore] at hbehind; cases hbehind
  | cons event rest ih =>
    cases h.1 with
    | use hid => exact ih h.2 hbefore hbehind
    | @declare id' type pointer hid hfree =>
      by_cases heq : id = id'
      · -- the entry that was made here stays
        have hhere : (t.insert id' (.declared ⟨t.size, pointer⟩)).binding? id =
            some (.declared ⟨t.size, pointer⟩) := by simp [heq]
        have hname := h.2.grows.binding?_eq hhere
        rw [show replay _ rest = replay t (_ :: rest) from rfl, hbehind] at hname
        cases hname
        exact heq ▸ List.mem_cons_self ..
      · refine List.mem_cons_of_mem _ (ih h.2 ?_ hbehind)
        simp [Event.after, heq, hbefore]
    | @share id' owner name' hid hfree howner =>
      by_cases heq : id = id'
      · have hhere : (t.insert id' (.shared owner)).binding? id = some (.shared owner) := by
          simp [heq]
        have hshared := h.2.grows.binding?_eq hhere
        rw [show replay _ rest = replay t (_ :: rest) from rfl, hbehind] at hshared
        cases hshared
      · refine ih h.2 ?_ hbehind
        simp [Event.after, heq, hbefore]

/-! ## Uses -/

/-- Every use is what the value was called when the use was written. -/
theorem used_then (h : History arena values t events) {u : Use}
    (hu : u ∈ uses (written events)) :
    u.designator = arena.designator ((replay t events).upTo u.seen) u.value := by
  induction events generalizing t with
  | nil => cases hu
  | cons event rest ih =>
    have hrest (hu : u ∈ uses (written rest)) : u.designator =
        arena.designator ((replay t (event :: rest)).upTo u.seen) u.value := ih h.2 hu
    have hthen : (replay t (event :: rest)).upTo t.size = t := h.grows.upTo_eq
    cases h.1 with
    | @use id hid =>
      rcases List.mem_cons.1 hu with rfl | hu
      · show arena.designator t id = arena.designator (NameTable.upTo _ t.size) id
        rw [hthen]
      · exact hrest hu
    | declare type pointer hid hfree => exact hrest hu
    | share hid hfree howner => exact hrest hu

/-- Every use is empty or what the value is called in the end. -/
theorem used (h : History arena values t events) (hv : t.Valid arena) {u : Use}
    (hu : u ∈ uses (written events)) :
    u.designator = .missing ∨ u.designator = arena.designator (replay t events) u.value := by
  induction events generalizing t with
  | nil => cases hu
  | cons event rest ih =>
    have hrest (hu : u ∈ uses (written rest)) : u.designator = .missing ∨
        u.designator = arena.designator (replay t (event :: rest)) u.value :=
      ih h.2 (h.1.grows.valid hv) hu
    -- A use is what the value is called then, and names are kept.
    cases h.1 with
    | @use id hid =>
      rcases List.mem_cons.1 hu with rfl | hu
      · cases hb : arena.isBound t id with
        | false => exact .inl (Arena.designator_of_unbound hb)
        | true => exact .inr (Arena.designator_eq h.grows hv hb).symm
      · exact hrest hu
    | declare type pointer hid hfree => exact hrest hu
    | share hid hfree howner => exact hrest hu

/-- Where all values are bound already, a history only uses them. -/
theorem of_bound (h : History arena values t events)
    (hbound : ∀ id, values id → arena.isBound t id = true) :
    replay t events = t ∧ ∀ m ∈ written events, ∃ id, values id ∧ m = .use (arena.use t id) := by
  induction events with
  | nil => exact ⟨rfl, by simp [written]⟩
  | cons event rest ih =>
    cases h.1 with
    | use hid =>
      have hrest := ih h.2
      refine ⟨hrest.1, ?_⟩
      intro m hm
      rcases List.mem_cons.1 hm with rfl | hm
      · exact ⟨_, hid, rfl⟩
      · exact hrest.2 m hm
    | declare type pointer hid hfree => rw [hbound _ hid] at hfree; cases hfree
    | share hid hfree howner => rw [hbound _ hid] at hfree; cases hfree

end History

end HlsEmit
