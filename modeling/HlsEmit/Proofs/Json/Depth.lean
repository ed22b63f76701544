import HlsEmit.Model.Document
import HlsEmit.Proofs.Json.Meaning

/-!
# What a schema yields from documents of a given depth

`Schema.Yields schema P` says that every value which the schema decodes from a document nested at most
`n` deep has the property `P n`. A schema inherits this from its parts; a field adds its content, which
is nested less deep than the record, or its default, which comes from nowhere.

The main use is the way back. A document may leave fields out that the written value has, so a value
can be nested deeper than the document it was decoded from. `Schema.Deepens schema extra depth` bounds
that by `extra` brackets.

## Key results

- `Schema.Yields.list`, `Schema.Yields.record`, `Schema.Yields.choice`: composite schemas
- `Fields.Yields.cons`: a field yields its content or its default
- `Fields.Deepens.required`, `Fields.Deepens.defaulted`: a default may be as deep as `extra`
-/

namespace HlsEmit.Json

variable {α β σ ρ : Type} {extra n : Nat}

/-! ## Nesting -/

mutual

/-- How many brackets are nested in a document. -/
def Tree.depth : Tree → Nat
  | .null | .bool _ | .number _ | .text _ => 0
  | .list items => depthOfTrees items + 1
  | .object members => depthOfContents members + 1
termination_by structural tree => tree

/-- How many brackets are nested in some elements. -/
def depthOfTrees : List Tree → Nat
  | [] => 0
  | item :: rest => max item.depth (depthOfTrees rest)
termination_by structural items => items

/-- How many brackets are nested in the values of some members. -/
def depthOfContents : List (CodeUnits × Tree) → Nat
  | [] => 0
  | (_, content) :: rest => max content.depth (depthOfContents rest)
termination_by structural members => members

end

/-- Members are as deep as the deepest of them. -/
theorem depthOfContents_le {members : List (CodeUnits × Tree)} :
    depthOfContents members ≤ n ↔ ∀ member ∈ members, member.2.depth ≤ n := by
  induction members with
  | nil => simp [depthOfContents]
  | cons member rest ih =>
    obtain ⟨key, content⟩ := member
    simp [depthOfContents, ih]

/-- Other members do not make an object less deep. -/
theorem depthOfContents_filter_le {members : List (CodeUnits × Tree)} (keep : CodeUnits × Tree → Bool)
    (h : depthOfContents members ≤ n) : depthOfContents (members.filter keep) ≤ n :=
  depthOfContents_le.2 fun member hmember =>
    depthOfContents_le.1 h member (List.mem_of_mem_filter hmember)

/-- A tag is one level around its content. -/
theorem depth_tagged (name : String) (content : Json) :
    (tagged name content).depth = content.depth + 1 := by
  simp [tagged, depth, depthOfMembers]

/-- A tagged object is two levels around its members. -/
theorem depth_tagged_object (name : String) (members : List (String × Json)) :
    (tagged name (.object members)).depth = depthOfMembers members + 2 := by
  rw [depth_tagged, depth]

/-- A tagged list is two levels around its items. -/
theorem depth_tagged_list (name : String) (items : List Json) :
    (tagged name (.list items)).depth = depthOfItems items + 2 := by
  rw [depth_tagged, depth]

/-! ## What is decoded -/

/-- Every value that is decoded from a document nested at most `n` deep has the property `P n`. -/
structure Schema.Yields (schema : Schema α) (P : Nat → α → Prop) : Prop where
  holds : ∀ {tree : Tree} {value : α} {n : Nat}, schema.decode tree = some value →
    tree.depth ≤ n → P n value

/-- The same for the fields of a record; `n` does not count the brackets of the record. -/
structure Fields.Yields (fields : Fields σ ρ) (P : Nat → ρ → Prop) : Prop where
  members : ∀ {members : List (CodeUnits × Tree)} {values : ρ} {n : Nat},
    fields.decodeMembers members = some values → depthOfContents members ≤ n → P n values
  items : ∀ {items : List Tree} {values : ρ} {n : Nat},
    fields.decodeList items = some values → depthOfTrees items ≤ n → P n values

/-- The same for the alternatives of a choice; `n` does not count the brackets of the choice. -/
structure Alternatives.Yields (alternatives : Alternatives α) (P : Nat → α → Prop) : Prop where
  bare : ∀ {key : String} {value : α}, alternatives.decodeBare key = some value → ∀ n, P n value
  content : ∀ {key : String} {content : Tree} {value : α} {n : Nat},
    alternatives.decodeContent key content = some value → content.depth ≤ n → P (n + 1) value

/-- The one member of a field that has a value. -/
theorem slotOf?_eq_some {decode : Tree → Option α} {members : List (CodeUnits × Tree)} {value : α}
    (h : slotOf? decode members = some (some value)) :
    ∃ member ∈ members, decode member.2 = some value := by
  match members with
  | [] => cases h
  | [(key, content)] =>
    obtain ⟨_, hvalue, hsame⟩ := Option.map_eq_some_iff.1 h
    cases hsame
    exact ⟨(key, content), .head _, hvalue⟩
  | _ :: _ :: _ => cases h

namespace Fields.Yields

variable {P : Nat → α → Prop} {Q : Nat → ρ → Prop}

/-- Weaker properties of the values suffice. -/
theorem mono {fields : Fields σ ρ} {Q' : Nat → ρ → Prop} (h : fields.Yields Q)
    (himp : ∀ n values, Q n values → Q' n values) : fields.Yields Q' :=
  ⟨fun hdecode hdepth => himp _ _ (h.members hdecode hdepth),
    fun hdecode hdepth => himp _ _ (h.items hdecode hdepth)⟩

/-- No field yields nothing. -/
theorem nil : Fields.nil.Yields fun _ _ => True :=
  ⟨fun _ _ => trivial, fun _ _ => trivial⟩

/-- A field yields its content, or its default. -/
theorem cons {name : String} {value : Schema α} {default : Option α} {rest : Fields σ ρ}
    (hvalue : value.Yields P) (hdefault : ∀ given ∈ default, ∀ n, P n given) (hrest : rest.Yields Q) :
    (Fields.cons name value default rest).Yields fun n values => P n values.1 ∧ Q n values.2 := by
  refine ⟨fun {members values n} hdecode hdepth => ?_, fun {items values n} hdecode hdepth => ?_⟩
  · rw [decodeMembers_cons] at hdecode
    obtain ⟨slot, hslot, hdecode⟩ := Option.bind_eq_some_iff.1 hdecode
    obtain ⟨here, hhere, hdecode⟩ := Option.bind_eq_some_iff.1 hdecode
    obtain ⟨there, hthere, rfl⟩ := Option.map_eq_some_iff.1 hdecode
    refine ⟨?_, hrest.members hthere (depthOfContents_filter_le _ hdepth)⟩
    -- a default is not in the document, so it has the property at any depth
    cases slot with
    | none => exact hdefault here hhere n
    | some filled =>
      obtain rfl : filled = here := Option.some.inj hhere
      obtain ⟨member, hmember, hcontent⟩ := slotOf?_eq_some hslot
      exact hvalue.holds hcontent
        (depthOfContents_le.1 hdepth member (List.mem_of_mem_filter hmember))
  · cases items with
    | nil =>
      rw [decodeList] at hdecode
      obtain ⟨here, hhere, hdecode⟩ := Option.bind_eq_some_iff.1 hdecode
      obtain ⟨there, hthere, hdecode⟩ := Option.bind_eq_some_iff.1 hdecode
      cases hdecode
      exact ⟨hdefault here hhere n, hrest.items hthere hdepth⟩
    | cons item items =>
      rw [decodeList] at hdecode
      obtain ⟨here, hhere, hdecode⟩ := Option.bind_eq_some_iff.1 hdecode
      obtain ⟨there, hthere, hdecode⟩ := Option.bind_eq_some_iff.1 hdecode
      cases hdecode
      rw [depthOfTrees, Nat.max_le] at hdepth
      exact ⟨hvalue.holds hhere hdepth.1, hrest.items hthere hdepth.2⟩

/-- The fields of a record, or of a tuple, stand inside of its brackets. -/
theorem fields? {fields : Fields σ ρ} (h : fields.Yields Q)
    {ofMembers : List (CodeUnits × Tree) → Option ρ}
    (hmembers : ∀ {members values}, ofMembers members = some values →
      fields.decodeMembers members = some values) {tree : Tree} {values : ρ}
    (hdecode : tree.fields? fields.decodeList ofMembers = some values) (hdepth : tree.depth ≤ n) :
    ∃ m, n = m + 1 ∧ Q m values := by
  unfold Tree.fields? at hdecode
  split at hdecode
  · rw [Tree.depth] at hdepth
    exact ⟨n - 1, by omega, h.items hdecode (by omega)⟩
  · rw [Tree.depth] at hdepth
    exact ⟨n - 1, by omega, h.members (hmembers hdecode) (by omega)⟩
  · cases hdecode

end Fields.Yields

namespace Alternatives.Yields

variable {P : Nat → α → Prop} {rest : Alternatives α} {name title : String}

/-- No alternative yields anything. -/
theorem nil : (Alternatives.nil : Alternatives α).Yields P :=
  ⟨(fun hdecode => by cases hdecode), (fun hdecode => by cases hdecode)⟩

/-- A bare alternative is its value at any depth. -/
theorem bareName {value : α} (hvalue : ∀ n, P n value) (hrest : rest.Yields P) :
    (Alternatives.bare name value rest).Yields P := by
  refine ⟨fun {key value'} hdecode => ?_, fun {key content value' n} hdecode hdepth => ?_⟩
  · rw [decodeBare] at hdecode
    split at hdecode
    · cases hdecode
      exact hvalue
    · exact hrest.bare hdecode
  · rw [decodeContent] at hdecode
    split at hdecode
    · split at hdecode <;> cases hdecode
      exact hvalue (n + 1)
    · exact hrest.content hdecode hdepth

/-- An alternative around a value is one level deeper than the value. -/
theorem holding {value : Schema β} {make : β → α} {Q : Nat → β → Prop} (hvalue : value.Yields Q)
    (hmake : ∀ n held, Q n held → P (n + 1) (make held)) (hrest : rest.Yields P) :
    (Alternatives.holding name value make rest).Yields P := by
  refine ⟨fun {key value'} hdecode => ?_, fun {key content value' n} hdecode hdepth => ?_⟩
  · rw [decodeBare] at hdecode
    split at hdecode
    · cases hdecode
    · exact hrest.bare hdecode
  · rw [decodeContent] at hdecode
    split at hdecode
    · obtain ⟨held, hheld, rfl⟩ := Option.map_eq_some_iff.1 hdecode
      exact hmake n held (hvalue.holds hheld hdepth)
    · exact hrest.content hdecode hdepth

/-- An alternative of listed fields is two levels deeper than these. -/
theorem tuple {items : Fields σ ρ} {make : ρ → α} {Q : Nat → ρ → Prop} (hitems : items.Yields Q)
    (hmake : ∀ n values, Q n values → P (n + 2) (make values)) (hrest : rest.Yields P) :
    (Alternatives.tuple name title items make rest).Yields P := by
  refine ⟨fun {key value'} hdecode => ?_, fun {key content value' n} hdecode hdepth => ?_⟩
  · rw [decodeBare] at hdecode
    split at hdecode
    · cases hdecode
    · exact hrest.bare hdecode
  · rw [decodeContent] at hdecode
    split at hdecode
    · obtain ⟨values, hvalues, rfl⟩ := Option.map_eq_some_iff.1 hdecode
      obtain ⟨m, rfl, hinner⟩ := hitems.fields? (fun hnone => by cases hnone) hvalues hdepth
      exact hmake m values hinner
    · exact hrest.content hdecode hdepth

/-- An alternative of named fields is two levels deeper than these. -/
theorem record {fields : Fields σ ρ} {make : ρ → α} {Q : Nat → ρ → Prop} (hfields : fields.Yields Q)
    (hmake : ∀ n values, Q n values → P (n + 2) (make values)) (hrest : rest.Yields P) :
    (Alternatives.record name title fields make rest).Yields P := by
  refine ⟨fun {key value'} hdecode => ?_, fun {key content value' n} hdecode hdepth => ?_⟩
  · rw [decodeBare] at hdecode
    split at hdecode
    · cases hdecode
    · exact hrest.bare hdecode
  · rw [decodeContent] at hdecode
    split at hdecode
    · obtain ⟨values, hvalues, rfl⟩ := Option.map_eq_some_iff.1 hdecode
      obtain ⟨m, rfl, hinner⟩ := hfields.fields? id hvalues hdepth
      exact hmake m values hinner
    · exact hrest.content hdecode hdepth

end Alternatives.Yields

namespace Schema.Yields

variable {P : Nat → α → Prop}

/-- A property of all values needs no document. -/
theorem always {schema : Schema α} (h : ∀ n value, P n value) : schema.Yields P :=
  ⟨fun _ _ => h _ _⟩

/-- Nothing is asked of a value. -/
theorem anything {schema : Schema α} : schema.Yields fun _ _ => True :=
  .always fun _ _ => trivial

/-- An optional value is missing or has the property. -/
theorem optional {schema : Schema α} (h : schema.Yields P) :
    (Schema.optional schema).Yields fun n value => ∀ content ∈ value, P n content := by
  refine ⟨fun {tree value n} hdecode hdepth content hcontent => ?_⟩
  rw [Schema.decode] at hdecode
  split at hdecode
  · cases hdecode
    cases hcontent
  · obtain ⟨inner, hinner, rfl⟩ := Option.map_eq_some_iff.1 hdecode
    cases hcontent
    exact h.holds hinner hdepth

/-- Each of the decoded items has the property. -/
theorem mapM {schema : Schema α} (h : schema.Yields P) {items : List Tree} {values : List α}
    (hdecode : items.mapM schema.decode = some values) (hdepth : depthOfTrees items ≤ n) :
    ∀ value ∈ values, P n value := by
  induction items generalizing values with
  | nil =>
    cases hdecode
    simp
  | cons item items ih =>
    rw [List.mapM_cons] at hdecode
    obtain ⟨value, hvalue, hdecode⟩ := Option.bind_eq_some_iff.1 hdecode
    obtain ⟨values, hvalues, hdecode⟩ := Option.bind_eq_some_iff.1 hdecode
    cases hdecode
    rw [depthOfTrees, Nat.max_le] at hdepth
    exact List.forall_mem_cons.2 ⟨h.holds hvalue hdepth.1, ih hvalues hdepth.2⟩

/-- A list is one level deeper than its items. -/
theorem list {schema : Schema α} (h : schema.Yields P) :
    (Schema.list schema).Yields fun n values => ∃ m, n = m + 1 ∧ ∀ value ∈ values, P m value := by
  refine ⟨fun {tree values n} hdecode hdepth => ?_⟩
  rw [Schema.decode] at hdecode
  obtain ⟨items, hitems, hvalues⟩ := Option.bind_eq_some_iff.1 hdecode
  cases tree <;> cases hitems
  rw [Tree.depth] at hdepth
  exact ⟨n - 1, by omega, h.mapM hvalues (by omega)⟩

/-- A weaker property of the value suffices. -/
theorem mono {schema : Schema α} {P' : Nat → α → Prop} (h : schema.Yields P)
    (himp : ∀ n value, P n value → P' n value) : schema.Yields P' :=
  ⟨fun hdecode hdepth => himp _ _ (h.holds hdecode hdepth)⟩

/-- Nothing is decoded beyond the limit. -/
theorem beyondLimit : Schema.beyondLimit.Yields P :=
  ⟨fun hdecode => by cases hdecode⟩

/-- A record is one level deeper than its fields. -/
theorem record {title : String} {fields : Fields σ ρ} {make : ρ → α} {Q : Nat → ρ → Prop}
    (h : fields.Yields Q) (hmake : ∀ n values, Q n values → P (n + 1) (make values)) :
    (Schema.record title fields make).Yields P := by
  refine ⟨fun {tree value n} hdecode hdepth => ?_⟩
  rw [Schema.decode] at hdecode
  obtain ⟨values, hvalues, rfl⟩ := Option.map_eq_some_iff.1 hdecode
  obtain ⟨m, rfl, hinner⟩ := h.fields? id hvalues hdepth
  exact hmake m values hinner

/-- A choice yields what its alternatives yield. -/
theorem choice {alternatives : Alternatives α} (h : alternatives.Yields P) :
    (Schema.choice alternatives).Yields P := by
  refine ⟨fun {tree value n} hdecode hdepth => ?_⟩
  rw [Schema.decode] at hdecode
  unfold Tree.alternative? at hdecode
  split at hdecode
  · obtain ⟨key, -, hvalue⟩ := Option.bind_eq_some_iff.1 hdecode
    exact h.bare hvalue n
  · -- the object around the content is one bracket
    obtain ⟨key, -, hvalue⟩ := Option.bind_eq_some_iff.1 hdecode
    rw [Tree.depth, depthOfContents, depthOfContents, Nat.max_zero] at hdepth
    obtain ⟨m, rfl⟩ : ∃ m, n = m + 1 := ⟨n - 1, by omega⟩
    exact h.content hvalue (by omega)
  · cases hdecode

end Schema.Yields

/-! ## Written values are little deeper -/

/-- What is decoded from a document is nested at most `extra` brackets deeper than the document. -/
structure Schema.Deepens (schema : Schema α) (extra : Nat) (depth : α → Nat) : Prop where
  yields : schema.Yields fun n value => depth value ≤ n + extra

/-- The same for the fields of a record. -/
structure Fields.Deepens (fields : Fields σ ρ) (extra : Nat) (depth : ρ → Nat) : Prop where
  yields : fields.Yields fun n values => depth values ≤ n + extra

/-- The same for the alternatives of a choice. -/
structure Alternatives.Deepens (alternatives : Alternatives α) (extra : Nat) (depth : α → Nat) :
    Prop where
  yields : alternatives.Yields fun n value => depth value ≤ n + extra

namespace Schema.Deepens

/-- Values that are written without brackets. -/
theorem flat {schema : Schema α} {depth : α → Nat} (h : ∀ value, depth value = 0) :
    schema.Deepens extra depth :=
  ⟨.always fun _ value => by rw [h]; exact Nat.zero_le _⟩

/-- Nothing is decoded beyond the limit. -/
theorem beyondLimit {depth : α → Nat} : Schema.beyondLimit.Deepens extra depth :=
  ⟨.beyondLimit⟩

/-- An optional value deepens its document as far as the value does. -/
theorem optional {schema : Schema α} {write : α → Json}
    (h : schema.Deepens extra fun value => (write value).depth) :
    (Schema.optional schema).Deepens extra fun value => (ofOption write value).depth := by
  refine ⟨h.yields.optional.mono fun n value hvalue => ?_⟩
  cases value with
  | none => exact Nat.zero_le _
  | some content => exact hvalue content rfl

/-- A list deepens its document as far as its items do. -/
theorem list {schema : Schema α} {write : α → Json}
    (h : schema.Deepens extra fun value => (write value).depth) :
    (Schema.list schema).Deepens extra fun values => (ofList write values).depth := by
  refine ⟨h.yields.list.mono fun n values hvalues => ?_⟩
  obtain ⟨m, rfl, hvalues⟩ := hvalues
  have hdepth : depthOfItems (values.map write) ≤ m + extra :=
    depthOfItems_le.2 (List.forall_mem_map.2 hvalues)
  show depthOfItems (values.map write) + 1 ≤ m + 1 + extra
  omega

/-- A record adds its own brackets, which its document has too. -/
theorem record {title : String} {fields : Fields σ ρ} {make : ρ → α} {depth : α → Nat}
    {inner : ρ → Nat} (h : fields.Deepens extra inner)
    (hmake : ∀ values, depth (make values) ≤ inner values + 1) :
    (Schema.record title fields make).Deepens extra depth := by
  refine ⟨.record h.yields fun n values hinner => ?_⟩
  have hdepth := hmake values
  omega

/-- A choice deepens its document as far as its alternatives do. -/
theorem choice {alternatives : Alternatives α} {depth : α → Nat}
    (h : alternatives.Deepens extra depth) : (Schema.choice alternatives).Deepens extra depth :=
  ⟨.choice h.yields⟩

end Schema.Deepens

namespace Fields.Deepens

variable {name : String} {value : Schema α} {rest : Fields σ ρ} {first : α → Nat} {others : ρ → Nat}

/-- No field adds no depth. -/
theorem nil : Fields.nil.Deepens extra fun _ => 0 :=
  ⟨Yields.nil.mono fun _ _ _ => Nat.zero_le _⟩

/-- A field without a default. -/
theorem required (hvalue : value.Deepens extra first) (hrest : rest.Deepens extra others) :
    (Fields.cons name value none rest).Deepens extra fun (here, there) =>
      max (first here) (others there) :=
  ⟨(Yields.cons hvalue.yields (fun _ hgiven => by cases hgiven) hrest.yields).mono
    fun _ _ h => Nat.max_le.2 h⟩

/-- A field with a default, which may be as deep as `extra`. -/
theorem defaulted {default : α} (hvalue : value.Deepens extra first)
    (hdefault : first default ≤ extra) (hrest : rest.Deepens extra others) :
    (Fields.cons name value (some default) rest).Deepens extra fun (here, there) =>
      max (first here) (others there) := by
  have hgiven (given : α) (h : given ∈ some default) (n : Nat) : first given ≤ n + extra := by
    cases h
    exact hdefault.trans (Nat.le_add_left _ _)
  exact ⟨(Yields.cons hvalue.yields hgiven hrest.yields).mono fun _ _ h => Nat.max_le.2 h⟩

end Fields.Deepens

namespace Alternatives.Deepens

variable {rest : Alternatives α} {name title : String} {depth : α → Nat}

/-- No alternative adds any depth. -/
theorem nil : (Alternatives.nil : Alternatives α).Deepens extra depth :=
  ⟨.nil⟩

/-- A bare alternative is written without any depth. -/
theorem bareName {value : α} (hvalue : depth value = 0) (hrest : rest.Deepens extra depth) :
    (Alternatives.bare name value rest).Deepens extra depth :=
  ⟨.bareName (fun _ => by rw [hvalue]; exact Nat.zero_le _) hrest.yields⟩

/-- An alternative around a value adds its own level. -/
theorem holding {value : Schema β} {make : β → α} {inner : β → Nat}
    (hvalue : value.Deepens extra inner) (hmake : ∀ held, depth (make held) ≤ inner held + 1)
    (hrest : rest.Deepens extra depth) :
    (Alternatives.holding name value make rest).Deepens extra depth := by
  refine ⟨.holding hvalue.yields (fun n held hinner => ?_) hrest.yields⟩
  have hdepth := hmake held
  omega

/-- An alternative of listed fields adds two levels. -/
theorem tuple {items : Fields σ ρ} {make : ρ → α} {inner : ρ → Nat}
    (hitems : items.Deepens extra inner) (hmake : ∀ values, depth (make values) ≤ inner values + 2)
    (hrest : rest.Deepens extra depth) :
    (Alternatives.tuple name title items make rest).Deepens extra depth := by
  refine ⟨.tuple hitems.yields (fun n values hinner => ?_) hrest.yields⟩
  have hdepth := hmake values
  omega

/-- An alternative of named fields adds two levels. -/
theorem record {fields : Fields σ ρ} {make : ρ → α} {inner : ρ → Nat}
    (hfields : fields.Deepens extra inner) (hmake : ∀ values, depth (make values) ≤ inner values + 2)
    (hrest : rest.Deepens extra depth) :
    (Alternatives.record name title fields make rest).Deepens extra depth := by
  refine ⟨.record hfields.yields (fun n values hinner => ?_) hrest.yields⟩
  have hdepth := hmake values
  omega

end Alternatives.Deepens

end HlsEmit.Json
