import HlsEmit.Proofs.Json.Grammar

/-!
# What a document means

`Schema.decode` is the value of a document by a schema, without the text around it: a record takes
each of its fields from the one member of that name, wherever it stands, a field without a member has
its default, and members of other names do not count.

`Schema.Reformats` relates two documents that differ only in how they are formatted: in the order of
the members of records, in members that the schema does not name, and in fields that are left out or
spelled out with their default, at any depth. Blanks and escapes do not appear in a document at all.

## Key results

- `Schema.Reformats.decode_eq`: documents that differ in their formatting have the same value
-/

namespace HlsEmit.Json

variable {α β σ ρ : Type}

/-! ## Decoding -/

/-- What a reader makes of some characters if it consumes them all. -/
def Reader.whole? (reader : Reader α) (token : List Char) : Option α :=
  match reader.run token with
  | .ok (value, []) => some value
  | _ => none

/-- Whether a member has this name. -/
def isNamed (name : String) (member : CodeUnits × Tree) : Bool :=
  textOf? member.1 = some name

namespace Tree

/-- Whether a document is `null`. -/
def isNull : Tree → Bool
  | .null => true
  | _ => false

/-- A truth value. -/
def bool? : Tree → Option Bool
  | .bool value => some value
  | _ => none

/-- The characters of a number. -/
def number? : Tree → Option (List Char)
  | .number token => some token
  | _ => none

/-- A text. -/
def text? : Tree → Option String
  | .text units => textOf? units
  | _ => none

/-- The elements of a list. -/
def items? : Tree → Option (List Tree)
  | .list items => some items
  | _ => none

/-- The fields of a record, which is written as a list or as an object. -/
def fields? (ofList : List Tree → Option ρ) (ofMembers : List (CodeUnits × Tree) → Option ρ) :
    Tree → Option ρ
  | .list items => ofList items
  | .object members => ofMembers members
  | _ => none

/-- An alternative, which is written as its bare name or as an object with one member. -/
def alternative? (ofName : String → Option α) (ofContent : String → Tree → Option α) :
    Tree → Option α
  | .text units => (textOf? units).bind ofName
  | .object [(key, content)] => (textOf? key).bind fun key => ofContent key content
  | _ => none

end Tree

/-- The slot of a field that has these members: there is at most one. -/
def slotOf? (decode : Tree → Option α) : List (CodeUnits × Tree) → Option (Option α)
  | [] => some none
  | [(_, content)] => (decode content).map some
  | _ => none

/-- The slots of a record to the values of its fields. -/
def Fields.complete? (fields : Fields σ ρ) (slots : σ) : Option ρ :=
  (fields.complete slots).toOption

/-- The value of an alternative that is written as its bare name. -/
def Alternatives.decodeBare : Alternatives α → (key : String) → Option α
  | .nil, _ => none
  | .bare name value rest, key => if name = key then some value else rest.decodeBare key
  | .holding name _ _ rest, key => if name = key then none else rest.decodeBare key
  | .tuple name _ _ _ rest, key => if name = key then none else rest.decodeBare key
  | .record name _ _ _ rest, key => if name = key then none else rest.decodeBare key

mutual

/-- The value of a document. -/
def Schema.decode {α : Type} : Schema α → Tree → Option α
  | .flag, tree => tree.bool?
  | .int64, tree => tree.number?.bind (readInt64 0).whole?
  | .uint32, tree => tree.number?.bind (readUInt32 0).whole?
  | .real, tree => tree.number?.bind (readReal 0).whole?
  | .text, tree => tree.text?
  | .optional value, tree => if tree.isNull then some none else (value.decode tree).map some
  | .list item, tree => tree.items?.bind fun items => items.mapM item.decode
  | .record _ fields make, tree =>
    (tree.fields? fields.decodeList fun members =>
      (fields.collect members).bind fields.complete?).map make
  | .choice alternatives, tree =>
    tree.alternative? alternatives.decodeBare alternatives.decodeContent
  | .mapped make as, tree => (as.decode tree).map make
  | .beyondLimit, _ => none
termination_by structural schema => schema

/-- The slots of a record after all of these members. A field has at most one of them. -/
def Fields.collect {σ ρ : Type} : Fields σ ρ → List (CodeUnits × Tree) → Option σ
  | .nil, _ => some ()
  | .cons name value _ rest, members => do
    let slot ← slotOf? value.decode (members.filter (isNamed name))
    return (slot, ← rest.collect (members.filter fun member => !isNamed name member))
termination_by structural fields => fields

/-- The values of fields that are written as a list. A tail of fields with defaults may be absent. -/
def Fields.decodeList {σ ρ : Type} : Fields σ ρ → List Tree → Option ρ
  | .nil, [] => some ()
  | .nil, _ :: _ => none
  | .cons _ value _ rest, item :: items => do
    return (← value.decode item, ← rest.decodeList items)
  | .cons _ _ default rest, [] => do
    return (← default, ← rest.decodeList [])
termination_by structural fields => fields

/-- The value of an alternative with this content. -/
def Alternatives.decodeContent {α : Type} :
    Alternatives α → (key : String) → (content : Tree) → Option α
  | .nil, _, _ => none
  | .bare name value rest, key, content =>
    if name = key then if content.isNull then some value else none
    else rest.decodeContent key content
  | .holding name value make rest, key, content =>
    if name = key then (value.decode content).map make else rest.decodeContent key content
  | .tuple name _ items make rest, key, content =>
    if name = key then (content.fields? items.decodeList fun _ => none).map make
    else rest.decodeContent key content
  | .record name _ fields make rest, key, content =>
    if name = key then
      (content.fields? fields.decodeList fun members =>
        (fields.collect members).bind fields.complete?).map make
    else rest.decodeContent key content
termination_by structural alternatives => alternatives

end

/-! ## Formatting -/

/-- The field of this name at this position, with its schema and its default. -/
inductive Fields.Has : {σ ρ α : Type} → Fields σ ρ → (position : Nat) → (name : String) →
    Schema α → (default : Option α) → Prop
  | here {σ ρ α : Type} {name : String} {value : Schema α} {default : Option α}
      {rest : Fields σ ρ} : Has (.cons name value default rest) 0 name value default
  | there {σ ρ α β : Type} {first name : String} {other : Schema β} {otherDefault : Option β}
      {rest : Fields σ ρ} {position : Nat} {value : Schema α} {default : Option α} :
      first ≠ name → Has rest position name value default →
      Has (.cons first other otherDefault rest) (position + 1) name value default

/-- Two documents that differ only in their formatting. -/
inductive Schema.Reformats : {α : Type} → Schema α → Tree → Tree → Prop
  | refl {α : Type} {schema : Schema α} {tree : Tree} : Reformats schema tree tree
  | symm {α : Type} {schema : Schema α} {tree tree' : Tree} :
      Reformats schema tree tree' → Reformats schema tree' tree
  | trans {α : Type} {schema : Schema α} {tree tree' tree'' : Tree} :
      Reformats schema tree tree' → Reformats schema tree' tree'' → Reformats schema tree tree''
  /-- The members of a record stand in another order. -/
  | reorder {α σ ρ : Type} {title : String} {fields : Fields σ ρ} {make : ρ → α}
      {members members' : List (CodeUnits × Tree)} : members.Perm members' →
      Reformats (.record title fields make) (.object members) (.object members')
  /-- A member that no field is named for. -/
  | unknown {α σ ρ : Type} {title : String} {fields : Fields σ ρ} {make : ρ → α} {key : CodeUnits}
      {content : Tree} {members : List (CodeUnits × Tree)} :
      (∀ name ∈ fields.names, textOf? key ≠ some name) →
      Reformats (.record title fields make) (.object members) (.object ((key, content) :: members))
  /-- A field is spelled out with its default. -/
  | spelled {α β σ ρ : Type} {title name : String} {fields : Fields σ ρ} {make : ρ → α}
      {position : Nat} {value : Schema β} {default : β} {key : CodeUnits} {content : Tree}
      {members : List (CodeUnits × Tree)} :
      fields.Has position name value (some default) → textOf? key = some name →
      (∀ member ∈ members, textOf? member.1 ≠ some name) → value.decode content = some default →
      Reformats (.record title fields make) (.object members) (.object ((key, content) :: members))
  /-- The same where the record is written as a list, which may end before its defaults. -/
  | spelledLast {α β σ ρ : Type} {title name : String} {fields : Fields σ ρ} {make : ρ → α}
      {value : Schema β} {default : β} {content : Tree} {items : List Tree} :
      fields.Has items.length name value (some default) → value.decode content = some default →
      Reformats (.record title fields make) (.list items) (.list (items ++ [content]))
  /-- Inside of a field. -/
  | field {α β σ ρ : Type} {title name : String} {fields : Fields σ ρ} {make : ρ → α}
      {position : Nat} {value : Schema β} {default : Option β} {key : CodeUnits}
      {content content' : Tree} {members : List (CodeUnits × Tree)} :
      fields.Has position name value default → textOf? key = some name →
      Reformats value content content' →
      Reformats (.record title fields make) (.object ((key, content) :: members))
        (.object ((key, content') :: members))
  /-- Inside of a field of a record that is written as a list. -/
  | fieldAt {α β σ ρ : Type} {title name : String} {fields : Fields σ ρ} {make : ρ → α}
      {value : Schema β} {default : Option β} {item item' : Tree} {front behind : List Tree} :
      fields.Has front.length name value default → Reformats value item item' →
      Reformats (.record title fields make) (.list (front ++ item :: behind))
        (.list (front ++ item' :: behind))
  /-- Inside of an element of a list. -/
  | element {α : Type} {schema : Schema α} {item item' : Tree} {front behind : List Tree} :
      Reformats schema item item' →
      Reformats (.list schema) (.list (front ++ item :: behind)) (.list (front ++ item' :: behind))
  | optional {α : Type} {schema : Schema α} {tree tree' : Tree} :
      Reformats schema tree tree' → Reformats (.optional schema) tree tree'
  | mapped {α β : Type} {make : β → α} {schema : Schema β} {tree tree' : Tree} :
      Reformats schema tree tree' → Reformats (.mapped make schema) tree tree'
  /-- Inside of the content of an alternative. -/
  | holding {α β : Type} {alternatives rest : Alternatives α} {name : String} {value : Schema β}
      {make : β → α} {key : CodeUnits} {content content' : Tree} :
      alternatives.dropTo name = .holding name value make rest → textOf? key = some name →
      Reformats value content content' →
      Reformats (.choice alternatives) (.object [(key, content)]) (.object [(key, content')])
  /-- Inside of the record that an alternative holds. -/
  | alternative {α σ ρ : Type} {alternatives rest : Alternatives α} {name title : String}
      {fields : Fields σ ρ} {make : ρ → α} {key : CodeUnits} {content content' : Tree} :
      alternatives.dropTo name = .record name title fields make rest → textOf? key = some name →
      Reformats (.record title fields make) content content' →
      Reformats (.choice alternatives) (.object [(key, content)]) (.object [(key, content')])
  /-- Inside of a value of the tuple that an alternative holds. -/
  | tuple {α β σ ρ : Type} {alternatives rest : Alternatives α} {name title field : String}
      {items : Fields σ ρ} {make : ρ → α} {value : Schema β} {default : Option β} {key : CodeUnits}
      {item item' : Tree} {front behind : List Tree} :
      alternatives.dropTo name = .tuple name title items make rest → textOf? key = some name →
      items.Has front.length field value default → Reformats value item item' →
      Reformats (.choice alternatives) (.object [(key, .list (front ++ item :: behind))])
        (.object [(key, .list (front ++ item' :: behind))])

/-! ## Formatting does not change what is decoded -/

/-- The values of fields that are written as the members of an object. -/
def Fields.decodeMembers (fields : Fields σ ρ) (members : List (CodeUnits × Tree)) : Option ρ :=
  (fields.collect members).bind fields.complete?

/-- The first field is decoded from the members with its name, the others from the rest. -/
theorem Fields.decodeMembers_cons (name : String) (value : Schema α) (default : Option α)
    (rest : Fields σ ρ) (members : List (CodeUnits × Tree)) :
    (Fields.cons name value default rest).decodeMembers members =
      (slotOf? value.decode (members.filter (isNamed name))).bind fun slot =>
        (slot.or default).bind fun first =>
          (rest.decodeMembers (members.filter fun member => !isNamed name member)).map (first, ·) := by
  rw [decodeMembers, collect]
  -- On what is found for the first field, then for the others: the order of the two does not
  -- matter.
  cases slotOf? value.decode (members.filter (isNamed name)) with
  | none => rfl
  | some slot =>
    rw [Option.bind_some, decodeMembers]
    cases rest.collect (members.filter fun member => !isNamed name member) with
    | none => cases slot.or default <;> rfl
    | some slots =>
      show (Fields.complete _ _).toOption = _
      rw [Fields.complete, Option.bind_some, complete?]
      cases slot.or default with
      | none => rfl
      | some first => cases rest.complete slots <;> rfl

/-- A member with another name is not found. -/
theorem isNamed_eq_false {name : String} {member : CodeUnits × Tree}
    (h : textOf? member.1 ≠ some name) : isNamed name member = false := by
  simpa [isNamed] using h

/-- The order of the members does not matter for a slot. -/
theorem slotOf?_perm (decode : Tree → Option α) {members members' : List (CodeUnits × Tree)}
    (h : members.Perm members') : slotOf? decode members = slotOf? decode members' := by
  match members, members' with
  | [], _ => rw [h.nil_eq]
  | [member], _ => rw [← List.perm_singleton.1 h.symm]
  | _ :: _ :: _, [] => exact absurd h.length_eq (by simp)
  | _ :: _ :: _, [_] => exact absurd h.length_eq (by simp)
  | _ :: _ :: _, _ :: _ :: _ => rfl

/-- The order of the members does not matter. -/
theorem Fields.decodeMembers_perm {σ ρ : Type} : (fields : Fields σ ρ) →
    {members members' : List (CodeUnits × Tree)} → members.Perm members' →
    fields.decodeMembers members = fields.decodeMembers members'
  | .nil, _, _, _ => rfl
  | .cons name value default rest, _, _, h => by
    rw [decodeMembers_cons, decodeMembers_cons, slotOf?_perm value.decode (h.filter _),
      decodeMembers_perm rest (h.filter _)]

/-- A member of another name does not count. -/
theorem Fields.decodeMembers_unknown {σ ρ : Type} : (fields : Fields σ ρ) → {key : CodeUnits} →
    (∀ name ∈ fields.names, textOf? key ≠ some name) → (content : Tree) →
    (members : List (CodeUnits × Tree)) →
    fields.decodeMembers ((key, content) :: members) = fields.decodeMembers members
  | .nil, _, _, _, _ => rfl
  | .cons name value default rest, key, h, content, members => by
    rw [Fields.names, List.forall_mem_cons] at h
    have hname : isNamed name (key, content) = false := isNamed_eq_false h.1
    rw [decodeMembers_cons, decodeMembers_cons, List.filter_cons_of_neg (by simp [hname]),
      List.filter_cons_of_pos (by simp [hname]), decodeMembers_unknown rest h.2]

/-- A member that spells the default of a field may be left out. -/
theorem Fields.Has.decodeMembers_spelled {fields : Fields σ ρ} {position : Nat} {name : String}
    {value : Schema α} {default : α} (h : fields.Has position name value (some default))
    {key : CodeUnits} (hkey : textOf? key = some name) {content : Tree}
    (hcontent : value.decode content = some default) {members : List (CodeUnits × Tree)}
    (hmembers : ∀ member ∈ members, textOf? member.1 ≠ some name) :
    fields.decodeMembers ((key, content) :: members) = fields.decodeMembers members := by
  -- members of the fields in front are filtered away on the way to this one
  generalize hdefault : some default = given at h
  induction h generalizing members with
  | @here _ _ _ name value given rest =>
    subst hdefault
    have hname : isNamed name (key, content) = true := by simp [isNamed, hkey]
    have hnone : members.filter (isNamed name) = [] :=
      List.filter_eq_nil_iff.2 fun member hmember => by simp [isNamed_eq_false (hmembers member hmember)]
    rw [decodeMembers_cons, decodeMembers_cons, List.filter_cons_of_pos hname,
      List.filter_cons_of_neg (by simp [hname]), hnone]
    simp [slotOf?, hcontent]
  | @there _ _ _ _ first name _ _ _ _ _ _ hne _ ih =>
    have hname : isNamed first (key, content) = false :=
      isNamed_eq_false fun hfirst => hne (Option.some.inj (hfirst.symm.trans hkey))
    rw [decodeMembers_cons, decodeMembers_cons, List.filter_cons_of_neg (by simp [hname]),
      List.filter_cons_of_pos (by simp [hname]), ih hkey hcontent
        (fun member hmember => hmembers member (List.mem_of_mem_filter hmember)) hdefault]

/-- Only the value of a field's content counts. -/
theorem Fields.Has.decodeMembers_congr {fields : Fields σ ρ} {position : Nat} {name : String}
    {value : Schema α} {default : Option α} (h : fields.Has position name value default)
    {key : CodeUnits} (hkey : textOf? key = some name) {content content' : Tree}
    (hcontent : value.decode content = value.decode content') (members : List (CodeUnits × Tree)) :
    fields.decodeMembers ((key, content) :: members)
      = fields.decodeMembers ((key, content') :: members) := by
  induction h generalizing members with
  | @here _ _ _ name =>
    have hname (content : Tree) : isNamed name (key, content) = true := by simp [isNamed, hkey]
    rw [decodeMembers_cons, decodeMembers_cons]
    simp only [List.filter_cons, hname, if_true, Bool.not_true, Bool.false_eq_true, if_false]
    cases members.filter (isNamed name) with
    | nil => rw [slotOf?, slotOf?, hcontent]
    -- two members of one name are refused, whatever their contents are
    | cons => rfl
  | @there _ _ _ _ first _ _ _ _ _ _ _ hne _ ih =>
    have hname (content : Tree) : isNamed first (key, content) = false :=
      isNamed_eq_false fun hfirst => hne (Option.some.inj (hfirst.symm.trans hkey))
    rw [decodeMembers_cons, decodeMembers_cons]
    simp only [List.filter_cons, hname, Bool.false_eq_true, if_false, Bool.not_false, if_true]
    rw [ih hkey hcontent]

/-- A default at the end of a list may be written out. -/
theorem Fields.Has.decodeList_spelled {fields : Fields σ ρ} {name : String} {value : Schema α}
    {default : α} {items : List Tree} (h : fields.Has items.length name value (some default))
    {content : Tree} (hcontent : value.decode content = some default) :
    fields.decodeList (items ++ [content]) = fields.decodeList items := by
  generalize hdefault : some default = given at h
  generalize hposition : items.length = position at h
  induction h generalizing items with
  | here =>
    subst hdefault
    obtain rfl := List.length_eq_zero_iff.1 hposition
    rw [List.nil_append, Fields.decodeList, Fields.decodeList, hcontent]
  | there _ _ ih =>
    obtain ⟨item, items, rfl⟩ := List.exists_cons_of_length_eq_add_one hposition
    rw [List.cons_append, Fields.decodeList, Fields.decodeList,
      ih hcontent hdefault (by simpa using hposition)]

/-- An item may be replaced by one with the same value. -/
theorem Fields.Has.decodeList_congr {fields : Fields σ ρ} {name : String} {value : Schema α}
    {default : Option α} {front : List Tree} (h : fields.Has front.length name value default)
    {item item' : Tree} (hitem : value.decode item = value.decode item') (behind : List Tree) :
    fields.decodeList (front ++ item :: behind) = fields.decodeList (front ++ item' :: behind) := by
  generalize hposition : front.length = position at h
  induction h generalizing front with
  | here =>
    obtain rfl := List.length_eq_zero_iff.1 hposition
    rw [List.nil_append, List.nil_append, Fields.decodeList, Fields.decodeList, hitem]
  | there _ _ ih =>
    obtain ⟨first, front, rfl⟩ := List.exists_cons_of_length_eq_add_one hposition
    rw [List.cons_append, List.cons_append, Fields.decodeList, Fields.decodeList,
      ih hitem (by simpa using hposition)]

/-- Alternatives of other names do not matter. -/
theorem Alternatives.decodeContent_dropTo (key : String) (content : Tree) :
    (alternatives : Alternatives α) →
      alternatives.decodeContent key content = (alternatives.dropTo key).decodeContent key content
  | .nil => rfl
  | .bare name value rest => by
    rw [dropTo, decodeContent]
    -- An alternative of this name is where the search stops; any other one is passed over.
    split
    · rename_i hname
      rw [decodeContent, if_pos hname]
    · exact decodeContent_dropTo key content rest
  | .holding name value make rest => by
    rw [dropTo, decodeContent]
    split
    · rename_i hname
      rw [decodeContent, if_pos hname]
    · exact decodeContent_dropTo key content rest
  | .tuple name title items make rest => by
    rw [dropTo, decodeContent]
    split
    · rename_i hname
      rw [decodeContent, if_pos hname]
    · exact decodeContent_dropTo key content rest
  | .record name title fields make rest => by
    rw [dropTo, decodeContent]
    split
    · rename_i hname
      rw [decodeContent, if_pos hname]
    · exact decodeContent_dropTo key content rest

/-- The content of an alternative around a value. -/
theorem Alternatives.decodeContent_holding {alternatives rest : Alternatives α} {key : String}
    {value : Schema β} {make : β → α} (h : alternatives.dropTo key = .holding key value make rest)
    (content : Tree) : alternatives.decodeContent key content = (value.decode content).map make := by
  rw [decodeContent_dropTo, h, decodeContent, if_pos rfl]

/-- The content of an alternative of named fields. -/
theorem Alternatives.decodeContent_record {alternatives rest : Alternatives α} {key title : String}
    {fields : Fields σ ρ} {make : ρ → α}
    (h : alternatives.dropTo key = .record key title fields make rest) (content : Tree) :
    alternatives.decodeContent key content = (Schema.record title fields make).decode content := by
  rw [decodeContent_dropTo, h, decodeContent, if_pos rfl, Schema.decode]

/-- The content of an alternative of listed fields. -/
theorem Alternatives.decodeContent_tuple {alternatives rest : Alternatives α} {key title : String}
    {items : Fields σ ρ} {make : ρ → α}
    (h : alternatives.dropTo key = .tuple key title items make rest) (values : List Tree) :
    alternatives.decodeContent key (.list values) = (items.decodeList values).map make := by
  rw [decodeContent_dropTo, h, decodeContent, if_pos rfl, Tree.fields?]

/-- A choice that is written as an object is decoded from its one member. -/
theorem decode_choice_object (alternatives : Alternatives α) {key : CodeUnits} {name : String}
    (hkey : textOf? key = some name) (content : Tree) :
    (Schema.choice alternatives).decode (.object [(key, content)])
      = alternatives.decodeContent name content := by
  rw [Schema.decode, Tree.alternative?, hkey, Option.bind_some]

/-- Nothing but `null` is formatted as `null`. -/
theorem Schema.Reformats.isNull_eq {schema : Schema α} {tree tree' : Tree}
    (h : schema.Reformats tree tree') : tree.isNull = tree'.isNull := by
  induction h with
  | symm _ ih => exact ih.symm
  | trans _ _ ih ih' => exact ih.trans ih'
  | optional _ ih | mapped _ ih => exact ih
  | _ => rfl

/-- Two documents that differ only in their formatting have the same value, or both have none. -/
theorem Schema.Reformats.decode_eq {schema : Schema α} {tree tree' : Tree}
    (h : schema.Reformats tree tree') : schema.decode tree = schema.decode tree' := by
  -- One case per way to reformat; inside of a document the equality is that of the parts.
  induction h with
  | refl => rfl
  | symm _ ih => exact ih.symm
  | trans _ _ ih ih' => exact ih.trans ih'
  | @reorder _ _ _ _ fields make _ _ hmembers =>
    exact congrArg (Option.map make) (fields.decodeMembers_perm hmembers)
  | @unknown _ _ _ _ fields make _ content members hkey =>
    exact congrArg (Option.map make) (fields.decodeMembers_unknown hkey content members).symm
  | @spelled _ _ _ _ _ _ _ make _ _ _ _ _ _ hfield hkey hmembers hcontent =>
    exact congrArg (Option.map make) (hfield.decodeMembers_spelled hkey hcontent hmembers).symm
  | @spelledLast _ _ _ _ _ _ _ make _ _ _ _ hfield hcontent =>
    exact congrArg (Option.map make) (hfield.decodeList_spelled hcontent).symm
  | @field _ _ _ _ _ _ _ make _ _ _ _ _ _ members hfield hkey _ ih =>
    exact congrArg (Option.map make) (hfield.decodeMembers_congr hkey ih members)
  | @fieldAt _ _ _ _ _ _ _ make _ _ _ _ _ behind hfield _ ih =>
    exact congrArg (Option.map make) (hfield.decodeList_congr ih behind)
  | element _ ih =>
    rw [Schema.decode, Schema.decode, Tree.items?, Tree.items?, Option.bind_some, Option.bind_some,
      List.mapM_append, List.mapM_append, List.mapM_cons, List.mapM_cons, ih]
  | optional hinner ih => rw [Schema.decode, Schema.decode, hinner.isNull_eq, ih]
  | mapped _ ih => rw [Schema.decode, Schema.decode, ih]
  | holding hdrop hkey _ ih =>
    rw [decode_choice_object _ hkey, decode_choice_object _ hkey,
      Alternatives.decodeContent_holding hdrop, Alternatives.decodeContent_holding hdrop, ih]
  | alternative hdrop hkey _ ih =>
    rw [decode_choice_object _ hkey, decode_choice_object _ hkey,
      Alternatives.decodeContent_record hdrop, Alternatives.decodeContent_record hdrop, ih]
  | tuple hdrop hkey hfield _ ih =>
    rw [decode_choice_object _ hkey, decode_choice_object _ hkey,
      Alternatives.decodeContent_tuple hdrop, Alternatives.decodeContent_tuple hdrop,
      hfield.decodeList_congr ih]

end HlsEmit.Json
