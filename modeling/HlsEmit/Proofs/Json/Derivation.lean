import HlsEmit.Proofs.Json.Consumed

/-!
# A document that is read is written in its text

Reading by a schema goes through a written form of one document, and what is read is the value of
that document. Records take their members as they come: the slots that are filled so far are those of
the members so far.

## Key results

- `Schema.read_derives`: the value that is read is the value of a document that is written there
- `Schema.parse_derives`: the same for a whole text
-/

namespace HlsEmit.Json

open Reader

variable {α β σ ρ : Type}

/-- What the reader returns is the value of a document that is written in front of what it leaves. -/
structure Reader.Derives (reader : Reader α) (decode : Tree → Option α) : Prop where
  written : ∀ {input rest : List Char} {value : α}, reader.run input = .ok (value, rest) →
    ∃ tree front, Gap input front ∧ Written tree front rest ∧ decode tree = some value

/-! ## Values without parts -/

/-- The report of a wrong value is no result. -/
theorem run_failExpecting_eq_ok {fuel : Nat} {expected : String} {text : List Char}
    {result : α × List Char} :
    (failExpecting fuel expected : Reader α).run text = .ok result ↔ False := by
  refine ⟨fun h => ?_, False.elim⟩
  rw [failExpecting, run_bind_eq_ok] at h
  obtain ⟨next, mid, -, h⟩ := h
  split at h
  case h_7 =>
    split at h <;> simp only [run_bind_eq_ok, run_mismatch_eq_ok, and_false, exists_false] at h
  all_goals simp only [run_bind_eq_ok, run_mismatch_eq_ok, and_false, exists_false] at h

/-- A number is written in front and converted. -/
theorem readNumberAs_derives (fuel : Nat) (expected : String)
    (convert : Number → Except DataFault α) :
    (readNumberAs fuel expected convert).Derives fun tree =>
      tree.number?.bind (readNumberAs 0 expected convert).whole? := by
  refine ⟨fun {input rest value} h => ?_⟩
  rw [readNumberAs, run_bind_eq_ok] at h
  obtain ⟨next, mid, hpeek, h⟩ := h
  obtain ⟨hgap, hhead⟩ := peekToken_consumed hpeek
  split at h
  · cases h
  · split at h
    · rw [run_bind_eq_ok] at h
      obtain ⟨number, _, hnumber, h⟩ := h
      obtain ⟨token, htoken, hmid, halone⟩ := readNumber_consumed hnumber
      split at h
      · rename_i converted hconvert
        rw [run_pure_eq_ok, Prod.mk.injEq] at h
        obtain ⟨rfl, rfl⟩ := h
        refine ⟨.number token, mid, hgap, .number htoken hmid, ?_⟩
        -- The conversion sees the number alone, so the same token read on its own has the same
        -- value.
        have hrun : (readNumberAs 0 expected convert).run ([] ++ (token ++ [])) = .ok (converted, []) :=
          readNumberAs_run blank_nil htoken.starts (by rwa [List.append_nil]) hconvert
        rw [List.nil_append, List.append_nil] at hrun
        show (readNumberAs 0 expected convert).whole? token = some converted
        rw [Reader.whole?, hrun]
      · cases h
    · rw [run_failExpecting_eq_ok] at h
      cases h

/-- A flag is one of two words. -/
theorem readFlag_derives (fuel : Nat) : (readFlag fuel).Derives Tree.bool? := by
  refine ⟨fun {input rest value} h => ?_⟩
  rw [readFlag, run_bind_eq_ok] at h
  obtain ⟨next, mid, hpeek, h⟩ := h
  obtain ⟨hgap, hhead⟩ := peekToken_consumed hpeek
  -- At the end of the text, the word for true, the word for false, or anything else.
  split at h
  · cases h
  · obtain ⟨mid, rfl⟩ := List.head?_eq_some_iff.1 hhead
    simp only [run_bind_eq_ok, run_drop, List.tail_cons, Except.ok.injEq, Prod.mk.injEq,
      run_pure_eq_ok] at h
    obtain ⟨_, _, ⟨-, rfl⟩, _, _, hword, rfl, rfl⟩ := h
    obtain rfl := readWord_consumed hword
    exact ⟨.bool true, _, hgap, .boolTrue, rfl⟩
  · obtain ⟨mid, rfl⟩ := List.head?_eq_some_iff.1 hhead
    simp only [run_bind_eq_ok, run_drop, List.tail_cons, Except.ok.injEq, Prod.mk.injEq,
      run_pure_eq_ok] at h
    obtain ⟨_, _, ⟨-, rfl⟩, _, _, hword, rfl, rfl⟩ := h
    obtain rfl := readWord_consumed hword
    exact ⟨.bool false, _, hgap, .boolFalse, rfl⟩
  · rw [run_failExpecting_eq_ok] at h
    cases h

/-- A text is quoted in front. -/
theorem readTextValue_derives (fuel : Nat) : (readTextValue fuel).Derives Tree.text? := by
  refine ⟨fun {input rest value} h => ?_⟩
  rw [readTextValue, run_bind_eq_ok] at h
  obtain ⟨next, mid, hpeek, h⟩ := h
  obtain ⟨hgap, hhead⟩ := peekToken_consumed hpeek
  split at h
  · cases h
  · obtain ⟨mid, rfl⟩ := List.head?_eq_some_iff.1 hhead
    obtain ⟨units, hunits, htext⟩ := readText_consumed h
    exact ⟨.text units, _, hgap, .text hunits, htext⟩
  · rw [run_failExpecting_eq_ok] at h
    cases h

/-- Nothing is the word for it. -/
theorem readNothing_derives (fuel : Nat) (value : α) :
    (do readNothing fuel; return value : Reader α).Derives fun tree =>
      if tree.isNull then some value else none := by
  refine ⟨fun {input rest value'} h => ?_⟩
  simp only [readNothing, bind_assoc] at h
  rw [run_bind_eq_ok] at h
  obtain ⟨next, mid, hpeek, h⟩ := h
  obtain ⟨hgap, hhead⟩ := peekToken_consumed hpeek
  rw [run_bind_eq_ok] at h
  obtain ⟨_, _, hword, h⟩ := h
  cases h
  -- At the end of the text, the word, or anything else.
  split at hword
  · cases hword
  · obtain ⟨mid, rfl⟩ := List.head?_eq_some_iff.1 hhead
    obtain rfl := readWord_consumed hword
    exact ⟨.null, _, hgap, .null, rfl⟩
  · rw [run_failExpecting_eq_ok] at hword
    cases hword

/-! ## Brackets -/

/-- Entering a level takes the opening bracket. -/
theorem enter_consumed {levels : Nat} {inside : Nat → Reader α} {c : Char} {text : List Char}
    {result : α × List Char} (h : (enter levels inside).run (c :: text) = .ok result) :
    ∃ levels, (inside levels).run text = .ok result := by
  cases levels with
  | zero => cases h
  | succ levels => exact ⟨levels, h⟩

/-- Another item follows its separator, or the list is closed. -/
theorem hasNextItem_consumed {first more : Bool} {input mid : List Char}
    (h : (hasNextItem first).run input = .ok (more, mid)) :
    (more = true ∧ Separator first input mid) ∨
      (more = false ∧ ∃ rest, mid = ']' :: rest ∧ Gap input mid) := by
  rw [hasNextItem, run_bind_eq_ok] at h
  obtain ⟨next, front, hpeek, h⟩ := h
  obtain ⟨hgap, hhead⟩ := peekToken_consumed hpeek
  -- At the end of the text, the closing bracket, the first item, or one behind a comma.
  split at h
  · cases h
  · obtain ⟨front, rfl⟩ := List.head?_eq_some_iff.1 hhead
    cases h
    exact .inr ⟨rfl, front, rfl, hgap⟩
  · split at h
    · cases h
      subst first
      exact .inl ⟨rfl, hgap⟩
    · split at h
      · obtain ⟨front, rfl⟩ := List.head?_eq_some_iff.1 hhead
        simp only [run_bind_eq_ok, run_drop, List.tail_cons, Except.ok.injEq, Prod.mk.injEq] at h
        obtain ⟨_, _, ⟨-, rfl⟩, next', behind, hpeek', h⟩ := h
        obtain ⟨hgap', -⟩ := peekToken_consumed hpeek'
        subst ‹_ = ','›
        split at h
        · cases h
        · cases h
        · cases h
          have hlater : first = false := by simpa using ‹¬first = true›
          subst hlater
          exact .inl ⟨rfl, front, hgap, hgap'⟩
      · cases h

/-- A list is closed by its bracket. -/
theorem closeList_consumed {input rest : List Char} (h : closeList.run input = .ok ((), rest)) :
    Gap input (']' :: rest) := by
  rw [closeList, run_bind_eq_ok] at h
  obtain ⟨next, mid, hpeek, h⟩ := h
  obtain ⟨hgap, hhead⟩ := peekToken_consumed hpeek
  split at h
  · cases h
  · obtain ⟨mid, rfl⟩ := List.head?_eq_some_iff.1 hhead
    cases h
    exact hgap
  · simp only [run_bind_eq_ok] at h
    obtain ⟨_, _, -, _, _, -, h⟩ := h
    split at h <;> cases h
  · cases h

/-- The items that are read are written in front and decode to the values. -/
theorem readItems_consumed {item : Reader α} {decode : Tree → Option α} (hitem : item.Derives decode)
    {fuel : Nat} {first : Bool} {input rest : List Char} {values : List α}
    (h : (readItems item fuel first).run input = .ok (values, rest)) :
    ∃ items, WrittenItems first items input rest ∧ items.mapM decode = some values := by
  -- the induction is on the fuel; whether a comma is needed changes behind the first item
  induction fuel generalizing first input values with
  | zero => cases h
  | succ fuel ih =>
    rw [readItems, run_bind_eq_ok] at h
    obtain ⟨more, mid, hmore, h⟩ := h
    obtain ⟨rfl, hlead⟩ | ⟨rfl, behind, rfl, hgap⟩ := hasNextItem_consumed hmore
    · simp only [if_true, run_bind_eq_ok, run_pure_eq_ok, Prod.mk.injEq] at h
      obtain ⟨value, mid', hvalue, values, _, hvalues, rfl, rfl⟩ := h
      obtain ⟨tree, front, hgap, hwritten, hdecode⟩ := hitem.written hvalue
      obtain ⟨items, hitems, hdecodes⟩ := ih hvalues
      refine ⟨tree :: items, .cons (hlead.trans hgap) hwritten hitems, ?_⟩
      rw [List.mapM_cons, hdecode, hdecodes]
      rfl
    · simp only [Bool.false_eq_true, if_false, run_bind_eq_ok, run_pure_eq_ok, Prod.mk.injEq] at h
      obtain ⟨_, _, hclose, rfl, rfl⟩ := h
      exact ⟨[], .nil (hgap.trans (closeList_consumed hclose)), rfl⟩

/-- Another key follows its separator, or the object is closed. -/
theorem hasNextKey_consumed {first more : Bool} {input mid : List Char}
    (h : (hasNextKey first).run input = .ok (more, mid)) :
    (more = true ∧ Separator first input ('"' :: mid)) ∨
      (more = false ∧ Gap input ('\x7d' :: mid)) := by
  rw [hasNextKey, run_bind_eq_ok] at h
  obtain ⟨next, front, hpeek, h⟩ := h
  obtain ⟨hgap, hhead⟩ := peekToken_consumed hpeek
  -- At the end of the text, the closing brace, the first key, or one behind a comma.
  split at h
  · cases h
  · obtain ⟨front, rfl⟩ := List.head?_eq_some_iff.1 hhead
    cases h
    exact .inr ⟨rfl, hgap⟩
  · obtain ⟨front, rfl⟩ := List.head?_eq_some_iff.1 hhead
    split at h
    · subst first
      split at h
      · cases h
        subst ‹_ = '"'›
        exact .inl ⟨rfl, hgap⟩
      · cases h
    · have hlater : first = false := by simpa using ‹¬first = true›
      subst hlater
      split at h
      · subst ‹_ = ','›
        simp only [run_bind_eq_ok, run_drop, List.tail_cons, Except.ok.injEq, Prod.mk.injEq] at h
        obtain ⟨_, _, ⟨-, rfl⟩, next', behind, hpeek', h⟩ := h
        obtain ⟨hgap', hhead'⟩ := peekToken_consumed hpeek'
        split at h
        · cases h
        · obtain ⟨behind, rfl⟩ := List.head?_eq_some_iff.1 hhead'
          cases h
          exact .inl ⟨rfl, front, hgap, hgap'⟩
        · cases h
        · cases h
      · cases h

/-- The name of an alternative is quoted in front. -/
theorem readAlternativeName_consumed {fuel : Nat} {name : String} {input rest : List Char}
    (h : (readAlternativeName fuel).run input = .ok (name, rest)) :
    ∃ quoted units, Gap input ('"' :: quoted) ∧ Quoted units quoted rest ∧ textOf? units = some name := by
  rw [readAlternativeName, run_bind_eq_ok] at h
  obtain ⟨next, mid, hpeek, h⟩ := h
  obtain ⟨hgap, hhead⟩ := peekToken_consumed hpeek
  split at h
  · cases h
  · obtain ⟨mid, rfl⟩ := List.head?_eq_some_iff.1 hhead
    obtain ⟨units, hunits, hname⟩ := readText_consumed h
    exact ⟨mid, units, hgap, hunits, hname⟩
  · cases h
  · cases h

/-- The same for the value of a member, with the colon in front of it. -/
structure Reader.DerivesContent (reader : Reader α) (decode : Tree → Option α) : Prop where
  written : ∀ {input rest : List Char} {value : α}, reader.run input = .ok (value, rest) →
    ∃ content, WrittenContent content input rest ∧ decode content = some value

/-- The content behind a colon. -/
theorem Reader.Derives.content {reader : Reader α} {decode : Tree → Option α}
    (hreader : reader.Derives decode) : (do readColon; reader : Reader α).DerivesContent decode := by
  refine ⟨fun {input rest value} h => ?_⟩
  rw [run_bind_eq_ok] at h
  obtain ⟨_, mid, hcolon, h⟩ := h
  obtain ⟨content, front, hgap, hwritten, hdecode⟩ := hreader.written h
  exact ⟨content, .colon (readColon_consumed hcolon) hgap hwritten, hdecode⟩

/-- A value that is made from another one. -/
theorem Reader.Derives.map {reader : Reader β} {decode : Tree → Option β}
    (hreader : reader.Derives decode) (make : β → α) :
    (do return make (← reader) : Reader α).Derives fun tree => (decode tree).map make := by
  refine ⟨fun {input rest value} h => ?_⟩
  simp only [run_bind_eq_ok, run_pure_eq_ok, Prod.mk.injEq] at h
  obtain ⟨value, _, hvalue, rfl, rfl⟩ := h
  obtain ⟨tree, front, hgap, hwritten, hdecode⟩ := hreader.written hvalue
  exact ⟨tree, front, hgap, hwritten, by rw [hdecode]; rfl⟩

/-- A skipped value is some document. -/
theorem skipValue_derives (fuel : Nat) : (skipValue fuel).Derives fun _ => some () := by
  refine ⟨fun {input rest value} h => ?_⟩
  obtain ⟨tree, front, hgap, hwritten⟩ := skipValue_consumed h
  exact ⟨tree, front, hgap, hwritten, rfl⟩

/-! ## Members -/

/-- The reader of a member, behind its key, puts the member into the slots: they are those of one
member more. -/
structure FillsSlots (member : String → σ → Reader σ)
    (collect : List (CodeUnits × Tree) → Option σ) : Prop where
  written : ∀ {key : String} {units : CodeUnits} {slots slots' : σ} {members : List (CodeUnits × Tree)}
    {input rest : List Char}, textOf? units = some key → collect members = some slots →
    (member key slots).run input = .ok (slots', rest) →
    ∃ content, WrittenContent content input rest ∧
      collect (members ++ [(units, content)]) = some slots'

/-- The members that are read are written in front and fill the slots. -/
theorem readMembers_consumed {member : String → σ → Reader σ}
    {collect : List (CodeUnits × Tree) → Option σ} (hmember : FillsSlots member collect)
    {textFuel fuel : Nat} {first : Bool} {slots slots' : σ} {done : List (CodeUnits × Tree)}
    {input rest : List Char} (hdone : collect done = some slots)
    (h : (readMembers textFuel member fuel first slots).run input = .ok (slots', rest)) :
    ∃ members, WrittenMembers first members input rest ∧
      collect (done ++ members) = some slots' := by
  -- the invariant is `hdone`: the slots are those of the members that were read already
  induction fuel generalizing first slots done input with
  | zero => cases h
  | succ fuel ih =>
    rw [readMembers, run_bind_eq_ok] at h
    obtain ⟨more, mid, hmore, h⟩ := h
    obtain ⟨rfl, hlead⟩ | ⟨rfl, hgap⟩ := hasNextKey_consumed hmore
    · simp only [if_true, run_bind_eq_ok] at h
      obtain ⟨key, colon, hkey, slots₁, behind, hvalue, h⟩ := h
      obtain ⟨units, hunits, htext⟩ := readText_consumed hkey
      obtain ⟨content, hcontent, hslots⟩ := hmember.written htext hdone hvalue
      obtain ⟨members, hmembers, hcollect⟩ := ih hslots h
      exact ⟨(units, content) :: members, .cons hlead hunits hcontent hmembers, by
        rwa [List.append_assoc, List.singleton_append] at hcollect⟩
    · simp only [Bool.false_eq_true, if_false, run_pure_eq_ok, Prod.mk.injEq] at h
      obtain ⟨rfl, rfl⟩ := h
      exact ⟨[], .nil hgap, by rwa [List.append_nil]⟩

/-- A field without a value has no member yet. -/
theorem slotOf?_eq_none {decode : Tree → Option α} {members : List (CodeUnits × Tree)}
    (h : slotOf? decode members = some none) : members = [] := by
  match members with
  | [] => rfl
  | [(_, content)] => simp [slotOf?] at h
  | _ :: _ :: _ => cases h

/-- No field fills no slot. -/
theorem fillsSlots_nil (fuel levels : Nat) :
    FillsSlots (Fields.nil.readMember fuel levels) Fields.nil.collect := by
  refine ⟨fun {key units slots slots' members input rest} _ _ h => ?_⟩
  rw [Fields.readMember, ← bind_assoc, run_bind_eq_ok] at h
  obtain ⟨_, _, hskip, h⟩ := h
  cases h
  obtain ⟨content, hcontent, -⟩ := (skipValue_derives fuel).content.written hskip
  exact ⟨content, hcontent, rfl⟩

/-- The first field fills its slot, the others fill theirs. -/
theorem fillsSlots_cons {name : String} {value : Schema α} {default : Option α} {others : Fields σ ρ}
    {fuel levels : Nat} (hvalue : (value.read fuel levels).Derives value.decode)
    (hothers : FillsSlots (others.readMember fuel levels) others.collect) :
    FillsSlots ((Fields.cons name value default others).readMember fuel levels)
      (Fields.cons name value default others).collect := by
  refine ⟨fun {key units slots slots' members input rest} hkey hmembers h => ?_⟩
  obtain ⟨slot, slots⟩ := slots
  rw [Fields.collect] at hmembers
  obtain ⟨slot', hslot, hmembers⟩ := Option.bind_eq_some_iff.1 hmembers
  obtain ⟨slots'', hslots, hmembers⟩ := Option.bind_eq_some_iff.1 hmembers
  cases hmembers
  rw [Fields.readMember] at h
  split at h
  · subst name
    split at h
    · simp only [run_bind_eq_ok, run_mismatch_eq_ok, false_and, exists_false] at h
    · -- the field has no value yet, so no member before was named for it
      rename_i hfree
      obtain rfl : slot = none := by simpa using hfree
      obtain ⟨filled, hcontent, rfl⟩ : ∃ filled, (do readColon; value.read fuel levels :
          Reader α).run input = .ok (filled, rest) ∧ (some filled, slots) = slots' := by
        simp only [run_bind_eq_ok, run_pure_eq_ok, Prod.mk.injEq] at h ⊢
        obtain ⟨_, _, hcolon, filled, _, hfilled, hslots', rfl⟩ := h
        exact ⟨filled, ⟨_, _, hcolon, hfilled⟩, hslots'⟩
      obtain ⟨content, hcontent, hdecode⟩ := hvalue.content.written hcontent
      refine ⟨content, hcontent, ?_⟩
      have hname : isNamed key (units, content) = true := by simp [isNamed, hkey]
      have hsame : (members ++ [(units, content)]).filter (isNamed key) = [(units, content)] := by
        rw [List.filter_append, slotOf?_eq_none hslot]
        simp [hname]
      have hothers : (members ++ [(units, content)]).filter (fun member => !isNamed key member)
          = members.filter fun member => !isNamed key member := by
        simp [List.filter_append, hname]
      rw [Fields.collect, hsame, hothers, slotOf?, hdecode, hslots]
      rfl
  · -- the member is for one of the other fields, or for none
    rename_i hne
    simp only [run_bind_eq_ok, run_pure_eq_ok, Prod.mk.injEq] at h
    obtain ⟨slots₁, _, hmember, rfl, rfl⟩ := h
    obtain ⟨content, hcontent, hcollect⟩ := hothers.written hkey hslots hmember
    refine ⟨content, hcontent, ?_⟩
    have hname : isNamed name (units, content) = false :=
      isNamed_eq_false fun hname => hne (Option.some.inj (hname.symm.trans hkey))
    have hsame : (members ++ [(units, content)]).filter (isNamed name)
        = members.filter (isNamed name) := by
      simp [List.filter_append, hname]
    have hothers : (members ++ [(units, content)]).filter (fun member => !isNamed name member)
        = members.filter (fun member => !isNamed name member) ++ [(units, content)] := by
      simp [List.filter_append, hname]
    rw [Fields.collect, hsame, hothers, hslot, hcollect]
    rfl

/-! ## Fields as a list -/

/-- The reader of fields in their order takes items whose values are those of the fields, and leaves
the closing bracket. -/
structure TakesItems (reader : (position : Nat) → Reader ρ) (decode : List Tree → Option ρ) :
    Prop where
  written : ∀ {position : Nat} {input rest : List Char} {values : ρ},
    (reader position).run input = .ok (values, rest) →
    ∃ items, decode items = some values ∧ ∀ {final : List Char}, Gap rest (']' :: final) →
      WrittenItems (position = 0) items input final

/-- No field takes no item. -/
theorem takesItems_nil (fuel levels : Nat) (expected : String) :
    TakesItems (Fields.nil.readList fuel levels expected) Fields.nil.decodeList := by
  refine ⟨fun {position input rest values} h => ?_⟩
  rw [Fields.readList, run_pure_eq_ok, Prod.mk.injEq] at h
  obtain ⟨rfl, rfl⟩ := h
  exact ⟨[], rfl, fun hgap => .nil hgap⟩

/-- At the closing bracket all remaining fields have their defaults. -/
theorem Fields.readList_closed {σ ρ : Type} {fuel levels : Nat} {expected : String} :
    (fields : Fields σ ρ) → {position : Nat} → {behind rest : List Char} → {values : ρ} →
    (fields.readList fuel levels expected (position + 1)).run (']' :: behind) = .ok (values, rest) →
    fields.decodeList [] = some values ∧ rest = ']' :: behind
  | .nil, _, _, _, _, h => by
    rw [readList, run_pure_eq_ok, Prod.mk.injEq] at h
    exact ⟨by rw [decodeList], h.2.symm⟩
  | .cons name value default others, position, behind, rest, values, h => by
    -- The list ends here, so the field must have a default.
    have hend := hasNextItem_run_end blank_nil (position + 1 = 0) behind
    rw [List.nil_append] at hend
    rw [readList, run_bind_ok hend] at h
    cases default with
    | none =>
      simp only [Bool.false_eq_true, if_false, run_bind_eq_ok, run_mismatch_eq_ok, false_and,
        exists_false] at h
    | some given =>
      simp only [Bool.false_eq_true, if_false, run_bind_eq_ok, run_pure_eq_ok, Prod.mk.injEq] at h
      obtain ⟨_, _, ⟨rfl, rfl⟩, values, _, hvalues, rfl, rfl⟩ := h
      obtain ⟨hdecode, rfl⟩ := readList_closed others hvalues
      refine ⟨?_, rfl⟩
      rw [decodeList, hdecode]
      rfl

/-- The first field takes the first item, the others take the rest. -/
theorem takesItems_cons {name : String} {value : Schema α} {default : Option α} {others : Fields σ ρ}
    {fuel levels : Nat} {expected : String} (hvalue : (value.read fuel levels).Derives value.decode)
    (hothers : TakesItems (others.readList fuel levels expected) others.decodeList) :
    TakesItems ((Fields.cons name value default others).readList fuel levels expected)
      (Fields.cons name value default others).decodeList := by
  refine ⟨fun {position input rest values} h => ?_⟩
  rw [Fields.readList, run_bind_eq_ok] at h
  obtain ⟨more, mid, hmore, h⟩ := h
  obtain ⟨rfl, hlead⟩ | ⟨rfl, behind, rfl, hgap⟩ := hasNextItem_consumed hmore
  · simp only [if_true, run_bind_eq_ok, run_pure_eq_ok, Prod.mk.injEq] at h
    obtain ⟨here, mid', hhere, values, _, hvalues, rfl, rfl⟩ := h
    obtain ⟨item, front, hgap, hitem, hdecode⟩ := hvalue.written hhere
    obtain ⟨items, hdecodes, hitems⟩ := hothers.written hvalues
    refine ⟨item :: items, ?_, fun hfinal => .cons (hlead.trans hgap) hitem (hitems hfinal)⟩
    rw [Fields.decodeList, hdecode, hdecodes]
    rfl
  · -- the list ends here, so this field and all behind it have their defaults
    cases default with
    | none =>
      simp only [Bool.false_eq_true, if_false, run_bind_eq_ok, run_mismatch_eq_ok, false_and,
        exists_false] at h
    | some given =>
      simp only [Bool.false_eq_true, if_false, run_bind_eq_ok, run_pure_eq_ok, Prod.mk.injEq] at h
      obtain ⟨_, _, ⟨rfl, rfl⟩, values, _, hvalues, rfl, rfl⟩ := h
      obtain ⟨hdecode, rfl⟩ := Fields.readList_closed others hvalues
      refine ⟨[], ?_, fun hfinal => .nil (hgap.trans hfinal)⟩
      rw [Fields.decodeList, hdecode]
      rfl

/-- The fields as a list, with its closing bracket. -/
theorem TakesItems.closed {reader : Nat → Reader ρ} {decode : List Tree → Option ρ}
    (hreader : TakesItems reader decode) {make : ρ → α} {input rest : List Char} {value : α}
    (h : (do
      let values ← reader 0
      closeList
      return make values : Reader α).run input = .ok (value, rest)) :
    ∃ items, WrittenItems true items input rest ∧ (decode items).map make = some value := by
  simp only [run_bind_eq_ok, run_pure_eq_ok, Prod.mk.injEq] at h
  obtain ⟨values, mid, hvalues, _, _, hclose, rfl, rfl⟩ := h
  obtain ⟨items, hdecode, hitems⟩ := hreader.written hvalues
  exact ⟨items, hitems (closeList_consumed hclose), by rw [hdecode]; rfl⟩

/-- Without members no slot is filled. -/
theorem fields_collect_nil {σ ρ : Type} :
    (fields : Fields σ ρ) → fields.collect [] = some fields.noValues
  | .nil => rfl
  | .cons _ _ _ others => by
    rw [Fields.collect, List.filter_nil, List.filter_nil, fields_collect_nil others, slotOf?,
      Fields.noValues]
    rfl

/-! ## Records -/

/-- A record is written as a list or as an object. -/
theorem record_derives (title : String) {fields : Fields σ ρ} (make : ρ → α) {fuel : Nat}
    (hmembers : ∀ levels, FillsSlots (fields.readMember fuel levels) fields.collect)
    (hitems : ∀ levels expected, TakesItems (fields.readList fuel levels expected) fields.decodeList)
    (levels : Nat) : ((Schema.record title fields make).read fuel levels).Derives
      (Schema.record title fields make).decode := by
  refine ⟨fun {input rest value} h => ?_⟩
  rw [Schema.read, run_bind_eq_ok] at h
  obtain ⟨next, mid, hpeek, h⟩ := h
  obtain ⟨hgap, hhead⟩ := peekToken_consumed hpeek
  -- At the end of the text, a list of the fields in order, an object of named fields, or anything
  -- else.
  split at h
  · cases h
  · obtain ⟨mid, rfl⟩ := List.head?_eq_some_iff.1 hhead
    obtain ⟨levels, h⟩ := enter_consumed h
    obtain ⟨items, hwritten, hdecode⟩ := (hitems _ _).closed h
    exact ⟨.list items, _, hgap, .list hwritten, by rwa [Schema.decode]⟩
  · obtain ⟨mid, rfl⟩ := List.head?_eq_some_iff.1 hhead
    obtain ⟨levels, h⟩ := enter_consumed h
    simp only [run_bind_eq_ok, run_lift_eq_ok, run_pure_eq_ok, Prod.mk.injEq] at h
    obtain ⟨slots, _, hslots, values, _, ⟨hcomplete, rfl⟩, rfl, rfl⟩ := h
    obtain ⟨members, hwritten, hcollect⟩ :=
      readMembers_consumed (hmembers levels) (fields_collect_nil fields) hslots
    refine ⟨.object members, _, hgap, .object hwritten, ?_⟩
    rw [List.nil_append] at hcollect
    rw [Schema.decode, Tree.fields?, hcollect, Option.bind_some, Fields.complete?, hcomplete]
    rfl
  · rw [run_failExpecting_eq_ok] at h
    cases h

/-! ## Choices -/

/-- A bare alternative is found by its name and takes nothing more of the text. -/
theorem Alternatives.readBare_consumed {known : List String} {key : String} {input rest : List Char}
    {value : α} : (alternatives : Alternatives α) →
    (alternatives.readBare known key).run input = .ok (value, rest) →
    alternatives.decodeBare key = some value ∧ rest = input
  | .nil, h => by cases h
  | .bare name value' others, h => by
    -- The name is that of this alternative or is looked for among the others.
    rw [readBare] at h
    rw [decodeBare]
    split at h
    · cases h
      exact ⟨if_pos ‹_›, rfl⟩
    · rw [if_neg ‹_›]
      exact readBare_consumed others h
  | .holding name content make others, h => by
    rw [readBare] at h
    rw [decodeBare]
    split at h
    · cases h
    · rw [if_neg ‹_›]
      exact readBare_consumed others h
  | .tuple name title items make others, h => by
    rw [readBare] at h
    rw [decodeBare]
    split at h
    · cases h
    · rw [if_neg ‹_›]
      exact readBare_consumed others h
  | .record name title fields make others, h => by
    rw [readBare] at h
    rw [decodeBare]
    split at h
    · cases h
    · rw [if_neg ‹_›]
      exact readBare_consumed others h

/-- A choice is written as a name, or as an object with a name and a content. -/
theorem choice_derives {alternatives : Alternatives α} {fuel : Nat}
    (hcontent : ∀ levels known key, (alternatives.readContent fuel levels known key).DerivesContent
      (alternatives.decodeContent key)) (levels : Nat) :
    ((Schema.choice alternatives).read fuel levels).Derives (Schema.choice alternatives).decode := by
  refine ⟨fun {input rest value} h => ?_⟩
  rw [Schema.read, run_bind_eq_ok] at h
  obtain ⟨next, mid, hpeek, h⟩ := h
  obtain ⟨hgap, hhead⟩ := peekToken_consumed hpeek
  -- At the end of the text, a bare name, an object of one member, or anything else.
  split at h
  · cases h
  · obtain ⟨mid, rfl⟩ := List.head?_eq_some_iff.1 hhead
    simp only [run_bind_eq_ok, run_drop, List.tail_cons, Except.ok.injEq, Prod.mk.injEq] at h
    obtain ⟨_, _, ⟨-, rfl⟩, key, mid', htext, hbare⟩ := h
    obtain ⟨units, hunits, hkey⟩ := readText_consumed htext
    obtain ⟨hvalue, rfl⟩ := alternatives.readBare_consumed hbare
    refine ⟨.text units, _, hgap, .text hunits, ?_⟩
    rw [Schema.decode, Tree.alternative?, hkey, Option.bind_some, hvalue]
  · obtain ⟨mid, rfl⟩ := List.head?_eq_some_iff.1 hhead
    obtain ⟨levels, h⟩ := enter_consumed h
    simp only [run_bind_eq_ok] at h
    obtain ⟨name, colon, hname, value', behind, hvalue, next', final, hpeek', h⟩ := h
    obtain ⟨quoted, key, hquote, hquoted, hkey⟩ := readAlternativeName_consumed hname
    obtain ⟨content, hwritten, hdecode⟩ := (hcontent _ _ _).written hvalue
    obtain ⟨hgap', hhead'⟩ := peekToken_consumed hpeek'
    split at h
    · cases h
    · obtain ⟨final, rfl⟩ := List.head?_eq_some_iff.1 hhead'
      cases h
      refine ⟨.object [(key, content)], _, hgap,
        .object (.cons hquote hquoted hwritten (.nil hgap')), ?_⟩
      rw [decode_choice_object alternatives hkey, hdecode]
    · cases h
  · cases h

/-- An alternative with listed fields. -/
theorem tuple_derives {title : String} {items : Fields σ ρ} {fuel : Nat} {make : ρ → α}
    (hitems : ∀ levels expected, TakesItems (items.readList fuel levels expected) items.decodeList)
    (levels : Nat) : (do
      match ← peekToken with
      | none => flaw .endInValue
      | some '[' => enter levels fun levels => do
        let values ← items.readList fuel levels (titleWithLength title items.length) 0
        closeList
        return make values
      | some _ => failExpecting fuel title : Reader α).Derives
      fun content => (content.fields? items.decodeList fun _ => none).map make := by
  refine ⟨fun {input rest value} h => ?_⟩
  rw [run_bind_eq_ok] at h
  obtain ⟨next, mid, hpeek, h⟩ := h
  obtain ⟨hgap, hhead⟩ := peekToken_consumed hpeek
  -- At the end of the text, a list of the fields in order, or anything else.
  split at h
  · cases h
  · obtain ⟨mid, rfl⟩ := List.head?_eq_some_iff.1 hhead
    obtain ⟨levels, h⟩ := enter_consumed h
    obtain ⟨items, hwritten, hdecode⟩ := (hitems _ _).closed h
    exact ⟨.list items, _, hgap, .list hwritten, hdecode⟩
  · rw [run_failExpecting_eq_ok] at h
    cases h

/-- The alternative of this name, or another one. -/
theorem derivesContent_ite (name key : String) {reader reader' : Reader α}
    {decode decode' : Tree → Option α} (hreader : reader.DerivesContent decode)
    (hreader' : reader'.DerivesContent decode') :
    (if name = key then reader else reader').DerivesContent fun content =>
      if name = key then decode content else decode' content := by
  split
  · exact hreader
  · exact hreader'

/-! ## Optional values and lists -/

/-- An optional value is nothing or the value. -/
theorem optional_derives {schema : Schema α} {fuel levels : Nat}
    (hschema : (schema.read fuel levels).Derives schema.decode) :
    ((Schema.optional schema).read fuel levels).Derives (Schema.optional schema).decode := by
  refine ⟨fun {input rest value} h => ?_⟩
  rw [Schema.read, run_bind_eq_ok] at h
  obtain ⟨next, mid, hpeek, h⟩ := h
  obtain ⟨hgap, hhead⟩ := peekToken_consumed hpeek
  split at h
  · rename_i hnull
    obtain ⟨mid, rfl⟩ := List.head?_eq_some_iff.1 (hhead.trans hnull)
    simp only [run_bind_eq_ok, run_drop, List.tail_cons, Except.ok.injEq, Prod.mk.injEq,
      run_pure_eq_ok] at h
    obtain ⟨_, _, ⟨-, rfl⟩, _, _, hword, rfl, rfl⟩ := h
    obtain rfl := readWord_consumed hword
    exact ⟨.null, _, hgap, .null, rfl⟩
  · rename_i hnull
    simp only [run_bind_eq_ok, run_pure_eq_ok, Prod.mk.injEq] at h
    obtain ⟨value, _, hvalue, rfl, rfl⟩ := h
    obtain ⟨tree, front, hgap', hwritten, hdecode⟩ := hschema.written hvalue
    -- what is written here is not `null`, since the reader looked for that first
    have hsome : tree.isNull = false := by
      cases hwritten with
      | null =>
        obtain ⟨gap, hblank, rfl⟩ := hgap.trans hgap'
        rw [peekToken_run hblank (by decide)] at hpeek
        cases hpeek
        exact absurd rfl hnull
      | _ => rfl
    refine ⟨tree, front, hgap.trans hgap', hwritten, ?_⟩
    rw [Schema.decode, hsome, hdecode]
    rfl

/-- A list of items. -/
theorem list_derives {item : Schema α} {fuel : Nat}
    (hitem : ∀ levels, (item.read fuel levels).Derives item.decode) (levels : Nat) :
    ((Schema.list item).read fuel levels).Derives (Schema.list item).decode := by
  refine ⟨fun {input rest value} h => ?_⟩
  rw [Schema.read, run_bind_eq_ok] at h
  obtain ⟨next, mid, hpeek, h⟩ := h
  obtain ⟨hgap, hhead⟩ := peekToken_consumed hpeek
  split at h
  · cases h
  · obtain ⟨mid, rfl⟩ := List.head?_eq_some_iff.1 hhead
    obtain ⟨levels, h⟩ := enter_consumed h
    obtain ⟨items, hwritten, hdecode⟩ := readItems_consumed (hitem levels) h
    exact ⟨.list items, _, hgap, .list hwritten, by rwa [Schema.decode]⟩
  · rw [run_failExpecting_eq_ok] at h
    cases h

/-! ## All schemas -/

mutual

/-- What is read by a schema is the value of a document that is written there. -/
theorem Schema.read_derives {α : Type} (fuel : Nat) : (schema : Schema α) → (levels : Nat) →
    (schema.read fuel levels).Derives schema.decode
  | .flag, _ => readFlag_derives fuel
  | .int64, _ => readNumberAs_derives fuel _ _
  | .uint32, _ => readNumberAs_derives fuel _ _
  | .real, _ => readNumberAs_derives fuel _ _
  | .text, _ => readTextValue_derives fuel
  | .optional value, levels => optional_derives (value.read_derives fuel levels)
  | .list item, levels => list_derives (item.read_derives fuel) levels
  | .record title fields make, levels =>
    record_derives title make (fields.readMember_derives fuel) (fields.readList_derives fuel) levels
  | .choice alternatives, levels => choice_derives (alternatives.readContent_derives fuel) levels
  | .mapped make as, levels => (as.read_derives fuel levels).map make
  | .beyondLimit, _ => ⟨fun h => by cases h⟩
termination_by structural schema => schema

/-- The members of a record fill its slots. -/
theorem Fields.readMember_derives {σ ρ : Type} (fuel : Nat) : (fields : Fields σ ρ) →
    (levels : Nat) → FillsSlots (fields.readMember fuel levels) fields.collect
  | .nil, levels => fillsSlots_nil fuel levels
  | .cons _ value _ rest, levels =>
    fillsSlots_cons (value.read_derives fuel levels) (rest.readMember_derives fuel levels)
termination_by structural fields => fields

/-- The items of a record are its fields in order. -/
theorem Fields.readList_derives {σ ρ : Type} (fuel : Nat) : (fields : Fields σ ρ) →
    (levels : Nat) → (expected : String) →
    TakesItems (fields.readList fuel levels expected) fields.decodeList
  | .nil, levels, expected => takesItems_nil fuel levels expected
  | .cons _ value _ rest, levels, expected =>
    takesItems_cons (value.read_derives fuel levels) (rest.readList_derives fuel levels expected)
termination_by structural fields => fields

/-- The content of an alternative is decoded by its name. -/
theorem Alternatives.readContent_derives {α : Type} (fuel : Nat) : (alternatives : Alternatives α) →
    (levels : Nat) → (known : List String) → (key : String) →
    (alternatives.readContent fuel levels known key).DerivesContent (alternatives.decodeContent key)
  | .nil, _, _, _ => ⟨fun h => by cases h⟩
  | .bare name value rest, levels, known, key =>
    derivesContent_ite name key (readNothing_derives fuel value).content
      (rest.readContent_derives fuel levels known key)
  | .holding name content make rest, levels, known, key =>
    derivesContent_ite name key ((content.read_derives fuel levels).map make).content
      (rest.readContent_derives fuel levels known key)
  | .tuple name _ items _ rest, levels, known, key =>
    derivesContent_ite name key (tuple_derives (items.readList_derives fuel) levels).content
      (rest.readContent_derives fuel levels known key)
  | .record name title fields make rest, levels, known, key =>
    derivesContent_ite name key (record_derives title make
      (fields.readMember_derives fuel) (fields.readList_derives fuel) levels).content
      (rest.readContent_derives fuel levels known key)
termination_by structural alternatives => alternatives

end

/-! ## Whole texts -/

/-- Only blanks stand behind the document. -/
theorem readEnd_consumed {input rest : List Char} (h : readEnd.run input = .ok ((), rest)) :
    Blank input := by
  simp only [readEnd, run_bind_eq_ok] at h
  obtain ⟨next, mid, hpeek, h⟩ := h
  obtain ⟨⟨gap, hgap, rfl⟩, hhead⟩ := peekToken_consumed hpeek
  split at h
  · cases h
  · rename_i hnone
    cases mid with
    | nil => rwa [List.append_nil]
    | cons => exact absurd (hhead ▸ rfl) hnone

/-- A text that is accepted is a written form of a document with the value that is read. -/
theorem Schema.parse_derives {schema : Schema α} {source : String} {value : α}
    (h : schema.parse source = .ok value) :
    ∃ tree : Tree, tree.WrittenAs source ∧ schema.decode tree = some value := by
  rw [Schema.parse] at h
  generalize hread : StateT.run _ source.toList = result at h
  cases result with
  | error => cases h
  | ok result =>
    obtain ⟨value, rest⟩ := result
    cases h
    simp only [run_bind_eq_ok, run_pure_eq_ok, Prod.mk.injEq] at hread
    obtain ⟨value, mid, hvalue, _, _, hend, rfl, rfl⟩ := hread
    obtain ⟨tree, front, hgap, hwritten, hdecode⟩ := (schema.read_derives _ _).written hvalue
    exact ⟨tree, ⟨front, mid, hgap, hwritten, readEnd_consumed hend⟩, hdecode⟩

end HlsEmit.Json
