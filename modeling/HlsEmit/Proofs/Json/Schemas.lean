import HlsEmit.Proofs.Json.Number

/-!
# Reading by a schema inverts writing

`Schema.Reads schema j value` says that the schema reads every spelling of the document `j` as
`value`, whatever follows it. The schemas of lists, records and choices inherit this from their parts,
so a schema is right for a type once the documents of the type match it piece by piece.

The fuel is the length of a text that contains the spelling, and as many brackets may be opened as are
nested in the document.

## Key results

- `reads_list`, `reads_optional`, `reads_record`: composite schemas
- `reads_bare`, `reads_holding`, `reads_tuple`, `reads_alternative`: the alternatives of a choice
- `Schema.Reads.parse`: a whole text
-/

namespace HlsEmit.Json

open Reader

variable {α β σ ρ : Type}

/-- The schema reads every spelling of the document as the value. -/
structure Schema.Reads (schema : Schema α) (j : Json) (value : α) : Prop where
  run : ∀ {text gap rest : List Char} {fuel levels : Nat}, Spells j text → Blank gap →
    text.length ≤ fuel → j.depth ≤ levels → Ends rest →
    (schema.read fuel levels).run (gap ++ (text ++ rest)) = .ok (value, rest)

/-! ## First characters -/

instance (c : Char) : Decidable (StartsNumber c) :=
  inferInstanceAs (Decidable (_ ∨ _))

/-- What starts a number is no other character. -/
theorem StartsNumber.ne {c d : Char} (hc : StartsNumber c) (hd : ¬ StartsNumber d) : c ≠ d :=
  fun heq => hd (heq ▸ hc)

/-- What starts a number is not blank. -/
theorem StartsNumber.not_blank {c : Char} (hc : StartsNumber c) : isBlank c = false := by
  have h1 := hc.ne (d := ' ') (by decide)
  have h2 := hc.ne (d := '\n') (by decide)
  have h3 := hc.ne (d := '\t') (by decide)
  have h4 := hc.ne (d := '\r') (by decide)
  simp [isBlank, h1, h2, h3, h4]

/-- A spelling starts with a character that is neither blank nor closes or separates anything. -/
structure Opens (c : Char) : Prop where
  not_blank : isBlank c = false
  not_close : c ≠ ']'
  not_comma : c ≠ ','

/-- A document starts with a character that neither separates nor closes. -/
theorem Spells.opens {j : Json} {text : List Char} (h : Spells j text) :
    ∃ c cs, text = c :: cs ∧ Opens c := by
  have hnumber {c : Char} (hc : StartsNumber c) : Opens c :=
    ⟨hc.not_blank, hc.ne (by decide), hc.ne (by decide)⟩
  have hchar {c : Char} (hc : (isBlank c = false ∧ c ≠ ']') ∧ c ≠ ',') : Opens c :=
    ⟨hc.1.1, hc.1.2, hc.2⟩
  -- On the form of the document; an infinite number is spelled as nothing.
  cases h with
  | null => exact ⟨'n', _, rfl, hchar (by decide)⟩
  | boolTrue => exact ⟨'t', _, rfl, hchar (by decide)⟩
  | boolFalse => exact ⟨'f', _, rfl, hchar (by decide)⟩
  | integer n =>
    obtain ⟨c, cs, htext, hc⟩ := integerChars_starts n
    exact ⟨c, cs, htext, hnumber hc⟩
  | real x =>
    by_cases hfinite : x.isFinite = true
    · obtain ⟨c, cs, htext, hc⟩ := realChars_starts hfinite
      exact ⟨c, cs, htext, hnumber hc⟩
    · rw [realChars, if_neg hfinite]
      exact ⟨'n', _, rfl, hchar (by decide)⟩
  | text s => exact ⟨'"', _, rfl, hchar (by decide)⟩
  | list => exact ⟨'[', _, rfl, hchar (by decide)⟩
  | object => exact ⟨'\x7b', _, rfl, hchar (by decide)⟩

/-- Blanks, commas and closing brackets end a number. -/
theorem ends_cons {c : Char} {rest : List Char}
    (hc : (isDigit c = false ∧ c ≠ '.') ∧ c ≠ 'e' ∧ c ≠ 'E') : Ends (c :: rest) := fun d hd => by
  obtain rfl : c = d := by simpa using hd
  exact ⟨hc.1.1, hc.1.2, hc.2.1, hc.2.2⟩

/-- Blanks in front of an end are an end. -/
theorem Blank.ends {gap rest : List Char} (hgap : Blank gap) (hrest : Ends rest) :
    Ends (gap ++ rest) := by
  cases gap with
  | nil => exact hrest
  | cons c gap =>
    have hblank := hgap c (by simp)
    simp only [isBlank, Bool.or_eq_true, decide_eq_true_eq] at hblank
    rcases hblank with ((rfl | rfl) | rfl) | rfl <;> exact ends_cons (by decide)

/-- What stands behind an item ends a number in it. -/
theorem SpellsItems.ends {items : List Json} {text : List Char} (h : SpellsItems false items text)
    (rest : List Char) : Ends (text ++ ']' :: rest) := by
  cases h with
  | nil hgap => exact hgap.ends (ends_cons (by decide))
  | cons hlead _ _ =>
    cases hlead with
    | comma hgap _ =>
      simp only [List.append_assoc, List.cons_append]
      exact hgap.ends (ends_cons (by decide))

/-- What stands behind a member ends a number in it. -/
theorem SpellsMembers.ends {members : List (String × Json)} {text : List Char}
    (h : SpellsMembers false members text) (rest : List Char) : Ends (text ++ '\x7d' :: rest) := by
  cases h with
  | nil hgap => exact hgap.ends (ends_cons (by decide))
  | cons hlead _ _ =>
    cases hlead with
    | comma hgap _ =>
      simp only [List.append_assoc, List.cons_append]
      exact hgap.ends (ends_cons (by decide))

/-! ## Values without parts -/

/-- A flag is read back. -/
theorem reads_flag (value : Bool) : Schema.flag.Reads (.bool value) value := by
  refine ⟨fun {text gap rest fuel levels} hspell hgap _ _ _ => ?_⟩
  show (readFlag fuel).run _ = _
  rw [readFlag]
  cases hspell with
  | boolTrue =>
    rw [show "true".toList ++ rest = 't' :: (['r', 'u', 'e'] ++ rest) from rfl,
      run_bind_ok (peekToken_run hgap (by decide) _)]
    show (drop >>= _ : Reader Bool).run _ = _
    rw [run_bind_ok (run_drop _), List.tail_cons, run_bind_ok (readWord_run _ rest)]
    rfl
  | boolFalse =>
    rw [show "false".toList ++ rest = 'f' :: (['a', 'l', 's', 'e'] ++ rest) from rfl,
      run_bind_ok (peekToken_run hgap (by decide) _)]
    show (drop >>= _ : Reader Bool).run _ = _
    rw [run_bind_ok (run_drop _), List.tail_cons, run_bind_ok (readWord_run _ rest)]
    rfl

/-- A number that is read and fits the type is converted. -/
theorem readNumberAs_run {fuel : Nat} {expected : String} {convert : Number → Except DataFault α}
    {gap text rest : List Char} {number : Number} {value : α} (hgap : Blank gap)
    (hstarts : ∃ c cs, text = c :: cs ∧ StartsNumber c)
    (hread : readNumber.run (text ++ rest) = .ok (number, rest)) (hconvert : convert number = .ok value) :
    (readNumberAs fuel expected convert).run (gap ++ (text ++ rest)) = .ok (value, rest) := by
  obtain ⟨c, cs, rfl, hc⟩ := hstarts
  rw [List.cons_append] at hread ⊢
  rw [readNumberAs, run_bind_ok (peekToken_run hgap hc.not_blank _)]
  have hnumber : (c = '-' || isDigit c) = true := by simpa [StartsNumber] using hc
  simp only [hnumber, if_true]
  rw [run_bind_ok hread, hconvert]
  rfl

/-- A whole number within the bounds is accepted. -/
theorem wholeBetween_ok {low high n : Int} (hlow : low ≤ n) (hhigh : n ≤ high) (expected : String) :
    wholeBetween low high expected (.integer n) = .ok n := by
  rw [wholeBetween, if_pos ⟨hlow, hhigh⟩]

/-- A signed integer is read back. -/
theorem reads_int64 (n : Int64) : Schema.int64.Reads (.integer n.toInt) n := by
  refine ⟨fun {text gap rest fuel levels} hspell hgap _ _ hends => ?_⟩
  cases hspell
  have hlow := n.le_toInt
  have hhigh := n.toInt_lt
  show (readInt64 fuel).run _ = _
  refine readNumberAs_run hgap (integerChars_starts _) (readNumber_integer (by omega) (by omega) hends) ?_
  rw [wholeBetween_ok n.minValue_le_toInt n.toInt_le]
  simp [Except.map]

/-- An unsigned integer is read back. -/
theorem reads_uint32 (n : UInt32) : Schema.uint32.Reads (.integer n.toNat) n := by
  refine ⟨fun {text gap rest fuel levels} hspell hgap _ _ hends => ?_⟩
  cases hspell
  have hsize := n.toNat_lt
  show (readUInt32 fuel).run _ = _
  refine readNumberAs_run hgap (integerChars_starts _) (readNumber_integer (by omega) (by omega) hends) ?_
  rw [wholeBetween_ok (by omega) (by rw [UInt32.size]; omega)]
  simp [Except.map]

/-- A finite double is read back. -/
theorem reads_real {x : Binary64} (hfinite : x.isFinite = true) : Schema.real.Reads (.real x) x := by
  refine ⟨fun {text gap rest fuel levels} hspell hgap _ _ hends => ?_⟩
  cases hspell
  show (readReal fuel).run _ = _
  exact readNumberAs_run hgap (realChars_starts hfinite) (readNumber_real hfinite hends) rfl

/-- An escaped character has at least one character. -/
theorem length_escapeChar_pos (c : Char) : 0 < (escapeChar c).length := by
  unfold escapeChar
  split_ifs <;> simp

/-- A written text is at least as long as the text with its quotes. -/
theorem length_textChars (s : String) : s.length + 2 ≤ (textChars s).length := by
  have hlength (cs : List Char) : cs.length ≤ (cs.flatMap escapeChar).length := by
    induction cs with
    | nil => simp
    | cons c cs ih =>
      have hpos := length_escapeChar_pos c
      rw [List.flatMap_cons, List.length_append, List.length_cons]
      omega
  have hs := hlength s.toList
  rw [String.length_toList] at hs
  simp only [textChars, List.cons_append, List.length_cons, List.length_append, List.length_nil]
  omega

/-- A text is read back, with its opening quote. -/
theorem readText_run_quote (s : String) {fuel : Nat} (hfuel : (textChars s).length ≤ fuel)
    (rest : List Char) :
    (do drop; readText fuel : Reader String).run (textChars s ++ rest) = .ok (s, rest) := by
  have hlength := length_textChars s
  rw [run_bind_ok (run_drop _), textChars]
  simpa using readText_run s (by omega) rest

/-- A text starts with its quote. -/
theorem peekToken_run_text {gap : List Char} (hgap : Blank gap) (s : String) (rest : List Char) :
    peekToken.run (gap ++ (textChars s ++ rest)) = .ok (some '"', textChars s ++ rest) :=
  peekToken_run hgap (by decide) _

/-- A text is read back. -/
theorem reads_text (s : String) : Schema.text.Reads (.text s) s := by
  refine ⟨fun {text gap rest fuel levels} hspell hgap hfuel _ _ => ?_⟩
  cases hspell
  show (readTextValue fuel).run _ = _
  rw [readTextValue, run_bind_ok (peekToken_run_text hgap s rest)]
  exact readText_run_quote s hfuel rest

/-! ## Optional values and lists -/

/-- The documents that may be written as `null`. -/
def mayBeNull : Json → Bool
  | .null | .real _ => true
  | _ => false

/-- Nothing is read back as a missing value. -/
theorem reads_none (schema : Schema α) : (Schema.optional schema).Reads .null none := by
  refine ⟨fun {text gap rest fuel levels} hspell hgap _ _ _ => ?_⟩
  cases hspell
  rw [Schema.read, show "null".toList ++ rest = 'n' :: (['u', 'l', 'l'] ++ rest) from rfl,
    run_bind_ok (peekToken_run hgap (by decide) _), if_pos rfl, run_bind_ok (run_drop _),
    List.tail_cons, run_bind_ok (readWord_run _ rest)]
  rfl

/-- Only what may be nothing starts like the word for it. -/
theorem Spells.ne_null {j : Json} {text : List Char} (h : Spells j text) (hj : j.mayBeNull = false) :
    text.head? ≠ some 'n' := by
  cases h with
  | null => cases hj
  | real x => cases hj
  | boolTrue => decide
  | boolFalse => decide
  | integer n =>
    obtain ⟨c, cs, htext, hc⟩ := integerChars_starts n
    simpa [htext] using hc.ne (d := 'n') (by decide)
  | text s => simp [textChars]
  | list => simp
  | object => simp

/-- A value is read back as one that is there. -/
theorem reads_some {schema : Schema α} {j : Json} {value : α} (h : schema.Reads j value)
    (hj : j.mayBeNull = false) : (Schema.optional schema).Reads j (some value) := by
  refine ⟨fun {text gap rest fuel levels} hspell hgap hfuel hdepth hends => ?_⟩
  obtain ⟨c, cs, rfl, hopens⟩ := hspell.opens
  have hne := hspell.ne_null hj
  have hvalue := h.run hspell blank_nil hfuel hdepth hends
  rw [List.nil_append] at hvalue
  rw [Schema.read, List.cons_append, run_bind_ok (peekToken_run hgap hopens.not_blank _),
    if_neg (by simpa using hne), ← List.cons_append, run_bind_ok hvalue]
  rfl

/-- A lead in front of an item announces it. -/
theorem hasNextItem_run {first : Bool} {lead : List Char} (hlead : Lead first lead) {c : Char}
    (hc : Opens c) (rest : List Char) :
    (hasNextItem first).run (lead ++ c :: rest) = .ok (true, c :: rest) := by
  have hclose := hc.not_close
  -- The first item stands behind a gap, any other one behind a comma as well.
  cases hlead with
  | first hgap =>
    rw [hasNextItem, run_bind_ok (peekToken_run hgap hc.not_blank _)]
    split
    · contradiction
    · rename_i hsome
      exact absurd (Option.some.inj hsome) hclose
    · rfl
  | comma hgap hgap' =>
    rw [List.append_assoc, List.cons_append, hasNextItem, run_bind_ok (peekToken_run hgap (by decide) _)]
    show (if Bool.false = true then _ else if ',' = ',' then _ else _ : Reader Bool).run _ = _
    rw [if_neg (by decide), if_pos rfl, run_bind_ok (run_drop _), List.tail_cons,
      run_bind_ok (peekToken_run hgap' hc.not_blank _)]
    split
    · contradiction
    · rename_i hsome
      exact absurd (Option.some.inj hsome) hclose
    · rfl

/-- A closing bracket ends the list. -/
theorem hasNextItem_run_end {gap : List Char} (hgap : Blank gap) (first : Bool) (rest : List Char) :
    (hasNextItem first).run (gap ++ ']' :: rest) = .ok (false, ']' :: rest) := by
  rw [hasNextItem, run_bind_ok (peekToken_run hgap (by decide) _)]
  rfl

/-- A list is closed by its bracket. -/
theorem closeList_run {gap : List Char} (hgap : Blank gap) (rest : List Char) :
    closeList.run (gap ++ ']' :: rest) = .ok ((), rest) := by
  rw [closeList, run_bind_ok (peekToken_run hgap (by decide) _)]
  rfl

/-- Each item takes at least one character. -/
theorem SpellsItems.length_le {first : Bool} {items : List Json} {text : List Char}
    (h : SpellsItems first items text) : items.length ≤ text.length := by
  induction items generalizing first text with
  | nil => exact Nat.zero_le _
  | cons item items ih =>
    cases h with
    | cons _ hitem hitems =>
      obtain ⟨c, cs, rfl, -⟩ := hitem.opens
      have := ih hitems
      simp only [List.length_append, List.length_cons]
      omega

/-- The elements of a list are read one after the other. -/
theorem readItems_run {item : Schema α} {items : List Json} {values : List α} {fuel levels : Nat}
    (hitems : List.Forall₂ item.Reads items values) (hdepth : depthOfItems items ≤ levels)
    {first : Bool} {text : List Char} (hspell : SpellsItems first items text)
    (hfuel : text.length ≤ fuel) {rounds : Nat} (hrounds : items.length < rounds)
    (rest : List Char) :
    (readItems (item.read fuel levels) rounds first).run (text ++ ']' :: rest)
      = .ok (values, rest) := by
  -- On the items; there is one round for each and one for the closing bracket.
  induction hitems generalizing first text rounds with
  | nil =>
    cases hspell with
    | nil hgap =>
      obtain ⟨rounds, rfl⟩ : ∃ k, rounds = k + 1 := ⟨rounds - 1, by simp at hrounds; omega⟩
      rw [readItems, run_bind_ok (hasNextItem_run_end hgap first rest)]
      rfl
  | @cons j value items values hread _ ih =>
    obtain ⟨rounds, rfl⟩ : ∃ k, rounds = k + 1 := ⟨rounds - 1, by simp at hrounds; omega⟩
    cases hspell with
    | @cons _ _ _ lead written behind hlead hitem hbehind =>
      rw [depthOfItems, Nat.max_le] at hdepth
      simp only [List.length_append, List.length_cons] at hfuel hrounds
      have hlength : written.length ≤ fuel := by omega
      have hvalue := hread.run hitem blank_nil hlength hdepth.1 (hbehind.ends rest)
      obtain ⟨c, cs, rfl, hopens⟩ := hitem.opens
      have hmore := ih hdepth.2 hbehind (by omega) (show items.length < rounds by omega)
      simp only [List.append_assoc, List.cons_append, List.nil_append] at hvalue ⊢
      rw [readItems, run_bind_ok (hasNextItem_run hlead hopens _), if_pos rfl, run_bind_ok hvalue,
        run_bind_ok hmore]
      rfl

/-- A list is read back if its items are. -/
theorem reads_list {item : Schema α} {items : List Json} {values : List α}
    (h : List.Forall₂ item.Reads items values) : (Schema.list item).Reads (.list items) values := by
  refine ⟨fun {text gap rest fuel levels} hspell hgap hfuel hdepth _ => ?_⟩
  cases hspell with
  | @list _ text hitems =>
    obtain ⟨levels, rfl⟩ : ∃ k, levels = k + 1 := ⟨levels - 1, by rw [depth] at hdepth; omega⟩
    rw [depth] at hdepth
    have hcount := hitems.length_le
    simp only [List.length_append, List.length_cons, List.length_nil] at hfuel
    have hread := readItems_run h (Nat.le_of_succ_le_succ hdepth) hitems (show text.length ≤ fuel by omega)
      (show items.length < fuel by omega) rest
    simp only [List.cons_append, List.append_assoc, List.nil_append]
    rw [Schema.read, run_bind_ok (peekToken_run hgap (by decide) _)]
    exact hread

/-! ## The fields of a record -/

/-- The names of the fields. -/
def Fields.names {σ ρ : Type} : Fields σ ρ → List String
  | .nil => []
  | .cons name _ _ rest => name :: rest.names

/-- The members are the fields in their order, and each is read as the field's value. -/
inductive Fields.Reads : {σ ρ : Type} → Fields σ ρ → List (String × Json) → ρ → Prop
  | nil : Reads .nil [] ()
  | cons {α σ ρ : Type} {name : String} {schema : Schema α} {default : Option α} {rest : Fields σ ρ}
      {j : Json} {value : α} {members : List (String × Json)} {values : ρ} :
      schema.Reads j value → rest.Reads members values →
      Reads (.cons name schema default rest) ((name, j) :: members) (value, values)

/-- The members of a document are named for the fields. -/
theorem Fields.Reads.names_eq {fields : Fields σ ρ} {members : List (String × Json)} {values : ρ}
    (h : fields.Reads members values) : members.map Prod.fst = fields.names := by
  induction h with
  | nil => rfl
  | cons _ _ ih => rw [List.map_cons, ih, Fields.names]

/-- The slots after the first `k` fields were read. -/
def Fields.slotsAfter {σ ρ : Type} : Fields σ ρ → (k : Nat) → ρ → σ
  | .nil, _, () => ()
  | .cons _ _ _ rest, 0, (_, values) => (none, rest.slotsAfter 0 values)
  | .cons _ _ _ rest, k + 1, (value, values) => (some value, rest.slotsAfter k values)

/-- Before the first member all slots are empty. -/
theorem Fields.slotsAfter_zero {σ ρ : Type} :
    (fields : Fields σ ρ) → (values : ρ) → fields.slotsAfter 0 values = fields.noValues
  | .nil, () => rfl
  | .cons _ _ _ rest, (_, values) => by
    rw [Fields.slotsAfter, Fields.noValues, Fields.slotsAfter_zero rest values]

/-- The slots of all fields are complete. -/
theorem Fields.Reads.complete {fields : Fields σ ρ} {members : List (String × Json)} {values : ρ}
    (h : fields.Reads members values) :
    fields.complete (fields.slotsAfter members.length values) = .ok values := by
  induction h with
  | nil => rfl
  | cons _ _ ih =>
    rw [List.length_cons, Fields.slotsAfter, Fields.complete]
    simp only [Option.some_or]
    rw [ih]
    rfl

/-- A value behind its colon. -/
theorem Schema.Reads.content {schema : Schema α} {j : Json} {value : α} (h : schema.Reads j value)
    {text rest : List Char} {fuel levels : Nat} (hspell : SpellsContent j text)
    (hfuel : text.length ≤ fuel) (hdepth : j.depth ≤ levels) (hends : Ends rest) :
    (do readColon; schema.read fuel levels : Reader α).run (text ++ rest) = .ok (value, rest) := by
  cases hspell with
  | colon hgap hgap' hvalue =>
    simp only [List.length_append, List.length_cons] at hfuel
    simp only [List.append_assoc, List.cons_append]
    rw [run_bind_ok (readColon_run hgap _)]
    exact h.run hvalue hgap' (by omega) hdepth hends

/-- Reading the next member fills the next slot. -/
theorem Fields.Reads.readMember {fields : Fields σ ρ} {members : List (String × Json)} {values : ρ}
    (h : fields.Reads members values) (hnames : fields.names.Nodup) {k : Nat} {key : String} {j : Json}
    (hk : members[k]? = some (key, j)) {text rest : List Char} {fuel levels : Nat}
    (hspell : SpellsContent j text) (hfuel : text.length ≤ fuel) (hdepth : j.depth ≤ levels)
    (hends : Ends rest) :
    (fields.readMember fuel levels key (fields.slotsAfter k values)).run (text ++ rest)
      = .ok (fields.slotsAfter (k + 1) values, rest) := by
  induction h generalizing k with
  | nil => cases hk
  | @cons _ _ _ name schema _ fields j' value members values hread hrest ih =>
    rw [Fields.names, List.nodup_cons] at hnames
    -- The member belongs to the first field or to one of the others, whose names are different.
    cases k with
    | zero =>
      obtain ⟨rfl, rfl⟩ : name = key ∧ j' = j := by simpa using hk
      have hcontent := hread.content hspell hfuel hdepth hends
      rw [Fields.slotsAfter, Fields.readMember, if_pos rfl]
      show (do readColon; let v ← schema.read fuel levels; return (some v, _) : Reader _).run _ = _
      rw [← bind_assoc, run_bind_ok hcontent]
      rfl
    | succ k =>
      have hmember : (key, j) ∈ members := List.mem_of_getElem? hk
      have hne : ¬ name = key := by
        rintro rfl
        exact hnames.1 (hrest.names_eq ▸ List.mem_map_of_mem hmember)
      rw [Fields.slotsAfter, Fields.readMember, if_neg hne, run_bind_ok (ih hnames.2 hk)]
      rfl

/-- A lead in front of a key announces it and takes its quote. -/
theorem hasNextKey_run {first : Bool} {lead : List Char} (hlead : Lead first lead) (key : String)
    (rest : List Char) :
    (hasNextKey first).run (lead ++ (textChars key ++ rest))
      = .ok (true, key.toList.flatMap escapeChar ++ '"' :: rest) := by
  have hkey : textChars key ++ rest = '"' :: (key.toList.flatMap escapeChar ++ '"' :: rest) := by
    simp [textChars]
  rw [hkey]
  cases hlead with
  | first hgap =>
    rw [hasNextKey, run_bind_ok (peekToken_run hgap (by decide) _)]
    rfl
  | comma hgap hgap' =>
    rw [List.append_assoc, List.cons_append, hasNextKey, run_bind_ok (peekToken_run hgap (by decide) _)]
    show (do drop; _ : Reader Bool).run _ = _
    rw [run_bind_ok (run_drop _), List.tail_cons, run_bind_ok (peekToken_run hgap' (by decide) _)]
    rfl

/-- A closing brace ends the object. -/
theorem hasNextKey_run_end {gap : List Char} (hgap : Blank gap) (first : Bool) (rest : List Char) :
    (hasNextKey first).run (gap ++ '\x7d' :: rest) = .ok (false, rest) := by
  rw [hasNextKey, run_bind_ok (peekToken_run hgap (by decide) _)]
  rfl

/-- Each member takes at least one character. -/
theorem SpellsMembers.length_le {first : Bool} {members : List (String × Json)} {text : List Char}
    (h : SpellsMembers first members text) : members.length ≤ text.length := by
  induction members generalizing first text with
  | nil => exact Nat.zero_le _
  | cons member members ih =>
    cases h with
    | @cons _ key _ _ _ _ _ _ _ hmembers =>
      have := ih hmembers
      have := length_textChars key
      simp only [List.length_append, List.length_cons]
      omega

/-- The members of an object are read one after the other, and each fills the next slot. -/
theorem Fields.Reads.readMembers {fields : Fields σ ρ} {all : List (String × Json)} {values : ρ}
    (h : fields.Reads all values) (hnames : fields.names.Nodup) {fuel levels : Nat}
    {members : List (String × Json)} {k : Nat} (hmembers : all.drop k = members)
    (hdepth : depthOfMembers members ≤ levels) {first : Bool} {text : List Char}
    (hspell : SpellsMembers first members text) (hfuel : text.length ≤ fuel) {rounds : Nat}
    (hrounds : members.length < rounds) (rest : List Char) :
    (Json.readMembers fuel (fields.readMember fuel levels) rounds first (fields.slotsAfter k values)).run
        (text ++ '\x7d' :: rest)
      = .ok (fields.slotsAfter (k + members.length) values, rest) := by
  -- On the members that are left; the slots up to `k` are filled already.
  induction members generalizing k first text rounds with
  | nil =>
    cases hspell with
    | nil hgap =>
      obtain ⟨rounds, rfl⟩ : ∃ k, rounds = k + 1 := ⟨rounds - 1, by simp at hrounds; omega⟩
      rw [Json.readMembers, run_bind_ok (hasNextKey_run_end hgap first rest)]
      rfl
  | cons member members ih =>
    obtain ⟨rounds, rfl⟩ : ∃ k, rounds = k + 1 := ⟨rounds - 1, by simp at hrounds; omega⟩
    cases hspell with
    | @cons _ key j _ lead written behind hlead hvalue hbehind =>
      rw [depthOfMembers, Nat.max_le] at hdepth
      have hlength := length_textChars key
      simp only [List.length_append, List.length_cons] at hfuel hrounds
      have hk : all[k]? = some (key, j) := by
        rw [← List.head?_drop, hmembers]
        rfl
      have hdrop : all.drop (k + 1) = members := by
        rw [← List.tail_drop, hmembers]
        rfl
      have hwritten : written.length ≤ fuel := by omega
      have hmember := h.readMember hnames hk hvalue hwritten hdepth.1 (hbehind.ends rest)
      have hmore := ih hdrop hdepth.2 hbehind (by omega) (show members.length < rounds by omega)
      simp only [List.append_assoc] at hmember ⊢
      rw [Json.readMembers, run_bind_ok (hasNextKey_run hlead key _), if_pos rfl,
        run_bind_ok (readText_run key (by omega) _), run_bind_ok hmember, hmore, List.length_cons]
      congr 3
      omega

/-- The object of a record, behind its opening brace. -/
theorem Fields.Reads.object {fields : Fields σ ρ} {members : List (String × Json)} {values : ρ}
    (h : fields.Reads members values) (hnames : fields.names.Nodup) {fuel levels : Nat}
    {text : List Char} (hspell : SpellsMembers true members text) (hfuel : text.length < fuel)
    (hdepth : depthOfMembers members ≤ levels) (make : ρ → α) (rest : List Char) :
    (do
        let slots ← Json.readMembers fuel (fields.readMember fuel levels) fuel true fields.noValues
        return make (← fields.complete slots) : Reader α).run (text ++ '\x7d' :: rest)
      = .ok (make values, rest) := by
  have hcount := hspell.length_le
  have hread := h.readMembers hnames (show members.drop 0 = members from rfl) hdepth hspell hfuel.le
    (show members.length < fuel by omega) rest
  rw [Fields.slotsAfter_zero, Nat.zero_add] at hread
  rw [run_bind_ok hread, h.complete]
  rfl

/-- A record is read back from an object with its fields in order. -/
theorem reads_record {fields : Fields σ ρ} {members : List (String × Json)} {values : ρ}
    (h : fields.Reads members values) (hnames : fields.names.Nodup) (title : String) (make : ρ → α) :
    (Schema.record title fields make).Reads (.object members) (make values) := by
  refine ⟨fun {text gap rest fuel levels} hspell hgap hfuel hdepth _ => ?_⟩
  cases hspell with
  | @object _ text hmembers =>
    obtain ⟨levels, rfl⟩ : ∃ k, levels = k + 1 := ⟨levels - 1, by rw [depth] at hdepth; omega⟩
    simp only [List.length_append, List.length_cons, List.length_nil] at hfuel
    have hobject := h.object hnames hmembers (show text.length < fuel by omega)
      (Nat.le_of_succ_le_succ hdepth) make rest
    simp only [List.cons_append, List.append_assoc, List.nil_append]
    rw [Schema.read, run_bind_ok (peekToken_run hgap (by decide) _)]
    exact hobject

/-- A converted value is read back from the document of the other one. -/
theorem reads_mapped {schema : Schema β} {j : Json} {value : β} (h : schema.Reads j value)
    (make : β → α) : (Schema.mapped make schema).Reads j (make value) := by
  refine ⟨fun {text gap rest fuel levels} hspell hgap hfuel hdepth hends => ?_⟩
  rw [Schema.read, run_bind_ok (h.run hspell hgap hfuel hdepth hends)]
  rfl

/-! ## The values of a tuple -/

/-- The values of a tuple are read one after the other, up to the blanks before its bracket. -/
theorem Fields.Reads.readList {fields : Fields σ ρ} {members : List (String × Json)} {values : ρ}
    (h : fields.Reads members values) {fuel levels : Nat} {expected : String} (position : Nat)
    (hdepth : depthOfItems (members.map Prod.snd) ≤ levels) {text : List Char}
    (hspell : SpellsItems (decide (position = 0)) (members.map Prod.snd) text)
    (hfuel : text.length ≤ fuel) (rest : List Char) :
    ∃ gap, Blank gap ∧ (fields.readList fuel levels expected position).run (text ++ ']' :: rest)
      = .ok (values, gap ++ ']' :: rest) := by
  -- On the fields; the position only matters for the comma.
  induction h generalizing position text with
  | nil =>
    cases hspell with
    | nil hgap => exact ⟨_, hgap, rfl⟩
  | @cons _ _ _ _ schema _ fields j value members values hread _ ih =>
    cases hspell with
    | @cons _ _ _ lead written behind hlead hitem hbehind =>
      rw [List.map_cons, depthOfItems, Nat.max_le] at hdepth
      simp only [List.length_append] at hfuel
      have hlength : written.length ≤ fuel := by omega
      have hvalue := hread.run hitem blank_nil hlength hdepth.1 (hbehind.ends rest)
      obtain ⟨c, cs, rfl, hopens⟩ := hitem.opens
      obtain ⟨gap, hgap, hmore⟩ := ih (position + 1) hdepth.2 (by simpa using hbehind) (by omega)
      refine ⟨gap, hgap, ?_⟩
      simp only [List.append_assoc, List.cons_append, List.nil_append] at hvalue ⊢
      rw [Fields.readList, run_bind_ok (hasNextItem_run hlead hopens _)]
      simp only [if_true]
      rw [run_bind_ok hvalue, run_bind_ok hmore]
      rfl

/-- The list of a tuple, behind its opening bracket. -/
theorem Fields.Reads.tuple {fields : Fields σ ρ} {members : List (String × Json)} {values : ρ}
    (h : fields.Reads members values) {fuel levels : Nat} (expected : String)
    (hdepth : depthOfItems (members.map Prod.snd) ≤ levels) {text : List Char}
    (hspell : SpellsItems true (members.map Prod.snd) text) (hfuel : text.length ≤ fuel)
    (make : ρ → α) (rest : List Char) :
    (do
        let values ← fields.readList fuel levels expected 0
        closeList
        return make values : Reader α).run (text ++ ']' :: rest) = .ok (make values, rest) := by
  obtain ⟨gap, hgap, hread⟩ := h.readList 0 hdepth hspell hfuel rest
  rw [run_bind_ok hread, run_bind_ok (closeList_run hgap rest)]
  rfl

/-! ## The alternatives of a choice -/

namespace Alternatives

/-- The alternatives from the one of this name on. -/
def dropTo {α : Type} (key : String) : Alternatives α → Alternatives α
  | .nil => .nil
  | .bare name value rest => if name = key then .bare name value rest else rest.dropTo key
  | .holding name content make rest =>
    if name = key then .holding name content make rest else rest.dropTo key
  | .tuple name title items make rest =>
    if name = key then .tuple name title items make rest else rest.dropTo key
  | .record name title fields make rest =>
    if name = key then .record name title fields make rest else rest.dropTo key

/-- Alternatives of other names do not matter for a bare name. -/
theorem readBare_dropTo (known : List String) (key : String) :
    (alternatives : Alternatives α) →
      alternatives.readBare known key = (alternatives.dropTo key).readBare known key
  | .nil => rfl
  | .bare name value rest => by
    rw [dropTo, readBare]
    -- An alternative of this name is where the search stops; any other one is passed over.
    split
    · rename_i hname
      rw [readBare, if_pos hname]
    · exact readBare_dropTo known key rest
  | .holding name content make rest => by
    rw [dropTo, readBare]
    split
    · rename_i hname
      rw [readBare, if_pos hname]
    · exact readBare_dropTo known key rest
  | .tuple name title items make rest => by
    rw [dropTo, readBare]
    split
    · rename_i hname
      rw [readBare, if_pos hname]
    · exact readBare_dropTo known key rest
  | .record name title fields make rest => by
    rw [dropTo, readBare]
    split
    · rename_i hname
      rw [readBare, if_pos hname]
    · exact readBare_dropTo known key rest

/-- Alternatives of other names do not matter for a content. -/
theorem readContent_dropTo (fuel levels : Nat) (known : List String) (key : String) :
    (alternatives : Alternatives α) → alternatives.readContent fuel levels known key
      = (alternatives.dropTo key).readContent fuel levels known key
  | .nil => rfl
  | .bare name value rest => by
    rw [dropTo, readContent]
    -- An alternative of this name is where the search stops; any other one is passed over.
    split
    · rename_i hname
      rw [readContent, if_pos hname]
    · exact readContent_dropTo fuel levels known key rest
  | .holding name content make rest => by
    rw [dropTo, readContent]
    split
    · rename_i hname
      rw [readContent, if_pos hname]
    · exact readContent_dropTo fuel levels known key rest
  | .tuple name title items make rest => by
    rw [dropTo, readContent]
    split
    · rename_i hname
      rw [readContent, if_pos hname]
    · exact readContent_dropTo fuel levels known key rest
  | .record name title fields make rest => by
    rw [dropTo, readContent]
    split
    · rename_i hname
      rw [readContent, if_pos hname]
    · exact readContent_dropTo fuel levels known key rest

/-- The alternatives read the content behind this key as the value. -/
def ReadsContent (alternatives : Alternatives α) (key : String) (j : Json) (value : α) : Prop :=
  ∀ {text rest : List Char} {fuel levels : Nat} (known : List String), SpellsContent j text →
    text.length ≤ fuel → j.depth ≤ levels → Ends rest →
    (alternatives.readContent fuel levels known key).run (text ++ rest) = .ok (value, rest)

end Alternatives

variable {alternatives rest : Alternatives α} {key title : String} {j : Json}

/-- A bare name. -/
theorem reads_bare {value : α} (h : alternatives.dropTo key = .bare key value rest) :
    (Schema.choice alternatives).Reads (.text key) value := by
  refine ⟨fun {text gap rest fuel levels} hspell hgap hfuel _ _ => ?_⟩
  cases hspell
  rw [Schema.read, run_bind_ok (peekToken_run_text hgap key rest)]
  show (do drop; let key ← readText fuel; alternatives.readBare alternatives.names key : Reader α).run _ = _
  rw [← bind_assoc, run_bind_ok (readText_run_quote key hfuel rest), Alternatives.readBare_dropTo, h,
    Alternatives.readBare, if_pos rfl]
  rfl

/-- The name of an alternative is read as a text. -/
theorem readAlternativeName_run {gap : List Char} (hgap : Blank gap) (key : String) {fuel : Nat}
    (hfuel : (textChars key).length ≤ fuel) (rest : List Char) :
    (readAlternativeName fuel).run (gap ++ (textChars key ++ rest)) = .ok (key, rest) := by
  rw [readAlternativeName, run_bind_ok (peekToken_run_text hgap key rest)]
  exact readText_run_quote key hfuel rest

/-- An object with one member, named for the alternative. -/
theorem Alternatives.ReadsContent.object {value : α} (h : alternatives.ReadsContent key j value) :
    (Schema.choice alternatives).Reads (.object [(key, j)]) value := by
  refine ⟨fun {text gap rest fuel levels} hspell hgap hfuel hdepth _ => ?_⟩
  cases hspell with
  | @object _ text hmembers =>
    obtain ⟨levels, rfl⟩ : ∃ k, levels = k + 1 := ⟨levels - 1, by rw [depth] at hdepth; omega⟩
    -- The object has one member: its key is the name, its content that of the alternative.
    cases hmembers with
    | @cons _ _ _ _ lead written behind hlead hcontent hbehind =>
      cases hlead with
      | first hgap' =>
        rw [depth, depthOfMembers, Nat.add_le_add_iff_right, Nat.max_le] at hdepth
        simp only [List.length_append, List.length_cons, List.length_nil] at hfuel
        have hkey : (textChars key).length ≤ fuel := by omega
        have hname := readAlternativeName_run hgap' key hkey
          (written ++ (behind ++ '\x7d' :: rest))
        have hwritten : written.length ≤ fuel := by omega
        have hvalue := h alternatives.names hcontent hwritten hdepth.1 (hbehind.ends rest)
        simp only [List.append_assoc, List.cons_append, List.nil_append] at hname hvalue ⊢
        rw [Schema.read, run_bind_ok (peekToken_run hgap (by decide) _)]
        show (do drop; let key ← readAlternativeName fuel; _ : Reader α).run _ = _
        rw [run_bind_ok (run_drop _), List.tail_cons, run_bind_ok hname, run_bind_ok hvalue]
        cases hbehind with
        | nil hgap'' =>
          rw [run_bind_ok (peekToken_run hgap'' (by decide) _)]
          rfl

/-- An alternative that holds one value. -/
theorem reads_holding {content : Schema β} {make : β → α} {inner : β} {value : α}
    (h : alternatives.dropTo key = .holding key content make rest) (hcontent : content.Reads j inner)
    (hvalue : make inner = value) :
    (Schema.choice alternatives).Reads (.object [(key, j)]) value := by
  subst hvalue
  refine Alternatives.ReadsContent.object fun {text rest fuel levels} known hspell hfuel hdepth hends => ?_
  rw [Alternatives.readContent_dropTo, h, Alternatives.readContent, if_pos rfl, ← bind_assoc,
    run_bind_ok (hcontent.content hspell hfuel hdepth hends)]
  rfl

/-- An alternative that holds a record. -/
theorem reads_alternative {fields : Fields σ ρ} {make : ρ → α} {members : List (String × Json)}
    {values : ρ} {value : α} (h : alternatives.dropTo key = .record key title fields make rest)
    (hfields : fields.Reads members values) (hnames : fields.names.Nodup)
    (hvalue : make values = value) :
    (Schema.choice alternatives).Reads (.object [(key, .object members)]) value := by
  subst hvalue
  refine Alternatives.ReadsContent.object fun {text rest fuel levels} known hspell hfuel hdepth hends => ?_
  rw [Alternatives.readContent_dropTo, h, Alternatives.readContent, if_pos rfl]
  -- Behind the colon stands a record.
  cases hspell with
  | @colon _ _ _ written hgap hgap' hvalue =>
    have hwritten : written.length ≤ fuel := by
      simp only [List.length_append, List.length_cons] at hfuel
      omega
    have hrecord := (reads_record hfields hnames title make).run hvalue hgap' hwritten hdepth hends
    rw [Schema.read] at hrecord
    simp only [List.append_assoc, List.cons_append]
    rw [run_bind_ok (readColon_run hgap _)]
    exact hrecord

/-- An alternative that holds a tuple. -/
theorem reads_tuple {items : Fields σ ρ} {make : ρ → α} {members : List (String × Json)}
    {values : ρ} {js : List Json} {value : α}
    (h : alternatives.dropTo key = .tuple key title items make rest)
    (hitems : items.Reads members values) (hjs : members.map Prod.snd = js)
    (hvalue : make values = value) :
    (Schema.choice alternatives).Reads (.object [(key, .list js)]) value := by
  subst hjs hvalue
  refine Alternatives.ReadsContent.object fun {text rest fuel levels} known hspell hfuel hdepth hends => ?_
  rw [Alternatives.readContent_dropTo, h, Alternatives.readContent, if_pos rfl]
  -- Behind the colon stands a list, one level further in.
  cases hspell with
  | colon hgap hgap' hvalue =>
    cases hvalue with
    | @list _ text hlist =>
      obtain ⟨levels, rfl⟩ : ∃ k, levels = k + 1 := ⟨levels - 1, by rw [depth] at hdepth; omega⟩
      simp only [List.length_append, List.length_cons, List.length_nil] at hfuel
      have hread := hitems.tuple (titleWithLength title items.length)
        (Nat.le_of_succ_le_succ hdepth) hlist (show text.length ≤ fuel by omega) make rest
      simp only [List.append_assoc, List.cons_append, List.nil_append]
      rw [run_bind_ok (readColon_run hgap _), run_bind_ok (peekToken_run hgap' (by decide) _)]
      exact hread

/-! ## Whole texts -/

/-- A text that spells the document is parsed as the value. -/
theorem Schema.Reads.parse {schema : Schema α} {value : α} (h : schema.Reads j value)
    (hdepth : j.depth ≤ nestingLimit) {text : List Char} (hspell : Spells j text) :
    schema.parse (String.ofList text) = .ok value := by
  have hample : text.length ≤ ample text := by
    rw [ample]
    omega
  have hread := h.run hspell blank_nil hample hdepth ends_nil
  rw [List.nil_append, List.append_nil] at hread
  -- Behind the value nothing is left.
  have hall : (do
      let value ← schema.read (ample text) nestingLimit
      readEnd
      return value : Reader α).run text = .ok (value, []) := by
    rw [run_bind_ok hread, readEnd, bind_assoc, run_bind_ok (peekToken_run_end blank_nil)]
    rfl
  rw [Schema.parse, String.toList_ofList]
  simp only
  rw [hall]
  rfl

end HlsEmit.Json
