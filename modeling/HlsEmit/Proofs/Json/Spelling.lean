import HlsEmit.Json.Scan

/-!
# The spellings of a document

`Spells j text` says that a text is a spelling of a document: its pieces are written as they always
are, and any blanks may stand between them. The compact and the indented text are two spellings.

Elements and members are spelled from the left, as a reader meets them: a `Lead`, which holds the
comma unless nothing stands before, then the element, then what remains.

## Key results

- `spells_compact`, `spells_pretty`: both written forms are spellings
-/

namespace HlsEmit.Json

/-! ## Nesting -/

mutual

/-- How many brackets are nested in a document. -/
def depth : Json → Nat
  | .null | .bool _ | .integer _ | .real _ | .text _ => 0
  | .list items => depthOfItems items + 1
  | .object members => depthOfMembers members + 1
termination_by structural j => j

/-- How many brackets are nested in some elements. -/
def depthOfItems : List Json → Nat
  | [] => 0
  | item :: rest => max item.depth (depthOfItems rest)
termination_by structural items => items

/-- How many brackets are nested in the values of some members. -/
def depthOfMembers : List (String × Json) → Nat
  | [] => 0
  | (_, value) :: rest => max value.depth (depthOfMembers rest)
termination_by structural members => members

end

/-- Items are as deep as the deepest of them. -/
theorem depthOfItems_le {items : List Json} {n : Nat} :
    depthOfItems items ≤ n ↔ ∀ item ∈ items, item.depth ≤ n := by
  induction items with
  | nil => simp [depthOfItems]
  | cons item rest ih => simp only [depthOfItems, Nat.max_le, ih, List.forall_mem_cons]

/-- Members are as deep as the deepest of them. -/
theorem depthOfMembers_le {members : List (String × Json)} {n : Nat} :
    depthOfMembers members ≤ n ↔ ∀ member ∈ members, member.2.depth ≤ n := by
  induction members with
  | nil => simp [depthOfMembers]
  | cons member rest ih =>
    obtain ⟨key, value⟩ := member
    simp only [depthOfMembers, Nat.max_le, ih, List.forall_mem_cons]

/-! ## Spellings -/

/-- A text of blanks only. -/
def Blank (text : List Char) : Prop :=
  ∀ c ∈ text, isBlank c = true

/-- What stands in front of an element or a member: blanks, and a comma among them unless it is the
first one. -/
inductive Lead : (first : Bool) → List Char → Prop
  | first {gap : List Char} : Blank gap → Lead true gap
  | comma {gap gap' : List Char} : Blank gap → Blank gap' → Lead false (gap ++ ',' :: gap')

mutual

/-- A text spells a document. -/
inductive Spells : Json → List Char → Prop
  | null : Spells .null "null".toList
  | boolTrue : Spells (.bool true) "true".toList
  | boolFalse : Spells (.bool false) "false".toList
  | integer (n : Int) : Spells (.integer n) (integerChars n)
  | real (x : Binary64) : Spells (.real x) (realChars x)
  | text (s : String) : Spells (.text s) (textChars s)
  | list {items : List Json} {text : List Char} :
      SpellsItems true items text → Spells (.list items) ('[' :: text ++ [']'])
  | object {members : List (String × Json)} {text : List Char} :
      SpellsMembers true members text → Spells (.object members) ('\x7b' :: text ++ ['\x7d'])

/-- A text spells the remaining elements of a list up to its closing bracket; `first` says that none
stands in front of them. -/
inductive SpellsItems : (first : Bool) → List Json → List Char → Prop
  | nil {first : Bool} {gap : List Char} : Blank gap → SpellsItems first [] gap
  | cons {first : Bool} {item : Json} {items : List Json} {lead text behind : List Char} :
      Lead first lead → Spells item text → SpellsItems false items behind →
      SpellsItems first (item :: items) (lead ++ (text ++ behind))

/-- A text spells the remaining members of an object up to its closing brace. -/
inductive SpellsMembers : (first : Bool) → List (String × Json) → List Char → Prop
  | nil {first : Bool} {gap : List Char} : Blank gap → SpellsMembers first [] gap
  | cons {first : Bool} {key : String} {value : Json} {members : List (String × Json)}
      {lead text behind : List Char} :
      Lead first lead → SpellsContent value text → SpellsMembers false members behind →
      SpellsMembers first ((key, value) :: members) (lead ++ (textChars key ++ (text ++ behind)))

/-- A text spells the value of a member with the colon in front of it. -/
inductive SpellsContent : Json → List Char → Prop
  | colon {value : Json} {gap gap' text : List Char} : Blank gap → Blank gap' →
      Spells value text → SpellsContent value (gap ++ ':' :: (gap' ++ text))

end

/-- No character at all is blank. -/
theorem blank_nil : Blank [] := by simp [Blank]

/-- Two blank texts are blank together. -/
theorem Blank.append {gap gap' : List Char} (h : Blank gap) (h' : Blank gap') :
    Blank (gap ++ gap') :=
  List.forall_mem_append.2 ⟨h, h'⟩

/-- The comma behind an element leads to the next one. -/
theorem SpellsItems.comma {item : Json} {items : List Json} {text : List Char}
    (h : SpellsItems true (item :: items) text) : SpellsItems false (item :: items) (',' :: text) := by
  cases h with
  | cons hlead hitem hitems =>
    cases hlead with
    | first hgap => exact .cons (.comma blank_nil hgap) hitem hitems

/-- The comma behind a member leads to the next one. -/
theorem SpellsMembers.comma {member : String × Json} {members : List (String × Json)}
    {text : List Char} (h : SpellsMembers true (member :: members) text) :
    SpellsMembers false (member :: members) (',' :: text) := by
  cases h with
  | cons hlead hvalue hmembers =>
    cases hlead with
    | first hgap => exact .cons (.comma blank_nil hgap) hvalue hmembers

/-- Blanks may be added behind the last element. -/
theorem SpellsItems.append {first : Bool} {items : List Json} {text gap : List Char}
    (h : SpellsItems first items text) (hgap : Blank gap) :
    SpellsItems first items (text ++ gap) := by
  induction items generalizing first text with
  | nil =>
    cases h with
    | nil hfirst => exact .nil (hfirst.append hgap)
  | cons item items ih =>
    cases h with
    | cons hlead hitem hitems =>
      rw [List.append_assoc, List.append_assoc]
      exact .cons hlead hitem (ih hitems)

/-- Blanks may be added behind the last member. -/
theorem SpellsMembers.append {first : Bool} {members : List (String × Json)} {text gap : List Char}
    (h : SpellsMembers first members text) (hgap : Blank gap) :
    SpellsMembers first members (text ++ gap) := by
  induction members generalizing first text with
  | nil =>
    cases h with
    | nil hfirst => exact .nil (hfirst.append hgap)
  | cons member members ih =>
    cases h with
    | cons hlead hvalue hmembers =>
      rw [List.append_assoc, List.append_assoc, List.append_assoc]
      exact .cons hlead hvalue (ih hmembers)

/-! ## The compact text -/

mutual

/-- The compact text is a spelling. -/
theorem spells_compact : (j : Json) → Spells j j.compactChars
  | .null => .null
  | .bool true => .boolTrue
  | .bool false => .boolFalse
  | .integer n => .integer n
  | .real x => .real x
  | .text s => .text s
  | .list items => .list (spellsItems_compact items)
  | .object members => .object (spellsMembers_compact members)

/-- Items without blanks are spelled. -/
theorem spellsItems_compact : (items : List Json) → SpellsItems true items (compactItems items)
  | [] => .nil blank_nil
  | [item] => by
    simpa [compactItems] using
      SpellsItems.cons (.first blank_nil) (spells_compact item) (.nil blank_nil)
  | item :: next :: rest => by
    simpa [compactItems] using SpellsItems.cons (.first blank_nil) (spells_compact item)
      (spellsItems_compact (next :: rest)).comma

/-- Members without blanks are spelled. -/
theorem spellsMembers_compact :
    (members : List (String × Json)) → SpellsMembers true members (compactMembers members)
  | [] => .nil blank_nil
  | [(key, value)] => by
    have hvalue := SpellsContent.colon blank_nil blank_nil (spells_compact value)
    simpa [compactMembers] using
      SpellsMembers.cons (.first blank_nil) hvalue (.nil blank_nil)
  | (key, value) :: next :: rest => by
    have hvalue := SpellsContent.colon blank_nil blank_nil (spells_compact value)
    simpa [compactMembers] using SpellsMembers.cons (.first blank_nil) hvalue
      (spellsMembers_compact (next :: rest)).comma

end

/-! ## The indented text -/

/-- A line break and its indentation are blank. -/
theorem blank_newLine (level : Nat) : Blank (newLine level) := by
  intro c hc
  rcases List.mem_cons.1 hc with rfl | hc
  · rfl
  · rw [(List.mem_replicate.1 hc).2]
    rfl

/-- A blank is blank. -/
theorem blank_space : Blank [' '] := by
  intro c hc
  rw [List.mem_singleton.1 hc]
  rfl

mutual

/-- The indented text is a spelling. -/
theorem spells_pretty (level : Nat) : (j : Json) → Spells j (j.prettyChars level)
  | .null => .null
  | .bool true => .boolTrue
  | .bool false => .boolFalse
  | .integer n => .integer n
  | .real x => .real x
  | .text s => .text s
  | .list [] => .list (.nil blank_nil)
  | .list (item :: rest) => by
    simpa [prettyChars] using
      Spells.list ((spellsItems_pretty (level + 1) (item :: rest)).append (blank_newLine level))
  | .object [] => .object (.nil blank_nil)
  | .object (member :: rest) => by
    simpa [prettyChars] using
      Spells.object ((spellsMembers_pretty (level + 1) (member :: rest)).append (blank_newLine level))

/-- Items on lines of their own are spelled. -/
theorem spellsItems_pretty (level : Nat) :
    (items : List Json) → SpellsItems true items (prettyItems level items)
  | [] => .nil blank_nil
  | [item] => by
    simpa [prettyItems] using SpellsItems.cons (.first (blank_newLine level))
      (spells_pretty level item) (.nil blank_nil)
  | item :: next :: rest => by
    simpa [prettyItems] using SpellsItems.cons (.first (blank_newLine level))
      (spells_pretty level item) (spellsItems_pretty level (next :: rest)).comma

/-- Members on lines of their own are spelled. -/
theorem spellsMembers_pretty (level : Nat) :
    (members : List (String × Json)) → SpellsMembers true members (prettyMembers level members)
  | [] => .nil blank_nil
  | [(key, value)] => by
    have hvalue := SpellsContent.colon blank_nil blank_space (spells_pretty level value)
    simpa [prettyMembers] using SpellsMembers.cons (.first (blank_newLine level)) hvalue
      (.nil blank_nil)
  | (key, value) :: next :: rest => by
    have hvalue := SpellsContent.colon blank_nil blank_space (spells_pretty level value)
    simpa [prettyMembers] using SpellsMembers.cons (.first (blank_newLine level)) hvalue
      (spellsMembers_pretty level (next :: rest)).comma

end

end HlsEmit.Json
