import HlsEmit.Json.Scan

/-!
# Schemas: the documents of a type

A `Schema α` describes how values of type `α` are written in JSON: numbers, texts, lists, records
with named fields, and choices between named alternatives. `Schema.parse` reads a text by a schema
and gives the value or the first fault.

The rules for records and choices:

* A record is an object. Its fields come in any order, each at most once; fields with a default may
  be absent, and fields that the schema does not name are skipped. It may also be written as a list
  of its fields in declaration order, where a tail of fields with defaults may be absent.
* A choice is an object with one member, named for the alternative, that holds its content. An
  alternative without content may also be written as its bare name.
* Brackets are nested at most `nestingLimit` deep, skipped values apart.

A schema is a finite tree. The schema of a recursive type is built to a given depth, with
`Schema.beyondLimit` at its leaves; since every turn through a recursive type opens a bracket, a
depth of `nestingLimit` reads everything that may be read.
-/

namespace HlsEmit.Json

mutual

/-- How values of a type are written. -/
inductive Schema : Type → Type 1 where
  | flag : Schema Bool
  | int64 : Schema Int64
  | uint32 : Schema UInt32
  | real : Schema Binary64
  | text : Schema String
  /-- `null`, or a value. -/
  | optional {α : Type} (value : Schema α) : Schema (Option α)
  | list {α : Type} (item : Schema α) : Schema (List α)
  /-- A record; `title` is what messages call it. -/
  | record {σ ρ α : Type} (title : String) (fields : Fields σ ρ) (make : ρ → α) : Schema α
  | choice {α : Type} (alternatives : Alternatives α) : Schema α
  /-- Written as a value of another type. -/
  | mapped {β α : Type} (make : β → α) (as : Schema β) : Schema α
  /-- Deeper than any document may be nested. -/
  | beyondLimit {α : Type} : Schema α

/-- The fields of a record in declaration order. `ρ` is the type of their values and `σ` that of
the slots which hold the values read so far. -/
inductive Fields : Type → Type → Type 1 where
  | nil : Fields Unit Unit
  | cons {σ ρ α : Type} (name : String) (value : Schema α) (default : Option α)
      (rest : Fields σ ρ) : Fields (Option α × σ) (α × ρ)

/-- The alternatives of a choice. -/
inductive Alternatives : Type → Type 1 where
  | nil {α : Type} : Alternatives α
  /-- An alternative without content. -/
  | bare {α : Type} (name : String) (value : α) (rest : Alternatives α) : Alternatives α
  /-- An alternative whose content is one value. -/
  | holding {α β : Type} (name : String) (content : Schema β) (make : β → α)
      (rest : Alternatives α) : Alternatives α
  /-- An alternative whose content is a list of values of fixed types. -/
  | tuple {α σ ρ : Type} (name title : String) (items : Fields σ ρ) (make : ρ → α)
      (rest : Alternatives α) : Alternatives α
  /-- An alternative whose content is a record. -/
  | record {α σ ρ : Type} (name title : String) (fields : Fields σ ρ) (make : ρ → α)
      (rest : Alternatives α) : Alternatives α

end

/-- How deep the brackets of a document may be nested. -/
def nestingLimit : Nat := 127

open Reader

/-! ## Brackets -/

/-- Consumes an opening bracket and reads on with one level of nesting less. -/
def enter {α : Type} (levels : Nat) (inside : Nat → Reader α) : Reader α :=
  match levels with
  | 0 => flaw .nesting
  | levels + 1 => do
    drop
    inside levels

/-- Whether a list has a further element, which is next in the text then. -/
def hasNextItem (first : Bool) : Reader Bool := do
  match ← peekToken with
  | none => flaw .endInList
  | some ']' => return false
  | some c =>
    if first then return true
    else if c = ',' then do
      drop
      match ← peekToken with
      | none => flaw .endInValue
      | some ']' => flaw .trailingComma
      | some _ => return true
    else flaw .expectedListEnd

/-- The closing bracket of a list that should be complete. -/
def closeList : Reader Unit := do
  match ← peekToken with
  | none => flaw .endInList
  | some ']' => drop
  | some ',' => do
    drop
    if (← peekToken) = some ']' then flaw .trailingComma else flaw .trailingCharacters
  | some _ => flaw .trailingCharacters

/-- The elements of a list of any length and its closing bracket. -/
def readItems {α : Type} (item : Reader α) : (fuel : Nat) → (first : Bool) → Reader (List α)
  | 0, _ => flaw .expectedValue
  | fuel + 1, first => do
    if ← hasNextItem first then
      let value ← item
      return value :: (← readItems item fuel false)
    else
      closeList
      return []

/-- Whether an object has a further member, whose key is next in the text then, behind its opening
quote. The closing brace is consumed. -/
def hasNextKey (first : Bool) : Reader Bool := do
  match ← peekToken with
  | none => flaw .endInObject
  | some '\x7d' => do
    drop
    return false
  | some c =>
    if first then
      if c = '"' then do drop; return true else flaw .keyNotText
    else if c = ',' then do
      drop
      match ← peekToken with
      | none => flaw .endInValue
      | some '"' => do drop; return true
      | some '\x7d' => flaw .trailingComma
      | some _ => flaw .keyNotText
    else flaw .expectedObjectEnd

/-- The name of an alternative, behind the opening brace of the object that holds its content. -/
def readAlternativeName (fuel : Nat) : Reader String := do
  match ← peekToken with
  | none => flaw .endInObject
  | some '"' => do drop; readText fuel
  | some '\x7d' => flaw .expectedValue
  | some _ => flaw .keyNotText

/-- The members of an object and its closing brace. `member` reads one value, behind its key, into
the slots. -/
def readMembers {σ : Type} (textFuel : Nat) (member : String → σ → Reader σ) :
    (fuel : Nat) → (first : Bool) → σ → Reader σ
  | 0, _, _ => flaw .expectedValue
  | fuel + 1, first, slots => do
    if ← hasNextKey first then
      let key ← readText textFuel
      let slots ← member key slots
      readMembers textFuel member fuel false slots
    else return slots

/-- The title of a record together with the number of its fields. -/
def titleWithLength (title : String) (length : Nat) : String :=
  title ++ " with " ++ toString length ++ (if length = 1 then " element" else " elements")

/-! ## Fields -/

namespace Fields

/-- The number of fields. -/
def length {σ ρ : Type} : Fields σ ρ → Nat
  | .nil => 0
  | .cons _ _ _ rest => rest.length + 1

/-- The slots before anything was read. -/
def noValues {σ ρ : Type} : Fields σ ρ → σ
  | .nil => ()
  | .cons _ _ _ rest => (none, rest.noValues)

/-- The values of all fields, from the slots and the defaults. The first field that has neither is
missing. -/
def complete {σ ρ : Type} : Fields σ ρ → σ → Except Fault ρ
  | .nil, () => .ok ()
  | .cons name _ default rest, (slot, slots) => do
    match slot.or default with
    | some value => return (value, ← rest.complete slots)
    | none => throw (.mismatch (.missingField name))

end Fields

/-- The names of all alternatives. -/
def Alternatives.names {α : Type} : Alternatives α → List String
  | .nil => []
  | .bare name _ rest => name :: rest.names
  | .holding name _ _ rest => name :: rest.names
  | .tuple name _ _ _ rest => name :: rest.names
  | .record name _ _ _ rest => name :: rest.names

/-- The value of an alternative that is written as its bare name. -/
def Alternatives.readBare {α : Type} (known : List String) (key : String) :
    Alternatives α → Reader α
  | .nil => mismatch (.unknownAlternative key known)
  | .bare name value rest => if name = key then return value else rest.readBare known key
  | .holding name _ _ rest =>
    if name = key then mismatch (.wrongType .bareName "newtype variant")
    else rest.readBare known key
  | .tuple name _ _ _ rest =>
    if name = key then mismatch (.wrongType .bareName "tuple variant")
    else rest.readBare known key
  | .record name _ _ _ rest =>
    if name = key then mismatch (.wrongType .bareName "struct variant")
    else rest.readBare known key

/-! ## Values without parts -/

/-- A number of a type that `convert` knows; `expected` is what messages call the type. -/
def readNumberAs {α : Type} (fuel : Nat) (expected : String)
    (convert : Number → Except DataFault α) : Reader α := do
  match ← peekToken with
  | none => flaw .endInValue
  | some c =>
    if c = '-' || isDigit c then
      match convert (← readNumber) with
      | .ok value => return value
      | .error cause => mismatch cause
    else failExpecting fuel expected

/-- A whole number between two bounds. -/
def wholeBetween (low high : Int) (expected : String) : Number → Except DataFault Int
  | .integer n =>
    if low ≤ n ∧ n ≤ high then .ok n else .error (.wrongValue (.integer n) expected)
  | .real x => .error (.wrongType (.real x) expected)

/-- A signed number of 64 bits. -/
def readInt64 (fuel : Nat) : Reader Int64 :=
  readNumberAs fuel "i64" fun number =>
    (wholeBetween Int64.minValue.toInt Int64.maxValue.toInt "i64" number).map Int64.ofInt

/-- An unsigned number of 32 bits. -/
def readUInt32 (fuel : Nat) : Reader UInt32 :=
  readNumberAs fuel "u32" fun number =>
    (wholeBetween 0 ((UInt32.size : Int) - 1) "u32" number).map fun n => UInt32.ofNat n.toNat

/-- The double that a whole number rounds to. -/
def realOfInteger (n : Int) : Binary64 :=
  (Binary64.ofDecimal (n < 0) n.natAbs 0).getD (Binary64.infinity (n < 0))

/-- A double. -/
def readReal (fuel : Nat) : Reader Binary64 :=
  readNumberAs fuel "f64" fun
    | .integer n => .ok (realOfInteger n)
    | .real x => .ok x

/-- A truth value. -/
def readFlag (fuel : Nat) : Reader Bool := do
  match ← peekToken with
  | none => flaw .endInValue
  | some 't' => do drop; readWord ['r', 'u', 'e']; return true
  | some 'f' => do drop; readWord ['a', 'l', 's', 'e']; return false
  | some _ => failExpecting fuel "a boolean"

/-- A text as a value. -/
def readTextValue (fuel : Nat) : Reader String := do
  match ← peekToken with
  | none => flaw .endInValue
  | some '"' => do drop; readText fuel
  | some _ => failExpecting fuel "a string"

/-- The content of an alternative that has none. -/
def readNothing (fuel : Nat) : Reader Unit := do
  match ← peekToken with
  | none => flaw .endInValue
  | some 'n' => do drop; readWord ['u', 'l', 'l']
  | some _ => failExpecting fuel "unit"

/-! ## Reading by a schema -/

mutual

/-- Reads a value. `levels` is how many more brackets may be opened around anything inside it. -/
def Schema.read {α : Type} (fuel : Nat) : Schema α → (levels : Nat) → Reader α
  | .flag, _ => readFlag fuel
  | .int64, _ => readInt64 fuel
  | .uint32, _ => readUInt32 fuel
  | .real, _ => readReal fuel
  | .text, _ => readTextValue fuel
  | .optional value, levels => do
    if (← peekToken) = some 'n' then
      drop
      readWord ['u', 'l', 'l']
      return none
    else return some (← value.read fuel levels)
  | .list item, levels => do
    match ← peekToken with
    | none => flaw .endInValue
    | some '[' => enter levels fun levels => readItems (item.read fuel levels) fuel true
    | some _ => failExpecting fuel "a sequence"
  | .record title fields make, levels => do
    match ← peekToken with
    | none => flaw .endInValue
    | some '[' => enter levels fun levels => do
      let values ← fields.readList fuel levels (titleWithLength title fields.length) 0
      closeList
      return make values
    | some '\x7b' => enter levels fun levels => do
      let slots ← readMembers fuel (fields.readMember fuel levels) fuel true fields.noValues
      return make (← fields.complete slots)
    | some _ => failExpecting fuel title
  | .choice alternatives, levels => do
    match ← peekToken with
    | none => flaw .endInValue
    | some '"' => do
      drop
      let key ← readText fuel
      alternatives.readBare alternatives.names key
    | some '\x7b' => enter levels fun levels => do
      let key ← readAlternativeName fuel
      let value ← alternatives.readContent fuel levels alternatives.names key
      match ← peekToken with
      | none => flaw .endInObject
      | some '\x7d' => do
        drop
        return value
      | some _ => flaw .expectedValue
    | some _ => flaw .expectedValue
  | .mapped make as, levels => do
    return make (← as.read fuel levels)
  | .beyondLimit, _ => flaw .nesting
termination_by structural schema => schema

/-- Reads the value of the field that `key` names, behind the key, into its slot, and skips the
value if there is no such field. -/
def Fields.readMember {σ ρ : Type} (fuel : Nat) :
    Fields σ ρ → (levels : Nat) → (key : String) → σ → Reader σ
  | .nil, _, _, slots => do
    readColon
    skipValue fuel
    return slots
  | .cons name value _ rest, levels, key, (slot, slots) => do
    if name = key then
      if slot.isSome then mismatch (.duplicateField name)
      readColon
      return (some (← value.read fuel levels), slots)
    else return (slot, ← rest.readMember fuel levels key slots)
termination_by structural fields => fields

/-- Reads the fields as the elements of a list, without its closing bracket. `position` counts the
fields before these, and `expected` is what messages call the whole list. -/
def Fields.readList {σ ρ : Type} (fuel : Nat) :
    Fields σ ρ → (levels : Nat) → (expected : String) → (position : Nat) → Reader ρ
  | .nil, _, _, _ => return ()
  | .cons _ value default rest, levels, expected, position => do
    let here ←
      if ← hasNextItem (position = 0) then value.read fuel levels
      else match default with
        | some value => pure value
        | none => mismatch (.wrongLength position expected)
    return (here, ← rest.readList fuel levels expected (position + 1))
termination_by structural fields => fields

/-- Reads the content of the alternative that `key` names, behind the key. -/
def Alternatives.readContent {α : Type} (fuel : Nat) :
    Alternatives α → (levels : Nat) → (known : List String) → (key : String) → Reader α
  | .nil, _, known, key => mismatch (.unknownAlternative key known)
  | .bare name value rest, levels, known, key => do
    if name = key then
      readColon
      readNothing fuel
      return value
    else rest.readContent fuel levels known key
  | .holding name content make rest, levels, known, key => do
    if name = key then
      readColon
      return make (← content.read fuel levels)
    else rest.readContent fuel levels known key
  | .tuple name title items make rest, levels, known, key => do
    if name = key then
      readColon
      match ← peekToken with
      | none => flaw .endInValue
      | some '[' => enter levels fun levels => do
        let values ← items.readList fuel levels (titleWithLength title items.length) 0
        closeList
        return make values
      | some _ => failExpecting fuel title
    else rest.readContent fuel levels known key
  | .record name title fields make rest, levels, known, key => do
    if name = key then
      readColon
      match ← peekToken with
      | none => flaw .endInValue
      | some '[' => enter levels fun levels => do
        let values ← fields.readList fuel levels (titleWithLength title fields.length) 0
        closeList
        return make values
      | some '\x7b' => enter levels fun levels => do
        let slots ← readMembers fuel (fields.readMember fuel levels) fuel true fields.noValues
        return make (← fields.complete slots)
      | some _ => failExpecting fuel title
    else rest.readContent fuel levels known key
termination_by structural alternatives => alternatives

end

/-- Reads a whole text: one value, and nothing but blanks behind it. -/
def Schema.parse {α : Type} (schema : Schema α) (source : String) : Except Fault α := do
  let text := source.toList
  let read : Reader α := do
    let value ← schema.read (ample text) nestingLimit
    readEnd
    return value
  let (value, _) ← read.run text
  return value

end HlsEmit.Json
