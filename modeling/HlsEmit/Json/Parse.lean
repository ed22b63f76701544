import HlsEmit.Json.Schema

/-!
# Documents of any form

`Json.parse` reads a text as a document without expecting any type.
-/

namespace HlsEmit.Json

open Reader

/-- A number as a document. -/
def ofNumber : Number → Json
  | .integer n => .integer n
  | .real x => .real x

mutual

/-- Reads one document. -/
def readDocument (textFuel : Nat) : (fuel : Nat) → Reader Json
  | 0 => flaw .expectedValue
  | fuel + 1 => do
    match ← peekToken with
    | none => flaw .endInValue
    | some '"' => do drop; return .text (← readText textFuel)
    | some '[' => do drop; return .list (← readElements textFuel fuel true)
    | some '\x7b' => do drop; return .object (← readPairs textFuel fuel true)
    | some 'n' => do drop; readWord ['u', 'l', 'l']; return .null
    | some 't' => do drop; readWord ['r', 'u', 'e']; return .bool true
    | some 'f' => do drop; readWord ['a', 'l', 's', 'e']; return .bool false
    | some c => if c = '-' || isDigit c then return ofNumber (← readNumber) else flaw .expectedValue

/-- Reads the elements of a list and its closing bracket. -/
def readElements (textFuel : Nat) : (fuel : Nat) → (first : Bool) → Reader (List Json)
  | 0, _ => flaw .expectedValue
  | fuel + 1, first => do
    if ← hasNextItem first then
      let item ← readDocument textFuel fuel
      return item :: (← readElements textFuel fuel false)
    else
      drop
      return []

/-- Reads the members of an object and its closing brace. -/
def readPairs (textFuel : Nat) : (fuel : Nat) → (first : Bool) → Reader (List (String × Json))
  | 0, _ => flaw .expectedValue
  | fuel + 1, first => do
    if ← hasNextKey first then
      let key ← readText textFuel
      readColon
      let value ← readDocument textFuel fuel
      return (key, value) :: (← readPairs textFuel fuel false)
    else return []

end

/-- The document that a text is. -/
def parse (source : String) : Except Fault Json := do
  let text := source.toList
  let read : Reader Json := do
    let document ← readDocument (ample text) (ample text)
    readEnd
    return document
  let (document, _) ← read.run text
  return document

end HlsEmit.Json
