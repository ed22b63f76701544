import HlsEmit.Decimal.Layout

/-!
# JSON documents and their text

A document as a tree, and its two written forms: the compact one without any blank, which is the
canonical form of a model, and the indented one for readers. Members of an object keep their order.
-/

namespace HlsEmit

/-- A JSON document. Whole numbers and fractions are kept apart, as their text does. -/
inductive Json where
  | null
  | bool (value : Bool)
  | integer (value : Int)
  | real (value : Binary64)
  | text (value : String)
  | list (items : List Json)
  | object (members : List (String × Json))
deriving Inhabited

namespace Json

/-- Fractions in JSON: positional from `0.00001` up to sixteen digits before the point, the
exponent always signed, and a tie between two digit strings goes to the even one. -/
def realLayout : DecimalLayout := ⟨.even, -5, 15, true⟩

/-- A fraction; what is not finite has no number in JSON. -/
def realChars (x : Binary64) : List Char :=
  if x.isFinite then (realLayout.render x).toList else "null".toList

/-- A whole number in decimal. -/
def integerChars (n : Int) : List Char :=
  if n < 0 then '-' :: Nat.toDigits 10 n.natAbs else Nat.toDigits 10 n.natAbs

/-- One character between the quotes: quote and backslash are escaped, and so are the control
characters, by a letter if they have one and else by their code. -/
def escapeChar (c : Char) : List Char :=
  if c = '"' then ['\\', '"']
  else if c = '\\' then ['\\', '\\']
  else if c = '\n' then ['\\', 'n']
  else if c = '\r' then ['\\', 'r']
  else if c = '\t' then ['\\', 't']
  else if c = '\x08' then ['\\', 'b']
  else if c = '\x0c' then ['\\', 'f']
  else if c.toNat < 0x20 then
    ['\\', 'u', '0', '0', Nat.digitChar (c.toNat / 16), Nat.digitChar (c.toNat % 16)]
  else [c]

/-- A text between double quotes. -/
def textChars (s : String) : List Char :=
  '"' :: s.toList.flatMap escapeChar ++ ['"']

/-! ## Compact form -/

mutual

/-- The document without any blank. -/
def compactChars : Json → List Char
  | .null => "null".toList
  | .bool true => "true".toList
  | .bool false => "false".toList
  | .integer n => integerChars n
  | .real x => realChars x
  | .text s => textChars s
  | .list items => '[' :: compactItems items ++ [']']
  | .object members => '\x7b' :: compactMembers members ++ ['\x7d']
termination_by structural j => j

/-- The elements of a list, separated by commas. -/
def compactItems : List Json → List Char
  | [] => []
  | [item] => compactChars item
  | item :: next :: rest => compactChars item ++ ',' :: compactItems (next :: rest)
termination_by structural items => items

/-- The members of an object, separated by commas. -/
def compactMembers : List (String × Json) → List Char
  | [] => []
  | [(key, value)] => textChars key ++ ':' :: compactChars value
  | (key, value) :: next :: rest =>
    textChars key ++ ':' :: compactChars value ++ ',' :: compactMembers (next :: rest)
termination_by structural members => members

end

/-- The document without any blank. -/
def compact (j : Json) : String :=
  String.ofList j.compactChars

/-! ## Indented form -/

/-- A new line, indented by two blanks for every level. -/
def newLine (level : Nat) : List Char :=
  '\n' :: List.replicate (2 * level) ' '

mutual

/-- The document with every element and member on a line of its own; `level` is the indentation of
the line that it starts on. Empty lists and objects stay on one line. -/
def prettyChars (level : Nat) : Json → List Char
  | .null => "null".toList
  | .bool true => "true".toList
  | .bool false => "false".toList
  | .integer n => integerChars n
  | .real x => realChars x
  | .text s => textChars s
  | .list [] => ['[', ']']
  | .list items => '[' :: prettyItems (level + 1) items ++ newLine level ++ [']']
  | .object [] => ['\x7b', '\x7d']
  | .object members => '\x7b' :: prettyMembers (level + 1) members ++ newLine level ++ ['\x7d']
termination_by structural j => j

/-- The elements of a list, each on a new line. -/
def prettyItems (level : Nat) : List Json → List Char
  | [] => []
  | [item] => newLine level ++ prettyChars level item
  | item :: next :: rest =>
    newLine level ++ prettyChars level item ++ ',' :: prettyItems level (next :: rest)
termination_by structural items => items

/-- The members of an object, each on a new line. -/
def prettyMembers (level : Nat) : List (String × Json) → List Char
  | [] => []
  | [(key, value)] => newLine level ++ textChars key ++ ':' :: ' ' :: prettyChars level value
  | (key, value) :: next :: rest =>
    newLine level ++ textChars key ++ ':' :: ' ' :: prettyChars level value
      ++ ',' :: prettyMembers level (next :: rest)
termination_by structural members => members

end

/-- The document with every element and member on a line of its own. -/
def pretty (j : Json) : String :=
  String.ofList (j.prettyChars 0)

end Json

end HlsEmit
