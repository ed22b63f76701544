import HlsEmit.Json.Fault

/-!
# Reading the pieces of a JSON text

A `Reader` consumes the front of a list of characters and returns the rest, or the fault it met.
This module reads what does not depend on an expected type: blanks, punctuation, words, texts and
numbers, and it skips whole values whose content does not matter. What repeats takes its number of
rounds as `fuel`; `Reader.ample` is enough for any reader of a text.

Skipping is more lenient than reading. A skipped number may be of any size, a skipped text may hold
half a surrogate pair, and skipped brackets may be nested without limit.
-/

namespace HlsEmit.Json

/-- Consumes the front of a text. -/
abbrev Reader (α : Type) := StateT (List Char) (Except Fault) α

namespace Reader

/-- Stops with a flaw of the text. -/
def flaw {α : Type} (cause : SyntaxFault) : Reader α :=
  throw (.flaw cause)

/-- Stops with a piece that does not fit. -/
def mismatch {α : Type} (cause : DataFault) : Reader α :=
  throw (.mismatch cause)

/-- The next character, which stays in the text. -/
def peek : Reader (Option Char) :=
  return (← get).head?

/-- The next character, which is consumed. -/
def next : Reader (Option Char) := do
  let cs ← get
  set cs.tail
  return cs.head?

/-- Drops the next character. -/
def drop : Reader Unit :=
  modify List.tail

/-- Consumes the longest run of characters of a class. -/
def takeWhile (p : Char → Bool) : Reader (List Char) := do
  let cs ← get
  set (cs.dropWhile p)
  return cs.takeWhile p

/-- An amount of fuel that no reader of this text can use up: every two steps of a reader consume at
least one character. -/
def ample (text : List Char) : Nat :=
  2 * text.length + 2

end Reader

open Reader

/-! ## Blanks, words and punctuation -/

/-- The four characters that may stand between the pieces of a document. -/
def isBlank (c : Char) : Bool :=
  c = ' ' || c = '\n' || c = '\t' || c = '\r'

/-- The next character after any blanks, which stays in the text. -/
def peekToken : Reader (Option Char) := do
  modify (List.dropWhile isBlank)
  peek

/-- Consumes exactly these characters. -/
def readWord : List Char → Reader Unit
  | [] => return
  | c :: rest => do
    match ← next with
    | none => flaw .endInValue
    | some d => if d = c then readWord rest else flaw .expectedWord

/-- The colon behind a key. -/
def readColon : Reader Unit := do
  match ← peekToken with
  | some ':' => drop
  | some _ => flaw .expectedColon
  | none => flaw .endInObject

/-! ## Texts -/

/-- The value of a hexadecimal digit of either case. -/
def hexValue? (c : Char) : Option Nat :=
  if '0' ≤ c ∧ c ≤ '9' then some (c.toNat - '0'.toNat)
  else if 'a' ≤ c ∧ c ≤ 'f' then some (c.toNat - 'a'.toNat + 10)
  else if 'A' ≤ c ∧ c ≤ 'F' then some (c.toNat - 'A'.toNat + 10)
  else none

/-- The number written by four hexadecimal digits. A text that holds fewer than four bytes more
ends too early; anything else that is not four digits is a bad escape. -/
def readHex4 : Reader Nat := do
  let front := (← get).take 4
  match front.mapM hexValue? with
  | some [a, b, c, d] => do
    modify (List.drop 4)
    return ((a * 16 + b) * 16 + c) * 16 + d
  | _ =>
    if front.foldl (fun bytes c => bytes + c.utf8Size) 0 < 4 then flaw .endInText else flaw .badEscape

/-- The character behind a backslash that stands for one fixed character. -/
def simpleEscape? : Char → Option Char
  | '"' => some '"'
  | '\\' => some '\\'
  | '/' => some '/'
  | 'b' => some '\x08'
  | 'f' => some '\x0c'
  | 'n' => some '\n'
  | 'r' => some '\r'
  | 't' => some '\t'
  | _ => none

/-- The first half of a surrogate pair. -/
def isLeadSurrogate (n : Nat) : Bool :=
  0xd800 ≤ n && n ≤ 0xdbff

/-- The second half of a surrogate pair. -/
def isTrailSurrogate (n : Nat) : Bool :=
  0xdc00 ≤ n && n ≤ 0xdfff

/-- Consumes one character that a surrogate pair needs at this place. -/
def readPairCharacter (c : Char) : Reader Unit := do
  match ← peek with
  | none => flaw .endInText
  | some d => if d = c then drop else flaw .halfSurrogatePair

/-- What a numeric escape stands for, behind its `u`: one unit, or two that form a pair. -/
def readUnicodeEscape : Reader Char := do
  let unit ← readHex4
  if isTrailSurrogate unit then flaw .loneSurrogate
  else if isLeadSurrogate unit then do
    readPairCharacter '\\'
    readPairCharacter 'u'
    let second ← readHex4
    if isTrailSurrogate second then
      return Char.ofNat (0x10000 + (unit - 0xd800) * 0x400 + (second - 0xdc00))
    else flaw .loneSurrogate
  else return Char.ofNat unit

/-- What an escape stands for, behind its backslash. -/
def readEscape : Reader Char := do
  match ← next with
  | none => flaw .endInText
  | some 'u' => readUnicodeEscape
  | some c =>
    match simpleEscape? c with
    | some d => return d
    | none => flaw .badEscape

/-- The characters of a text up to the closing quote, which is consumed. -/
def readTextChars : (fuel : Nat) → Reader (List Char)
  | 0 => flaw .endInText
  | fuel + 1 => do
    match ← next with
    | none => flaw .endInText
    | some '"' => return []
    | some '\\' => do
      let c ← readEscape
      return c :: (← readTextChars fuel)
    | some c =>
      if c.toNat < 0x20 then flaw .controlCharacter
      else return c :: (← readTextChars fuel)

/-- A text, behind its opening quote. -/
def readText (fuel : Nat) : Reader String := do
  return String.ofList (← readTextChars fuel)

/-- Skips an escape, behind its backslash. Numeric escapes need not form pairs. -/
def skipEscape : Reader Unit := do
  match ← next with
  | none => flaw .endInText
  | some 'u' => do
    let _ ← readHex4
  | some c => if (simpleEscape? c).isSome then return else flaw .badEscape

/-- Skips a text, behind its opening quote. -/
def skipText : (fuel : Nat) → Reader Unit
  | 0 => flaw .endInText
  | fuel + 1 => do
    match ← next with
    | none => flaw .endInText
    | some '"' => return
    | some '\\' => do
      skipEscape
      skipText fuel
    | some c => if c.toNat < 0x20 then flaw .controlCharacter else skipText fuel

/-! ## Numbers -/

/-- A number as its text gives it: whole numbers that fit 64 bits, and the double that the text
rounds to otherwise. -/
inductive Number where
  | integer (value : Int)
  | real (value : Binary64)
deriving DecidableEq, Repr

/-- How a message names a number. -/
def Number.found : Number → Found
  | .integer n => .integer n
  | .real x => .real x

/-- A decimal digit. -/
def isDigit (c : Char) : Bool :=
  '0' ≤ c && c ≤ '9'

/-- The natural number written by decimal digits. -/
def natOfDigits (digits : List Char) : Nat :=
  digits.foldl (fun n c => n * 10 + (c.toNat - '0'.toNat)) 0

/-- The digits before the point. A zero stands alone. -/
def readWhole : Reader (List Char) := do
  match ← next with
  | none => flaw .endInValue
  | some '0' =>
    if (← peek).any isDigit then flaw .badNumber else return ['0']
  | some c => if isDigit c then return c :: (← takeWhile isDigit) else flaw .badNumber

/-- The digits behind the point, if there is one; there is at least one digit then. -/
def readFraction : Reader (Option (List Char)) := do
  match ← peek with
  | some '.' => do
    drop
    let digits ← takeWhile isDigit
    if digits.isEmpty then
      if (← peek).isNone then flaw .endInValue else flaw .badNumber
    return some digits
  | _ => return none

/-- The power of ten behind an `e` of either case, if there is one. -/
def readExponent : Reader (Option Int) := do
  let mark ← peek
  if mark = some 'e' ∨ mark = some 'E' then do
    drop
    let sign ← peek
    if sign = some '+' ∨ sign = some '-' then drop
    match ← next with
    | none => flaw .endInValue
    | some c =>
      if isDigit c then do
        let size := natOfDigits (c :: (← takeWhile isDigit))
        return some (if sign = some '-' then -(size : Int) else size)
      else flaw .badNumber
  else return none

/-- The number with these parts. Whole numbers keep their value if it fits 64 bits, signed for a
negative number and unsigned otherwise; minus zero is not whole.

All others are rounded to the nearest double. That they are is an assumption about the reader of the
documents: one that scales the digits in floating point may give a neighbour of the nearest double for
some long texts. The shortest text of a double, as documents are written, is read exactly here. -/
def numberOfParts (negative : Bool) (whole : List Char) (fraction : Option (List Char))
    (exponent : Option Int) : Except Fault Number :=
  let rounded (digits : List Char) (power : Int) : Except Fault Number :=
    match Binary64.ofDecimal negative (natOfDigits digits) power with
    | some x => .ok (.real x)
    | none => .error (.flaw .numberRange)
  match fraction, exponent with
  | none, none =>
    let n := natOfDigits whole
    if !negative && n < UInt64.size then .ok (.integer n)
    else if negative && 0 < n && n ≤ 1 <<< 63 then .ok (.integer (-n))
    else rounded whole 0
  | _, _ =>
    let digits := fraction.getD []
    rounded (whole ++ digits) (exponent.getD 0 - digits.length)

/-- A number; the next character is its sign or its first digit. -/
def readNumber : Reader Number := do
  let negative := (← peek) = some '-'
  if negative then drop
  let whole ← readWhole
  let fraction ← readFraction
  let exponent ← readExponent
  numberOfParts negative whole fraction exponent

/-- Skips one or more digits. -/
def skipDigits : Reader Unit := do
  if (← takeWhile isDigit).isEmpty then flaw .badNumber

/-- Skips a number; the next character is its sign or its first digit. -/
def skipNumber : Reader Unit := do
  if (← peek) = some '-' then drop
  match ← next with
  | some '0' => if (← peek).any isDigit then flaw .badNumber
  | some c => if isDigit c then do let _ ← takeWhile isDigit else flaw .badNumber
  | none => flaw .badNumber
  if (← peek) = some '.' then do
    drop
    skipDigits
  let mark ← peek
  if mark = some 'e' ∨ mark = some 'E' then do
    drop
    let sign ← peek
    if sign = some '+' ∨ sign = some '-' then drop
    skipDigits

/-! ## Whole values -/

mutual

/-- Skips one value of any kind. -/
def skipValue : (fuel : Nat) → Reader Unit
  | 0 => flaw .expectedValue
  | fuel + 1 => do
    match ← peekToken with
    | none => flaw .endInValue
    | some '"' => do drop; skipText fuel
    | some '[' => do drop; skipItems fuel true
    | some '\x7b' => do drop; skipMembers fuel true
    | some 'n' => do drop; readWord ['u', 'l', 'l']
    | some 't' => do drop; readWord ['r', 'u', 'e']
    | some 'f' => do drop; readWord ['a', 'l', 's', 'e']
    | some c => if c = '-' || isDigit c then skipNumber else flaw .expectedValue

/-- Skips the elements of a list and its closing bracket; `first` says that none was read yet. -/
def skipItems : (fuel : Nat) → (first : Bool) → Reader Unit
  | 0, _ => flaw .expectedValue
  | fuel + 1, first => do
    match ← peekToken with
    | none => flaw .endInList
    | some ']' => drop
    | some c =>
      if !first && c != ',' then flaw .expectedListEnd
      if !first then drop
      skipValue fuel
      skipItems fuel false

/-- Skips the members of an object and its closing brace; `first` says that none was read yet. -/
def skipMembers : (fuel : Nat) → (first : Bool) → Reader Unit
  | 0, _ => flaw .expectedValue
  | fuel + 1, first => do
    match ← peekToken with
    | none => flaw .endInObject
    | some '\x7d' => drop
    | some c =>
      if !first && c != ',' then flaw .expectedObjectEnd
      if !first then drop
      match ← peekToken with
      | none => flaw .endInObject
      | some '"' => do
        drop
        skipText fuel
        readColon
        skipValue fuel
        skipMembers fuel false
      | some _ => flaw .keyNotText

end

/-- Stops because another type was expected. What stands in the text is read, since the message
names it and since it may itself be flawed. -/
def failExpecting {α : Type} (fuel : Nat) (expected : String) : Reader α := do
  let found : Found ← do
    match ← peek with
    | some 'n' => do drop; readWord ['u', 'l', 'l']; pure Found.null
    | some 't' => do drop; readWord ['r', 'u', 'e']; pure (Found.bool true)
    | some 'f' => do drop; readWord ['a', 'l', 's', 'e']; pure (Found.bool false)
    | some '"' => do drop; pure (Found.text (← readText fuel))
    | some '[' => pure Found.list
    | some '\x7b' => pure Found.object
    | some c => if c = '-' || isDigit c then pure (← readNumber).found else flaw .expectedValue
    | none => flaw .expectedValue
  mismatch (.wrongType found expected)

/-- Only blanks may follow a document. -/
def readEnd : Reader Unit := do
  if (← peekToken).isSome then flaw .trailingCharacters

end HlsEmit.Json
