/-!
# Tokens of C++

How the characters of a program become tokens: from left to right, each token as long as possible.
Comments and directives end with their line and count as blanks. What is left out is refused and
never taken for something else: quotes, the point as an operator, and lines that continue behind
their end.

Reading is a fold over the characters. Its state is the token that has been begun (`Pending`) and
the tokens in front of it, so a text may be cut anywhere (`readChars_append`).
-/

namespace HlsEmit.Cpp

/-- What holds of every character of a text is decided along the text, not over all characters. -/
instance (priority := 2000) decidableEachChar (holds : Char → Prop) [DecidablePred holds]
    (cs : List Char) : Decidable (∀ c ∈ cs, holds c) :=
  List.decidableBAll holds cs

/-- A token. Words that are reserved are no names. -/
inductive Token where
  | keyword (text : String)
  | name (text : String)
  | number (text : String)
  | symbol (text : String)
deriving DecidableEq, Repr, Inhabited

/-- The reserved words. -/
def keywords : List String := [
  "alignas", "alignof", "and", "and_eq", "asm", "auto", "bitand", "bitor", "bool", "break", "case",
  "catch", "char", "char16_t", "char32_t", "char8_t", "class", "co_await", "co_return", "co_yield",
  "compl", "concept", "const", "const_cast", "consteval", "constexpr", "constinit", "continue",
  "decltype", "default", "delete", "do", "double", "dynamic_cast", "else", "enum", "explicit",
  "export", "extern", "false", "float", "for", "friend", "goto", "if", "inline", "int", "long",
  "mutable", "namespace", "new", "noexcept", "not", "not_eq", "nullptr", "operator", "or", "or_eq",
  "private", "protected", "public", "register", "reinterpret_cast", "requires", "return", "short",
  "signed", "sizeof", "static", "static_assert", "static_cast", "struct", "switch", "template",
  "this", "thread_local", "throw", "true", "try", "typedef", "typeid", "typename", "union",
  "unsigned", "using", "virtual", "void", "volatile", "wchar_t", "while", "xor", "xor_eq"]

/-- The operators and punctuators. Each of them without its last character is one as well. -/
def symbols : List String := [
  "\x7b", "\x7d", "[", "]", "(", ")", ";", ":", "::", "?", "->", "->*", "~", "!", "+", "-", "*",
  "/", "%", "^", "&", "|", "=", "+=", "-=", "*=", "/=", "%=", "^=", "&=", "|=", "==", "!=", "<", ">",
  "<=", ">=", "<=>", "&&", "||", "<<", ">>", "<<=", ">>=", "++", "--", ","]

/-- Whether some characters are an operator or a punctuator. -/
def isSymbol (text : List Char) : Bool :=
  symbols.any fun symbol => symbol.toList = text

/-- The characters that a name starts with. Those beyond ASCII count as letters. -/
def isLetter (c : Char) : Bool :=
  c.isAlpha || c = '_' || 128 ≤ c.toNat

/-- The characters that a name consists of. -/
def isWordChar (c : Char) : Bool :=
  isLetter c || c.isDigit

/-- Whether a text is a name. -/
def isName (text : String) : Bool :=
  match text.toList with
  | c :: rest => isLetter c && rest.all isWordChar && text ∉ keywords
  | [] => false

/-! ## Tokens that have been begun -/

/-- What has been begun and may go on. -/
inductive Pending where
  | blank
  | word (text : List Char)
  | number (text : List Char)
  | symbol (text : List Char)
  /-- A comment that ends with its line. -/
  | comment
  | directive
  /-- A comment between `/*` and the same mirrored; `starred` behind a star. -/
  | enclosed (starred : Bool)
deriving DecidableEq, Repr, Inhabited

/-- The token for a word. -/
def Token.ofWord (text : String) : Token :=
  if text ∈ keywords then .keyword text else .name text

namespace Pending

/-- What has been begun, with one more character; nothing if that belongs to what comes behind. -/
def extend? : Pending → Char → Option Pending
  | .blank, _ => none
  | .word text, c => if isWordChar c then some (.word (text ++ [c])) else none
  | .number text, c =>
    let sign := (c = '+' || c = '-') && (text.getLast? = some 'e' || text.getLast? = some 'E')
    if isWordChar c || c = '.' || sign then some (.number (text ++ [c])) else none
  | .symbol text, c =>
    if text = ['/'] && c = '/' then some .comment
    else if text = ['/'] && c = '*' then some (.enclosed false)
    else if isSymbol (text ++ [c]) then some (.symbol (text ++ [c]))
    else none
  | .comment, c => if c = '\n' then none else some .comment
  | .directive, c => if c = '\n' then none else some .directive
  | .enclosed starred, c => if starred && c = '/' then some .blank else some (.enclosed (c = '*'))

/-- What a character begins. -/
def start (c : Char) : Option Pending :=
  if c.isWhitespace then some .blank
  else if isLetter c then some (.word [c])
  else if c.isDigit then some (.number [c])
  else if c = '#' then some .directive
  else if isSymbol [c] then some (.symbol [c])
  else none

/-- The token that has been begun, if it is one. -/
def tokens : Pending → List Token
  | .word text => [.ofWord (String.ofList text)]
  | .number text => [.number (String.ofList text)]
  | .symbol text => [.symbol (String.ofList text)]
  | .blank | .comment | .directive | .enclosed _ => []

end Pending

/-! ## Reading -/

/-- What has been begun, and the tokens in front of it. -/
abbrev Progress := Pending × List Token

/-- Reads one character. -/
def readChar (progress : Progress) (c : Char) : Option Progress :=
  match progress.1.extend? c with
  | some pending => some (pending, progress.2)
  | none => (Pending.start c).map fun pending => (pending, progress.2 ++ progress.1.tokens)

/-- Reads some characters. -/
def readChars (progress : Progress) (text : List Char) : Option Progress :=
  text.foldlM readChar progress

/-- The tokens of a text, if all of it can be read. -/
def tokenize (text : String) : Option (List Token) := do
  match ← readChars (.blank, []) text.toList with
  | (.enclosed _, _) => none
  | (pending, tokens) => some (tokens ++ pending.tokens)

/-- A text may be cut anywhere. -/
theorem readChars_append (progress : Progress) (text text' : List Char) :
    readChars progress (text ++ text') =
      (readChars progress text).bind fun behind => readChars behind text' :=
  List.foldlM_append

example : tokenize "val1[idx0] = -2.5e-7; // L3" = some [.name "val1", .symbol "[", .name "idx0",
    .symbol "]", .symbol "=", .symbol "-", .number "2.5e-7", .symbol ";"] := by decide +kernel

end HlsEmit.Cpp
