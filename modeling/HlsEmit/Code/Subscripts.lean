import HlsEmit.Code.Layout
import HlsEmit.Code.Mentions

/-!
# Subscripts of a line

What a reader sees of the arrays in a line without reading it: the identifiers, and the brackets
behind each of them. Inside of loops over all dimensions of an array, an element is indexed by the
counters of the loops, the outermost first.
-/

namespace HlsEmit.Code

/-- The groups of brackets that index an array by the counters of so many loops. -/
def counterGroups (rank : Nat) : List Char :=
  (List.range rank).flatMap fun dim => ("[idx" ++ toString dim ++ "]").toList

/-- Behind every identifier of a value in a line there are the brackets of so many loops, and no
further ones. -/
def Subscripted (rank : Nat) (line : String) : Prop :=
  ∀ before digits after, line.toList = before ++ 'v' :: 'a' :: 'l' :: digits ++ after →
    digits ≠ [] → (∀ c ∈ digits, c.isDigit = true) → (∀ c ∈ after.head?, c.isDigit = false) →
    ∃ rest, after = counterGroups rank ++ rest ∧ ∀ c ∈ rest.head?, c ≠ '['

/-- The lines of loops around a line, one loop for each extent and the first one outermost, at the
indentation of a function body. `dim` is the dimension of the first extent. -/
def loopLines (line : String) : (dim : Nat) → (extents : List Int64) → String
  | dim, [] => indent (dim + 1) ++ line ++ "\n"
  | dim, extent :: rest =>
    let index := "idx" ++ toString dim
    indent (dim + 1) ++ "for (int " ++ index ++ " = 0; " ++ index ++ " < " ++ toString extent.toInt
      ++ "; ++" ++ index ++ ") \x7b\n" ++ loopLines line (dim + 1) rest
      ++ indent (dim + 1) ++ "\x7d\n"

/-- A mention that has a type in front if it is a declaration. -/
def Mention.IsTyped (mention : Mention) : Prop :=
  ∀ id name, mention ≠ .declare id none name

/-- A value is computed from sources, element by element: at most a declaration of the value, and
loops over all dimensions around the line that sets one element. In the line, every identifier has
the counters of all loops behind it. -/
def WritesElements (extents : List Int64) (sources : List ValueId) (result : ValueId)
    (stmts : List Stmt) : Prop :=
  ∃ (declaration : Option Declarator) (target value : Expr),
    stmtsText 1 stmts =
        declaration.elim "" (fun declarator => indent 1 ++ declarator.text ++ ";\n")
          ++ loopLines (target.text ++ " = " ++ value.text ++ ";\t//") 0 extents ∧
      (∀ declarator ∈ declaration, declarator.extents = extents ∧
        ∃ type name, declarator.mention = .declare result (some type) name) ∧
      target.mentions.map Mention.value = [result] ∧
      value.mentions.map Mention.value = sources ∧
      (∀ mention ∈ mentionsOfStmts stmts, mention.IsTyped) ∧
      Subscripted extents.length (target.text ++ " = " ++ value.text ++ ";\t//")

end HlsEmit.Code
