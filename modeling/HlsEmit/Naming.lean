import HlsEmit.Model.Value

/-!
# Names of values in the generated code

Every emitted value gets a C++ identifier `val<n>`, where `n` counts the entries that the table had
before. An entry either declares a value or lets it share the name of another one; no value has two
entries. Since the table only grows, a name once given stays.

A constant scalar needs no name: its uses are its literal text. `Arena.designator` is what stands
for a value where it is used.
-/

namespace HlsEmit

/-- An identifier of the generated code. -/
structure Name where
  /-- The number that tells it apart. -/
  number : Nat
  /-- Whether the value is reached through a pointer. -/
  pointer : Bool
deriving DecidableEq, Repr, Inhabited

namespace Name

/-- The identifier alone. -/
def identifier (name : Name) : String :=
  "val" ++ toString name.number

/-- The name as it stands in code, with the star of a pointer. -/
def text (name : Name) : String :=
  if name.pointer then "*" ++ name.identifier else name.identifier

end Name

/-- Why a value cannot be named. -/
inductive NameError where
  | alreadyDeclared (id : ValueId)
  | undeclared (id : ValueId)
deriving DecidableEq, Repr

/-- The wording of a naming error. -/
def NameError.message : NameError → String
  | .alreadyDeclared id => "value %" ++ toString id.index ++ " is already declared"
  | .undeclared id => "value %" ++ toString id.index ++ " has no name to alias"

/-- How a value got its name. -/
inductive Binding where
  /-- By a declaration of its own. -/
  | declared (name : Name)
  /-- It shares the name of the value that owns it. -/
  | shared (owner : ValueId)
deriving DecidableEq, Repr

/-- The names given so far, the latest first. -/
structure NameTable where
  entries : List (ValueId × Binding) := []
deriving Repr, Inhabited

namespace NameTable

/-- The table without any name. -/
def empty : NameTable := {}

/-- The number of declarations and shared names. -/
def size (table : NameTable) : Nat :=
  table.entries.length

/-- The entry of a value. -/
def binding? (table : NameTable) (id : ValueId) : Option Binding :=
  table.entries.lookup id

/-- Whether a value has a name, of its own or shared. -/
def isDeclared (table : NameTable) (id : ValueId) : Bool :=
  (table.binding? id).isSome

/-- The value whose declaration names this one. -/
def owner? (table : NameTable) (id : ValueId) : Option ValueId :=
  match table.binding? id with
  | some (.declared _) => some id
  | some (.shared owner) => some owner
  | none => none

/-- The name of a value that has a declaration of its own. -/
def ownName? (table : NameTable) (id : ValueId) : Option Name :=
  match table.binding? id with
  | some (.declared name) => some name
  | _ => none

/-- The name of a value, of its own or shared. -/
def name? (table : NameTable) (id : ValueId) : Option Name :=
  (table.owner? id).bind table.ownName?

/-- The table as it was when so many names had been given. -/
def upTo (table : NameTable) (given : Nat) : NameTable :=
  ⟨table.entries.drop (table.size - given)⟩

/-- The table with one more entry. -/
def insert (table : NameTable) (id : ValueId) (binding : Binding) : NameTable :=
  ⟨(id, binding) :: table.entries⟩

/-- Gives a value a fresh name. -/
def declare (table : NameTable) (id : ValueId) (pointer : Bool) :
    Except NameError (Name × NameTable) :=
  if table.isDeclared id then .error (.alreadyDeclared id)
  else
    let name : Name := ⟨table.size, pointer⟩
    .ok (name, table.insert id (.declared name))

/-- Lets `fresh` share the name of `existing`. -/
def share (table : NameTable) (existing fresh : ValueId) :
    Except NameError (Option Name × NameTable) :=
  if table.isDeclared fresh then .error (.alreadyDeclared fresh)
  else match table.owner? existing with
    | none => .error (.undeclared existing)
    | some owner => .ok (table.ownName? owner, table.insert fresh (.shared owner))

end NameTable

/-! ## Uses of values -/

/-- What stands for a value where it is used. -/
inductive Designator where
  /-- The name that it was given. -/
  | named (name : Name)
  /-- The text of a constant scalar. -/
  | literal (text : String)
  /-- Nothing: the value has no name yet. -/
  | missing
deriving DecidableEq, Repr, Inhabited

namespace Designator

/-- The designator as it stands in code. -/
def text : Designator → String
  | .named name => name.text
  | .literal text => text
  | .missing => ""

/-- The designator without the star of a pointer, as pragmas spell it. -/
def portText : Designator → String
  | .named name => name.identifier
  | .literal text => text
  | .missing => ""

end Designator

/-- A value where it is used, with what stands for it there. -/
structure Use where
  value : ValueId
  designator : Designator
  /-- How many names had been given when the use was written. -/
  seen : Nat
deriving DecidableEq, Repr, Inhabited

namespace Arena

/-- The literal text of a constant scalar in the table. -/
def constantText? (arena : Arena) (id : ValueId) : Option String :=
  (arena.info? id).bind ValueInfo.constantText?

/-- What stands for a value where it is used: its literal text if it is a constant scalar, else its
name. -/
def designator (arena : Arena) (names : NameTable) (id : ValueId) : Designator :=
  match arena.constantText? id with
  | some text => .literal text
  | none =>
    match names.name? id with
    | some name => .named name
    | none => .missing

/-- A use of a value. -/
def use (arena : Arena) (names : NameTable) (id : ValueId) : Use :=
  ⟨id, arena.designator names id, names.size⟩

/-- Whether a use of the value can be written without declaring it. -/
def isBound (arena : Arena) (names : NameTable) (id : ValueId) : Bool :=
  names.isDeclared id || (arena.constantText? id).isSome

end Arena

end HlsEmit
