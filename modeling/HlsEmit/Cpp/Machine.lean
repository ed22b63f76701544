import HlsEmit.Cpp.Parse
import HlsEmit.Execution.Content

/-!
# Executing C++

What a function does with the objects that it is called with. The numbers are those of a `Machine`,
which knows literals, operators, conversions and library functions; everything else is settled here:
blocks and their declarations, assignments, subscripts, loops and conditionals.

An object is found by its name, and a declaration hides those in front of it up to the end of its
block. There is no result where C++ defines none: if an object is read before it was set, at an index
outside of its array, or if a loop does not end.

Numbers are converted where C++ does so outside of its operators: what is assigned or handed over is
converted to the type of its object, and the branch of `?:` that is taken to the common type of both
branches. That type does not depend on which one is taken, so expressions have types apart from their
values. Which ones is said by a `Typing`.
-/

namespace HlsEmit.Cpp

/-- The types of expressions, given those of their operands. There is none where C++ allows none. -/
structure Typing where
  /-- The type of a literal, or of a name that no function declares. -/
  constant : String → Option TypeName
  binary : String → TypeName → TypeName → Option TypeName
  negate : TypeName → Option TypeName
  call : String → List TypeName → Option TypeName
  /-- What numbers of two different types are converted to if it is open which of them is used. -/
  common : TypeName → TypeName → Option TypeName

/-- There is only one type of numbers. -/
def Typing.only (type : TypeName) : Typing where
  constant _ := some type
  binary _ _ _ := some type
  negate _ := some type
  call _ _ := some type
  common _ _ := some type

/-- The numbers of a C++ implementation. -/
structure Machine (V : Type) where
  typing : Typing
  /-- The value of a literal, or of a name that no function declares. -/
  constant : String → Option V
  binary : String → V → V → Option V
  negate : V → Option V
  call : String → List V → Option V
  convert : TypeName → V → Option V
  truth : V → Option Bool
  index : V → Option Int

/-- What a declaration stands for. -/
inductive Object (V : Type) where
  | scalar (type : TypeName) (value : Option V)
  /-- A pointer, with the content of the scalar that it points to. -/
  | pointer (type : TypeName) (value : Option V)
  | array (type : TypeName) (extents : List Int) (elements : List Int → Option V)

/-- What an object holds. -/
def Object.content {V : Type} : Object V → Content V
  | .scalar _ value | .pointer _ value => .scalar value
  | .array _ _ elements => .array elements

/-- The objects of the declarations that are visible, the latest first. -/
abbrev Env (V : Type) := List (String × Object V)

namespace Env

variable {V : Type}

/-- The objects with another one for the latest declaration of a name. -/
def assign (name : String) (object : Object V) : Env V → Env V
  | [] => []
  | (other, o) :: rest =>
    if other = name then (other, object) :: rest else (other, o) :: assign name object rest

/-- The objects behind a block in front of which there were so many. -/
def leave (env : Env V) (outside : Nat) : Env V :=
  env.drop (env.length - outside)

/-- The value of what a pointer points to. -/
def targetValue (env : Env V) (pointer : String) : Option V :=
  match env.lookup pointer with
  | some (.pointer _ value) => value
  | _ => none

/-- The value of an element of an array. -/
def elementValue (env : Env V) (array : String) (indices : List Int) : Option V :=
  match env.lookup array with
  | some (.array _ extents elements) => if inBounds extents indices then elements indices else none
  | _ => none

/-- The type of what a pointer points to. -/
def targetType (env : Env V) (pointer : String) : Option TypeName :=
  match env.lookup pointer with
  | some (.pointer type _) => some type
  | _ => none

/-- The type of the elements of an array. -/
def elementType (env : Env V) (array : String) : Option TypeName :=
  match env.lookup array with
  | some (.array type _ _) => some type
  | _ => none

end Env

namespace Machine

variable {V : Type} (m : Machine V)

/-! ## Types -/

/-- A number of a type is what some number is converted to. -/
def HasType (type : TypeName) (value : V) : Prop :=
  ∃ other, m.convert type other = some value

/-- The type of a name. -/
def nameType (env : Env V) (name : String) : Option TypeName :=
  match env.lookup name with
  | none => m.typing.constant name
  | some (.scalar type _) => some type
  | some _ => none

/-- The common type of the branches of a conditional. -/
def commonType (onTrue onFalse : TypeName) : Option TypeName :=
  if onTrue = onFalse then some onTrue else m.typing.common onTrue onFalse

mutual

/-- The type of an expression. -/
def typeOf (env : Env V) : Expr → Option TypeName
  | .number text => m.typing.constant text
  | .name name => m.nameType env name
  | .target pointer => env.targetType pointer
  | .element array _ => env.elementType array
  | .negate operand => do m.typing.negate (← typeOf env operand)
  | .paren inner => typeOf env inner
  | .binary operator lhs rhs => do m.typing.binary operator (← typeOf env lhs) (← typeOf env rhs)
  | .conditional _ onTrue onFalse => do m.commonType (← typeOf env onTrue) (← typeOf env onFalse)
  | .call function args => do m.typing.call function (← typesOf env args)
termination_by structural e => e

/-- The types of arguments. -/
def typesOf (env : Env V) : List Expr → Option (List TypeName)
  | [] => some []
  | arg :: rest => do return (← typeOf env arg) :: (← typesOf env rest)
termination_by structural es => es

end

/-- What the branch of a conditional that is taken is converted to, given the types of both. Nothing
is converted if they are the same. -/
def merge (onTrue onFalse : TypeName) (value : V) : Option V :=
  if onTrue = onFalse then some value else do m.convert (← m.typing.common onTrue onFalse) value

/-! ## Expressions -/

/-- The value of a name. -/
def nameValue (env : Env V) (name : String) : Option V :=
  match env.lookup name with
  | none => m.constant name
  | some (.scalar _ value) => value
  | some _ => none

mutual

/-- The value of an expression. -/
def eval (env : Env V) : Expr → Option V
  | .number text => m.constant text
  | .name name => m.nameValue env name
  | .target pointer => env.targetValue pointer
  | .element array indices => do env.elementValue array (← evalIndices env indices)
  | .negate operand => do m.negate (← eval env operand)
  | .paren inner => eval env inner
  | .binary operator lhs rhs => do m.binary operator (← eval env lhs) (← eval env rhs)
  | .conditional condition onTrue onFalse => do
    let holds ← m.truth (← eval env condition)
    let value ← (if holds then eval env onTrue else eval env onFalse)
    m.merge (← m.typeOf env onTrue) (← m.typeOf env onFalse) value
  | .call function args => do m.call function (← evalArgs env args)
termination_by structural e => e

/-- The values of subscripts. -/
def evalIndices (env : Env V) : List Expr → Option (List Int)
  | [] => some []
  | index :: rest => do return (← m.index (← eval env index)) :: (← evalIndices env rest)
termination_by structural es => es

/-- The values of arguments. -/
def evalArgs (env : Env V) : List Expr → Option (List V)
  | [] => some []
  | arg :: rest => do return (← eval env arg) :: (← evalArgs env rest)
termination_by structural es => es

end

/-! ## Statements -/

/-- Sets the scalar that a name is declared as. -/
def setName (env : Env V) (name : String) (value : V) : Option (Env V) :=
  match env.lookup name with
  | some (.scalar type _) => do
    return env.assign name (.scalar type (some (← m.convert type value)))
  | _ => none

/-- Sets what a pointer points to. -/
def setTarget (env : Env V) (pointer : String) (value : V) : Option (Env V) :=
  match env.lookup pointer with
  | some (.pointer type _) => do
    return env.assign pointer (.pointer type (some (← m.convert type value)))
  | _ => none

/-- Sets an element of an array. -/
def setElement (env : Env V) (array : String) (indices : List Int) (value : V) :
    Option (Env V) :=
  match env.lookup array with
  | some (.array type extents elements) =>
    if inBounds extents indices then do
      let value ← m.convert type value
      return env.assign array (.array type extents (HlsEmit.setElement elements indices value))
    else none
  | _ => none

/-- Sets what an expression refers to. -/
def store (env : Env V) (target : Expr) (value : V) : Option (Env V) :=
  match target with
  | .name name => m.setName env name value
  | .target pointer => m.setTarget env pointer value
  | .element array indices => do m.setElement env array (← m.evalIndices env indices) value
  | _ => none

/-- The extents of an array. -/
def extents (texts : List String) : Option (List Int) :=
  texts.mapM fun text => do m.index (← m.constant text)

/-- An object without a content; a scalar if there are no extents. -/
def blank (type : TypeName) (extents : List String) : Option (Object V) :=
  match extents with
  | [] => some (.scalar type none)
  | extents => do return .array type (← m.extents extents) fun _ => none

/-- Declares a scalar with a content. The name is visible where the content is computed. -/
def define (env : Env V) (type : TypeName) (name : String) (value : Expr) :
    Option (Env V) := do
  let value ← m.convert type (← m.eval ((name, .scalar type none) :: env) value)
  return (name, .scalar type (some value)) :: env

/-- What a loop does behind each iteration. -/
def advance (env : Env V) : Advance → Option (Env V)
  | .add target step => do
    m.store env target (← m.binary "+" (← m.eval env target) (← m.eval env step))
  | .increment target => do
    m.store env target (← m.binary "+" (← m.eval env target) (← m.constant "1"))

mutual

/-- The objects behind a statement. -/
def exec (limit : Nat) : Stmt → Env V → Option (Env V)
  | .declare type name extents, env => do return (name, ← m.blank type extents) :: env
  | .define type name value, env => m.define env type name value
  | .assign target value, env => do m.store env target (← m.eval env value)
  | .loop type index first test advance body, env => do
    let inside ← m.define env type index first
    let behind ← iterate (fun env => do m.truth (← m.eval env test))
      (fun env => do m.advance ((← execAll limit body env).leave env.length) advance) limit inside
    return behind.leave env.length
  | .branch condition onTrue none, env => do
    if ← m.truth (← m.eval env condition) then
      return (← execAll limit onTrue env).leave env.length
    else some env
  | .branch condition onTrue (some onFalse), env => do
    if ← m.truth (← m.eval env condition) then
      return (← execAll limit onTrue env).leave env.length
    else return (← execAll limit onFalse env).leave env.length
termination_by structural stmt => stmt

/-- The objects behind some statements. -/
def execAll (limit : Nat) : List Stmt → Env V → Option (Env V)
  | [], env => some env
  | stmt :: rest, env => do execAll limit rest (← exec limit stmt env)
termination_by structural stmts => stmts

end

/-! ## Functions -/

/-- The object of a parameter. Objects that are handed over hold numbers of its type. -/
def argument (param : Param) (content : Content V) : Option (Object V) :=
  match param.extents, param.pointer, content with
  | [], false, .scalar none => some (.scalar param.type none)
  | [], false, .scalar (some value) => do
    return .scalar param.type (some (← m.convert param.type value))
  | [], true, .scalar value => some (.pointer param.type (value.bind (m.convert param.type)))
  | extents@(_ :: _), false, .array elements => do
    return .array param.type (← m.extents extents) fun indices =>
      (elements indices).bind (m.convert param.type)
  | _, _, _ => none

/-- The objects of all parameters. -/
def arguments (env : Env V) : List Param → List (Content V) → Option (Env V)
  | [], [] => some env
  | param :: params, content :: contents => do
    arguments ((param.name, ← m.argument param content) :: env) params contents
  | _, _ => none

/-- The contents of the parameters behind a call of a function. -/
def run (limit : Nat) (function : Function) (contents : List (Content V)) :
    Option (List (Content V)) := do
  let env ← m.arguments [] function.params contents
  let behind := (← m.execAll limit function.body env).leave env.length
  function.params.mapM fun param => (behind.lookup param.name).map Object.content

/-- The text of a function computes these contents, however often its loops are run through. -/
def Computes (text : String) (inputs outputs : List (Content V)) : Prop :=
  ∃ function limit, readFunction text = some function ∧ m.run limit function inputs = some outputs

end Machine

end HlsEmit.Cpp
