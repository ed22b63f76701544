import HlsEmit.Construction.Step

/-!
# Scripts of modules

A `Script` is a list of calls on a module: calls that add values, and calls that construct a
function whose body is filled by steps. The functions are handed out as they are constructed; the
caller finishes the module with a list of them (`Script.finishWith`), which may leave some out, change
their order, or hold copies. `Script.run` finishes it with all of them and gives the log besides.
-/

namespace HlsEmit.Construction

/-- One call on a module. -/
inductive ModuleStep where
  | scalar (elem : ElemType)
  | array (elem : ElemType) (extents : List Int64)
  | shaped (elem : ElemType) (shape : Shape)
  | add (info : ValueInfo)
  /-- Asks for a table entry. -/
  | info (id : ValueId)
  /-- A function whose only block is filled by steps. -/
  | function (name : String) (args : List ValueId) (body : List Step) (attrs : FuncAttrs)
      (line : Option UInt32)
deriving Repr

/-- Adds a value and records it. -/
def addValue (call : String) (info : ValueInfo) : Construction (List Function) := do
  record (.allocated call [← add info])
  return []

/-- Makes a call; the result are the functions that it constructs. -/
def ModuleStep.run : ModuleStep → Construction (List Function)
  | .scalar elem => addValue "scalar" { elem }
  | .array elem extents => addValue "array" { elem, shape := .fixed extents }
  | .shaped elem shape => addValue "shaped" { elem, shape }
  | .add entry => addValue "add" entry
  | .info id => do
    record (.looked (← info? id))
    return []
  | .function name args body attrs line => do
    let ops ← runAll body
    record (.allocated "function" args)
    return [{ name, args, attrs, blocks := [⟨[], ops⟩], line }]

/-- The calls that construct a module. -/
abbrev Script : Type :=
  List ModuleStep

namespace Script

/-- Makes several calls, in order; the result are the functions that they construct. -/
def functions : Script → Construction (List Function)
  | [] => return []
  | step :: rest => do
    let first ← step.run
    return first ++ (← functions rest)

/-- The functions that a script constructs, in order. -/
def built (script : Script) : List Function :=
  ((functions script).run {}).1

/-- What the calls of a script leave behind. -/
def draft (script : Script) : Draft :=
  ((functions script).run {}).2

/-- The module that is finished with some functions behind all calls of a script. -/
def finishWith (script : Script) (finished : List Function) : Module :=
  ⟨script.draft.values, finished⟩

/-- The module of all functions that a script constructs, with the log of its calls. -/
def run (script : Script) : Module × List Record :=
  (script.finishWith script.built, script.draft.log)

end Script

end HlsEmit.Construction
