import HlsEmit.Code.Layout
import HlsEmit.Emission.Operation

/-!
# Functions and modules

`Module.emit` is the whole emission: the text of the generated program with all reports. A module
that mentions values outside of its value table is not emitted at all; in every other case there is
a text, however many problems are reported.
-/

namespace HlsEmit

open Code

/-- The remarks in front of a function. -/
def FuncAttrs.remarks (attrs : FuncAttrs) : List String :=
  let interval := match attrs.interval with
    | some interval => ", II=" ++ toString interval.toInt
    | none => ""
  (if attrs.topFunction then ["This is top function."] else [])
    ++ (attrs.latency.map fun latency => "Latency=" ++ toString latency.toInt ++ interval).toList
    ++ (attrs.dsp.map fun dsp => "DSP=" ++ toString dsp.toInt).toList

/-- The number of returns in the first block of a function. -/
def Function.returnCount (function : Function) : Nat :=
  (function.blocks.head?.elim [] BlockOf.ops).countP fun op => op.kind = .ret

namespace Emission

/-! ## Signatures -/

/-- The declarators of the arguments. -/
def arguments : List ValueId → Emission (List Declarator)
  | [] => return []
  | arg :: rest => do
    let first ← declarator none arg
    return first :: (← arguments rest)

/-- The declarator of a returned value: an array as it is, a scalar as a pointer. That the value is
bound already is reported. -/
def returned (ret : Op) (id : ValueId) : Emission Declarator := do
  if ← isBound id then
    raise (some ret) (.boundInSignature id)
    return ⟨← mention (some ret) id, []⟩
  if (← info id).isShaped then arrayDeclarator (some ret) id
  else return ⟨← pointerMention (some ret) id, []⟩

/-- The declarators of some returned values. -/
def returnedAll (ret : Op) : List ValueId → Emission (List Declarator)
  | [] => return []
  | id :: rest => do
    let first ← returned ret id
    return first :: (← returnedAll ret rest)

/-! ## Functions -/

/-- Reports a body that is not one block, and one with several returns. -/
def checkStructure (function : Function) : Emission Unit := do
  if function.blocks.length ≠ 1 then raise none (.blockCount function.blocks.length)
  if 1 < function.returnCount then raise none (.returnCount function.returnCount)

/-- The operation that ends the first block of a function properly. That there is none is
reported. -/
def returnOp? (function : Function) : Emission (Option Op) := do
  let ret := function.blocks.head?.bind BlockOf.returnOp?
  if ret.isNone then raise none .unterminated
  return ret

/-- The declarators of what a function returns. -/
def results : Option Op → Emission (List Declarator)
  | some ret => returnedAll ret ret.operands
  | none => return []

/-- The statements of the first block of a function. -/
def body : List Block → Emission (List Stmt)
  | block :: _ => ofBlock none block
  | [] => return []

/-- The code of a function. The ports are its arguments and the values that it returns. -/
def function (function : Function) : Emission FunctionCode :=
  inFunction function.name do
    checkStructure function
    let arguments ← arguments function.args
    let ret ← returnOp? function
    let results ← results ret
    let pragmas ← functionPragmas function.attrs (function.args ++ ret.elim [] Op.operands)
    let body ← body function.blocks
    return {
      name := function.name
      remarks := function.attrs.remarks
      ports := arguments ++ results
      note := { line := function.line }
      body := pragmas ++ body }

/-- The code of several functions, in order. -/
def functions : List Function → Emission (List FunctionCode)
  | [] => return []
  | first :: rest => do
    let code ← function first
    return code :: (← functions rest)

end Emission

/-! ## Modules -/

/-- The result of an emission. -/
structure Emitted where
  /-- The generated program; nothing if the module was not emitted. -/
  text : String
  diagnostics : List Diagnostic
deriving Repr

namespace Emitted

/-- Whether the text must not be used. -/
def hasErrors (emitted : Emitted) : Bool :=
  emitted.diagnostics.any Diagnostic.isError

/-- The number of errors. -/
def errorCount (emitted : Emitted) : Nat :=
  HlsEmit.errorCount emitted.diagnostics

end Emitted

/-- The code of a module without dangling values, with what was left behind. -/
def Module.program (module : Module) (includes : List String) : Outcome Program :=
  (do return ⟨includes, ← Emission.functions module.functions⟩ : Emission Program).run
    { values := module.values } .empty

/-- The generated program of a module, with extra headers. -/
def Module.emit (module : Module) (includes : List String) : Emitted :=
  match module.dangling with
  | [] =>
    let outcome := module.program includes
    ⟨outcome.value.text, outcome.raised⟩
  | dangling => ⟨"", dangling.map fun id => (Problem.dangling id).report {}⟩

/-- What the emission of a module looks up where nothing is. Nothing is looked up in a module that
is not emitted. -/
def Module.overruns (module : Module) (includes : List String) : List Overrun :=
  match module.dangling with
  | [] => (module.program includes).overruns
  | _ => []

/-! ## Appending to a text -/

/-- Why a module could not be appended. -/
structure EmitFailure where
  diagnostics : List Diagnostic
deriving Repr

namespace EmitFailure

/-- The number of errors. -/
def errorCount (failure : EmitFailure) : Nat :=
  HlsEmit.errorCount failure.diagnostics

/-- The wording of the failure. -/
def message (failure : EmitFailure) : String :=
  "emission failed with " ++ toString failure.errorCount ++ " error(s)"

end EmitFailure

/-- Appends the generated program to a text. The text grows also if there are errors; without any,
the result holds the warnings. -/
def Module.emitOnto (module : Module) (text : String) :
    Except EmitFailure (List Diagnostic) × String :=
  let emitted := module.emit []
  let outcome :=
    if emitted.hasErrors then .error ⟨emitted.diagnostics⟩ else .ok emitted.diagnostics
  (outcome, text ++ emitted.text)

end HlsEmit
