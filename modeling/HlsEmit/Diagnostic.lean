import HlsEmit.Naming
import HlsEmit.Model.Operation

/-!
# Diagnostics

Emission never stops at a problem: it reports a diagnostic and goes on. A `Diagnostic` says how
severe the problem is, where in the model it was met, and what it is.

`Problem` lists all problems that emission can meet, each with the data that its message needs.
`Problem.report` is the only place where a problem becomes a diagnostic.
-/

namespace HlsEmit

/-! ## Diagnostics -/

/-- How severe a problem is. -/
inductive Severity where
  | error
  | warning
deriving DecidableEq, Repr, Inhabited

/-- The four classes of errors. -/
inductive ErrorClass where
  | structural
  | shape
  | type
  | unsupported
deriving DecidableEq, Repr

/-- The name of a class. -/
def ErrorClass.name : ErrorClass → String
  | .structural => "StructuralError"
  | .shape => "ShapeError"
  | .type => "TypeError"
  | .unsupported => "UnsupportedOperationError"

/-- The class that a code belongs to, by its first three characters. -/
def errorClass? (code : String) : Option ErrorClass :=
  match code.toList.take 3 with
  | ['E', '0', '1'] => some .structural
  | ['E', '0', '2'] => some .shape
  | ['E', '0', '3'] => some .type
  | ['E', '0', '4'] => some .unsupported
  | _ => none

/-- Where in the model a problem was met. -/
structure Origin where
  function : Option String := none
  /-- The mnemonic of an operation. -/
  op : Option String := none
  line : Option UInt32 := none
deriving DecidableEq, Repr, Inhabited

namespace Origin

/-- Whether nothing is known about the place. -/
def isEmpty (origin : Origin) : Bool :=
  origin.function.isNone && origin.op.isNone && origin.line.isNone

/-- The known parts of the place, separated by blanks. -/
def text (origin : Origin) : String :=
  " ".intercalate <|
    (origin.function.map fun name => "@" ++ name).toList ++
    origin.op.toList ++
    (origin.line.map fun line => "L" ++ toString line.toNat).toList

end Origin

/-- One report about a model. -/
structure Diagnostic where
  severity : Severity
  code : Option String := none
  origin : Origin := {}
  message : String
  /-- What to do about it. -/
  hint : Option String := none
deriving DecidableEq, Repr, Inhabited

namespace Diagnostic

/-- Whether the report stops the generated code from being used. -/
def isError (diagnostic : Diagnostic) : Bool :=
  diagnostic.severity = .error

/-- The class of an error. -/
def errorClass? (diagnostic : Diagnostic) : Option ErrorClass :=
  diagnostic.code.bind HlsEmit.errorClass?

/-- The report as it is shown. -/
def text (diagnostic : Diagnostic) : String :=
  let severity := match diagnostic.severity with
    | .error => "error"
    | .warning => "warning"
  let code := match diagnostic.code with
    | some code => "[" ++ code ++ "]"
    | none => ""
  let origin := if diagnostic.origin.isEmpty then "" else diagnostic.origin.text ++ ": "
  let hint := match diagnostic.hint with
    | some hint => "\n  hint: " ++ hint
    | none => ""
  severity ++ code ++ ": " ++ origin ++ diagnostic.message ++ hint

end Diagnostic

/-- The number of errors among some reports. -/
def errorCount (diagnostics : List Diagnostic) : Nat :=
  diagnostics.countP Diagnostic.isError

/-! ## Problems -/

/-- Everything that may be wrong with a module. -/
inductive Problem where
  -- Structure
  | blockCount (blocks : Nat)
  | returnCount (returns : Nat)
  | unterminated
  | boundInSignature (id : ValueId)
  | naming (error : NameError)
  | boundShape (bound : AffineBound) (needed : Nat)
  | setShape (inputs operands : Nat)
  | noNestIndices
  | stepCount (steps loops : Nat)
  | mapShape (map : AffineMap) (operands : Nat)
  | arity (needed found : Counts)
  | noLoopIndex
  | yieldCount (values results : Nat)
  | roleCount (routine : String) (roles : List String) (operands : Nat)
  | openPlaceholder (routine key : String)
  | dangling (id : ValueId)
  -- Shapes
  | dynamicShape (id : ValueId)
  | dynamicDim (id : ValueId)
  | missingExtent (routine : String) (dim : Nat) (role : String)
  | extentOverflow (routine key lhs rhs : String)
  | dimRange (index : Int64) (rank : Nat)
  | dimNotConstant
  | unranked (id : ValueId)
  -- Types
  | noElemType (elem : ElemType) (id : ValueId)
  | constantPayload (id : ValueId)
  | denseElement (id : ValueId)
  | noOperator (predicate : CmpFPredicate)
  | denseElemType (elem : ElemType)
  | noReduction (result : Nat)
  -- Operations without a rule
  | noRule (name : String)
  | yieldToOp (owner : String)
  | yieldToFunction
  -- Warnings
  | noMemoryCore (memory : MemoryKind) (port : String)
deriving DecidableEq, Repr

namespace Problem

/-- The stable code of a problem. The hundreds digit tells the class. -/
def code : Problem → String
  | .blockCount _ => "E0100"
  | .returnCount _ | .unterminated => "E0101"
  | .boundInSignature _ => "E0102"
  | .naming _ => "E0103"
  | .boundShape .. | .setShape .. | .noNestIndices | .stepCount .. | .mapShape .. => "E0104"
  | .arity .. | .noLoopIndex | .yieldCount .. | .roleCount .. | .openPlaceholder .. => "E0105"
  | .dangling _ => "E0106"
  | .dynamicShape _ | .dynamicDim _ | .missingExtent .. | .extentOverflow .. => "E0200"
  | .dimRange .. => "E0201"
  | .dimNotConstant => "E0202"
  | .unranked _ => "E0203"
  | .noElemType .. => "E0300"
  | .constantPayload _ | .denseElement _ => "E0301"
  | .noOperator _ => "E0302"
  | .denseElemType _ => "E0303"
  | .noReduction _ => "E0304"
  | .noRule _ => "E0400"
  | .yieldToOp _ | .yieldToFunction => "E0401"
  | .noMemoryCore .. => "W0500"

/-- All problems are errors but for a memory kind that is replaced by another. -/
def severity : Problem → Severity
  | .noMemoryCore .. => .warning
  | _ => .error

/-- A value in a message. -/
def valueText (id : ValueId) : String :=
  "value %" ++ toString id.index

/-- The wording of a problem. -/
def message : Problem → String
  | .blockCount blocks =>
    "function body has " ++ toString blocks ++ " blocks; expected exactly one"
  | .returnCount returns =>
    "function body has " ++ toString returns ++ " return operations; expected exactly one"
  | .unterminated => "function body is not terminated by a return operation"
  | .boundInSignature id => valueText id ++ " is already bound in the signature"
  | .naming error => error.message
  | .boundShape bound needed =>
    "bound map takes " ++ toString bound.map.inputs ++ " input(s) and yields "
      ++ toString bound.map.results.length ++ " result(s); given "
      ++ toString bound.operands.length ++ " operand(s), need " ++ toString needed ++ " result(s)"
  | .setShape inputs operands =>
    "integer set takes " ++ toString inputs ++ " input(s); given " ++ toString operands
      ++ " operand(s)"
  | .noNestIndices => "parallel nest has no induction variables"
  | .stepCount steps loops =>
    toString steps ++ " step(s) given for " ++ toString loops ++ " dimension(s)"
  | .mapShape map operands =>
    "map takes " ++ toString map.inputs ++ " input(s) and yields " ++ toString map.results.length
      ++ " result(s); given " ++ toString operands ++ " operand(s)"
  | .arity needed found =>
    "expected at least " ++ toString needed.operands ++ " operand(s), "
      ++ toString needed.results ++ " result(s), "
      ++ toString needed.regions ++ " region(s); found "
      ++ toString found.operands ++ ", " ++ toString found.results ++ ", "
      ++ toString found.regions
  | .noLoopIndex => "loop body has no induction variable"
  | .yieldCount values results =>
    "yield carries " ++ toString values ++ " value(s) for " ++ toString results ++ " result(s)"
  | .roleCount routine roles operands =>
    routine ++ " expects " ++ toString roles.length ++ " operands (" ++ ", ".intercalate roles
      ++ "); found " ++ toString operands
  | .openPlaceholder routine key =>
    routine ++ " template has unresolved placeholder `" ++ key ++ "`"
  | .dangling id => valueText id ++ " is referenced but not defined in the value table"
  | .dynamicShape id | .dynamicDim id => valueText id ++ " is unranked or has a dynamic shape"
  | .missingExtent routine dim role =>
    routine ++ " needs static dimension " ++ toString dim ++ " of operand `" ++ role ++ "`"
  | .extentOverflow routine key lhs rhs =>
    routine ++ " extent `" ++ key ++ "` = " ++ lhs ++ " * " ++ rhs ++ " overflows"
  | .dimRange index rank =>
    "dimension index " ++ toString index.toInt ++ " is out of range for rank " ++ toString rank
  | .dimNotConstant => "dimension index is not a constant"
  | .unranked id => valueText id ++ " is unranked"
  | .noElemType elem id =>
    "element type " ++ elem.label ++ " of " ++ valueText id ++ " has no C++ rendering"
  | .constantPayload id =>
    "constant %" ++ toString id.index ++ " carries an unsupported payload"
  | .denseElement id =>
    "dense constant %" ++ toString id.index ++ " has a non-scalar element"
  | .noOperator predicate => "comparison predicate " ++ predicate.label ++ " has no C++ operator"
  | .denseElemType elem => "dense constant element type " ++ elem.label ++ " is unsupported"
  | .noReduction result =>
    "result " ++ toString result ++ " of the parallel nest has no reduction kind"
  | .noRule name => "operation `" ++ name ++ "` has no emission rule"
  | .yieldToOp owner => "values yielded to `" ++ owner ++ "` have no rendering"
  | .yieldToFunction => "values yielded at function level have no rendering"
  | .noMemoryCore memory port =>
    "memory kind " ++ memory.label ++ " of `" ++ port
      ++ "` has no dedicated core; using ram_s2p_bram"

/-- What to do about a problem, for the two that have an obvious remedy. -/
def hint : Problem → Option String
  | .dynamicShape _ => some "resolve every extent to a constant before emission"
  | .noReduction _ => some "give the nest one reduction kind per yielded value"
  | _ => none

/-- The report of a problem at a place. -/
def report (problem : Problem) (origin : Origin) : Diagnostic :=
  { severity := problem.severity
    code := some problem.code
    origin
    message := problem.message
    hint := problem.hint }

end Problem

end HlsEmit
