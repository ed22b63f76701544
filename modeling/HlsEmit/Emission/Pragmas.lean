import HlsEmit.Emission.Basic

/-!
# Pragmas

Directives for the synthesis tool. They are a function of the attributes and of the placement of
arrays; they never declare a value.
-/

namespace HlsEmit

open Code

/-- The first lines inside of a loop. -/
def OpAttrs.loopPragmas (attrs : OpAttrs) : List Stmt :=
  (if attrs.pipeline then [.pragma (.pipeline (attrs.targetInterval.getD 1))] else [])
    ++ (if attrs.unroll then [.pragma .unroll] else [])

/-- The partition pragmas of an array; `dim` is the position of the first part. Dimensions that stay
in one bank have none. -/
def partitionPragmas (array : Use) : (dim : Nat) → List DimPartition → List Stmt
  | _, [] => []
  | dim, part :: rest =>
    let others := partitionPragmas array (dim + 1) rest
    if part.factor = 1 ∨ part.kind = .none then others
    else .pragma (.partition array (part.kind = .cyclic) part.factor (dim + 1)) :: others

namespace MemoryKind

/-- The memory core of an on-chip kind that has one of its own. -/
def core? : MemoryKind → Option String
  | .bram1p => some "ram_1p_bram"
  | .bramS2p => some "ram_s2p_bram"
  | .bramT2p => some "ram_t2p_bram"
  | _ => Option.none

/-- The memory core of all other kinds. -/
def defaultCore : String := "ram_s2p_bram"

end MemoryKind

/-- Where an array on the chip is placed, with a blank line behind it. -/
def ValueInfo.memoryPragmas (info : ValueInfo) (array : Use) : List Stmt :=
  let core := info.memory.core?.getD MemoryKind.defaultCore
  let parts := match info.layout with
    | none => []
    | some layout => partitionPragmas array 0 layout.dims
  .pragma (.resource array core) :: parts ++ [.blank]

/-- The interface of a port. Arrays without a placement have none. -/
def ValueInfo.interfacePragmas (info : ValueInfo) (port : Use) : List Stmt :=
  if !info.isShaped then [.pragma (.scalarInterface port)]
  else match info.memory with
    | .none => []
    | .dram => [.pragma (.axiInterface port)]
    | _ => [.pragma (.bramInterface port)]

namespace Emission

/-- The pragmas of an array on the chip, with a blank line behind them; none for other arrays. That
a memory kind has no core of its own is a warning. -/
def arrayPragmas (op : Option Op) (id : ValueId) : Emission (List Stmt) := do
  let info ← info id
  if !info.memory.isOnChip then return []
  let array ← use id
  if info.memory.core?.isNone then
    raise op (.noMemoryCore info.memory array.designator.portText)
  return info.memoryPragmas array

/-- The interface of a port. -/
def interface (id : ValueId) : Emission (List Stmt) := do
  let info ← info id
  return info.interfacePragmas (← use id)

/-- The interfaces of all ports, in order. -/
def interfaces : List ValueId → Emission (List Stmt)
  | [] => return []
  | port :: rest => do
    let first ← interface port
    return first ++ (← interfaces rest)

/-- The array pragmas of all ports that are arrays, in order. -/
def portArrayPragmas : List ValueId → Emission (List Stmt)
  | [] => return []
  | port :: rest => do
    let first ← if (← info port).isShaped then arrayPragmas none port else pure []
    return first ++ (← portArrayPragmas rest)

/-- The first lines of a function body. Only the top function has interfaces. -/
def functionPragmas (attrs : FuncAttrs) (ports : List ValueId) : Emission (List Stmt) := do
  let dataflow : List Stmt := if attrs.dataflow then [.pragma .dataflow, .blank] else []
  let pipeline : List Stmt :=
    if attrs.pipeline then [.pragma (.pipeline (attrs.targetInterval.getD 1)), .blank] else []
  if !attrs.topFunction then return dataflow ++ pipeline
  let interfaces ← interfaces ports
  let arrays ← portArrayPragmas ports
  return dataflow ++ pipeline ++ .pragma .returnInterface :: interfaces ++ .blank :: arrays

end Emission

end HlsEmit
