import HlsEmit.Emission.Pragmas
import HlsEmit.Proofs.Meaning.Expression
import HlsEmit.Proofs.Scoping.Basic

/-!
# Pragmas have no meaning

Pragmas are lines of their own, and no part of the syntax of the generated code.
-/

namespace HlsEmit

open Code

/-- Lines that are no part of the syntax of the generated code. -/
structure Silent (stmts : List Stmt) : Prop where
  cpp : stmtsCpp stmts = []
  readable : StmtsReadable stmts

namespace Silent

variable {stmts stmts' : List Stmt}

/-- Nothing is silent. -/
theorem nil : Silent [] :=
  ⟨rfl, trivial⟩

/-- Two silent lists are silent together. -/
theorem append (h : Silent stmts) (h' : Silent stmts') : Silent (stmts ++ stmts') :=
  ⟨by rw [stmtsCpp_append, h.cpp, h'.cpp, List.append_nil],
    stmtsReadable_append.2 ⟨h.readable, h'.readable⟩⟩

/-- A pragma of one line is silent. -/
theorem pragma {pragma : Pragma} (h : OneLine pragma.text) : Silent [.pragma pragma] :=
  ⟨rfl, h, trivial⟩

/-- A blank line is silent. -/
theorem blank : Silent [.blank] :=
  ⟨rfl, trivial, trivial⟩

end Silent

/-- A name has no line break. -/
theorem Name.oneLine_identifier (name : Name) : OneLine name.identifier :=
  OneLine.append (by decide) (oneLine_nat name.number)

/-- The port of a value that is no literal is written on one line. -/
theorem Holding.oneLine_portText {arena : Arena} {t : NameTable} {held : ValueId → Prop}
    {id : ValueId} (h : Holding arena t held) (hid : held id)
    (hconst : arena.constantText? id = none) : OneLine (arena.use t id).designator.portText := by
  obtain ⟨name, hname, -⟩ := h.named id hid hconst
  show OneLine (arena.designator t id).portText
  rw [Arena.designator_of_declared hconst hname]
  exact name.oneLine_identifier

/-! ## Texts on one line -/

/-- A pipeline pragma is one line. -/
theorem Code.Pragma.oneLine_pipeline (interval : Int64) : OneLine (Pragma.pipeline interval).text :=
  OneLine.append (by decide) (oneLine_int _)

/-- A resource pragma is one line. -/
theorem Code.Pragma.oneLine_resource {array : Use} {core : String}
    (h : OneLine array.designator.portText) (hcore : OneLine core) :
    OneLine (Pragma.resource array core).text :=
  .append (.append (.append (by decide) h) (by decide)) hcore

/-- A partition pragma is one line. -/
theorem Code.Pragma.oneLine_partition {array : Use} (h : OneLine array.designator.portText)
    (cyclic : Bool) (factor : Int64) (dim : Nat) :
    OneLine (Pragma.partition array cyclic factor dim).text := by
  refine .append (.append (.append (.append (.append (.append (by decide) h) ?_) (by decide))
    (oneLine_int _)) (by decide)) (oneLine_nat _)
  split <;> decide

/-! ## Loops and arrays -/

/-- The pragmas of a loop are silent. -/
theorem OpAttrs.silent_loopPragmas (attrs : OpAttrs) : Silent attrs.loopPragmas := by
  refine .append ?_ ?_
  · split
    · exact .pragma (Pragma.oneLine_pipeline _)
    · exact .nil
  · split
    · exact .pragma (by decide)
    · exact .nil

/-- The partition of an array is silent. -/
theorem silent_partitionPragmas {array : Use} (h : OneLine array.designator.portText) (dim : Nat)
    (parts : List DimPartition) : Silent (partitionPragmas array dim parts) := by
  induction parts generalizing dim with
  | nil => exact .nil
  | cons part rest ih =>
    rw [partitionPragmas]
    split
    · exact ih (dim + 1)
    · exact Silent.append (.pragma (Pragma.oneLine_partition h _ _ _)) (ih (dim + 1))

/-- The memory lines of an array are silent. -/
theorem ValueInfo.silent_memoryPragmas (info : ValueInfo) {array : Use}
    (h : OneLine array.designator.portText) : Silent (info.memoryPragmas array) := by
  have hresource (parts : List Stmt) (hparts : Silent parts) {core : String} (hcore : OneLine core) :
      Silent (.pragma (.resource array core) :: parts ++ [.blank]) :=
    .append (Silent.append (.pragma (Pragma.oneLine_resource h hcore)) hparts) .blank
  refine hresource _ ?_ ?_
  · split
    · exact .nil
    · exact silent_partitionPragmas h 0 _
  · cases info.memory <;> decide

/-- The interface lines of a port are silent. -/
theorem ValueInfo.silent_interfacePragmas (info : ValueInfo) {port : Use}
    (h : OneLine port.designator.portText) : Silent (info.interfacePragmas port) := by
  unfold interfacePragmas
  split
  · exact .pragma (.append (.append (by decide) h) (by decide))
  · split
    · exact .nil
    · exact .pragma (.append (by decide) h)
    · exact .pragma (.append (by decide) h)

namespace Emission

variable {c : Contract} {function : Option String} {t : NameTable} {held : ValueId → Prop}
variable {id : ValueId}

/-- The pragmas of a held array are silent and name nothing. -/
theorem silent_arrayPragmas (op : Option Op) (h : Holding c.arena t held) (hid : held id)
    (hconst : c.arena.constantText? id = none) :
    Places c function t (arrayPragmas op id) fun stmts t' => t' = t ∧ Silent stmts := by
  refine .bindQuiet (info_apply (h.known id hid).listed) ?_
  split
  · exact .pure ⟨rfl, .nil⟩
  · refine .bindQuiet (use_apply id _) ?_
    have hsilent := (c.arena.info id).silent_memoryPragmas (h.oneLine_portText hid hconst)
    dsimp only
    split
    · -- that the kind of memory has no core is only a warning
      refine .bind fun _ => ?_
      exact .pure ⟨rfl, hsilent⟩
    · exact .pure ⟨rfl, hsilent⟩

/-- The interface lines of held ports are silent and name nothing. -/
theorem silent_interfaces (h : Holding c.arena t held) {ids : List ValueId}
    (hids : ∀ id ∈ ids, held id ∧ c.arena.constantText? id = none) :
    Places c function t (interfaces ids) fun stmts t' => t' = t ∧ Silent stmts := by
  induction ids with
  | nil => exact .pure ⟨rfl, .nil⟩
  | cons id rest ih =>
    rw [List.forall_mem_cons] at hids
    have hfirst : (interface id).run ⟨c.arena, function⟩ t =
        ⟨(c.arena.info id).interfacePragmas (c.arena.use t id), t, [], [], []⟩ := by
      unfold interface
      rw [bind_of_quiet (info_apply (h.known id hids.1.1).listed), bind_of_quiet (use_apply _ _),
        pure_apply]
    refine .bindQuiet hfirst (.bind ((ih hids.2).mono ?_))
    rintro stmts t' ⟨rfl, hsilent⟩
    refine .pure ⟨rfl, .append ?_ hsilent⟩
    exact (c.arena.info id).silent_interfacePragmas (h.oneLine_portText hids.1.1 hids.1.2)

/-- The memory lines of held ports are silent and name nothing. -/
theorem silent_portArrayPragmas (h : Holding c.arena t held) {ids : List ValueId}
    (hids : ∀ id ∈ ids, held id ∧ c.arena.constantText? id = none) :
    Places c function t (portArrayPragmas ids) fun stmts t' => t' = t ∧ Silent stmts := by
  induction ids with
  | nil => exact .pure ⟨rfl, .nil⟩
  | cons id rest ih =>
    rw [List.forall_mem_cons] at hids
    have hrest (first : List Stmt) (hfirst : Silent first) :
        Places c function t (do return first ++ (← portArrayPragmas rest)) fun stmts t' =>
          t' = t ∧ Silent stmts := by
      refine .bind ((ih hids.2).mono ?_)
      rintro stmts t' ⟨rfl, hsilent⟩
      exact .pure ⟨rfl, hfirst.append hsilent⟩
    refine .bindQuiet (info_apply (h.known id hids.1.1).listed) ?_
    dsimp only
    -- An array has its lines, a scalar has none.
    split
    · refine .bind ((silent_arrayPragmas none h hids.1.1 hids.1.2).mono ?_)
      rintro first t' ⟨rfl, hfirst⟩
      exact hrest first hfirst
    · exact .bind (.pure (hrest [] .nil))

/-- The first lines of a function body. -/
theorem silent_functionPragmas (attrs : FuncAttrs) (h : Holding c.arena t held)
    {ports : List ValueId} (hports : ∀ id ∈ ports, held id ∧ c.arena.constantText? id = none) :
    Places c function t (functionPragmas attrs ports) fun stmts t' => t' = t ∧ Silent stmts := by
  have hdataflow : Silent (if attrs.dataflow then [.pragma .dataflow, .blank] else []) := by
    -- A top function has the lines of its ports as well.
    split
    · exact Silent.append (.pragma (by decide)) .blank
    · exact .nil
  have hpipeline (interval : Int64) :
      Silent (if attrs.pipeline then [.pragma (.pipeline interval), .blank] else []) := by
    split
    · exact Silent.append (.pragma (Pragma.oneLine_pipeline interval)) .blank
    · exact .nil
  unfold functionPragmas
  dsimp only
  split
  · exact .pure ⟨rfl, hdataflow.append (hpipeline _)⟩
  · refine .bind ((silent_interfaces h hports).mono ?_)
    rintro interfaces t' ⟨rfl, hinterfaces⟩
    refine .bind ((silent_portArrayPragmas h hports).mono ?_)
    rintro arrays t'' ⟨rfl, harrays⟩
    refine .pure ⟨rfl, ((hdataflow.append (hpipeline _)).append ?_).append ?_⟩
    · exact Silent.append (.pragma (by decide)) hinterfaces
    · exact Silent.append .blank harrays

end Emission

end HlsEmit
