import HlsEmit.Proofs.Construction.Steps
import Mathlib.Data.List.Flatten
import Mathlib.Data.List.Nodup
import Mathlib.Data.List.Perm.Subperm

/-!
# Modules that are constructed call by call

Whoever passes only values that were given out, and pushes no operations as they are, constructs a
module that is in order: its values are numbered as they were added, none is missing from the table,
and every operation has the parts that its kind needs. So the emission of the module has nothing to
report about any of this, whatever its functions do.

The functions are handed out before the module is finished, and the caller may finish it with any of
them. No value is defined twice if none is used more often than it was constructed; a copy of a
function defines the values of the function again (`rectifiedSum_finished_twice`).

## Key results

- `Construction.Script.builds`: the account of all calls of a script
- `Module.no_arity_report`: no operation is reported to lack something if all have their parts
- `Construction.Script.wellBuilt`: the module that a script is finished with, and the calls that
  construct it
-/

namespace HlsEmit

namespace Construction

/-! ## Scripts -/

/-- What some calls on a module construct. -/
abbrev BuildsFunctions (draft : Draft) (calls : List Call)
    (outcome : List Function × Draft) : Prop :=
  Builds draft calls (outcome.1.flatMap fun function => withinBlocks function.blocks)
    (outcome.1.flatMap Function.mentioned) outcome.2

variable {draft : Draft}

/-- A value is added by one call. -/
theorem builds_addValue (hdraft : draft.Dense) (name : String) (info : ValueInfo) :
    BuildsFunctions draft [⟨draft, [], [((add info).run draft).1], [], false⟩]
      ((addValue name info).run draft) := by
  have hadds := Adds.add hdraft info
  exact .silent ⟨draft, [], [((add info).run draft).1], [], false⟩ hdraft rfl
    (hadds.record name hadds.index_lt)

/-- A function is built by the calls of its body, between those that open and close it. -/
theorem builds_function (hdraft : draft.Dense) (name : String) {args : List ValueId}
    {body : List Step} (attrs : FuncAttrs) (line : Option UInt32)
    (hproper : ∀ call ∈ (ModuleStep.function name args body attrs line).calls draft, call.Proper) :
    BuildsFunctions draft ((ModuleStep.function name args body attrs line).calls draft)
      ((ModuleStep.function name args body attrs line).run.run draft) := by
  rw [ModuleStep.calls, List.forall_mem_cons] at hproper
  have hbody := runAll_builds body hdraft hproper.2
  have hgrows := hbody.adds.size
  have hargs : ∀ id ∈ args, id.index < ((runAll body).run draft).2.values.size := by
    intro id hid
    have hindex := hdraft.known id (hproper.1.known id hid)
    omega
  have houter : Builds draft [⟨draft, args, [], [], false⟩] [] [] draft :=
    .silent ⟨draft, args, [], [], false⟩ hdraft rfl (.nil hdraft)
  -- the call adds nothing by itself; the arguments are mentioned besides what the body mentions
  have hfunction := ((houter.append hbody).mention hargs).record "function" hargs
  let ops := ((runAll body).run draft).1
  have hops : withinBlocks [⟨[], ops⟩] ++ [] = withinOps ops := by
    rw [List.append_nil, withinBlocks_singleton]
  have hids : (args ++ mentionedInBlocks [⟨[], ops⟩]) ++ [] = args ++ mentionedInOps ops := by
    rw [List.append_nil, mentionedInBlocks_singleton, List.nil_append]
  rw [List.nil_append, List.nil_append, ← hops, ← hids] at hfunction
  exact hfunction

/-- What a call on a module constructs. -/
theorem ModuleStep.builds (step : ModuleStep) (hdraft : draft.Dense)
    (hproper : ∀ call ∈ step.calls draft, call.Proper) :
    BuildsFunctions draft (step.calls draft) (step.run.run draft) := by
  cases step with
  | scalar elem => exact builds_addValue hdraft "scalar" _
  | array elem extents => exact builds_addValue hdraft "array" _
  | shaped elem shape => exact builds_addValue hdraft "shaped" _
  | add entry => exact builds_addValue hdraft "add" entry
  | info id =>
    have hdense : ((ModuleStep.info id).run.run draft).2.Dense := by
      refine ⟨hdraft.numbered, fun id' hid => hdraft.known id' ?_⟩
      have hlog : id' ∈ (draft.log ++ [Record.looked (draft.values.info? id)]).flatMap Record.ids :=
        hid
      simpa [Draft.known, Record.ids] using hlog
    exact .silent ⟨draft, [id], [], [], false⟩ hdraft rfl ⟨hdense, List.prefix_rfl, rfl, rfl⟩
  | function name args body attrs line => exact builds_function hdraft name attrs line hproper

/-- What all calls of a script construct. -/
theorem Script.builds (script : Script) (hdraft : draft.Dense)
    (hproper : ∀ call ∈ script.callsFrom draft, call.Proper) :
    BuildsFunctions draft (script.callsFrom draft) (script.functions.run draft) := by
  induction script generalizing draft with
  | nil => exact .nil hdraft
  | cons step rest ih =>
    rw [callsFrom, List.forall_mem_append] at hproper
    have hfirst := step.builds hdraft hproper.1
    have hscript := hfirst.append (ih hfirst.adds.dense hproper.2)
    rw [← List.flatMap_append, ← List.flatMap_append] at hscript
    exact hscript

end Construction

/-! ## Modules -/

/-- A module that mentions only values of its table has none that are missing. -/
theorem Module.dangling_eq_nil {module : Module}
    (h : ∀ id ∈ module.functions.flatMap Function.mentioned, id.index < module.values.size) :
    module.dangling = [] := by
  have hinside : (module.functions.flatMap Function.mentioned).filter
      (fun id => module.values.size ≤ id.index) = [] := by
    rw [List.filter_eq_nil_iff]
    intro id hid
    have hindex := h id hid
    simpa using hindex
  rw [Module.dangling, hinside, List.eraseDups_nil]

/-- No operation is reported to lack something if all have their parts. -/
theorem Module.no_arity_report {module : Module}
    (h : ∀ op ∈ module.within, op.counts.covers op.kind.needs = true) (includes : List String) :
    ∀ report ∈ (module.program includes).raised, ∀ needed found origin,
      report ≠ (Problem.arity needed found).report origin := by
  rintro report hreport needed found origin rfl
  have hlacking : ∀ function ∈ module.functions,
      Emission.Lacking (· ≠ .counting) (withinBlocks function.blocks) := by
    intro function hfunction op hop hlacks
    have hcovers := h op (List.mem_flatMap.2 ⟨function, hfunction, hop⟩)
    rw [hcovers] at hlacks
    cases hlacks
  have hprogram : Emission.Reports (· ≠ .counting)
      (do return ⟨includes, ← Emission.functions module.functions⟩ : Emission Code.Program) :=
    (Emission.reports_functions (by simp) (by simp) (by simp) (by simp) module.functions
      hlacking).map _
  obtain ⟨problem, origin', hstage, hsame⟩ := hprogram _ _ _ hreport
  exact hstage (Problem.stage_of_arity hsame.symm)

namespace Construction.Script

/-- A script constructs a module that is in order, call by call, if it is finished with these
functions. -/
structure WellBuilt (script : Script) (finished : List Function) : Prop where
  /-- Before each call, the next number is that of the next entry of the table; the values that the
  call adds are the next ones. -/
  inOrder : ∀ call ∈ script.calls, call.InOrder
  /-- The values are numbered from zero in the order of the calls, and each has one entry. -/
  numbered : script.calls.flatMap Call.added =
    (List.range script.draft.values.size).map nextValue
  /-- As long as 32 bits suffice, as many numbers were given out before each call as there are
  entries, and no number is given out again. -/
  exact : script.draft.values.size < UInt32.size →
    (∀ call ∈ script.calls, call.draft.supply.allocated = call.draft.values.size) ∧
      (script.calls.flatMap Call.added).map ValueId.index = List.range script.draft.values.size
  /-- What is in the table when a call is made stays there. -/
  stays : ∀ call ∈ script.calls, call.draft.values.toList <+: script.draft.values.toList
  /-- What callers are given was added. -/
  given : ∀ entry ∈ script.draft.log, ∀ id ∈ entry.ids, id ∈ script.calls.flatMap Call.added
  /-- What a call appends stands in one of the functions that the script constructs. -/
  stands : ∀ call ∈ script.calls, ∀ op ∈ call.appended,
    op ∈ (script.finishWith script.built).within
  /-- If no function is used more often than it was constructed, no value is defined twice. -/
  distinct : finished.Subperm script.built → script.draft.values.size ≤ UInt32.size →
    ((script.finishWith finished).within.flatMap Op.ownDefined).Nodup
  /-- Every operation has the operands, the results and the regions that its kind needs. -/
  complete : ∀ op ∈ (script.finishWith finished).within, op.counts.covers op.kind.needs = true
  noneMissing : (script.finishWith finished).dangling = []
  /-- The emission reports no missing value, and of no operation that it lacks something. -/
  accepted : ∀ includes, ∀ report ∈ ((script.finishWith finished).emit includes).diagnostics,
    report.code ≠ some "E0106" ∧
      ∀ needed found origin, report ≠ (Problem.arity needed found).report origin

/-- As long as the numbers suffice, the number of a value is its position in the table. -/
theorem index_nextValues {count : Nat} (hcount : count ≤ UInt32.size) :
    ((List.range count).map nextValue).map ValueId.index = List.range count := by
  rw [List.map_map]
  refine (List.map_congr_left fun position hposition => ?_).trans (List.map_id _)
  rw [List.mem_range] at hposition
  exact index_nextValue (Nat.lt_of_lt_of_le hposition hcount)

/-- As long as the numbers suffice, they are given out once. -/
theorem nodup_nextValue {count : Nat} (hcount : count ≤ UInt32.size) :
    ((List.range count).map nextValue).Nodup := by
  refine List.Nodup.of_map ValueId.index ?_
  rw [index_nextValues hcount]
  exact List.nodup_range

/-- If no function is used more often than it was constructed, nothing becomes more frequent that
functions consist of. -/
theorem nodup_of_subperm {β : Type} {finished built : List Function} {parts : Function → List β}
    (h : finished.Subperm built) (hbuilt : (built.flatMap parts).Nodup) :
    (finished.flatMap parts).Nodup := by
  obtain ⟨chosen, hperm, hsublist⟩ := h
  have hchosen : (chosen.flatMap parts).Nodup :=
    (hsublist.flatMap parts).nodup hbuilt
  exact (hperm.flatMap_right parts).nodup_iff.1 hchosen

/-- If callers pass only values that they were given and push no operations of their own, the module
that they finish with functions that were constructed is in order, whatever these are. -/
theorem wellBuilt {script : Script} {finished : List Function}
    (hproper : ∀ call ∈ script.calls, call.Proper)
    (hbuilt : ∀ function ∈ finished, function ∈ script.built) :
    script.WellBuilt finished := by
  have hempty : Draft.Dense {} := ⟨rfl, by simp [Draft.known]⟩
  have hbuilds := script.builds hempty hproper
  have hadded : script.calls.flatMap Call.added =
      (List.range script.draft.values.size).map nextValue := by
    have hconsecutive := hbuilds.adds.consecutive
    have hsize : script.draft.values.size = 0 + (script.calls.flatMap Call.added).length :=
      hbuilds.adds.size
    rw [hsize, Nat.zero_add, List.range_eq_range']
    exact hconsecutive
  -- what holds of everything that was constructed holds of what is left of it
  have hmentioned : ∀ id ∈ finished.flatMap Function.mentioned,
      id.index < script.draft.values.size := by
    intro id hid
    obtain ⟨function, hfunction, hid⟩ := List.mem_flatMap.1 hid
    exact hbuilds.inTable id (List.mem_flatMap.2 ⟨function, hbuilt function hfunction, hid⟩)
  have hcomplete : ∀ op ∈ (script.finishWith finished).within,
      op.counts.covers op.kind.needs = true := by
    intro op hop
    obtain ⟨function, hfunction, hop⟩ := List.mem_flatMap.1 hop
    exact hbuilds.complete op (List.mem_flatMap.2 ⟨function, hbuilt function hfunction, hop⟩)
  have hdangling : (script.finishWith finished).dangling = [] := Module.dangling_eq_nil hmentioned
  refine
    { inOrder := hbuilds.inOrder
      numbered := hadded
      exact := fun hroom => ⟨fun call hcall => ?_, ?_⟩
      stays := hbuilds.stays
      given := fun entry hentry id hid => ?_
      stands := hbuilds.stands
      distinct := fun honce hroom => ?_
      complete := hcomplete
      noneMissing := hdangling
      accepted := fun includes report hreport => ?_ }
  · have hnext := (hbuilds.inOrder call hcall).numbered
    have hsize : call.draft.values.size ≤ script.draft.values.size :=
      (hbuilds.stays call hcall).length_le
    rw [IdSupply.allocated, hnext]
    exact UInt32.toNat_ofNat_of_lt' (Nat.lt_of_le_of_lt hsize hroom)
  · rw [hadded]
    exact index_nextValues (Nat.le_of_lt hroom)
  · have hindex : id.index < script.draft.values.size :=
      hbuilds.adds.dense.known id (List.mem_flatMap.2 ⟨entry, hentry, hid⟩)
    rw [hadded, List.mem_map]
    exact ⟨id.index, List.mem_range.2 hindex, nextValue_index id⟩
  · have hdefined : ((script.finishWith script.built).within.flatMap Op.ownDefined).Sublist
        (script.calls.flatMap Call.added) := hbuilds.defined
    rw [hadded] at hdefined
    have hnodup := hdefined.nodup (nodup_nextValue hroom)
    rw [Module.within, List.flatMap_assoc] at hnodup ⊢
    exact nodup_of_subperm honce hnodup
  · rw [Module.emit, hdangling] at hreport
    exact ⟨Module.no_table_report _ includes report hreport,
      Module.no_arity_report hcomplete includes report hreport⟩

/-! ### A script with a loop, a conditional and a nest -/

/-- Negative entries of an array are replaced by zero, and the sum of all entries is returned. -/
def rectifiedSum : Script :=
  [.array .f32 [8],
    .function "rectified_sum" [⟨0⟩]
      [.constant .f32 (.int 0), .index 0, .index 8, .index 1,
        .scfFor ⟨2⟩ ⟨3⟩ ⟨4⟩
          [.load ⟨0⟩ [⟨5⟩], .cmpF .olt ⟨6⟩ ⟨1⟩,
            .scfIf ⟨7⟩ [{ elem := .f32 }] [.yield [⟨1⟩]] [.yield [⟨6⟩]],
            .store ⟨8⟩ ⟨0⟩ [⟨5⟩]] {},
        .parallel [8] .f32 [.add] [.load ⟨0⟩ [⟨9⟩], .yield [⟨11⟩]],
        .ret [⟨10⟩]] {} none]

/-- A script with nested regions that builds twelve values. -/
theorem rectifiedSum_wellBuilt : (∀ call ∈ rectifiedSum.calls, call.Proper) ∧
    rectifiedSum.draft.values.size = 12 ∧ rectifiedSum.WellBuilt rectifiedSum.built := by
  have hproper : ∀ call ∈ rectifiedSum.calls, call.Proper := by decide +kernel
  exact ⟨hproper, by decide +kernel, wellBuilt hproper fun _ hfunction => hfunction⟩

/-- A module that is finished with a copy of a function besides the function defines the values of
both twice, although no call is at fault. -/
theorem rectifiedSum_finished_twice : (∀ call ∈ rectifiedSum.calls, call.Proper) ∧
    (∀ function ∈ rectifiedSum.built ++ rectifiedSum.built, function ∈ rectifiedSum.built) ∧
    ¬ ((rectifiedSum.finishWith (rectifiedSum.built ++ rectifiedSum.built)).within.flatMap
      Op.ownDefined).Nodup := by
  refine ⟨by decide +kernel, by simp, by decide +kernel⟩

/-- The result of the conditional is added before its regions are filled, the one of the nest before
the entry that is loaded in its body. -/
example : (rectifiedSum.calls.map Call.added).filter (· ≠ []) =
      [[⟨0⟩], [⟨1⟩], [⟨2⟩], [⟨3⟩], [⟨4⟩], [⟨5⟩], [⟨6⟩], [⟨7⟩], [⟨8⟩], [⟨9⟩, ⟨10⟩], [⟨11⟩]] := by
  decide +kernel

end Construction.Script

end HlsEmit
