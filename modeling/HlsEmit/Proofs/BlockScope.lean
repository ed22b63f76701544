import HlsEmit.Model.Dominance
import HlsEmit.Proofs.Scoping.Program

/-!
# The flat name table agrees with block scopes

The name table knows nothing of blocks, while C++ does: a name that is declared inside of a loop or a
branch is not visible behind it. For a module in dominance form this makes no difference. Each rule
declares the results of its operation before it opens a loop or a branch, so what dominates a use is
visible where the use is written.

## Key results

- `Module.scopes_agree`: every use of a module in dominance form is in the scope of its declaration
-/

namespace HlsEmit

open Code

/-- The emission runs to its end without an error. -/
structure Module.Succeeds (module : Module) (includes : List String) : Prop where
  overruns : module.overruns includes = []
  errors : (module.emit includes).hasErrors = false

instance (module : Module) (includes : List String) : Decidable (module.Succeeds includes) :=
  decidable_of_iff (module.overruns includes = [] ∧ (module.emit includes).hasErrors = false)
    ⟨fun h => ⟨h.1, h.2⟩, fun h => ⟨h.overruns, h.errors⟩⟩

/-- The uses in a program agree with the scopes of its declarations. -/
structure ScopesAgree (arena : Arena) (o : Outcome Program) : Prop where
  /-- Every use stands where its name is visible. -/
  visible : o.value.Scoped
  /-- No identifier is declared twice. -/
  identifiers : ((declarations o.value.mentions).map fun d => d.2.identifier).Nodup
  /-- Every use is the literal of its value, or the name that was declared for the value or for the
  one whose name it shares. -/
  uses : ∀ u ∈ uses o.value.mentions,
    (∃ text, arena.constantText? u.value = some text ∧ u.designator = .literal text) ∨
      ∃ owner name, o.names.owner? u.value = some owner ∧
        (owner, name) ∈ declarations o.value.mentions ∧ u.designator = .named name

/-- Without errors, there are no dangling values. -/
theorem Module.Succeeds.dangling {module : Module} {includes : List String}
    (h : module.Succeeds includes) : module.dangling = [] := by
  cases hdangling : module.dangling with
  | nil => rfl
  | cons id rest =>
    have herrors := h.errors
    rw [Module.emit, hdangling] at herrors
    cases herrors

/-- Without errors, the outcome of the emission is clean. -/
theorem Module.Succeeds.clean {module : Module} {includes : List String}
    (h : module.Succeeds includes) : (module.program includes).Clean := by
  have hoverruns := h.overruns
  have herrors := h.errors
  rw [Module.overruns, h.dangling] at hoverruns
  rw [Module.emit, h.dangling, Emitted.hasErrors, List.any_eq_false] at herrors
  exact ⟨fun report hr => Bool.eq_false_iff.2 (herrors report hr), hoverruns⟩

/-- The functions of a module in dominance form are scoped. -/
theorem Module.program_scoped {module : Module} {includes : List String}
    (hform : module.InDominanceForm) (hexact : module.Exact)
    (hsucceeds : module.Succeeds includes) : (module.program includes).value.Scoped := by
  -- No value has a name at the start.
  have hfresh : ∀ id ∈ module.functions.flatMap Function.defined,
      (module.contract hsucceeds.dangling fun _ => True).values id ∧
        NameTable.empty.binding? id = none := by
    intro id hid
    obtain ⟨function, hfunction, hid⟩ := List.mem_flatMap.1 hid
    exact ⟨⟨function, hfunction, Function.mentioned_of_defined hid⟩, rfl⟩
  have hops : ∀ function ∈ module.functions, ∀ op ∈ withinBlocks function.blocks, op.Exact :=
    fun function hfunction op hop => hexact.ops op (List.mem_flatMap.2 ⟨function, hfunction, hop⟩)
  -- The functions are placed one after the other; the program is what they are written to.
  have hplaces : Emission.Places (module.contract hsucceeds.dangling fun _ => True) none .empty
      (do return (⟨includes, ← Emission.functions module.functions⟩ : Program))
      fun program _ => program.Scoped := by
    refine .bind ((Emission.places_functions (NameTable.valid_empty _) hfresh hform.distinct
      hform.dominated hops hexact.bodies).mono fun codes _ hcodes => ?_)
    exact .pure hcodes
  exact hplaces hsucceeds.clean

/-- A module in dominance form whose operations have the results and block arguments that their rules
write. -/
theorem Module.scopes_agree (module : Module) (includes : List String)
    (hform : module.InDominanceForm) (hexact : module.Exact)
    (hsucceeds : module.Succeeds includes) :
    ScopesAgree module.values (module.program includes) := by
  have haccepts : (module.contract hsucceeds.dangling fun _ => True).Accepts module.within :=
    fun _ _ _ _ => .inr trivial
  obtain ⟨events, hperm, hrun⟩ := Module.program_run hsucceeds.dangling haccepts includes
  have hv := NameTable.valid_empty module.values
  have hscoped := Module.program_scoped hform hexact hsucceeds
  refine ⟨hscoped, hrun.history.identifiers hv hperm, ?_⟩
  intro u hu
  have huse : .use u ∈ (module.program includes).value.mentions := by
    obtain ⟨m, hm, hmu⟩ := List.mem_filterMap.1 hu
    cases m with
    | use u' => cases hmu; exact hm
    | declare value type name => cases hmu
  -- a use that is visible somewhere is not empty, so it is what the value is called in the end
  have hdesignator : u.designator =
      module.values.designator (module.program includes).names u.value := by
    obtain ⟨visible, hvisible⟩ := hscoped.mention huse
    rw [hrun.names]
    rcases hrun.history.used hv ((hperm.filterMap _).mem_iff.1 hu) with hmissing | hfinal
    · rw [Mention.Scoped, hmissing] at hvisible
      exact hvisible.elim
    · exact hfinal
  rw [hdesignator]
  unfold Arena.designator
  cases hconst : module.values.constantText? u.value with
  | some text => exact .inl ⟨text, rfl, rfl⟩
  | none =>
    obtain ⟨visible, hvisible⟩ := hscoped.mention huse
    rw [Mention.Scoped, hdesignator, Arena.designator, hconst] at hvisible
    cases hname : (module.program includes).names.name? u.value with
    | none => rw [hname] at hvisible; exact hvisible.elim
    | some name =>
      obtain ⟨owner, howner, hown⟩ := Option.bind_eq_some_iff.1 hname
      refine .inr ⟨owner, name, howner, ?_, rfl⟩
      have hbinding := NameTable.ownName?_eq_some_iff.1 hown
      rw [hrun.names] at hbinding
      exact (hperm.filterMap _).mem_iff.2 (hrun.history.declaration_of rfl hbinding)

/-- A conditional with a result inside of a loop, over an array that goes by two values. -/
def branchModule : Module where
  values := #[
    { elem := .f32, shape := .fixed [8] },
    { elem := .f32, shape := .fixed [8] },
    { elem := .index, constant := some (.int 0) },
    { elem := .index, constant := some (.int 8) },
    { elem := .index, constant := some (.int 1) },
    { elem := .index },
    { elem := .bool },
    { elem := .f32 },
    { elem := .f32 },
    { elem := .f32 }]
  functions := [{
    name := "branch"
    args := [⟨0⟩]
    blocks := [{ ops := [
      { kind := .tensorToMemref, operands := [⟨0⟩], results := [⟨1⟩] },
      { kind := .constant, results := [⟨2⟩] },
      { kind := .constant, results := [⟨3⟩] },
      { kind := .constant, results := [⟨4⟩] },
      { kind := .scfFor, operands := [⟨2⟩, ⟨3⟩, ⟨4⟩]
        regions := [{ args := [⟨5⟩], ops := [
          { kind := .cmpI .slt, operands := [⟨5⟩, ⟨4⟩], results := [⟨6⟩] },
          { kind := .load, operands := [⟨1⟩, ⟨5⟩], results := [⟨7⟩] },
          { kind := .scfIf, operands := [⟨6⟩], results := [⟨8⟩]
            regions := [
              { ops := [{ kind := .scfYield, operands := [⟨7⟩] }] },
              { ops := [
                { kind := .binary .add, operands := [⟨7⟩, ⟨7⟩], results := [⟨9⟩] },
                { kind := .scfYield, operands := [⟨9⟩] }] }] },
          { kind := .store, operands := [⟨8⟩, ⟨1⟩, ⟨5⟩] }] }] },
      { kind := .ret }] }] }]

/-- A module with an alias, a loop and a conditional. -/
theorem branchModule_scopes_agree : branchModule.InDominanceForm ∧ branchModule.Exact ∧
    branchModule.Succeeds [] ∧ ScopesAgree branchModule.values (branchModule.program []) := by
  have hform : branchModule.InDominanceForm := by decide +kernel
  have hexact : branchModule.Exact := by decide +kernel
  have hsucceeds : branchModule.Succeeds [] := by decide +kernel
  exact ⟨hform, hexact, hsucceeds, Module.scopes_agree branchModule [] hform hexact hsucceeds⟩

end HlsEmit
