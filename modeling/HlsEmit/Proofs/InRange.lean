import HlsEmit.Code.Writer
import HlsEmit.Proofs.Account.Program

/-!
# Nothing is looked up in vain

The rules of emission take operands, results, regions, results of maps and steps by position, and
entries of the value table by number. The checks in front of them make sure that all of these are
there: the values of the module are looked for in the table first, the numbers of operands, results
and regions are compared with what the kind of an operation needs, bounds, maps, sets and steps with
what a rule takes of them, and the operands of an accelerator call with the roles of its template.

The only thing left is the number of inputs of a map or a set, which has 32 bits.

## Key results

- `Module.emission_in_range`: emission looks nothing up in vain, and its text can be written
-/

namespace HlsEmit

/-- The maps and sets of a module have numbers of inputs with 32 bits. -/
def Module.CountsInputs (module : Module) : Prop :=
  ∀ op ∈ module.within, ∀ inputs ∈ op.kind.inputs, inputs.1.toNat + inputs.2.toNat < UInt32.size

instance (module : Module) : Decidable module.CountsInputs :=
  decidable_of_iff ((module.within.all fun op => op.kind.inputs.all fun inputs =>
    inputs.1.toNat + inputs.2.toNat < UInt32.size) = true) (by simp [Module.CountsInputs])

/-- Emission looks nothing up in vain, whatever is wrong with the module, and no level of
indentation is left that was not entered. The latter is a matter of nesting, which holds of all code
that can be written; that the lines of the text are indented is said by `Module.laidOut`. -/
theorem Module.emission_in_range (module : Module) (includes : List String)
    (h : module.CountsInputs) :
    module.overruns includes = [] ∧
      (module.dangling = [] →
        (module.program includes).value.write {} = some ⟨(module.emit includes).text, 0⟩) := by
  refine ⟨?_, fun hdangling => ?_⟩
  · unfold Module.overruns
    split
    · next hdangling =>
      have haccepts : (module.contract hdangling fun _ => False).Accepts module.within :=
        fun op hop inputs hinputs => .inl (h op hop inputs hinputs)
      obtain ⟨events, -, hrun⟩ := Module.program_run hdangling haccepts includes
      exact List.eq_nil_iff_forall_not_mem.2 hrun.overruns
    · rfl
  · rw [Code.Program.write_eq, Module.emit, hdangling]

/-- A nest of two loops whose bounds are maps of an argument. -/
def nestModule : Module where
  values := #[
    { elem := .index },
    { elem := .index },
    { elem := .index },
    { elem := .f32, constant := some (.int 0) },
    { elem := .f32 }]
  functions := [{
    name := "nest"
    args := [⟨0⟩]
    blocks := [{ ops := [
      { kind := .affineParallel
          { map := { results := [.constant 0, .constant 0] } }
          { map := { dims := 1, results := [.dim 0, .dim 0] }, operands := [⟨0⟩] } [1, 1]
        results := [⟨4⟩]
        attrs := { reductions := [.add] }
        regions := [{ args := [⟨1⟩, ⟨2⟩], ops := [{ kind := .affineYield, operands := [⟨3⟩] }] }] },
      { kind := .ret }] }] }]

/-- A module with a nest, whose maps count their inputs. -/
theorem nestModule_in_range : nestModule.CountsInputs ∧ nestModule.overruns [] = [] := by
  have hcounts : nestModule.CountsInputs := by decide
  exact ⟨hcounts, (Module.emission_in_range nestModule [] hcounts).1⟩

end HlsEmit
