import HlsEmit.Proofs.Account.Program

/-!
# Declarations are written once

Whatever is wrong with a module, the names in its code are in order: no identifier is declared
twice, constants and shared names are never declared, and a value keeps the name that it has.

## Key results

- `Module.declares_once`: the whole emission of a module without dangling values
-/

namespace HlsEmit

open Code

/-- Pragmas drop at most the star of a pointer. -/
theorem Designator.text_eq_portText (d : Designator) :
    d.text = d.portText ∨ d.text = "*" ++ d.portText := by
  cases d with
  | named name =>
    simp only [text, portText, Name.text]
    split
    · exact .inr rfl
    · exact .inl rfl
  | literal text => exact .inl rfl
  | missing => exact .inl rfl

/-- The names in an emission are in order. -/
structure DeclaresOnce (arena : Arena) (o : Outcome Program) : Prop where
  /-- No identifier is declared twice. -/
  identifiers : ((declarations o.value.mentions).map fun d => d.2.identifier).Nodup
  /-- No value is declared twice. -/
  values : ((declarations o.value.mentions).map fun d => d.1).Nodup
  /-- A constant scalar is never declared. -/
  constants : ∀ d ∈ declarations o.value.mentions, arena.constantText? d.1 = none
  /-- A value that is to get the name of a source with a name does share it from then on: it was not
  bound yet when an operation with it as its result had its turn. -/
  sharing : ∀ turn ∈ o.dispatched, ∀ value owner, turn.Shares arena value owner →
    o.names.binding? value = some (.shared owner)
  /-- A value that shares the name of another one is never declared. -/
  shared : ∀ d ∈ declarations o.value.mentions, ∀ owner,
    o.names.binding? d.1 ≠ some (.shared owner)
  /-- Every use is written as the value was called at that time. -/
  uses : ∀ u ∈ uses o.value.mentions,
    u.designator = arena.designator (o.names.upTo u.seen) u.value
  /-- What a bound value is called never changes, and it is never nothing. -/
  stays : ∀ given id, arena.isBound (o.names.upTo given) id = true →
    arena.designator (o.names.upTo given) id = arena.designator o.names id ∧
      arena.designator o.names id ≠ .missing
  /-- What is reported about names are sources without a name. -/
  reports : ∀ report ∈ o.raised, report.code = some "E0103" →
    ∃ turn ∈ o.dispatched, turn.Reports report

/-- The emission of a module without dangling values, well formed or not. -/
theorem Module.declares_once (module : Module) (includes : List String)
    (h : module.dangling = []) :
    DeclaresOnce module.values (module.program includes) ∧
      module.emit includes =
        ⟨(module.program includes).value.text, (module.program includes).raised⟩ := by
  have haccepts : (module.contract h fun _ => True).Accepts module.within :=
    fun _ _ _ _ => .inr trivial
  obtain ⟨events, hperm, hrun⟩ := Module.program_run h haccepts includes
  have hv := NameTable.valid_empty module.values
  -- The declarations that are written are those of the run, in another order.
  have hdeclarations : (declarations (module.program includes).value.mentions).Perm
      (declarations (written events)) := hperm.filterMap _
  -- What is declared keeps its name to the end.
  have hdeclared : ∀ d ∈ declarations (module.program includes).value.mentions,
      (module.program includes).names.binding? d.1 = some (.declared d.2) := by
    intro d hd
    rw [hrun.names]
    exact (hrun.history.declared (hdeclarations.mem_iff.1 hd)).2
  have hgrows : (module.program includes).names.Valid module.values :=
    hrun.grows.valid hv
  refine ⟨⟨?_, ?_, ?_, hrun.shares, ?_, ?_, ?_, ?_⟩, by rw [Module.emit, h]⟩
  · exact hrun.history.identifiers hv hperm
  · exact hrun.history.values_nodup hv hperm
  · exact fun d hd => hgrows.constantText?_eq_none (hdeclared d hd)
  · intro d hd owner hshared
    rw [hdeclared d hd] at hshared
    cases hshared
  · intro u hu
    rw [hrun.names]
    exact hrun.history.used_then ((hperm.filterMap _).mem_iff.1 hu)
  · intro given id hbound
    have hthen := NameTable.Grows.upTo hgrows (Nat.zero_le given)
    have hstays := Arena.designator_eq hthen.2 hthen.1 hbound
    exact ⟨hstays.symm, Arena.designator_ne_missing hgrows (Arena.isBound_mono hthen.2 hbound)⟩
  · intro report hr hcode
    rcases hrun.raised report hr hcode with hnone | hturn
    · exact absurd hnone id
    · exact hturn

/-- A module in which the second of two names is asked of a value that has none. -/
def sharingModule : Module where
  values := #[
    { elem := .f32, shape := .fixed [8] },
    { elem := .f32, shape := .fixed [8] },
    { elem := .f32, shape := .fixed [8] },
    { elem := .f32, shape := .fixed [8] }]
  functions := [{
    name := "share"
    args := [⟨0⟩]
    blocks := [{ ops := [
      { kind := .tensorToMemref, operands := [⟨0⟩], results := [⟨1⟩] },
      { kind := .tensorToMemref, operands := [⟨2⟩], results := [⟨3⟩] },
      { kind := .ret }] }] }]

/-- A module with a shared value that is emitted with an error. -/
theorem sharingModule_declares_once : sharingModule.dangling = [] ∧
    DeclaresOnce sharingModule.values (sharingModule.program []) ∧
    (sharingModule.emit []).hasErrors = true :=
  ⟨by decide, (Module.declares_once sharingModule [] (by decide)).1, by decide⟩

end HlsEmit
