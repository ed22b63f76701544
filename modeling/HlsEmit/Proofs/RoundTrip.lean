import HlsEmit.Proofs.Json.Documents

/-!
# The round trip of a model through its text

Writing a module and parsing the text gives the module back, from the canonical text and from the
indented one. So the canonical text identifies the module.

Two conditions are needed. A float literal that is not finite is written as `null`, which no float is
read from; and the parser opens at most `Json.nestingLimit` brackets inside each other.

## Key results

- `Module.parse_spelling`: every spelling of a module's document is parsed as the module
- `Module.parse_canonical`: the canonical and the indented text, and what they identify
-/

namespace HlsEmit

open Json

namespace Module

variable {module : Module}

/-- Every spelling of the document is parsed as the module. -/
theorem parse_spelling (hfinite : module.LiteralsFinite)
    (hdepth : module.toJson.depth ≤ nestingLimit) {text : List Char}
    (hspell : Spells module.toJson text) : Module.parse (String.ofList text) = .ok module :=
  (Module.reads hfinite hdepth).parse hdepth hspell

/-- A module is parsed back from its canonical and from its indented text, and no other such module
has its canonical text. -/
theorem parse_canonical (hfinite : module.LiteralsFinite)
    (hdepth : module.toJson.depth ≤ nestingLimit) :
    Module.parse module.canonical = .ok module ∧ Module.parse module.pretty = .ok module ∧
      ∀ other : Module, other.LiteralsFinite → other.toJson.depth ≤ nestingLimit →
        other.canonical = module.canonical → other = module := by
  have hparse {m : Module} (hfinite : m.LiteralsFinite) (hdepth : m.toJson.depth ≤ nestingLimit) :
      Module.parse m.canonical = .ok m :=
    parse_spelling hfinite hdepth (spells_compact _)
  refine ⟨hparse hfinite hdepth, parse_spelling hfinite hdepth (spells_pretty 0 _),
    fun other hotherFinite hotherDepth hsame => ?_⟩
  have hother := hparse hotherFinite hotherDepth
  rw [hsame, hparse hfinite hdepth] at hother
  exact (Except.ok.inj hother).symm

end Module

/-- A tenth beside the least subnormal number, a name with a quote, a control character and a letter
beyond ASCII, and a nested affine expression. -/
def textualModule : Module where
  values := #[
    { elem := .f64, shape := .ranked [some 2, none],
      constant := some (.dense [.float ⟨0x3fb999999999999a⟩, .float ⟨1⟩]) },
    { elem := .int 7 true, shape := .scalar, constant := some (.str "\"\x01é") }]
  functions := [
    { name := "f\n", blocks := [{ ops := [
      { kind := .affineApply ⟨1, 0, [.add (.mul (.dim 0) (.constant (-3))) (.symbol 0)]⟩,
        operands := [⟨0⟩], results := [⟨1⟩], line := some 4 }] }] }]

/-- A module with a dense constant, a loop and a text that needs escapes is read back. -/
theorem textualModule_parse_canonical :
    textualModule.LiteralsFinite ∧ textualModule.toJson.depth ≤ nestingLimit ∧
      Module.parse textualModule.canonical = .ok textualModule ∧
      Module.parse textualModule.pretty = .ok textualModule := by
  have hfinite : textualModule.LiteralsFinite := by decide
  have hdepth : textualModule.toJson.depth ≤ nestingLimit := by decide
  have hparse := Module.parse_canonical hfinite hdepth
  exact ⟨hfinite, hdepth, hparse.1, hparse.2.1⟩

end HlsEmit
