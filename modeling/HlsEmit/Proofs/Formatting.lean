import HlsEmit.Proofs.Json.Derivation
import HlsEmit.Provenance
import HlsEmit.Emission.Program

/-!
# The formatting of a model does not matter

Two texts of one document, up to blanks, escapes, the order of fields, unknown fields and defaults
that are left out or spelled out, describe the same module. Everything that is made of the module
agrees then, its digest included.

## Key results

- `Module.parse_document`: an accepted text is a written form of one document, and the module is its
  value
- `Module.parse_reformatted`: texts that differ in their formatting describe the same module
-/

namespace HlsEmit

open Json

namespace Module

/-- Texts of one document, up to its formatting. -/
def Reformatted (source source' : String) : Prop :=
  ∃ tree tree' : Tree, tree.WrittenAs source ∧ tree'.WrittenAs source' ∧
    Module.schema.Reformats tree tree'

variable {source source' : String} {module module' : Module}

/-- An accepted text is a written form of one document, and the module is its value. -/
theorem parse_document (h : Module.parse source = .ok module) :
    ∃! tree : Tree, tree.WrittenAs source ∧ Module.schema.decode tree = some module := by
  obtain ⟨tree, hwritten, hdecode⟩ := Schema.parse_derives h
  exact ⟨tree, ⟨hwritten, hdecode⟩, fun _ hother => hother.1.unique hwritten⟩

/-- The value of the document that an accepted text is a written form of. -/
theorem decode_of_parse (h : Module.parse source = .ok module) {tree : Tree}
    (hwritten : tree.WrittenAs source) : Module.schema.decode tree = some module := by
  obtain ⟨other, ⟨hother, hdecode⟩, -⟩ := parse_document h
  rwa [hwritten.unique hother]

/-- Texts that differ in their formatting describe the same module, and nothing that is made of the
module tells them apart. -/
theorem parse_reformatted (h : Reformatted source source') (hparse : Module.parse source = .ok module)
    (hparse' : Module.parse source' = .ok module') :
    module = module' ∧ module.canonical = module'.canonical ∧ module.dangling = module'.dangling ∧
      module.hash = module'.hash ∧ module.buildInfo = module'.buildInfo ∧
      ∀ includes, module.emit includes = module'.emit includes := by
  obtain ⟨tree, tree', hwritten, hwritten', hsame⟩ := h
  have hdecode := decode_of_parse hparse hwritten
  rw [hsame.decode_eq, decode_of_parse hparse' hwritten'] at hdecode
  obtain rfl := Option.some.inj hdecode
  exact ⟨rfl, rfl, rfl, rfl, rfl, fun _ => rfl⟩

end Module

/-! ## One model in two texts -/

namespace Formatting

/-- A model with one function, which has no blocks. -/
def model : Module where
  values := #[]
  functions := [{ name := "f", blocks := [] }]

/-- The model as a short text. -/
def short : String :=
  "\x7b\"values\":[],\"functions\":[\x7b\"name\":\"f\",\"blocks\":[]\x7d]\x7d"

/-- The model with blanks, another order of the fields, an escape, a field that no record has, and the
arguments of the function spelled out. -/
def long : String :=
  "\x7b \"functions\" : [\x7b\"args\":[],\"bl\\u006fcks\":[] ,\"name\":\"f\"\x7d],\"x\":1,\"values\":[]\x7d\n"

/-- The code units of some characters. -/
def units (cs : List Char) : CodeUnits :=
  cs.flatMap unitsOf

/-- A member by the characters of its key. -/
def member (key : List Char) (content : Tree) : CodeUnits × Tree :=
  (units key, content)

def values : CodeUnits × Tree :=
  member ['v', 'a', 'l', 'u', 'e', 's'] (.list [])

def functions (function : Tree) : CodeUnits × Tree :=
  member ['f', 'u', 'n', 'c', 't', 'i', 'o', 'n', 's'] (.list [function])

def name : CodeUnits × Tree :=
  member ['n', 'a', 'm', 'e'] (.text (units ['f']))

def args : CodeUnits × Tree :=
  member ['a', 'r', 'g', 's'] (.list [])

def blocks : CodeUnits × Tree :=
  member ['b', 'l', 'o', 'c', 'k', 's'] (.list [])

def unknown : CodeUnits × Tree :=
  member ['x'] (.number ['1'])

/-- Plain characters are quoted as they are. -/
theorem quoted_units {cs : List Char} (h : ∀ c ∈ cs, c ≠ '"' ∧ c ≠ '\\' ∧ 0x20 ≤ c.toNat)
    (rest : List Char) : Quoted (units cs) (cs ++ '"' :: rest) rest := by
  induction cs with
  | nil => exact .close
  | cons c cs ih =>
    obtain ⟨⟨hquote, hslash, hcontrol⟩, hcs⟩ := List.forall_mem_cons.1 h
    exact .plain hquote hslash hcontrol (ih hcs)

/-- One blank is a gap. -/
theorem gap_space (rest : List Char) : Gap (' ' :: rest) rest :=
  ⟨[' '], blank_space, rfl⟩

/-- Two brackets write the empty list. -/
theorem written_empty (rest : List Char) : Written (.list []) ('[' :: ']' :: rest) rest :=
  .list (.nil (.refl _))

/-- The short text writes its tree. -/
theorem short_written :
    (Tree.object [values, functions (.object [name, blocks])]).WrittenAs short := by
  refine ⟨short.toList, [], .refl _, ?_, blank_nil⟩
  simp only [short, String.reduceToList]
  refine .object (.cons (Gap.refl _) (quoted_units (by simp) _)
    (.colon (.refl _) (.refl _) (written_empty _)) (.cons ⟨_, .refl _, .refl _⟩
    (quoted_units (by simp) _) (.colon (.refl _) (.refl _)
    (.list (.cons (Gap.refl _) ?_ (.nil (.refl _))))) (.nil (.refl _))))
  exact .object (.cons (Gap.refl _) (quoted_units (by simp) _)
    (.colon (.refl _) (.refl _) (.text (quoted_units (by simp) _))) (.cons ⟨_, .refl _, .refl _⟩
    (quoted_units (by simp) _) (.colon (.refl _) (.refl _) (written_empty _)) (.nil (.refl _))))

/-- The long text writes its tree. -/
theorem long_written :
    (Tree.object [functions (.object [args, blocks, name]), unknown, values]).WrittenAs long := by
  refine ⟨long.toList, ['\n'], .refl _, ?_, by simp [Blank, isBlank]⟩
  simp only [long, String.reduceToList]
  refine .object (.cons (gap_space _) (quoted_units (by simp) _)
    (.colon (gap_space _) (gap_space _) (.list (.cons (Gap.refl _) ?_ (.nil (.refl _)))))
    (.cons ⟨_, .refl _, .refl _⟩ (quoted_units (by simp) _)
    (.colon (.refl _) (.refl _) (.number ?_ rfl)) (.cons ⟨_, .refl _, .refl _⟩
    (quoted_units (by simp) _) (.colon (.refl _) (.refl _) (written_empty _)) (.nil (.refl _)))))
  · refine .object (.cons (Gap.refl _) (quoted_units (by simp) _)
      (.colon (.refl _) (.refl _) (written_empty _)) (.cons ⟨_, .refl _, .refl _⟩ ?_
      (.colon (.refl _) (.refl _) (written_empty _)) (.cons ⟨_, gap_space _, .refl _⟩
      (quoted_units (by simp) _) (.colon (.refl _) (.refl _) (.text (quoted_units (by simp) _)))
      (.nil (.refl _)))))
    -- the third letter of the key is an escape
    exact .plain (by decide) (by decide) (by decide) (.plain (by decide) (by decide) (by decide)
      (.numeric (by decide) (quoted_units (by simp) _)))
  · exact ⟨[], ['1'], [], [], .inl rfl, whole_toDigits 1, .inl rfl, .inl rfl, rfl⟩

/-- Fields in another order, and a default that is written out. -/
theorem function_reformats :
    Function.schema.Reformats (.object [name, blocks]) (.object [args, blocks, name]) := by
  have hspelled : Function.schema.Reformats (.object [name, blocks]) (.object [args, name, blocks]) :=
    .spelled (.there (by decide) .here) rfl (by decide) rfl
  exact hspelled.trans (.reorder (.cons _ (.swap _ _ _)))

/-- Fields in another order, and one that is not known. -/
theorem module_reformats :
    Module.schema.Reformats (.object [values, functions (.object [name, blocks])])
      (.object [functions (.object [args, blocks, name]), unknown, values]) := by
  have hfunction : (Schema.list Function.schema).Reformats (.list ([] ++ .object [name, blocks] :: []))
      (.list ([] ++ .object [args, blocks, name] :: [])) :=
    .element function_reformats
  have hfunctions : Module.schema.Reformats (.object [functions (.object [name, blocks]), values])
      (.object [functions (.object [args, blocks, name]), values]) :=
    .field (.there (by decide) .here) rfl hfunction
  have hunknown : Module.schema.Reformats (.object [functions (.object [args, blocks, name]), values])
      (.object [unknown, functions (.object [args, blocks, name]), values]) :=
    .unknown (by decide)
  exact ((Schema.Reformats.reorder (.swap _ _ _)).trans hfunctions).trans
    (hunknown.trans (.reorder (.swap _ _ _)))

/-- Both texts are parsed to the same module, with the same hash. -/
theorem short_long_same :
    Module.Reformatted short long ∧ Module.parse short = .ok model ∧ Module.parse long = .ok model ∧
      (Module.parse short).map Module.hash = (Module.parse long).map Module.hash := by
  have hsame : Module.Reformatted short long :=
    ⟨_, _, short_written, long_written, module_reformats⟩
  have hshort : Module.parse short = .ok model := by rfl
  have hlong : Module.parse long = .ok model := by rfl
  have hhash := (Module.parse_reformatted hsame hshort hlong).2.2.2.1
  have hmap (source : String) (h : Module.parse source = .ok model) :
      (Module.parse source).map Module.hash = .ok model.hash := by rw [h]; rfl
  exact ⟨hsame, hshort, hlong,
    (hmap short hshort).trans ((congrArg Except.ok hhash).trans (hmap long hlong).symm)⟩

end Formatting

end HlsEmit
