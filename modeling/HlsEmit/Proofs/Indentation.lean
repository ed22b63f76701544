import HlsEmit.Proofs.Layout.Program

/-!
# Braces and blanks of generated programs

Whatever the errors of a module, its program has balanced braces, and every line inside of them is
indented by two blanks for each. A line that an accelerator call writes for a result without a name
is the one exception: nothing stands in front of its first blank.

## Key results

- `Module.laidOut`: the layout of the program of every module without dangling values
- `Program.not_disciplined`: a call that sets a result without a name does break the layout
-/

namespace HlsEmit

open Code

/-! ## Layout -/

/-- The text of a function: behind its remarks stands its head, and all braces that the text opens
are closed at its end. -/
structure Function.Defines (function : Function) (text : String) : Prop where
  head : ∃ remarks rest, text = remarks ++ ("void " ++ function.name ++ "(\n") ++ rest ∧
    depthBehind 0 remarks.toList = some 0
  closed : depthBehind 0 text.toList = some 0

/-- A call of an accelerator sets a result that has no name and is no constant. -/
def Module.Strays (module : Module) (includes : List String) : Prop :=
  ∃ turn ∈ (module.program includes).dispatched, turn.Strays module.values

/-- The layout of the program of a module, with stray lines if those are admitted. -/
structure Module.LaidOut (module : Module) (includes : List String) (strays : Prop) : Prop where
  /-- No brace is closed that was not opened, and in the end all are closed. -/
  balanced : depthBehind 0 (module.emit includes).text.toList = some 0
  /-- Every line inside of braces is indented by their number. -/
  lines : Disciplined strays 0 ((module.emit includes).text.toList.splitOn '\n')
  /-- The functions stand in the order in which they are declared. -/
  functions : ∃ front texts, (module.emit includes).text = front ++ String.join texts ∧
    depthBehind 0 front.toList = some 0 ∧ List.Forall₂ Function.Defines module.functions texts

/-- Writing leaves the depth as it was, wherever an operation or a block is written and whatever was
named before, and behind every function of a program. Levels are entered and left by nesting, so this
holds of every tree of code; `Module.LaidOut` is what is said about the characters of the text. -/
structure Module.LevelKept (module : Module) (includes : List String) : Prop where
  operation : ∀ op ∈ module.within, ∀ owner scope names w,
    (writeStmts w ((Emission.ofOp owner op).run scope names).value).map Writer.depth = some w.depth
  block : ∀ (block : Block) owner scope names w,
    (writeStmts w ((Emission.ofBlock owner block).run scope names).value).map Writer.depth =
      some w.depth
  function : ∀ code ∈ (module.program includes).value.functions, ∀ text,
    (code.write ⟨text, 0⟩).map Writer.depth = some 0
  program : (module.program includes).value.write {} =
    some ⟨(module.program includes).value.text, 0⟩

/-- The depth is kept by every statement, and so by those that are emitted. -/
theorem Module.levelKept (module : Module) (includes : List String) :
    module.LevelKept includes where
  operation _ _ _ _ _ w := by rw [writeStmts_eq, Option.map_some]
  block _ _ _ _ w := by rw [writeStmts_eq, Option.map_some]
  function code _ text := by rw [FunctionCode.write_eq, Option.map_some]
  program := Program.write_eq _

/-- Without dangling values the text is that of the program. -/
theorem Module.text_of_dangling {module : Module} {includes : List String} (h : module.dangling = []) :
    (module.emit includes).text = (module.program includes).value.text := by
  rw [Module.emit, h]

/-- The program has the given includes. -/
theorem Module.includes_program (module : Module) (includes : List String) :
    (module.program includes).value.includes = includes := rfl

/-- The empty table is closed. -/
theorem NameTable.closed_empty : NameTable.empty.Closed := by
  intro id owner h
  cases h

/-- What is related to something on the left, for each element on the right. -/
theorem forall_mem_right_of_forall₂ {α β : Type} {R : α → β → Prop} {as : List α} {bs : List β}
    (h : List.Forall₂ R as bs) : ∀ b ∈ bs, ∃ a, R a b := by
  induction h with
  | nil => exact List.forall_mem_nil _
  | cons hab _ ih => exact List.forall_mem_cons.2 ⟨⟨_, hab⟩, ih⟩

/-- The functions of a program are tidy, and stray if an accelerator call is. -/
theorem Module.tidy_functions {module : Module} {strays : Prop} (includes : List String)
    (hname : ∀ function ∈ module.functions, PlainName function.name)
    (hcalled : NamesPlain module.within)
    (hstrays : ∀ turn ∈ (module.program includes).dispatched, turn.Strays module.values → strays) :
    List.Forall₂ (fun function code => code.Tidy strays ∧ code.name = function.name)
      module.functions (module.program includes).value.functions := by
  have hnames : ∀ function ∈ module.functions, NamesPlain (withinBlocks function.blocks) :=
    fun function hfunction op hop => hcalled op (List.mem_flatMap.2 ⟨function, hfunction, hop⟩)
  have hprogram : Emission.Ensures module.values strays
      (fun program => List.Forall₂ (fun function code => code.Tidy strays ∧ code.name = function.name)
        module.functions program.functions)
      (do return (⟨includes, ← Emission.functions module.functions⟩ : Program)) :=
    .bind (Emission.ensures_functions module.functions hname hnames) fun codes hcodes => .pure hcodes
  exact (hprogram none .empty NameTable.closed_empty hstrays).1

/-- The text of a tidy function defines it. -/
theorem Code.FunctionCode.Tidy.defines {strays : Prop} {function : Function} {code : FunctionCode}
    (h : code.Tidy strays) (hname : code.name = function.name) : function.Defines code.text where
  head := by
    refine ⟨String.join (code.remarks.map fun remark => "/// " ++ remark ++ "\n"),
      ",\n".intercalate (code.ports.map fun port => indent 1 ++ port.text) ++ "\n) \x7b"
        ++ lineEnd (some code.note) ++ stmtsText 1 code.body ++ "\x7d\n\n", ?_, h.runs_remarks.depthBehind⟩
    simp only [FunctionCode.text, hname, String.append_assoc]
  closed := h.runs.depthBehind

/-- Every module without dangling values whose names are plain: its program has balanced braces and
indented lines, with the functions in order. Only where an accelerator call sets a result that has no
name and is no constant, a line may start with the blank behind the missing name. -/
theorem Module.laidOut (module : Module) (includes : List String) (hdangling : module.dangling = [])
    (hname : ∀ function ∈ module.functions, PlainName function.name)
    (hcalled : NamesPlain module.within) (hincludes : ∀ path ∈ includes, PlainName path) :
    module.LaidOut includes (module.Strays includes) ∧ module.LevelKept includes := by
  refine ⟨?_, module.levelKept includes⟩
  have hfunctions := @Module.tidy_functions module (module.Strays includes) includes hname hcalled
    fun turn hturn hstrays => ⟨turn, hturn, hstrays⟩
  have htidy := forall_mem_right_of_forall₂ hfunctions
  have htext : (module.emit includes).text = prologue ++ includesText includes ++
      String.join ((module.program includes).value.functions.map FunctionCode.text) := by
    rw [Module.text_of_dangling hdangling, Program.text, Module.includes_program]
  have hfront := @runs_front (module.Strays includes) _ fun path hpath => (hincludes path hpath).plain
  have hruns := hfront.append (runs_functions fun code hcode => (htidy code hcode).elim fun _ h => h.1)
  rw [← String.toList_append, ← htext] at hruns
  refine ⟨hruns.depthBehind, hruns.disciplined, _, _, htext, hfront.depthBehind, ?_⟩
  rw [List.forall₂_map_right_iff]
  exact hfunctions.imp fun function code h => h.1.defines h.2

/-- A loop around an operation that no rule is for and one without operands, and a function that calls
the first one and an accelerator by its name. -/
def brokenModule : Module where
  values := #[
    { elem := .index, constant := some (.int 0) },
    { elem := .index, constant := some (.int 8) },
    { elem := .index, constant := some (.int 1) },
    { elem := .index },
    { elem := .f32 }]
  functions := [
    { name := "first"
      blocks := [{ ops := [
        { kind := .scfFor, operands := [⟨0⟩, ⟨1⟩, ⟨2⟩]
          regions := [{ args := [⟨3⟩], ops := [
            { kind := .other "unknown" },
            { kind := .binary .add, results := [⟨4⟩] },
            { kind := .unary .abs, operands := [⟨4⟩], results := [⟨4⟩] }] }] }] }] },
    { name := "second"
      args := [⟨4⟩]
      blocks := [{ ops := [
        { kind := .call "first" },
        { kind := .ipCall "block", operands := [⟨4⟩] },
        { kind := .ret }] }] }]

/-- A module that is refused in part is laid out all the same. -/
theorem brokenModule_laidOut : brokenModule.dangling = [] ∧
    brokenModule.LaidOut ["extra.h"] (brokenModule.Strays ["extra.h"]) ∧
    brokenModule.LevelKept ["extra.h"] := by
  have hdangling : brokenModule.dangling = [] := by decide
  have hname : ∀ function ∈ brokenModule.functions, PlainName function.name := by decide
  have hcalled : NamesPlain brokenModule.within := by decide
  have hincludes : ∀ path ∈ ["extra.h"], PlainName path := by decide
  exact ⟨hdangling, Module.laidOut brokenModule ["extra.h"] hdangling hname hcalled hincludes⟩

/-! ## Stray lines -/

/-- The assignment to a missing name starts with one blank too many. -/
theorem not_disciplined_stray {front : String} (hfront : Runs True 0 front.toList 1) (rest : String) :
    ¬ Disciplined False 0
      ((front ++ (indent 1 ++ " = l_res;" ++ "\n" ++ rest)).toList.splitOn '\n') := by
  have hline : (indent 1 ++ " = l_res;").toList =
      [' ', ' ', ' ', '=', ' ', 'l', '_', 'r', 'e', 's', ';'] := by decide
  have hbreak : "\n".toList = ['\n'] := by decide
  intro hall
  rw [String.toList_append, String.toList_append, String.toList_append, hline, hbreak,
    List.append_assoc, List.singleton_append] at hall
  have hrest := hfront.disciplined_rest hall
  rw [splitOn_line (by decide)] at hrest
  -- The line has three blanks where two are due, so it starts neither in its place nor with a
  -- brace.
  obtain ⟨c, tail, hblank, hchars⟩ | ⟨hfalse, -⟩ := hrest.1 Nat.one_pos (by decide)
  · by_cases hbrace : c = '\x7d'
    · subst hbrace
      simp at hchars
    · simp [hbrace, List.replicate] at hchars
      exact hblank hchars.1.symm
  · exact hfalse

/-- A program in which a function calls an accelerator to set a result without a name, at the
outermost level of its body, is not indented as the rest of its lines are. -/
theorem Code.Program.not_disciplined {program : Program} {code : FunctionCode} {operands : List Use}
    {lines : List String} (hincludes : ∀ path ∈ program.includes, PlainName path)
    (htidy : ∀ code ∈ program.functions, code.Tidy True) (hcode : code ∈ program.functions)
    (hcall : .accelerator operands lines ∈ code.body) (hline : " = l_res;" ∈ lines) :
    ¬ Disciplined False 0 (program.text.toList.splitOn '\n') := by
  obtain ⟨functions, functions', hfunctions⟩ := List.append_of_mem hcode
  obtain ⟨before, behind, hbody⟩ := List.append_of_mem hcall
  obtain ⟨lines₁, lines₂, rfl⟩ := List.append_of_mem hline
  have hcodeTidy := htidy code hcode
  have hbodyTidy := hcodeTidy.body
  rw [hbody, stmtsTidy_append, StmtsTidy, Stmt.Tidy, List.forall_mem_append] at hbodyTidy
  rw [hfunctions, List.forall_mem_append] at htidy
  -- everything in front of the stray line runs to depth one
  have hfront := @runs_front True _ fun path hpath => (hincludes path hpath).plain
  have hruns := (((hfront.append (runs_functions htidy.1)).append hcodeTidy.runs_head).append
    (hbodyTidy.1.runs 1)).append (@runs_accelerator _ 1 lines₁ hbodyTidy.2.1.1)
  simp only [← String.toList_append] at hruns
  have hstray : plainLine 1 " = l_res;" = indent 1 ++ " = l_res;" ++ "\n" := rfl
  have htext : program.text = prologue ++ includesText program.includes
      ++ String.join (functions.map FunctionCode.text) ++ code.headText ++ stmtsText 1 before
      ++ String.join (lines₁.map (plainLine 1)) ++ (indent 1 ++ " = l_res;" ++ "\n"
      ++ (String.join (lines₂.map (plainLine 1)) ++ stmtsText 1 behind ++ "\x7d\n\n"
        ++ String.join (functions'.map FunctionCode.text))) := by
    simp only [Program.text, hfunctions, FunctionCode.text_eq, hbody, stmtsText_append, stmtsText,
      Stmt.text, hstray, List.map_append, List.map_cons, String.join_append, String.join_cons,
      String.append_assoc]
  rw [htext]
  exact not_disciplined_stray hruns _

/-- Whether a statement assigns the result of an accelerator to nothing. -/
def Code.Stmt.setsNothing : Stmt → Bool
  | .accelerator _ lines => lines.contains " = l_res;"
  | _ => false

/-- A module whose program has such a call at the outermost level of a body. -/
theorem Module.not_laidOut {module : Module} {includes : List String} (hdangling : module.dangling = [])
    (hname : ∀ function ∈ module.functions, PlainName function.name)
    (hcalled : NamesPlain module.within) (hincludes : ∀ path ∈ includes, PlainName path)
    (hcall : ∃ code ∈ (module.program includes).value.functions, ∃ stmt ∈ code.body,
      stmt.setsNothing = true) :
    ¬ module.LaidOut includes False := by
  have hfunctions := @Module.tidy_functions module True includes hname hcalled fun _ _ _ => trivial
  have htidy : ∀ code ∈ (module.program includes).value.functions, code.Tidy True :=
    fun code hcode => (forall_mem_right_of_forall₂ hfunctions code hcode).elim fun _ h => h.1
  obtain ⟨code, hcode, stmt, hstmt, hnothing⟩ := hcall
  intro hlaid
  have hlines := hlaid.lines
  rw [Module.text_of_dangling hdangling] at hlines
  revert hlines
  -- Only an accelerator call writes such a line.
  cases stmt with
  | accelerator operands lines =>
    rw [Stmt.setsNothing, List.contains_iff_mem] at hnothing
    exact Program.not_disciplined hincludes htidy hcode hstmt hnothing
  | _ => cases hnothing

/-- A maximum of an array, with a result that nothing declares. -/
def peakModule : Module where
  values := #[{ elem := .f32, shape := .fixed [8] }, { elem := .f32 }]
  functions := [{
    name := "peak"
    args := [⟨0⟩]
    blocks := [{ ops := [{ kind := .ip .amax, operands := [⟨0⟩, ⟨1⟩] }, { kind := .ret }] }] }]

/-- A search for a maximum whose result is not declared. -/
theorem peakModule_not_laidOut : peakModule.dangling = [] ∧
    (∀ function ∈ peakModule.functions, PlainName function.name) ∧ NamesPlain peakModule.within ∧
    (peakModule.emit []).diagnostics = [] ∧ ¬ peakModule.LaidOut [] False := by
  have hname : ∀ function ∈ peakModule.functions, PlainName function.name := by decide
  have hcalled : NamesPlain peakModule.within := by decide
  have hcall : ∃ code ∈ (peakModule.program []).value.functions, ∃ stmt ∈ code.body,
      stmt.setsNothing = true := by
    simp only [← List.any_eq_true]
    decide +kernel
  exact ⟨by decide, hname, hcalled, by decide +kernel,
    Module.not_laidOut (by decide) hname hcalled (List.forall_mem_nil _) hcall⟩

end HlsEmit
