import HlsEmit.Proofs.Lockstep.Program
import HlsEmit.Proofs.Reading.Code

/-!
# Debugging data does not affect the code

Source lines, schedules and estimates are written into notes at the ends of lines and nowhere else.
Two modules that differ in nothing else are emitted in lockstep, so that the code differs in notes
only; and a note is a tab, two slashes and the rest of its line, so that it is gone when every line is
cut where one begins.

## Key results

- `CutAlike.append`: texts are compared piece by piece
- `Stmt.cutAlike_bare`: emptying its notes does not change a statement up to its notes
- `Module.metadata_unobserved`: modules that are the same without debugging data
-/

namespace HlsEmit

namespace Code

/-! ## Cutting lines -/

/-- A note starts with a tab, so nothing without one gets into a line or out of it by cutting. -/
theorem isPrefix_beforeNote {p : List Char} (hp : '\t' ∉ p) (line : List Char) :
    p <+: beforeNote line ↔ p <+: line := by
  induction p generalizing line with
  | nil => simp
  | cons c p ih =>
    rw [List.mem_cons, not_or] at hp
    cases line with
    | nil => rfl
    | cons a line =>
      rw [beforeNote]
      split
      · next hnote =>
        have ha : '\t' = a := (List.cons_prefix_cons.1 hnote).1
        have hne : c ≠ a := fun heq => hp.1 (ha.trans heq.symm)
        simp [hne]
      · rw [List.cons_prefix_cons, List.cons_prefix_cons, ih hp.2]

/-- What is cut off a line does not hide where its note begins. -/
theorem isNote_beforeNote (c : Char) (line : List Char) :
    ['\t', '/', '/'] <+: c :: beforeNote line ↔ ['\t', '/', '/'] <+: c :: line := by
  rw [List.cons_prefix_cons, List.cons_prefix_cons, isPrefix_beforeNote (by decide)]

/-- A line is cut once. -/
theorem beforeNote_beforeNote (line : List Char) : beforeNote (beforeNote line) = beforeNote line := by
  induction line with
  | nil => rfl
  | cons c line ih =>
    rw [beforeNote]
    split
    · rfl
    · next hnote => rw [beforeNote, if_neg (mt (isNote_beforeNote c line).1 hnote), ih]

/-- What a line is cut to depends on its first character and what the rest is cut to. -/
theorem beforeNote_cons (c : Char) (line : List Char) :
    beforeNote (c :: line) = beforeNote (c :: beforeNote line) := by
  rw [beforeNote, beforeNote, beforeNote_beforeNote]
  simp only [isNote_beforeNote]

/-- Whatever stands in front of texts that are the same up to notes, they are so with it. -/
theorem linesBeforeNotes_cons (c : Char) {cs cs' : List Char}
    (h : (cs.splitOn '\n').map beforeNote = (cs'.splitOn '\n').map beforeNote) :
    ((c :: cs).splitOn '\n').map beforeNote = ((c :: cs').splitOn '\n').map beforeNote := by
  unfold List.splitOn at h ⊢
  rw [List.splitOnP_cons_eq_if_modifyHead, List.splitOnP_cons_eq_if_modifyHead]
  split
  · rw [List.map_cons, List.map_cons, h]
  · cases hsplit : cs.splitOnP (· == '\n') with
    | nil => exact absurd hsplit (List.splitOnP_ne_nil _ _)
    | cons line lines =>
      cases hsplit' : cs'.splitOnP (· == '\n') with
      | nil => exact absurd hsplit' (List.splitOnP_ne_nil _ _)
      | cons line' lines' =>
        rw [hsplit, hsplit', List.map_cons, List.map_cons, List.cons_eq_cons] at h
        rw [List.modifyHead_cons, List.modifyHead_cons, List.map_cons, List.map_cons, h.2,
          beforeNote_cons c line, h.1, ← beforeNote_cons c line']

/-! ## Texts that are the same up to notes -/

/-- Texts whose lines are the same up to notes, whatever follows that is the same up to notes. -/
def CutAlike (text text' : String) : Prop :=
  ∀ rest rest', linesBeforeNotes rest = linesBeforeNotes rest' →
    linesBeforeNotes (text ++ rest) = linesBeforeNotes (text' ++ rest')

namespace CutAlike

variable {text text' text₁ text₁' text'' : String}

/-- Every text is cut like itself. -/
theorem refl (text : String) : CutAlike text text := by
  intro rest rest' h
  unfold linesBeforeNotes at h ⊢
  rw [String.toList_append, String.toList_append]
  generalize text.toList = cs
  induction cs with
  | nil => exact h
  | cons c cs ih => exact linesBeforeNotes_cons c ih

/-- Texts are cut alike both ways. -/
theorem symm (h : CutAlike text text') : CutAlike text' text :=
  fun rest rest' hrest => (h rest' rest hrest.symm).symm

/-- Texts that are cut like the same text are cut alike. -/
theorem trans (h : CutAlike text text') (h' : CutAlike text' text'') : CutAlike text text'' :=
  fun rest rest' hrest => (h rest rest rfl).trans (h' rest rest' hrest)

/-- Texts are cut alike part by part. -/
theorem append (h : CutAlike text text') (h₁ : CutAlike text₁ text₁') :
    CutAlike (text ++ text₁) (text' ++ text₁') := by
  intro rest rest' hrest
  rw [String.append_assoc, String.append_assoc]
  exact h _ _ (h₁ rest rest' hrest)

/-- The same texts, up to notes. -/
theorem lines (h : CutAlike text text') : linesBeforeNotes text = linesBeforeNotes text' := by
  have hlines := h "" "" rfl
  rwa [String.append_empty, String.append_empty] at hlines

end CutAlike

/-! ## Notes -/

/-- A line is over where its note begins. -/
theorem linesBeforeNotes_note (note : Note) (rest : String) :
    linesBeforeNotes (lineEnd (some note) ++ rest) = [] :: linesBeforeNotes rest := by
  obtain ⟨comment, hcomment, htext⟩ := exists_comment note
  have hline : ∀ c ∈ "\t//".toList ++ comment.toList, (c == '\n') = false := by
    intro c hc
    rw [beq_eq_false_iff_ne]
    rintro rfl
    obtain hc | hc := List.mem_append.1 hc
    · exact absurd hc (by decide)
    · exact hcomment hc
  have hlist : (lineEnd (some note) ++ rest).toList =
      ("\t//".toList ++ comment.toList) ++ '\n' :: rest.toList := by
    rw [lineEnd, htext]
    simp [String.toList_append]
  unfold linesBeforeNotes List.splitOn
  rw [hlist, List.splitOnP_append_cons_of_forall_mem hline '\n' rfl, List.map_cons]
  rfl

/-- It does not matter what a note says. -/
theorem cutAlike_lineEnd (note : Option Note) : CutAlike (lineEnd note) (lineEnd (bareNote note)) := by
  cases note with
  | none => exact .refl "\n"
  | some note =>
    intro rest rest' hrest
    rw [bareNote, Option.map_some, linesBeforeNotes_note, linesBeforeNotes_note, hrest]

/-! ## Code -/

mutual

/-- Emptying its notes does not change a statement up to its notes. -/
theorem Stmt.cutAlike_bare (depth : Nat) : (stmt : Stmt) →
    CutAlike (stmt.text depth) (stmt.bare.text depth)
  | .declaration declarator note => by
    simp only [Stmt.bare, Stmt.text]
    exact .append (.refl _) (cutAlike_lineEnd note)
  | .initialized declarator elements note => by
    simp only [Stmt.bare, Stmt.text]
    exact .append (.refl _) (cutAlike_lineEnd note)
  | .assign form target value note => by
    simp only [Stmt.bare, Stmt.text]
    exact .append (.refl _) (cutAlike_lineEnd note)
  | .call call note => by
    simp only [Stmt.bare, Stmt.text]
    exact .append (.refl _) (cutAlike_lineEnd note)
  | .pragma pragma => .refl _
  | .blank => .refl _
  | .accelerator operands lines => .refl _
  -- The notes stand at the end of the opening and of the closing line.
  | .loop head note body closing => by
    have hbody := cutAlike_bareStmts (depth + 1) body
    simp only [Stmt.bare, Stmt.text]
    refine .append (.append (.append (.append (.append (.refl _) ?_) hbody) (.refl _)) (.refl _)) ?_
    · exact cutAlike_lineEnd note
    · exact cutAlike_lineEnd closing
  | .branch condition note onTrue none => by
    have htrue := cutAlike_bareStmts (depth + 1) onTrue
    simp only [Stmt.bare, Stmt.text]
    exact .append (.append (.append (.append (.refl _) (cutAlike_lineEnd note)) htrue) (.refl _))
      (.refl _)
  | .branch condition note onTrue (some onFalse) => by
    have htrue := cutAlike_bareStmts (depth + 1) onTrue
    have hfalse := cutAlike_bareStmts (depth + 1) onFalse
    simp only [Stmt.bare, Stmt.text]
    refine .append (.append (.append (.append (.append ?_ (.refl _)) (.refl _)) hfalse) (.refl _))
      (.refl _)
    exact .append (.append (.refl _) (cutAlike_lineEnd note)) htrue

theorem cutAlike_bareStmts (depth : Nat) : (stmts : List Stmt) →
    CutAlike (stmtsText depth stmts) (stmtsText depth (bareStmts stmts))
  | [] => .refl ""
  | stmt :: rest => by
    simp only [bareStmts, stmtsText]
    exact .append (stmt.cutAlike_bare depth) (cutAlike_bareStmts depth rest)

end

/-- A function is cut like itself without notes. -/
theorem FunctionCode.cutAlike_bare (function : FunctionCode) :
    CutAlike function.text function.bare.text := by
  have hbody := cutAlike_bareStmts 1 function.body
  have hnote := cutAlike_lineEnd (some function.note)
  exact .append (.append (.append (.refl _) hnote) hbody) (.refl _)

/-- Functions with the same code but for notes have the same text up to notes. -/
theorem cutAlike_functions {codes codes' : List FunctionCode}
    (h : codes.map FunctionCode.bare = codes'.map FunctionCode.bare) :
    CutAlike (String.join (codes.map FunctionCode.text))
      (String.join (codes'.map FunctionCode.text)) := by
  have hbare (codes : List FunctionCode) : CutAlike (String.join (codes.map FunctionCode.text))
      (String.join ((codes.map FunctionCode.bare).map FunctionCode.text)) := by
    induction codes with
    | nil => exact .refl ""
    | cons code rest ih =>
      simp only [List.map_cons, String.join_cons]
      exact .append code.cutAlike_bare ih
  have hback := hbare codes'
  rw [← h] at hback
  exact (hbare codes).trans hback.symm

end Code

open Code

/-! ## Modules -/

namespace Module

variable {module module' : Module}

/-- Modules that are the same without debugging data are emitted in lockstep. -/
theorem program_alike (h : module.bare = module'.bare) (includes : List String) :
    (module.program includes).value.functions.map FunctionCode.bare =
        (module'.program includes).value.functions.map FunctionCode.bare ∧
      (module.program includes).raised.map Diagnostic.bare =
        (module'.program includes).raised.map Diagnostic.bare := by
  obtain ⟨hvalues, hbare⟩ := Module.mk.inj h
  have hfunctions : HlsEmit.Alike (List.map Function.bare) false module.functions module'.functions :=
    ⟨hbare, nofun⟩
  have hlock := Emission.lockstep_functions (c := ⟨module.values, fun _ => True, false⟩) hfunctions
    (fun _ _ _ _ => trivial) none .empty .empty (.refl _)
  have hvalue := hlock.value.bare_eq
  have hraised := hlock.raised.bare_eq
  rw [program, program, ← hvalues]
  refine ⟨hvalue, ?_⟩
  simp only [Emission.bind_apply, Emission.pure_apply, Outcome.andThen, List.append_nil]
  exact hraised

/-- Debugging data never affects the code. The texts of two modules that are equal without debugging
data have the same lines up to the notes at their ends, and the reports are equal, one by one, but for
the source lines in them. -/
theorem metadata_unobserved (module module' : Module) (includes : List String)
    (h : module.bare = module'.bare) :
    linesBeforeNotes (module.emit includes).text = linesBeforeNotes (module'.emit includes).text ∧
      (module.emit includes).diagnostics.map Diagnostic.bare =
        (module'.emit includes).diagnostics.map Diagnostic.bare := by
  have hdangling : module.dangling = module'.dangling := by
    rw [← module.bare_dangling, h, module'.bare_dangling]
  obtain ⟨hcodes, hraised⟩ := program_alike h includes
  unfold emit
  rw [← hdangling]
  split
  · refine ⟨?_, hraised⟩
    exact (CutAlike.append (.refl _) (cutAlike_functions hcodes)).lines
  · exact ⟨rfl, rfl⟩

end Module

/-- A module with a negation, with some debugging data. -/
def negationNoted (line : Option UInt32) (attrs : OpAttrs) : Module where
  values := #[{ elem := .f32, shape := .scalar }, { elem := .f32, shape := .scalar }]
  functions := [{
    name := "negation"
    args := [⟨0⟩]
    line
    blocks := [{ ops := [
      { kind := .unary .neg, operands := [⟨0⟩], results := [⟨1⟩], attrs, line },
      { kind := .ret, operands := [⟨1⟩], line }] }] }]

/-- Schedules and lines of a negation change its notes only. -/
theorem negationNoted_unobserved :
    let noted := negationNoted (some 7) { scheduleBegin := some 1, scheduleEnd := some 4, interval := some 2 }
    let plain := negationNoted none {}
    noted.bare = plain.bare ∧
      (noted.program []).value.functions.map FunctionCode.note ≠
        (plain.program []).value.functions.map FunctionCode.note ∧
      linesBeforeNotes (noted.emit []).text = linesBeforeNotes (plain.emit []).text ∧
      (noted.emit []).diagnostics.map Diagnostic.bare =
        (plain.emit []).diagnostics.map Diagnostic.bare := by
  intro noted plain
  exact ⟨rfl, by decide, Module.metadata_unobserved noted plain [] rfl⟩

end HlsEmit
