import HlsEmit.Code.Lines
import HlsEmit.Proofs.Reading.Code

/-!
# The layout of statements

A statement is written as complete lines. If the texts in it have neither braces nor line breaks, and
no line starts with a blank of its own, the lines are indented by the braces around them.

## Key results

- `Runs.append`, `Runs.disciplined`: complete lines behind each other
- `Stmt.Tidy.runs`: the lines of a tidy statement
- `FunctionCode.Tidy.runs`: the lines of a function with a tidy body
-/

namespace HlsEmit.Code

open Cpp

/-! ## Plain texts -/

/-- A text without braces and line breaks. -/
def Plain (text : String) : Prop :=
  ∀ c ∈ text.toList, c ≠ '\x7b' ∧ c ≠ '\x7d' ∧ c ≠ '\n'

instance (text : String) : Decidable (Plain text) :=
  List.decidableBAll (fun c => c ≠ '\x7b' ∧ c ≠ '\x7d' ∧ c ≠ '\n') text.toList

/-- Two plain texts are plain together. -/
theorem Plain.append {text text' : String} (h : Plain text) (h' : Plain text') :
    Plain (text ++ text') := by
  rw [Plain, String.toList_append, List.forall_mem_append]
  exact ⟨h, h'⟩

/-- A plain text has no line break. -/
theorem Plain.oneLine {text : String} (h : Plain text) : OneLine text :=
  fun hc => (h '\n' hc).2.2 rfl

/-- A text is plain if its characters are. -/
theorem plain_ofList (cs : List Char) (h : ∀ c ∈ cs, c ≠ '\x7b' ∧ c ≠ '\x7d' ∧ c ≠ '\n') :
    Plain (String.ofList cs) := by
  rwa [Plain, String.toList_ofList]

/-- Digits are plain. -/
theorem plain_of_digits {text : String} (h : ∀ c ∈ text.toList, c.isDigit = true) : Plain text := by
  intro c hc
  have hdigit := h c hc
  refine ⟨?_, ?_, ?_⟩ <;> rintro rfl <;> cases hdigit

/-- A natural number is plain. -/
theorem plain_nat (n : Nat) : Plain (toString n) :=
  plain_of_digits fun c hc => Phrase.isDigit_of_mem_toDigits (by rwa [Phrase.toList_toString] at hc)

/-- An integer is plain. -/
theorem plain_int (value : Int) : Plain (toString value) := by
  cases value with
  | ofNat n => exact plain_nat n
  | negSucc n => exact Plain.append (by decide : Plain "-") (plain_nat (n + 1))

/-- Indentation is plain. -/
theorem plain_indent (depth : Nat) : Plain (indent depth) := by
  intro c hc
  rw [indent, String.toList_ofList] at hc
  rw [List.eq_of_mem_replicate hc]
  decide

/-- A plain name is plain. -/
theorem PlainName.plain {name : String} (h : PlainName name) : Plain name := by
  intro c hc
  refine ⟨(h c hc).1, (h c hc).2.1, ?_⟩
  rintro rfl
  cases (h _ hc).2.2

/-- Plain texts with a plain separator are plain together. -/
theorem plain_intercalate {separator : String} {texts : List String} (hseparator : Plain separator)
    (h : ∀ text ∈ texts, Plain text) : Plain (separator.intercalate texts) := by
  cases texts with
  | nil => exact (by decide : Plain "")
  | cons text rest =>
    rw [List.forall_mem_cons] at h
    induction rest generalizing text with
    | nil => simpa using h.1
    | cons next rest ih =>
      rw [String.intercalate_cons_cons]
      exact (h.1.append hseparator).append (ih next (List.forall_mem_cons.1 h.2))

/-- A plain text that starts with something other than a blank. -/
structure Begins (text : String) : Prop where
  plain : Plain text
  first : ∃ c rest, text.toList = c :: rest ∧ c ≠ ' '

/-- A plain text behind one that begins well leaves its beginning. -/
theorem Begins.append {text text' : String} (h : Begins text) (h' : Plain text') :
    Begins (text ++ text') := by
  obtain ⟨c, rest, htext, hc⟩ := h.first
  refine ⟨h.plain.append h', c, rest ++ text'.toList, ?_, hc⟩
  rw [String.toList_append, htext, List.cons_append]

/-! ## Braces -/

/-- The depth behind two texts is that behind the second from where the first ends. -/
theorem depthBehind_append (depth : Nat) (cs cs' : List Char) :
    depthBehind depth (cs ++ cs') = (depthBehind depth cs).bind (depthBehind · cs') := by
  induction cs generalizing depth with
  | nil => rfl
  | cons c cs ih =>
    rw [List.cons_append, depthBehind, depthBehind]
    split
    · exact ih (depth + 1)
    · split
      · split
        · rfl
        · exact ih (depth - 1)
      · exact ih depth

/-- A plain text leaves the depth. -/
theorem Plain.depthBehind {text : String} (h : Plain text) (depth : Nat) :
    depthBehind depth text.toList = some depth := by
  unfold Plain at h
  generalize text.toList = cs at h
  induction cs with
  | nil => rfl
  | cons c cs ih =>
    rw [List.forall_mem_cons] at h
    rw [Code.depthBehind, if_neg h.1.1, if_neg h.1.2.1, ih h.2]

/-! ## Complete lines -/

/-- The first line is split off at its break. -/
theorem splitOn_line {line : List Char} (hline : '\n' ∉ line) (rest : List Char) :
    (line ++ '\n' :: rest).splitOn '\n' = line :: rest.splitOn '\n' := by
  refine List.splitOnP_append_cons_of_forall_mem (fun c hc => ?_) '\n' rfl rest
  rw [beq_eq_false_iff_ne]
  exact fun heq => hline (heq ▸ hc)

/-- Complete lines that are indented by the braces around them, with so many open braces in front
and behind. -/
inductive Runs (strays : Prop) : (depth : Nat) → List Char → (last : Nat) → Prop
  | nil (depth : Nat) : Runs strays depth [] depth
  | line {depth next last : Nat} {line rest : List Char} (hline : '\n' ∉ line)
      (hindented : 0 < depth → line ≠ [] → Indented depth line ∨ strays ∧ Stray depth line)
      (hdepth : depthBehind depth line = some next) (hrest : Runs strays next rest last) :
      Runs strays depth (line ++ '\n' :: rest) last

namespace Runs

variable {strays : Prop} {depth next last : Nat} {cs cs' : List Char}

/-- Two runs of lines, the second from the depth the first ends at. -/
theorem append (h : Runs strays depth cs next) (h' : Runs strays next cs' last) :
    Runs strays depth (cs ++ cs') last := by
  induction h with
  | nil => exact h'
  | line hline hindented hdepth _ ih =>
    rw [List.append_assoc, List.cons_append]
    exact .line hline hindented hdepth (ih h')

/-- A run ends at the depth that its braces lead to. -/
theorem depthBehind (h : Runs strays depth cs last) : depthBehind depth cs = some last := by
  induction h with
  | nil => rfl
  | line _ _ hdepth _ ih =>
    rw [depthBehind_append, hdepth, Option.bind_some, Code.depthBehind, if_neg (by decide),
      if_neg (by decide), ih]

/-- Complete lines behind which all braces are closed. -/
theorem disciplined (h : Runs strays depth cs 0) :
    Disciplined strays depth (cs.splitOn '\n') := by
  generalize hlast : 0 = last at h
  induction h with
  | nil depth =>
    subst hlast
    exact ⟨fun h => absurd h (Nat.lt_irrefl 0), 0, rfl, rfl⟩
  | @line depth next last line rest hline hindented hdepth _ ih =>
    rw [splitOn_line hline]
    exact ⟨hindented, next, hdepth, ih hlast⟩

/-- Behind some complete lines the rest of a disciplined text is disciplined. -/
theorem disciplined_rest {strays' : Prop} {rest : List Char} (h : Runs strays depth cs last)
    (hall : Disciplined strays' depth ((cs ++ rest).splitOn '\n')) :
    Disciplined strays' last (rest.splitOn '\n') := by
  induction h with
  | nil => exact hall
  | line hline _ hdepth _ ih =>
    rw [List.append_assoc, List.cons_append, splitOn_line hline] at hall
    obtain ⟨-, next, hnext, hall⟩ := hall
    rw [hdepth] at hnext
    cases hnext
    exact ih hall

/-- One line in its place is a run. -/
theorem of_line (line : String) (hline : OneLine line)
    (hindented : 0 < depth → line.toList ≠ [] →
      Indented depth line.toList ∨ strays ∧ Stray depth line.toList)
    (hdepth : Code.depthBehind depth line.toList = some next) :
    Runs strays depth (line ++ "\n").toList next := by
  rw [String.toList_append]
  exact .line hline hindented hdepth (.nil next)

/-- A line that starts with a text behind its blanks. -/
theorem of_begins {front rest : String} (hfront : Begins front) (hrest : OneLine rest)
    (hdepth : Code.depthBehind depth rest.toList = some next) :
    Runs strays depth (indent depth ++ front ++ rest ++ "\n").toList next := by
  obtain ⟨c, tail, hc, hblank⟩ := hfront.first
  have hbrace : c ≠ '\x7d' := (hfront.plain c (by rw [hc]; exact List.mem_cons_self)).2.1
  have hplain := (plain_indent depth).append hfront.plain
  refine of_line _ (hplain.oneLine.append hrest) (fun _ _ => .inl ⟨c, tail ++ rest.toList, hblank, ?_⟩) ?_
  · rw [if_neg hbrace, String.toList_append, String.toList_append, hc, indent, String.toList_ofList,
      List.append_assoc, List.cons_append]
  · rw [String.toList_append, depthBehind_append, hplain.depthBehind, Option.bind_some, hdepth]

/-- A line that starts with a closing brace behind its blanks. -/
theorem of_close {rest : String} (hrest : OneLine rest)
    (hdepth : Code.depthBehind depth rest.toList = some next) :
    Runs strays (depth + 1) (indent depth ++ "\x7d" ++ rest ++ "\n").toList next := by
  have hopen : OneLine (indent depth ++ "\x7d") :=
    (plain_indent depth).oneLine.append (by decide)
  refine of_line _ (hopen.append hrest) (fun _ _ => .inl ⟨'\x7d', rest.toList, by decide, ?_⟩) ?_
  · rw [if_pos rfl, String.toList_append, String.toList_append, indent, String.toList_ofList,
      List.append_assoc]
    rfl
  · rw [String.toList_append, String.toList_append, depthBehind_append, depthBehind_append,
      (plain_indent depth).depthBehind]
    exact hdepth

end Runs

/-! ## Notes -/

/-- A note is plain. -/
theorem plain_note (note : Note) : Plain note.text := by
  have hpart (before after : String) (hbefore : Plain before) (hafter : Plain after)
      (value : Option Int64) : Plain (notePart before after value) := by
    cases value with
    | none => exact (by decide : Plain "")
    | some n => exact (hbefore.append (plain_int n.toInt)).append hafter
  refine Plain.append (Plain.append (Plain.append (Plain.append (Plain.append ?_ ?_) ?_) ?_) ?_) ?_
  · decide
  · split
    · decide
    · exact Plain.append (by decide : Plain " L") (plain_nat _)
  · exact hpart _ _ (by decide) (by decide) _
  · exact hpart _ _ (by decide) (by decide) _
  · exact hpart _ _ (by decide) (by decide) _
  · exact hpart _ _ (by decide) (by decide) _

/-- A line ends with a plain text and a break. -/
theorem exists_lineEnd (note : Option Note) : ∃ text, Plain text ∧ lineEnd note = text ++ "\n" := by
  cases note with
  | none => exact ⟨"", by decide, rfl⟩
  | some note => exact ⟨note.text, plain_note note, rfl⟩

section Lines

variable (strays : Prop) (depth : Nat)

/-- A line without braces. -/
theorem runs_plain {text : String} (h : Begins text) (note : Option Note) :
    Runs strays depth (indent depth ++ text ++ lineEnd note).toList depth := by
  obtain ⟨comment, hcomment, htext⟩ := exists_lineEnd note
  rw [htext, ← String.append_assoc]
  exact .of_begins h hcomment.oneLine (hcomment.depthBehind depth)

/-- A line that ends with an opening brace. -/
theorem runs_open {text : String} (h : Begins text) (note : Option Note) :
    Runs strays depth (indent depth ++ text ++ " \x7b" ++ lineEnd note).toList (depth + 1) := by
  obtain ⟨comment, hcomment, htext⟩ := exists_lineEnd note
  have hline : OneLine (" \x7b" ++ comment) := OneLine.append (by decide) hcomment.oneLine
  have hfront : indent depth ++ text ++ " \x7b" ++ comment = indent depth ++ text ++ (" \x7b" ++ comment) :=
    String.append_assoc
  rw [htext, ← String.append_assoc, hfront]
  refine .of_begins h hline ?_
  rw [String.toList_append, depthBehind_append]
  exact hcomment.depthBehind (depth + 1)

/-- A line with a closing brace. -/
theorem runs_close (note : Option Note) :
    Runs strays (depth + 1) (indent depth ++ "\x7d" ++ lineEnd note).toList depth := by
  obtain ⟨comment, hcomment, htext⟩ := exists_lineEnd note
  rw [htext, ← String.append_assoc]
  exact .of_close hcomment.oneLine (hcomment.depthBehind depth)

/-- The line between two branches. -/
theorem runs_else :
    Runs strays (depth + 1) (indent depth ++ "\x7d else \x7b\n").toList (depth + 1) := by
  have hruns : Runs strays (depth + 1) (indent depth ++ "\x7d" ++ " else \x7b" ++ "\n").toList
      (depth + 1) := .of_close (by decide) rfl
  rwa [String.append_assoc, String.append_assoc] at hruns

end Lines

/-! ## Statements -/

/-- A line of an accelerator call: empty, well begun, or the assignment of a result to nothing. -/
def CallLine (strays : Prop) (line : String) : Prop :=
  line = "" ∨ Begins line ∨ strays ∧ line = " = l_res;"

mutual

/-- The texts in a statement are plain, and where they start a line they do not start with a blank.
The lines of an accelerator call may be empty or stray instead. -/
def Stmt.Tidy (strays : Prop) : Stmt → Prop
  | .declaration declarator _ => Begins declarator.text
  | .initialized declarator elements _ => Begins declarator.text ∧ ∀ text ∈ elements, Plain text
  | .assign _ target value _ => Begins target.text ∧ Plain value.text
  | .call call _ => Begins call.text
  | .pragma pragma => Begins pragma.text
  | .blank => True
  | .accelerator _ lines => ∀ line ∈ lines, CallLine strays line
  | .loop head _ body _ => Begins head.text ∧ StmtsTidy strays body
  | .branch condition _ onTrue none => Plain condition.text ∧ StmtsTidy strays onTrue
  | .branch condition _ onTrue (some onFalse) =>
    Plain condition.text ∧ StmtsTidy strays onTrue ∧ StmtsTidy strays onFalse
termination_by structural stmt => stmt

/-- All of some statements are tidy. -/
def StmtsTidy (strays : Prop) : List Stmt → Prop
  | [] => True
  | stmt :: rest => stmt.Tidy strays ∧ StmtsTidy strays rest
termination_by structural stmts => stmts

end

section Statements

variable {strays : Prop}

/-- Two lists of statements are tidy together if each of them is. -/
theorem stmtsTidy_append {stmts stmts' : List Stmt} :
    StmtsTidy strays (stmts ++ stmts') ↔ StmtsTidy strays stmts ∧ StmtsTidy strays stmts' := by
  induction stmts with
  | nil => simp [StmtsTidy]
  | cons stmt rest ih => simp only [List.cons_append, StmtsTidy, ih, and_assoc]

/-- The text of two lists of statements is the one behind the other. -/
theorem stmtsText_append (depth : Nat) (stmts stmts' : List Stmt) :
    stmtsText depth (stmts ++ stmts') = stmtsText depth stmts ++ stmtsText depth stmts' := by
  induction stmts with
  | nil => rw [List.nil_append, stmtsText, String.empty_append]
  | cons stmt rest ih => rw [List.cons_append, stmtsText, stmtsText, ih, String.append_assoc]

/-- The lines of an accelerator call run at one depth. -/
theorem runs_accelerator {depth : Nat} {lines : List String}
    (h : ∀ line ∈ lines, CallLine strays line) :
    Runs strays depth (String.join (lines.map (plainLine depth))).toList depth := by
  induction lines with
  | nil => exact .nil depth
  | cons line lines ih =>
    rw [List.forall_mem_cons] at h
    rw [List.map_cons, String.join_cons, String.toList_append]
    refine .append ?_ (ih h.2)
    -- A blank line, a line that begins well, or the one whose result is missing.
    obtain rfl | hbegins | ⟨hstrays, rfl⟩ := h.1
    · exact .of_line "" (by decide) (fun _ h => absurd rfl h) rfl
    · obtain ⟨c, rest, hc, -⟩ := hbegins.first
      have hne : line.isEmpty = false := by
        rw [String.isEmpty_eq_false_iff]
        rintro rfl
        cases hc
      rw [plainLine, hne, if_neg Bool.false_ne_true]
      exact runs_plain strays depth hbegins none
    · have hplain : Plain (indent depth ++ " = l_res;") := (plain_indent depth).append (by decide)
      refine .of_line _ hplain.oneLine (fun _ _ => .inr ⟨hstrays, ?_⟩) (hplain.depthBehind depth)
      rw [Stray, String.toList_append, indent, String.toList_ofList]

/-- The line in front of a branch. -/
theorem runs_branch (depth : Nat) {condition : Expr} (h : Plain condition.text) (note : Option Note) :
    Runs strays depth (indent depth ++ "if (" ++ condition.text ++ ") \x7b" ++ lineEnd note).toList
      (depth + 1) := by
  have hline : Begins ("if (" ++ condition.text ++ ")") :=
    Begins.append (Begins.append ⟨by decide, 'i', _, rfl, by decide⟩ h) (by decide)
  have hbrace : ") \x7b" = ")" ++ " \x7b" := rfl
  have hruns := runs_open strays depth hline note
  simpa only [hbrace, String.append_assoc] using hruns

/-- A nested block of lines between a line that opens it and what follows it. -/
theorem Runs.nested {depth last : Nat} {head body rest : String}
    (hhead : Runs strays depth head.toList (depth + 1))
    (hbody : Runs strays (depth + 1) body.toList (depth + 1))
    (hrest : Runs strays (depth + 1) rest.toList last) :
    Runs strays depth (head ++ body ++ rest).toList last := by
  rw [String.toList_append, String.toList_append]
  exact (hhead.append hbody).append hrest

/-- The elements stand between braces on one line. -/
theorem runs_initialized {depth : Nat} {front : String} {elements : List String}
    (hfront : Begins front) (helements : ∀ text ∈ elements, Plain text) (note : Option Note) :
    Runs strays depth (indent depth ++ front ++ " = \x7b" ++ ", ".intercalate elements ++ "\x7d;"
      ++ lineEnd note).toList depth := by
  obtain ⟨comment, hcomment, htext⟩ := exists_lineEnd note
  have hlist := plain_intercalate (by decide : Plain ", ") helements
  have hrest : OneLine (" = \x7b" ++ ", ".intercalate elements ++ ("\x7d;" ++ comment)) :=
    (OneLine.append (by decide) hlist.oneLine).append (OneLine.append (by decide) hcomment.oneLine)
  have hdepth : depthBehind depth
      (" = \x7b" ++ ", ".intercalate elements ++ ("\x7d;" ++ comment)).toList = some depth := by
    have hopen : depthBehind depth " = \x7b".toList = some (depth + 1) := rfl
    have hclose : depthBehind (depth + 1) "\x7d;".toList = some depth := rfl
    rw [String.toList_append, String.toList_append, String.toList_append, depthBehind_append,
      depthBehind_append, hopen, Option.bind_some, hlist.depthBehind, Option.bind_some,
      depthBehind_append, hclose, Option.bind_some, hcomment.depthBehind]
  have hruns := @Runs.of_begins strays _ _ _ _ hfront hrest hdepth
  simpa only [htext, String.append_assoc] using hruns

/-- A closing brace is a line of its own. -/
theorem line_close : "\x7d\n" = "\x7d" ++ lineEnd none := rfl

mutual

/-- The lines of a tidy statement. -/
theorem Stmt.Tidy.runs (depth : Nat) : (stmt : Stmt) → stmt.Tidy strays →
    Runs strays depth (stmt.text depth).toList depth
  | .declaration declarator note, h => by
    have hline : Begins (declarator.text ++ ";") := Begins.append h (by decide)
    have hruns := runs_plain strays depth hline note
    rwa [← String.append_assoc] at hruns
  | .initialized declarator elements note, h => runs_initialized h.1 h.2 note
  | .assign form target value note, h => by
    have hsymbol : Plain form.symbol := by cases form <;> decide
    have hline : Begins (target.text ++ " " ++ form.symbol ++ " " ++ value.text ++ ";") :=
      ((((h.1.append (by decide)).append hsymbol).append (by decide)).append h.2).append (by decide)
    have hruns := runs_plain strays depth hline note
    simpa only [Stmt.text, String.append_assoc] using hruns
  | .call call note, h => by
    have hline : Begins (call.text ++ ";") := Begins.append h (by decide)
    have hruns := runs_plain strays depth hline note
    rwa [← String.append_assoc] at hruns
  | .pragma pragma, h => runs_plain strays depth h none
  | .blank, _ => .of_line "" (by decide) (fun _ h => absurd rfl h) rfl
  | .accelerator operands lines, h => runs_accelerator h
  | .loop head note body closing, h => by
    have hbody := StmtsTidy.runs (depth + 1) body h.2
    have hruns := (runs_open strays depth h.1 note).nested hbody (runs_close strays depth closing)
    simpa only [Stmt.text, String.append_assoc] using hruns
  | .branch condition note onTrue none, h => by
    have htrue := StmtsTidy.runs (depth + 1) onTrue h.2
    have hruns := (runs_branch depth h.1 note).nested htrue (runs_close strays depth none)
    simpa only [Stmt.text, line_close, String.append_assoc] using hruns
  | .branch condition note onTrue (some onFalse), h => by
    have htrue := StmtsTidy.runs (depth + 1) onTrue h.2.1
    have hfalse := StmtsTidy.runs (depth + 1) onFalse h.2.2
    -- the line between the branches closes the first one and opens the second one
    have hruns := ((runs_branch depth h.1 note).nested htrue (runs_else strays depth)).append
      (hfalse.append (runs_close strays depth none))
    rw [← String.toList_append, ← String.toList_append] at hruns
    simpa only [Stmt.text, line_close, String.append_assoc] using hruns

/-- Tidy statements run at one depth. -/
theorem StmtsTidy.runs (depth : Nat) : (stmts : List Stmt) → StmtsTidy strays stmts →
    Runs strays depth (stmtsText depth stmts).toList depth
  | [], _ => .nil depth
  | stmt :: rest, h => by
    rw [stmtsText, String.toList_append]
    exact (Stmt.Tidy.runs depth stmt h.1).append (StmtsTidy.runs depth rest h.2)

end

/-! ## Functions and programs -/

/-- Outside of braces a plain line stands as it is. -/
theorem runs_outside {line : String} (h : Plain line) : Runs strays 0 (line ++ "\n").toList 0 :=
  .of_line line h.oneLine (fun hpos => absurd hpos (Nat.lt_irrefl 0)) (h.depthBehind 0)

/-- Plain lines run at the outermost level. -/
theorem runs_lines {lines : List String} (h : ∀ line ∈ lines, Plain line) :
    Runs strays 0 (String.join (lines.map (· ++ "\n"))).toList 0 := by
  induction lines with
  | nil => exact .nil 0
  | cons line lines ih =>
    rw [List.forall_mem_cons] at h
    rw [List.map_cons, String.join_cons, String.toList_append]
    exact (runs_outside h.1).append (ih h.2)

/-- The ports of a signature run at the outermost level. -/
theorem runs_ports {ports : List String} (h : ∀ port ∈ ports, Plain port) :
    Runs strays 0 (",\n".intercalate ports ++ "\n").toList 0 := by
  cases ports with
  | nil => exact runs_outside (by decide : Plain "")
  | cons port rest =>
    rw [List.forall_mem_cons] at h
    induction rest generalizing port with
    | nil => simpa using @runs_outside strays _ h.1
    | cons next rest ih =>
      have hfirst : Runs strays 0 (port ++ ",\n").toList 0 := by
        have hline : Runs strays 0 (port ++ "," ++ "\n").toList 0 :=
          runs_outside (h.1.append (by decide))
        rwa [String.append_assoc] at hline
      have hruns := hfirst.append (ih next (List.forall_mem_cons.1 h.2))
      rw [← String.toList_append] at hruns
      rwa [String.intercalate_cons_cons, String.append_assoc]

/-- The texts in a function are plain, and its statements are tidy. -/
structure FunctionCode.Tidy (strays : Prop) (function : FunctionCode) : Prop where
  name : Plain function.name
  remarks : ∀ remark ∈ function.remarks, Plain remark
  ports : ∀ port ∈ function.ports, Plain port.text
  body : StmtsTidy strays function.body

/-- The lines of a function in front of its body. -/
def FunctionCode.headText (function : FunctionCode) : String :=
  String.join (function.remarks.map fun remark => "/// " ++ remark ++ "\n")
    ++ "void " ++ function.name ++ "(\n"
    ++ ",\n".intercalate (function.ports.map fun port => indent 1 ++ port.text)
    ++ "\n) \x7b" ++ lineEnd (some function.note)

/-- A function is its head, its body and its closing brace. -/
theorem FunctionCode.text_eq (function : FunctionCode) :
    function.text = function.headText ++ stmtsText 1 function.body ++ "\x7d\n\n" := rfl

/-- The remarks in front of a function run at the outermost level. -/
theorem FunctionCode.Tidy.runs_remarks {function : FunctionCode} (h : function.Tidy strays) :
    Runs strays 0 (String.join (function.remarks.map fun remark =>
      "/// " ++ remark ++ "\n")).toList 0 := by
  have hlines : ∀ line ∈ function.remarks.map ("/// " ++ ·), Plain line := by
    rw [List.forall_mem_map]
    exact fun remark hremark => Plain.append (by decide) (h.remarks remark hremark)
  have hruns := @runs_lines strays _ hlines
  rwa [List.map_map] at hruns

/-- The head of a function opens one level. -/
theorem FunctionCode.Tidy.runs_head {function : FunctionCode} (h : function.Tidy strays) :
    Runs strays 0 function.headText.toList 1 := by
  have hhead : Runs strays 0 ("void " ++ function.name ++ "(" ++ "\n").toList 0 :=
    runs_outside ((Plain.append (by decide) h.name).append (by decide))
  have hports : Runs strays 0 (",\n".intercalate (function.ports.map fun port =>
      indent 1 ++ port.text) ++ "\n").toList 0 := by
    refine runs_ports ?_
    rw [List.forall_mem_map]
    exact fun port hport => (plain_indent 1).append (h.ports port hport)
  have hopen : Runs strays 0 (indent 0 ++ ")" ++ " \x7b" ++ lineEnd (some function.note)).toList 1 :=
    runs_open strays 0 ⟨by decide, ')', _, rfl, by decide⟩ _
  have hruns := ((h.runs_remarks.append hhead).append hports).append hopen
  simp only [← String.toList_append] at hruns
  -- the literals of the text are cut where a line ends
  have hzero : indent 0 = "" := rfl
  have hparen : "(\n" = "(" ++ "\n" := rfl
  have hbrace : "\n) \x7b" = "\n" ++ (")" ++ " \x7b") := rfl
  simpa only [FunctionCode.headText, hparen, hbrace, hzero, lineEnd, String.empty_append,
    String.append_assoc] using hruns

/-- The lines of a tidy function; all braces are closed behind it. -/
theorem FunctionCode.Tidy.runs {function : FunctionCode} (h : function.Tidy strays) :
    Runs strays 0 function.text.toList 0 := by
  have hclose : Runs strays 1 (indent 0 ++ "\x7d" ++ lineEnd none).toList 0 := runs_close strays 0 none
  have hblank := @runs_outside strays _ (by decide : Plain "")
  have hbody := StmtsTidy.runs 1 function.body h.body
  rw [FunctionCode.text_eq, String.toList_append, String.toList_append]
  exact (h.runs_head.append hbody).append (hclose.append hblank)

/-- Functions with tidy bodies behind each other. -/
theorem runs_functions {functions : List FunctionCode} (h : ∀ function ∈ functions, function.Tidy strays) :
    Runs strays 0 (String.join (functions.map FunctionCode.text)).toList 0 := by
  induction functions with
  | nil => exact .nil 0
  | cons function rest ih =>
    rw [List.forall_mem_cons] at h
    rw [List.map_cons, String.join_cons, String.toList_append]
    exact h.1.runs.append (ih h.2)

/-- An escaped path has no other characters than the path and the escaping backslashes. -/
theorem mem_escapePath {path : String} {c : Char} (h : c ∈ (escapePath path).toList) :
    c = '\\' ∨ c ∈ path.toList := by
  rw [escapePath, String.toList_ofList, List.mem_flatMap] at h
  obtain ⟨d, hd, hc⟩ := h
  split at hc
  · obtain rfl | hc := List.mem_cons.1 hc
    · exact .inl rfl
    · exact .inr (List.mem_singleton.1 hc ▸ hd)
  · exact .inr (List.mem_singleton.1 hc ▸ hd)

/-- An escaped path is plain if the path is. -/
theorem plain_escapePath {path : String} (h : Plain path) : Plain (escapePath path) := by
  intro c hc
  obtain rfl | hc := mem_escapePath hc
  · decide
  · exact h c hc

/-- The lines of the prologue are plain. -/
theorem plain_prologue : ∀ line ∈ prologueLines, Plain line := by
  unfold prologueLines
  repeat refine List.forall_mem_cons.2 ⟨plain_ofList _ (by decide), ?_⟩
  exact List.forall_mem_nil _

/-- The lines in front of the functions. -/
theorem runs_front {includes : List String} (h : ∀ path ∈ includes, Plain path) :
    Runs strays 0 (prologue ++ includesText includes).toList 0 := by
  have hprologue : Runs strays 0 prologue.toList 0 := runs_lines plain_prologue
  have hlines : ∀ line ∈ includes.map fun path => "#include \"" ++ escapePath path ++ "\"", Plain line := by
    rw [List.forall_mem_map]
    exact fun path hpath => (Plain.append (by decide) (plain_escapePath (h path hpath))).append (by decide)
  have hincludes : Runs strays 0
      (String.join (includes.map fun path => "#include \"" ++ escapePath path ++ "\"\n")).toList 0 := by
    have hruns := @runs_lines strays _ hlines
    have hquote : "\"\n" = "\"" ++ "\n" := rfl
    rw [List.map_map] at hruns
    simpa only [Function.comp_def, hquote, String.append_assoc] using hruns
  -- A blank line follows only if there are include lines.
  have hblank : Runs strays 0 (if includes.isEmpty then "" else "\n").toList 0 := by
    split
    · exact .nil 0
    · exact runs_outside (by decide : Plain "")
  rw [includesText, String.toList_append, String.toList_append]
  exact hprologue.append (hincludes.append hblank)

end Statements

end HlsEmit.Code
