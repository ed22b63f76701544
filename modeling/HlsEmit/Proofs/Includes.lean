import HlsEmit.Code.Includes
import HlsEmit.Proofs.Indentation

/-!
# Include lines are read back

Every path has a line of its own. Whatever quotes and backslashes are in it, it does not end before
its closing quote, and it is the path again without the escaping backslashes. So a program tells which
headers it was asked for.

## Key results

- `readQuoted_eq_some_iff`: what is read between quotes
- `escapePath_eq_inTurn`: quotes and backslashes are escaped one after the other
- `includedPaths_includesText`: the lines of some paths are read back
- `Module.includes_decode`: the program of every module without dangling values
-/

namespace HlsEmit

namespace Code

/-! ## Between quotes -/

/-- Reading stops at the quote behind some characters just if every quote and every backslash among
them is escaped. -/
theorem readQuoted_eq_some_iff {text : List Char} {characters : List PathChar} {behind : List Char} :
    readQuoted text = some (characters, behind) ↔
      text = characters.flatMap PathChar.text ++ '"' :: behind ∧
        ∀ character ∈ characters, character.char = '"' ∨ character.char = '\\' →
          character.escaped = true := by
  constructor
  · -- by the recursion of the reader
    intro h
    fun_induction readQuoted text generalizing characters with
    | case1 => cases h
    | case2 rest =>
      cases h
      exact ⟨rfl, List.forall_mem_nil _⟩
    | case3 c rest ih =>
      obtain ⟨⟨others, _⟩, hrest, heq⟩ := Option.map_eq_some_iff.1 h
      cases heq
      obtain ⟨rfl, hothers⟩ := ih hrest
      exact ⟨rfl, List.forall_mem_cons.2 ⟨fun _ => rfl, hothers⟩⟩
    | case4 c rest hquote hbackslash ih =>
      obtain ⟨⟨others, _⟩, hrest, heq⟩ := Option.map_eq_some_iff.1 h
      cases heq
      obtain ⟨rfl, hothers⟩ := ih hrest
      refine ⟨rfl, List.forall_mem_cons.2 ⟨?_, hothers⟩⟩
      rintro (hc | hc)
      · exact (hquote hc).elim
      · -- something stands behind the backslash, at least a quote, so it is an escaping one
        obtain ⟨next, rest, hnext⟩ : ∃ next rest,
            others.flatMap PathChar.text ++ '"' :: behind = next :: rest :=
          List.exists_cons_of_ne_nil (by simp)
        exact (hbackslash next rest hc hnext).elim
  · -- by the characters: one without an escape is none that the reader stops at
    rintro ⟨rfl, hescaped⟩
    induction characters with
    | nil => rfl
    | cons character rest ih =>
      rw [List.forall_mem_cons] at hescaped
      have hrest := ih hescaped.2
      obtain ⟨c, escaped⟩ := character
      rw [List.flatMap_cons, List.append_assoc]
      cases escaped with
      | true => simp [PathChar.text, readQuoted, hrest]
      | false =>
        have hplain : ¬ (c = '"' ∨ c = '\\') := fun hc => Bool.noConfusion (hescaped.1 hc)
        rw [not_or] at hplain
        simp [PathChar.text, readQuoted, hrest, hplain]

/-- A character as it is escaped in a path. -/
def PathChar.ofChar (c : Char) : PathChar where
  char := c
  escaped := c = '"' || c = '\\'

/-- Quotes and backslashes are escaped, nothing else is. -/
theorem PathChar.escaped_ofChar (c : Char) :
    (ofChar c).escaped = true ↔ c = '"' ∨ c = '\\' := by
  simp [ofChar]

/-- An escaped path stands for the path. -/
theorem quotes_escapePath (path : String) :
    Quotes (escapePath path) path (path.toList.map PathChar.ofChar) := by
  have hwritten : (escapePath path).toList =
      (path.toList.map PathChar.ofChar).flatMap PathChar.text := by
    rw [escapePath, String.toList_ofList, List.flatMap_map]
    rfl
  have hescaped : ∀ character ∈ path.toList.map PathChar.ofChar,
      character.escaped = true ↔ character.char = '"' ∨ character.char = '\\' := by
    rw [List.forall_mem_map]
    exact fun c _ => PathChar.escaped_ofChar c
  refine ⟨fun behind => ?_, hwritten, hescaped, ?_⟩
  · rw [readQuoted_eq_some_iff, hwritten]
    exact ⟨rfl, fun character hmem => (hescaped character hmem).2⟩
  · rw [List.map_map]
    exact List.map_id _

/-- Backslashes and quotes are escaped one after the other. The backslashes come first, or those in
front of the quotes would be escaped as well. -/
theorem escapePath_eq_inTurn (path : String) :
    (escapePath path).toList = escapeEach '"' (escapeEach '\\' path.toList) := by
  rw [escapePath, String.toList_ofList, escapeEach, escapeEach, List.flatMap_assoc]
  congr 1
  funext c
  by_cases hbackslash : c = '\\'
  · -- neither of the two backslashes is a quote
    simp [hbackslash]
  · simp [hbackslash]

/-- In the other order the escape of a quote is escaped, and the quote ends the path. -/
example : readQuoted (escapeEach '\\' (escapeEach '"' ['"']) ++ ['"']) =
    some ([⟨'\\', true⟩], ['"']) := by decide

/-! ## Lines -/

/-- The line of a path without line breaks is one line. -/
theorem oneLine_includeLine {path : String} (h : OneLine path) : OneLine (includeLine path) := by
  have hpath : OneLine (escapePath path) := by
    intro hbreak
    obtain hc | hc := mem_escapePath hbreak
    · cases hc
    · exact h hc
  exact (OneLine.append (by decide) hpath).append (by decide)

/-- A text that begins with complete lines. -/
theorem splitOn_lines {lines : List String} (h : ∀ line ∈ lines, OneLine line) (rest : List Char) :
    ((String.join (lines.map (· ++ "\n"))).toList ++ rest).splitOn '\n' =
      lines.map String.toList ++ rest.splitOn '\n' := by
  induction lines with
  | nil => rfl
  | cons line lines ih =>
    rw [List.forall_mem_cons] at h
    have hbreak : "\n".toList = ['\n'] := by decide
    rw [List.map_cons, String.join_cons, String.toList_append, String.toList_append, hbreak,
      List.append_assoc, List.append_assoc, List.singleton_append, splitOn_line h.1, ih h.2]
    rfl

/-- The fixed prologue is split into its lines. -/
theorem splitOn_prologue (rest : List Char) :
    (prologue.toList ++ rest).splitOn '\n' =
      prologueLines.map String.toList ++ rest.splitOn '\n' :=
  splitOn_lines (fun line hline => (plain_prologue line hline).oneLine) rest

/-- One line for each path, and an empty line behind them if there are any. -/
theorem splitOn_includesText {includes : List String} (h : ∀ path ∈ includes, OneLine path)
    (rest : List Char) :
    ((includesText includes).toList ++ rest).splitOn '\n' =
      includes.map (fun path => (includeLine path).toList)
        ++ (if includes.isEmpty then [] else [[]]) ++ rest.splitOn '\n' := by
  have htext : includesText includes = String.join ((includes.map includeLine).map (· ++ "\n"))
      ++ (if includes.isEmpty then "" else "\n") := by
    -- the closing quote and the line break are one literal there
    have hquote : "\"\n" = "\"" ++ "\n" := rfl
    simp only [includesText, hquote, includeLine, List.map_map, Function.comp_def,
      String.append_assoc]
  have hlines : ∀ line ∈ includes.map includeLine, OneLine line := by
    rw [List.forall_mem_map]
    exact fun path hpath => oneLine_includeLine (h path hpath)
  rw [htext, String.toList_append, List.append_assoc, splitOn_lines hlines, List.map_map,
    List.append_assoc]
  congr 1
  split
  · rfl
  · exact splitOn_line List.not_mem_nil rest

/-! ## Reading the lines -/

/-- The path of an include line is read back. -/
theorem includedPath?_includeLine (path : String) :
    includedPath? (includeLine path).toList = some path := by
  have hquotes := quotes_escapePath path
  have hquoted : "#include \"".toList.isPrefixOf? (includeLine path).toList =
      some ((escapePath path).toList ++ ['"']) := by
    rw [List.isPrefixOf?_eq_some_iff_append_eq, includeLine, String.toList_append,
      String.toList_append, List.append_assoc]
    rfl
  rw [includedPath?, hquoted, Option.bind_eq_bind, Option.bind_some, hquotes.read,
    Option.bind_eq_bind, Option.bind_some]
  dsimp only
  rw [hquotes.path_eq, String.ofList_toList]

/-- Only a line that starts with `#` includes a path. -/
theorem includedPath?_eq_none {line : List Char} (h : line.head? ≠ some '#') :
    includedPath? line = none := by
  have hquoted : "#include \"".toList.isPrefixOf? line = none := by
    rw [Option.eq_none_iff_forall_ne_some]
    intro quoted hquoted
    rw [List.isPrefixOf?_eq_some_iff_append_eq] at hquoted
    exact h (hquoted ▸ rfl)
  rw [includedPath?, hquoted]
  rfl

/-- No include line is found behind a line of another kind. -/
theorem includedPaths_of_head {line : List Char} (h : line.head? ≠ some '#')
    (rest : List (List Char)) : includedPaths (line :: rest) = [] := by
  rw [includedPaths, includedPath?_eq_none h]

/-- A text that does not begin as an include line does has none at its start. -/
theorem includedPaths_splitOn {text : List Char} (h : text.head? ≠ some '#') :
    includedPaths (text.splitOn '\n') = [] := by
  cases text with
  | nil => exact includedPaths_of_head h []
  | cons c rest =>
    rw [List.splitOn_cons_eq_if_modifyHead]
    split
    · exact includedPaths_of_head (by simp) _
    · cases rest.splitOn '\n' with
      | nil => rfl
      | cons line lines =>
        show includedPaths ((c :: line) :: lines) = []
        exact includedPaths_of_head (by simpa using h) lines

/-- The paths of include lines are read back in order. -/
theorem includedPaths_includeLines (includes : List String) (rest : List (List Char)) :
    includedPaths (includes.map (fun path => (includeLine path).toList) ++ rest) =
      includes ++ includedPaths rest := by
  induction includes with
  | nil => rfl
  | cons path includes ih =>
    rw [List.map_cons, List.cons_append, includedPaths, includedPath?_includeLine]
    dsimp only
    rw [ih, List.cons_append]

/-- The paths are read back from their lines, whatever stands behind these, unless it begins as an
include line does. -/
theorem includedPaths_includesText {includes : List String} (h : ∀ path ∈ includes, OneLine path)
    {rest : List Char} (hrest : rest.head? ≠ some '#') :
    includedPaths (((includesText includes).toList ++ rest).splitOn '\n') = includes := by
  -- behind the lines stands an empty one, or else nothing but the rest
  have hnone : includedPaths ((if includes.isEmpty then [] else [[]]) ++ rest.splitOn '\n') = [] := by
    split
    · exact includedPaths_splitOn hrest
    · exact includedPaths_of_head (by simp) _
  rw [splitOn_includesText h, List.append_assoc, includedPaths_includeLines, hnone, List.append_nil]

/-! ## Programs -/

/-- A function begins with its remarks, or else with its head. -/
theorem FunctionCode.head_text (function : FunctionCode) :
    function.text.toList.head? = some '/' ∨ function.text.toList.head? = some 'v' := by
  cases hremarks : function.remarks with
  | nil =>
    right
    simp only [text, hremarks, List.map_nil, String.join_nil, String.toList_append]
    rfl
  | cons remark rest =>
    left
    simp only [text, hremarks, List.map_cons, String.join_cons, String.toList_append]
    rfl

/-- Functions start with a comment or with their type. -/
theorem head_functions (functions : List FunctionCode) :
    ∀ c ∈ (String.join (functions.map FunctionCode.text)).toList.head?, c = '/' ∨ c = 'v' := by
  cases functions with
  | nil => simp
  | cons function rest =>
    intro c hc
    rw [List.map_cons, String.join_cons, String.toList_append, List.head?_append] at hc
    obtain hhead | hhead := function.head_text
    · rw [hhead] at hc
      cases hc
      exact .inl rfl
    · rw [hhead] at hc
      cases hc
      exact .inr rfl

end Code

open Code

/-- The include lines in the program of a module. -/
structure Module.IncludesDecode (module : Module) (includes : List String) : Prop where
  /-- Behind the prologue stand one line for each path, in order, and one empty line if there are any.
  The functions behind them begin neither with an empty line nor as an include line does. -/
  lines : ∃ functions : String,
    (module.emit includes).text = prologue ++ includesText includes ++ functions ∧
    (module.emit includes).text.toList.splitOn '\n' =
      prologueLines.map String.toList
        ++ includes.map (fun path => ("#include \"" ++ escapePath path ++ "\"").toList)
        ++ (if includes.isEmpty then [] else [[]]) ++ functions.toList.splitOn '\n' ∧
    ∀ c ∈ functions.toList.head?, c ≠ '\n' ∧ c ≠ '#'
  /-- The text between the quotes of a line stands for its path. -/
  quoted : ∀ path ∈ includes, ∃ characters, Quotes (escapePath path) path characters
  /-- It is the path after its backslashes and then its quotes were escaped. -/
  inTurn : ∀ path ∈ includes,
    (escapePath path).toList = escapeEach '"' (escapeEach '\\' path.toList)
  /-- The paths are read back from the lines behind the prologue. -/
  decoded : includedPaths
    (((module.emit includes).text.toList.splitOn '\n').drop prologueLines.length) = includes
  /-- No other paths have the same lines. -/
  distinct : ∀ includes' : List String, (∀ path ∈ includes', OneLine path) → includes' ≠ includes →
    includesText includes' ≠ includesText includes

/-- The program of every module without dangling values tells the paths that it includes, whatever
characters are in them. -/
theorem Module.includes_decode (module : Module) (includes : List String)
    (hdangling : module.dangling = []) (hlines : ∀ path ∈ includes, OneLine path) :
    module.IncludesDecode includes := by
  let functions := String.join ((module.program includes).value.functions.map FunctionCode.text)
  have htext : (module.emit includes).text = prologue ++ includesText includes ++ functions := by
    rw [Module.text_of_dangling hdangling, Program.text, Module.includes_program]
  have hhead : ∀ c ∈ functions.toList.head?, c ≠ '\n' ∧ c ≠ '#' := by
    intro c hc
    obtain rfl | rfl := head_functions _ c hc <;> decide
  have hsplit : (module.emit includes).text.toList.splitOn '\n' = prologueLines.map String.toList ++
      ((includesText includes).toList ++ functions.toList).splitOn '\n' := by
    rw [htext, String.toList_append, String.toList_append, List.append_assoc, splitOn_prologue]
  refine ⟨⟨functions, htext, ?_, hhead⟩, fun path _ => ⟨_, quotes_escapePath path⟩,
    fun path _ => escapePath_eq_inTurn path, ?_, ?_⟩
  · rw [hsplit, splitOn_includesText hlines]
    simp only [includeLine, List.append_assoc]
  · rw [hsplit, List.drop_left' (List.length_map _)]
    exact includedPaths_includesText hlines fun hc => (hhead _ hc).2 rfl
  · intro includes' hlines' hne heq
    -- equal blocks would be read as the same paths
    have hread := @includedPaths_includesText includes hlines [] (by simp)
    rw [← heq, includedPaths_includesText hlines' (by simp)] at hread
    exact hne hread

/-- A function that does nothing. -/
def idleModule : Module where
  values := #[]
  functions := [{ name := "idle", blocks := [{ ops := [{ kind := .ret }] }] }]

/-- Paths with quotes and backslashes at their ends and next to each other, and an empty path. -/
def awkwardPaths : List String :=
  ["odd\"name.h", "c:\\x\\", "\\\"\\", ""]

/-- Quotes, backslashes and an empty path. -/
theorem awkwardPaths_includes_decode : idleModule.dangling = [] ∧
    (∀ path ∈ awkwardPaths, OneLine path) ∧ idleModule.IncludesDecode awkwardPaths ∧
    awkwardPaths.map escapePath = ["odd\\\"name.h", "c:\\\\x\\\\", "\\\\\\\"\\\\", ""] := by
  have hdangling : idleModule.dangling = [] := by decide
  have hlines : ∀ path ∈ awkwardPaths, OneLine path := by decide
  exact ⟨hdangling, hlines, Module.includes_decode idleModule awkwardPaths hdangling hlines,
    by decide⟩

end HlsEmit
