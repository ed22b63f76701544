import HlsEmit.Code.Subscripts
import HlsEmit.Proofs.Meaning.Formula

/-!
# The line of an elementwise statement

Every `v` in the line begins an identifier, because types, operators, functions and brackets have
none; and behind every identifier stand the brackets that the element was given. So the identifiers of
the line are found by looking for their first letter.

## Key results

- `Spelled.subscripted`: what a reader of the line finds
- `Formula.spelled`: the right side of an elementwise statement
- `stmtsText_counterLoops`: loops over all elements as lines
-/

namespace HlsEmit

open Code

/-! ## Identifiers and their brackets -/

/-- What may stand behind an identifier and its brackets. -/
def Stops (cs : List Char) : Prop :=
  ∀ c ∈ cs.head?, c.isDigit = false ∧ c ≠ '['

/-- Characters in which every `v` begins an identifier with these brackets behind it. -/
inductive Spelled (groups : List Char) : List Char → Prop where
  | nil : Spelled groups []
  | other {c : Char} {cs : List Char} (hc : c ≠ 'v') (h : Spelled groups cs) :
      Spelled groups (c :: cs)
  | name (number : Nat) {cs : List Char} (hstops : Stops cs) (h : Spelled groups cs) :
      Spelled groups ('v' :: ('a' :: 'l' :: Nat.toDigits 10 number ++ groups) ++ cs)

/-- Characters without a `v` go on to what was found behind them. -/
theorem Spelled.append {groups front cs : List Char} (hfront : 'v' ∉ front)
    (h : Spelled groups cs) : Spelled groups (front ++ cs) := by
  induction front with
  | nil => exact h
  | cons c front ih =>
    rw [List.mem_cons, not_or] at hfront
    exact .other (Ne.symm hfront.1) (ih hfront.2)

/-- A letter that is not in the front of some characters is behind it. -/
theorem exists_behind {front cs before rest : List Char} {c : Char} (hfront : c ∉ front)
    (h : front ++ cs = before ++ c :: rest) :
    ∃ before', before = front ++ before' ∧ cs = before' ++ c :: rest := by
  rcases List.append_eq_append_iff.1 h with ⟨middle, hbefore, hcs⟩ | ⟨middle, hfront', hrest⟩
  · exact ⟨middle, hbefore, hcs⟩
  · cases middle with
    | nil => exact ⟨[], by simpa using hfront'.symm, by simpa using hrest.symm⟩
    | cons d middle =>
      obtain ⟨rfl, -⟩ := List.cons.inj hrest
      exact absurd (by simp [hfront']) hfront

/-- Digits end where something else begins. -/
theorem digits_unique {digits digits' cs cs' : List Char}
    (hdigits : ∀ c ∈ digits, c.isDigit = true) (hdigits' : ∀ c ∈ digits', c.isDigit = true)
    (hcs : ∀ c ∈ cs.head?, c.isDigit = false) (hcs' : ∀ c ∈ cs'.head?, c.isDigit = false)
    (h : digits ++ cs = digits' ++ cs') : cs = cs' := by
  -- On the digits of the first text: the other has a digit wherever this one has.
  induction digits generalizing digits' with
  | nil =>
    cases digits' with
    | nil => exact h
    | cons d digits' =>
      have hd := hcs d (by simp [show cs = d :: (digits' ++ cs') from h])
      rw [hdigits' d (List.mem_cons_self ..)] at hd
      cases hd
  | cons d digits ih =>
    rw [List.forall_mem_cons] at hdigits
    cases digits' with
    | nil =>
      have hd := hcs' d (by simp [show cs' = d :: (digits ++ cs) from h.symm])
      rw [hdigits.1] at hd
      cases hd
    | cons d' digits' =>
      rw [List.forall_mem_cons] at hdigits'
      exact ih hdigits.2 hdigits'.2 (List.cons.inj h).2

/-- Counters are written with brackets, letters and digits. -/
theorem mem_counterGroups {c : Char} {rank : Nat} (h : c ∈ counterGroups rank) :
    c ∈ "[idx]".toList ∨ c.isDigit = true := by
  simp only [counterGroups, List.mem_flatMap, String.toList_append, List.mem_append] at h
  obtain ⟨dim, -, (h | h) | h⟩ := h
  · exact .inl (by revert c; decide)
  · exact .inr (Cpp.Phrase.isDigit_of_mem_toDigits (by rwa [Cpp.Phrase.toList_toString] at h))
  · exact .inl (by revert c; decide)

/-- The brackets of counters begin with a bracket, if there are any. -/
theorem head_counterGroups {c : Char} {rank : Nat} {cs : List Char} (hstops : Stops cs)
    (hc : c ∈ (counterGroups rank ++ cs).head?) : c.isDigit = false := by
  cases rank with
  | zero => exact (hstops c hc).1
  | succ rank =>
    have hhead : (counterGroups (rank + 1) ++ cs).head? = some '[' := by
      simp [counterGroups, List.range_succ_eq_map, String.toList_append]
    rw [hhead] at hc
    cases hc
    decide

/-- What a reader of a line finds in it. -/
theorem Spelled.subscripted {rank : Nat} {line : String}
    (h : Spelled (counterGroups rank) line.toList) : Subscripted rank line := by
  intro before digits after hline hne hdigits hafter
  rw [List.append_assoc] at hline
  generalize line.toList = cs at h hline
  -- the identifier that was found is one of those of the spelling
  induction h generalizing before with
  | nil => simp at hline
  | other hc _ ih =>
    cases before with
    | nil => exact absurd (List.cons.inj hline).1 hc
    | cons b before => exact ih before (List.cons.inj hline).2
  | @name number cs hstops _ ih =>
    cases before with
    | nil =>
      have hrest : Nat.toDigits 10 number ++ (counterGroups rank ++ cs) = digits ++ after := by
        simpa using hline
      refine ⟨cs, ?_, fun c hc => (hstops c hc).2⟩
      refine (digits_unique ?_ hdigits (fun c hc => head_counterGroups hstops hc) hafter hrest).symm
      exact fun c hc => Cpp.Phrase.isDigit_of_mem_toDigits hc
    | cons b before =>
      have hinside : 'v' ∉ 'a' :: 'l' :: Nat.toDigits 10 number ++ counterGroups rank := by
        intro hv
        simp only [List.cons_append, List.mem_cons, List.mem_append] at hv
        rcases hv with hv | hv | hv | hv
        · cases hv
        · cases hv
        · have := Cpp.Phrase.isDigit_of_mem_toDigits hv
          cases this
        · rcases mem_counterGroups hv with hv | hv <;> revert hv <;> decide
      obtain ⟨before', -, hcs⟩ := exists_behind hinside (List.cons.inj hline).2
      exact ih before' hcs

/-! ## Texts -/

/-- A name is written with an optional star, then with its number. -/
theorem Name.toList_text (name : Name) : name.text.toList =
    (if name.pointer then ['*'] else []) ++ 'v' :: 'a' :: 'l' :: Nat.toDigits 10 name.number := by
  have hidentifier : name.identifier.toList = 'v' :: 'a' :: 'l' :: Nat.toDigits 10 name.number := by
    rw [identifier, String.toList_append, Cpp.Phrase.toList_toString]
    rfl
  unfold text
  split
  · rw [String.toList_append, hidentifier]
    rfl
  · exact hidentifier

/-- A name with its brackets. -/
theorem Name.spelled {groups cs : List Char} (name : Name) (hstops : Stops cs)
    (h : Spelled groups cs) : Spelled groups (name.text.toList ++ groups ++ cs) := by
  have hname := Spelled.name name.number hstops h
  rw [Name.toList_text, List.append_assoc, List.append_assoc]
  refine .append (by split <;> decide) ?_
  simpa using hname

/-- The counters of an element follow its text. -/
theorem Code.toList_atCounters (e : Expr) (rank : Nat) :
    (e.atCounters rank).text.toList = e.text.toList ++ counterGroups rank := by
  induction rank with
  | zero => simp [Expr.atCounters, Expr.subscripts, counterGroups]
  | succ rank ih =>
    have hcode : e.atCounters (rank + 1) = .subscript (e.atCounters rank) (.counter rank) := by
      simp [Expr.atCounters, Expr.subscripts, List.range_succ]
    rw [hcode, Expr.text, Expr.text]
    simp [ih, counterGroups, List.range_succ, String.toList_append]

/-- The type of a declaration has no `v`. -/
theorem ElemType.not_mem_of_cppName {elem : ElemType} {type : String}
    (h : elem.cppName? = some type) : 'v' ∉ type.toList := by
  -- A type with a width has its digits between brackets.
  have hangled (front : String) (hfront : 'v' ∉ front.toList) (width : Nat) :
      'v' ∉ (front ++ toString width ++ ">").toList := by
    rw [String.toList_append, String.toList_append, List.mem_append, List.mem_append,
      Cpp.Phrase.toList_toString]
    rintro ((hv | hv) | hv)
    · exact hfront hv
    · have := Cpp.Phrase.isDigit_of_mem_toDigits hv
      cases this
    · revert hv
      decide
  cases elem with
  | f16 | bf16 => cases h
  | f32 | f64 | bool | index =>
    cases h
    decide
  | int width unsigned =>
    simp only [cppName?] at h
    split at h
    · cases h
      decide
    · split at h
      · cases h
        exact hangled "ap_uint<" (by decide) width.toNat
      · cases h
        exact hangled "ap_int<" (by decide) width.toNat

/-! ## The sides of a statement -/

section Sides

variable {arena : Arena} {t : NameTable} {id : ValueId} {rank : Nat} {cs : List Char}

/-- A value is written as a name. -/
def Arena.Named (arena : Arena) (t : NameTable) (id : ValueId) : Prop :=
  ∃ name, arena.designator t id = .named name

/-- A named value in front of a spelled text is spelled with its counters. -/
theorem Arena.Named.spelled (h : arena.Named t id) (hstops : Stops cs)
    (hcs : Spelled (counterGroups rank) cs) : Spelled (counterGroups rank)
      (((arena.useCode t id).atCounters rank).text.toList ++ cs) := by
  obtain ⟨name, hname⟩ := h
  have htext : (arena.useCode t id).text = name.text := by
    rw [Arena.useCode, Expr.text, Mention.text, Arena.use, hname, Designator.text]
  rw [Code.toList_atCounters, htext]
  exact name.spelled hstops hcs

/-- A text stops before a character that is neither a digit nor a bracket. -/
theorem stops_cons {c : Char} (hdigit : c.isDigit = false) (hbracket : c ≠ '[') (cs : List Char) :
    Stops (c :: cs) := by
  intro d hd
  cases hd
  exact ⟨hdigit, hbracket⟩

/-- The operators and functions that the steps of elementwise programs are written with. -/
def Formula.Plain : Formula → Prop
  | .function head _ => 'v' ∉ head.toList
  | _ => True

/-- The right side of an elementwise statement over named values. A condition is indexed like the
others if it is an array. -/
theorem Formula.spelled {formula : Formula} (hplain : formula.Plain)
    (hvalues : ∀ id ∈ formula.values, arena.Named t id ∧ ((arena.info id).isShaped = false → rank = 0))
    (hstops : Stops cs) (hcs : Spelled (counterGroups rank) cs) :
    Spelled (counterGroups rank) ((formula.heldCode arena t rank).text.toList ++ cs) := by
  have hname {id : ValueId} (hid : id ∈ formula.values) : arena.Named t id := (hvalues id hid).1
  -- One case per form; the texts between the operands hold no `v`.
  cases formula with
  | copy source => exact (hname (List.mem_singleton_self _)).spelled hstops hcs
  | binary operator lhs rhs =>
    simp only [heldCode, Expr.text, String.toList_append, List.append_assoc]
    refine (hname (List.mem_cons_self ..)).spelled (stops_cons (by decide) (by decide) _) ?_
    refine .append (by decide) (.append (by cases operator <;> decide) (.append (by decide) ?_))
    exact (hname (by simp [values])).spelled hstops hcs
  | function head operand =>
    simp only [heldCode, Expr.text, argsText, String.toList_append, List.append_assoc]
    refine .append hplain (.append (by decide) ?_)
    refine (hname (List.mem_singleton_self _)).spelled (stops_cons (by decide) (by decide) _) ?_
    exact .append (by decide) hcs
  | select condition onTrue onFalse =>
    -- A scalar condition has no counters, and then the rank is zero.
    have hrank : (if (arena.info condition).isShaped = true then rank else 0) = rank := by
      split
      · rfl
      · next hscalar =>
        exact ((hvalues condition (List.mem_cons_self ..)).2 (by simpa using hscalar)).symm
    simp only [heldCode, hrank, Expr.text, String.toList_append, List.append_assoc]
    refine (hname (List.mem_cons_self ..)).spelled (stops_cons (by decide) (by decide) _) ?_
    refine .append (by decide) ?_
    refine (hname (by simp [values])).spelled (stops_cons (by decide) (by decide) _) ?_
    refine .append (by decide) ?_
    exact (hname (by simp [values])).spelled hstops hcs

end Sides

/-! ## Loops -/

/-- The head of a loop over a counter. -/
theorem Code.text_counter (dim : Nat) (extent : Int64) : (LoopHead.counter dim extent).text =
    "for (int " ++ ("idx" ++ toString dim) ++ " = 0; " ++ ("idx" ++ toString dim) ++ " < "
      ++ toString extent.toInt ++ "; ++" ++ ("idx" ++ toString dim) ++ ")" := rfl

/-- Loops over all elements of an array around a statement of one line, as they are written in a
function body. -/
theorem stmtsText_counterLoops {stmt : Stmt} {line : String}
    (hline : ∀ depth, stmt.text depth = indent depth ++ line ++ "\n") (dim : Nat)
    (extents : List Int64) :
    stmtsText (dim + 1) (Emission.counterLoops [stmt] dim extents) = loopLines line dim extents := by
  have hopen : ") \x7b\n" = ")" ++ " \x7b" ++ "\n" := rfl
  have hclose : "\x7d\n" = "\x7d" ++ "\n" := rfl
  induction extents generalizing dim with
  | nil => simp only [Emission.counterLoops, stmtsText, hline, loopLines, String.append_empty]
  | cons extent rest ih =>
    simp only [Emission.counterLoops, stmtsText, Stmt.text, lineEnd, Code.text_counter, ih, loopLines,
      hopen, hclose, String.append_empty, String.append_assoc]

/-- An assignment without remarks. -/
theorem Code.text_assign (target value : Expr) (depth : Nat) :
    (Stmt.assign .set target value (some {})).text depth =
      indent depth ++ (target.text ++ " = " ++ value.text ++ ";\t//") ++ "\n" := by
  have hset : " = " = " " ++ "=" ++ " " := rfl
  have hnote : ";\t//" = ";" ++ "\t//" := rfl
  simp only [Stmt.text, lineEnd, Note.text, notePart, Assignment.symbol, hset, hnote,
    String.append_assoc, String.append_empty]

end HlsEmit
