import HlsEmit.Proofs.Reading.Words

/-!
# The generated code is read back

The text of the generated code is the text of the syntax that it stands for: read as C++, it is that
syntax again. `Readable` says of an expression, a statement or a function that it has the form that
the rules of the structured core write.

## Key results

- `Expr.Readable.phrase`: expressions are phrases
- `lines_stmts`: statements are whole lines
- `FunctionCode.Readable.readFunction_text`: the text of a function is read as its syntax
-/

namespace HlsEmit

open Cpp (Phrase Token Pending Separator Lexes Lines)

/-- What stands for a value is its name or the text of a constant. -/
def Designator.Readable : Designator → Prop
  | .named _ => True
  | .literal text => ∃ literal : Literal, literal.scalarText? = some text
  | .missing => False

namespace Code

/-! ## Expressions -/

/-- The functions that expressions of the structured core call. -/
def callees : List String :=
  ["abs", "ceil", "cos", "sin", "tanh", "sqrt", "exp", "exp2", "log", "log2", "log10", "max", "min"]

/-- What subscripts may stand behind. -/
def isIndexable : Cpp.Expr → Bool
  | .name _ | .element .. => true
  | _ => false

/-- An expression of a form that can be read; one that does not stand alone has no operator outside of
parentheses. -/
inductive Expr.Readable : (alone : Bool) → Expr → Prop
  | use {alone : Bool} {u : Use} (h : u.designator.Readable) : Readable alone (.mention (.use u))
  | counter {alone : Bool} (dim : Nat) : Readable alone (.counter dim)
  | integer {alone : Bool} (value : Int) : Readable alone (.integer value)
  | subscript {alone : Bool} {array index : Expr} (harray : array.Readable false)
      (hindexable : isIndexable array.cpp = true) (hindex : index.Readable true) :
      Readable alone (.subscript array index)
  | negate {alone : Bool} {operand : Expr} (h : operand.Readable false)
      (hsign : operand.text.toList.head? ≠ some '-') : Readable alone (.negate operand)
  | paren {alone : Bool} {inner : Expr} (h : inner.Readable true) : Readable alone (.paren inner)
  | operation {operator : Operator} {lhs rhs : Expr} (hoperator : operator ≠ .and)
      (hlhs : lhs.Readable false) (hrhs : rhs.Readable false) :
      Readable true (.operation operator lhs rhs)
  | conditional {condition onTrue onFalse : Expr} (hcondition : condition.Readable false)
      (hTrue : onTrue.Readable false) (hFalse : onFalse.Readable false) :
      Readable true (.conditional condition onTrue onFalse)
  | call {alone : Bool} {head : String} {arg : Expr} (hhead : head ∈ callees)
      (harg : arg.Readable true) : Readable alone (.call head [arg])
  | callTwo {alone : Bool} {head : String} {arg arg' : Expr} (hhead : head ∈ callees)
      (harg : arg.Readable true) (harg' : arg'.Readable true) : Readable alone (.call head [arg, arg'])
  | callMinus {alone : Bool} {arg : Expr} (harg : arg.Readable true) :
      Readable alone (.call "-" [arg])
  | callRsqrt {arg : Expr} (harg : arg.Readable true) : Readable true (.call "1.0 / sqrt" [arg])

/-- What stands for a value is an operand. -/
theorem designatorCpp_readable {d : Designator} (h : d.Readable) :
    (∀ alone, (designatorCpp d).Grouped alone) ∧ Phrase d.text (designatorCpp d).tokens := by
  cases d with
  | named name =>
    have hphrase := name.phrase_text
    rw [designatorCpp, Designator.text]
    cases hpointer : name.pointer <;> rw [hpointer] at hphrase <;>
      exact ⟨fun _ => trivial, hphrase⟩
  | literal text =>
    obtain ⟨literal, hliteral⟩ := h
    obtain ⟨e, he, hphrase⟩ := exists_literal hliteral
    have hread : designatorCpp (.literal text) = e := by
      rw [designatorCpp, readExpr_of_phrase hphrase (he.grouped true)]
      rfl
    rw [hread]
    exact ⟨he.grouped, hphrase⟩
  | missing => exact h.elim

/-- An integer needs no parentheses. -/
theorem integerCpp_grouped (value : Int) (alone : Bool) : (integerCpp value).Grouped alone := by
  unfold integerCpp
  split <;> trivial

/-- The tokens of one more index. -/
theorem indexTokens_append (indices : List Cpp.Expr) (index : Cpp.Expr) :
    Cpp.indexTokens (indices ++ [index]) =
      Cpp.indexTokens indices ++ .symbol "[" :: (index.tokens ++ [.symbol "]"]) := by
  induction indices with
  | nil => simp [Cpp.indexTokens]
  | cons first rest ih => simp [Cpp.indexTokens, ih]

/-- One more index is grouped as those in front of it. -/
theorem allGrouped_append {indices : List Cpp.Expr} {index : Cpp.Expr} :
    Cpp.AllGrouped (indices ++ [index]) ↔ Cpp.AllGrouped indices ∧ index.Grouped true := by
  induction indices with
  | nil => simp [Cpp.AllGrouped]
  | cons first rest ih => simp [Cpp.AllGrouped, ih, and_assoc]

/-- A subscript behind an array, perhaps behind others. -/
theorem subscriptCpp_tokens {array index : Cpp.Expr} (h : isIndexable array = true) :
    (subscriptCpp array index).tokens = array.tokens ++ .symbol "[" :: (index.tokens ++ [.symbol "]"]) := by
  cases array with
  | name array => simp [subscriptCpp, Cpp.Expr.tokens, Cpp.indexTokens]
  | element array indices => simp [subscriptCpp, Cpp.Expr.tokens, indexTokens_append]
  | _ => cases h

/-- An element of an array is grouped as its array and its index are. -/
theorem subscriptCpp_grouped {array index : Cpp.Expr} (h : isIndexable array = true)
    (harray : array.Grouped false) (hindex : index.Grouped true) (alone : Bool) :
    (subscriptCpp array index).Grouped alone := by
  cases array with
  | name array => exact ⟨by simp, hindex, trivial⟩
  | element array indices => exact ⟨by simp, allGrouped_append.2 ⟨harray.2, hindex⟩⟩
  | _ => cases h

/-- Brackets behind a phrase. -/
theorem phrase_subscript {text index : String} {ts us : List Token} (h : Phrase text ts)
    (hindex : Phrase index us) : Phrase (text ++ "[" ++ index ++ "]")
      (ts ++ .symbol "[" :: (us ++ [.symbol "]"])) := by
  have hopen : Separator "[" [] (.symbol ['[']) :=
    Cpp.separator_of (c := '[') (p := .symbol ['[']) rfl (by decide) rfl rfl
  have hclose : Separator "]" [] (.symbol [']']) :=
    Cpp.separator_of (c := ']') (p := .symbol [']']) rfl (by decide) rfl rfl
  have hready : (Pending.symbol ['[']).Ready :=
    Cpp.ready_symbol (by simp) (by simp) (by decide) (by decide)
  have hphrase := (h.append hopen hready hindex).close hclose (Cpp.closed_symbol (by simp))
  simpa [Pending.tokens] using hphrase

/-- An operator with blanks around it separates its operands. -/
theorem separator_operator (operator : Operator) :
    Separator (" " ++ operator.symbol ++ " ") [.symbol operator.symbol] .blank := by
  cases operator <;> exact Cpp.separator_of (c := ' ') (p := .blank) rfl (by decide) rfl rfl

/-- Each operator but the conjunction is one of C++'s that the reader knows. -/
theorem mem_operators {operator : Operator} (h : operator ≠ .and) :
    operator.symbol ∈ Cpp.operators := by
  cases operator with
  | and => exact absurd rfl h
  | _ => decide

/-- A parenthesis opens as one token. -/
theorem separator_open : Separator "(" [] (.symbol ['(']) :=
  Cpp.separator_of (c := '(') (p := .symbol ['(']) rfl (by decide) rfl rfl

/-- A parenthesis closes as one token. -/
theorem separator_close : Separator ")" [] (.symbol [')']) :=
  Cpp.separator_of (c := ')') (p := .symbol [')']) rfl (by decide) rfl rfl

/-- Anything may stand behind an opening parenthesis. -/
theorem ready_open : (Pending.symbol ['(']).Ready :=
  Cpp.ready_symbol (by simp) (by simp) (by decide) (by decide)

/-- The name of a function that is called is a phrase. -/
theorem phrase_callee {head : String} (h : head ∈ callees) : Phrase head [.name head] := by
  have hall : ∀ head ∈ callees, Cpp.isName head = true := by decide
  exact Phrase.of_isName (hall head h)

/-- A call with all of its arguments between parentheses. -/
theorem phrase_call {head args : String} {ts : List Token} (hhead : Phrase head [.name head])
    (hargs : Phrase args ts) :
    Phrase (head ++ "(" ++ args ++ ")") (.name head :: .symbol "(" :: (ts ++ [.symbol ")"])) := by
  have hphrase := (hhead.append separator_open ready_open hargs).close separator_close
    (Cpp.closed_symbol (by simp))
  simpa [Pending.tokens] using hphrase

/-- A call of one of these functions stays a call. -/
theorem callCpp_of_callee {head : String} (h : head ∈ callees) (args : List Cpp.Expr) :
    callCpp head args = .call head args := by
  have hall : ∀ head ∈ callees, head ≠ "-" ∧ head ≠ "1.0 / sqrt" := by decide
  simp [callCpp, hall head h]

/-- An expression that can be read is grouped, and its text is the text of its syntax. -/
theorem Expr.Readable.phrase {alone : Bool} {e : Expr} (h : e.Readable alone) :
    e.cpp.Grouped alone ∧ Phrase e.text e.cpp.tokens := by
  -- One case for each form of an expression: its parts are phrases, and what stands between them
  -- ends one and leaves -- room for the next.
  induction h with
  | use h =>
    obtain ⟨hgrouped, hphrase⟩ := designatorCpp_readable h
    exact ⟨hgrouped _, hphrase⟩
  | counter dim => exact ⟨trivial, phrase_counterName dim⟩
  | integer value => exact ⟨integerCpp_grouped value _, phrase_integer value⟩
  | subscript harray hindexable hindex iharray ihindex =>
    refine ⟨subscriptCpp_grouped hindexable iharray.1 ihindex.1 _, ?_⟩
    rw [Expr.cpp, Expr.text, subscriptCpp_tokens hindexable]
    exact phrase_subscript iharray.2 ihindex.2
  | negate h hsign ih => exact ⟨ih.1, ih.2.minus hsign⟩
  | paren h ih => exact ⟨ih.1, ih.2.paren⟩
  | @operation operator lhs rhs hoperator hlhs hrhs ihlhs ihrhs =>
    refine ⟨⟨rfl, mem_operators hoperator, ihlhs.1, ihrhs.1⟩, ?_⟩
    have hphrase := ihlhs.2.append (separator_operator operator) Cpp.ready_blank ihrhs.2
    simpa [Expr.text, Expr.cpp, Cpp.Expr.tokens, Pending.tokens, String.append_assoc] using hphrase
  | conditional hcondition hTrue hFalse ihcondition ihTrue ihFalse =>
    refine ⟨⟨rfl, ihcondition.1, ihTrue.1, ihFalse.1⟩, ?_⟩
    have hmark : Separator " ? " [.symbol "?"] .blank :=
      Cpp.separator_of (c := ' ') (p := .blank) rfl (by decide) rfl rfl
    have hcolon : Separator " : " [.symbol ":"] .blank :=
      Cpp.separator_of (c := ' ') (p := .blank) rfl (by decide) rfl rfl
    have hphrase := (ihcondition.2.append hmark Cpp.ready_blank ihTrue.2).append hcolon
      Cpp.ready_blank ihFalse.2
    simpa [Expr.text, Expr.cpp, Cpp.Expr.tokens, Pending.tokens, String.append_assoc] using hphrase
  | @call alone head arg hhead harg ih =>
    have hcpp : (Expr.call head [arg]).cpp = .call head [arg.cpp] := callCpp_of_callee hhead _
    rw [hcpp]
    refine ⟨⟨by simp, ih.1, trivial⟩, ?_⟩
    exact phrase_call (phrase_callee hhead) ih.2
  | @callTwo alone head arg arg' hhead harg harg' ih ih' =>
    have hcpp : (Expr.call head [arg, arg']).cpp = .call head [arg.cpp, arg'.cpp] :=
      callCpp_of_callee hhead _
    rw [hcpp]
    refine ⟨⟨by simp, ih.1, ih'.1, trivial⟩, ?_⟩
    have hcomma : Separator ", " [.symbol ","] .blank :=
      Cpp.separator_of (c := ',') (p := .symbol [',']) rfl (by decide) rfl rfl
    have hphrase := phrase_call (phrase_callee hhead) (ih.2.append hcomma Cpp.ready_blank ih'.2)
    simpa [Expr.text, argsText, Cpp.Expr.tokens, Cpp.argTokens, Pending.tokens] using hphrase
  | @callMinus alone arg harg ih =>
    refine ⟨ih.1, ?_⟩
    exact ih.2.paren.minus (by simp)
  | @callRsqrt arg harg ih =>
    refine ⟨⟨rfl, by decide, trivial, List.cons_ne_nil _ _, ih.1, trivial⟩, ?_⟩
    -- The reciprocal of a root is written as a quotient.
    have hone : Phrase "1.0" [.number "1.0"] :=
      Phrase.number (c := '1') rfl (by decide) (Phrase.goesOn_plain _ _ (by decide))
    have hsqrt := phrase_call (phrase_callee (by decide : "sqrt" ∈ callees)) ih.2
    have hphrase := hone.append (separator_operator .div) Cpp.ready_blank hsqrt
    exact hphrase

/-! ## Ends of lines -/

/-- A text without a line break. -/
def OneLine (text : String) : Prop :=
  '\n' ∉ text.toList

instance (text : String) : Decidable (OneLine text) :=
  inferInstanceAs (Decidable ('\n' ∉ text.toList))

/-- Two texts on one line are on one line. -/
theorem OneLine.append {text text' : String} (h : OneLine text) (h' : OneLine text') :
    OneLine (text ++ text') := by
  rw [OneLine, String.toList_append, List.mem_append, not_or]
  exact ⟨h, h'⟩

/-- A number stands on one line. -/
theorem oneLine_nat (n : Nat) : OneLine (toString n) := by
  rw [OneLine, Phrase.toList_toString]
  intro h
  cases Phrase.isDigit_of_mem_toDigits h

/-- An integer stands on one line. -/
theorem oneLine_int (value : Int) : OneLine (toString value) := by
  cases value with
  | ofNat n => exact oneLine_nat n
  | negSucc n => exact OneLine.append (by decide : OneLine "-") (oneLine_nat (n + 1))

/-- A note is a comment behind a tab. -/
theorem exists_comment (note : Note) : ∃ rest, OneLine rest ∧ note.text = "\t//" ++ rest := by
  -- Each part of a note is absent, or a number between two fixed texts.
  have hpart (before after : String) (hbefore : OneLine before) (hafter : OneLine after)
      (value : Option Int64) : OneLine (notePart before after value) := by
    cases value with
    | none => simp [notePart, OneLine]
    | some n => exact (hbefore.append (oneLine_int n.toInt)).append hafter
  obtain ⟨line, hline, htext⟩ : ∃ line, OneLine line ∧ note.text = "\t//" ++ line
      ++ notePart ", S[" "" note.scheduleBegin ++ notePart "," ")" note.scheduleEnd
      ++ notePart ", latency=" "" note.iterationLatency ++ notePart ", II=" "" note.interval := by
    refine ⟨_, ?_, rfl⟩
    split
    · decide
    · exact OneLine.append (by decide : OneLine " L") (oneLine_nat _)
  refine ⟨_, (((hline.append (hpart ", S[" "" (by decide) (by decide)
    note.scheduleBegin)).append (hpart "," ")" (by decide) (by decide)
    note.scheduleEnd)).append (hpart ", latency=" "" (by decide) (by decide)
    note.iterationLatency)).append (hpart ", II=" "" (by decide) (by decide)
    note.interval), ?_⟩
  simp only [htext, String.append_assoc]

/-- What has been begun ends with the line. -/
theorem lexes_lineEnd {q : Pending} (hq : q.Closed) (note : Option Note) :
    Lexes q (lineEnd note) q.tokens .blank := by
  cases note with
  | none =>
    have hlexes := Lexes.cons (hq '\n' (by decide)) rfl (Lexes.nil .blank)
    rwa [List.append_nil] at hlexes
  | some note =>
    obtain ⟨rest, hrest, htext⟩ := exists_comment note
    -- What has been begun ends at the tab, and the comment at the end of the line.
    have hopen : Lexes q "\t//" q.tokens .comment := by
      have hlexes := Lexes.cons (hq '\t' (by decide)) rfl
        (show Lexes .blank (String.ofList ['/', '/']) [] .comment from rfl)
      rwa [List.append_nil] at hlexes
    have hclose := Cpp.lexes_to_end (.inl rfl) hrest
    rw [String.ofList_append, String.ofList_toList] at hclose
    have hlexes := hopen.append hclose
    rw [List.append_nil] at hlexes
    rw [lineEnd, htext, String.append_assoc]
    exact hlexes

/-- The end of a line behind a separator. -/
theorem separator_lineEnd {text : String} {ts : List Token} {q : Pending}
    (h : Separator text ts q) (hq : q.Closed) (note : Option Note) :
    Separator (text ++ lineEnd note) (ts ++ q.tokens) .blank := by
  intro p hp
  have hlexes := (h p hp).append (lexes_lineEnd hq note)
  rwa [List.append_assoc] at hlexes

/-- Blanks in front of a line are no tokens. -/
theorem lines_indent (depth : Nat) : Lines (indent depth) [] :=
  Cpp.lexes_blanks _ fun c hc => by rw [List.eq_of_mem_replicate hc]; rfl

/-- A phrase with a separator behind it that ends the line. -/
theorem lines_phrase {text sep : String} {ts us : List Token} (h : Phrase text ts)
    (hsep : Separator sep us .blank) (depth : Nat) :
    Lines (indent depth ++ text ++ sep) (ts ++ us) :=
  h.between (lines_indent depth) Cpp.ready_blank hsep

/-- A statement on a line of its own. -/
theorem lines_simple {text : String} {ts : List Token} (h : Phrase text ts) (depth : Nat)
    (note : Option Note) : Lines (indent depth ++ text ++ ";" ++ lineEnd note) (ts ++ [.symbol ";"]) := by
  have hend : Separator ";" [] (.symbol [';']) :=
    Cpp.separator_of (c := ';') (p := .symbol [';']) rfl (by decide) rfl rfl
  have hlines := lines_phrase h (separator_lineEnd hend (Cpp.closed_symbol (by simp)) note) depth
  rwa [← String.append_assoc] at hlines

/-- The head of a loop or a conditional, with the brace behind it. -/
theorem lines_head {word keyword text : String} {ts : List Token}
    (hword : Lexes .blank word [.keyword keyword] (.symbol ['('])) (h : Phrase text ts) (depth : Nat)
    (note : Option Note) :
    Lines (indent depth ++ (word ++ text ++ ")") ++ " \x7b" ++ lineEnd note)
      (.keyword keyword :: .symbol "(" :: (ts ++ [.symbol ")", .symbol "\x7b"])) := by
  have hend : Separator ") \x7b" [.symbol ")"] (.symbol ['\x7b']) :=
    Cpp.separator_of (c := ')') (p := .symbol [')']) rfl (by decide) rfl rfl
  have hlines := h.between (Lexes.append (lines_indent depth) hword) ready_open
    (separator_lineEnd hend (Cpp.closed_symbol (by simp)) note)
  simpa [Lines, Pending.tokens, String.append_assoc] using hlines

/-- A closing brace. -/
theorem lines_brace (depth : Nat) (note : Option Note) :
    Lines (indent depth ++ "\x7d" ++ lineEnd note) [.symbol "\x7d"] := by
  have hbrace : Lexes .blank "\x7d" [] (.symbol ['\x7d']) := rfl
  exact (Lexes.append (lines_indent depth) hbrace).append
    (lexes_lineEnd (Cpp.closed_symbol (by simp)) note)

/-- A line that is a directive or a comment. -/
theorem lines_ignored {p : Pending} (hp : p = .comment ∨ p = .directive) {front rest : String}
    (hfront : Lexes .blank front [] p) (hrest : OneLine rest) : Lines (front ++ rest ++ "\n") [] := by
  have hclose := Cpp.lexes_to_end hp hrest
  rw [String.ofList_append, String.ofList_toList] at hclose
  rw [String.append_assoc]
  exact hfront.append hclose

/-! ## Declarations and assignments -/

/-- A declaration by value or as a pointer, of a type that has a spelling. -/
inductive Mention.Declares (pointer : Bool) : Mention → Prop
  | declare {elem : ElemType} {type : String} (id : ValueId) (number : Nat)
      (h : elem.cppName? = some type) : Declares pointer (.declare id (some type) ⟨number, pointer⟩)

/-- What may stand on the left of an assignment: a declaration, or an operand. -/
inductive Expr.Assignable : Expr → Prop
  | declare {m : Mention} (h : m.Declares false) : Assignable (.mention m)
  | place {e : Expr} (h : e.Readable false) : Assignable e

/-- The syntax of the assignment to an operand. -/
theorem assignCpp_of_readable {target : Expr} (h : target.Readable false) (value : Expr) :
    assignCpp target value = [.assign target.cpp value.cpp] := by
  cases h <;> rfl

/-- A blank between a type and a name, and an equals sign with blanks around it. -/
theorem separator_blank : Separator " " [] .blank :=
  Cpp.separator_of (c := ' ') (p := .blank) rfl (by decide) rfl rfl

/-- An equals sign between blanks is one token. -/
theorem separator_equals : Separator " = " [.symbol "="] .blank :=
  Cpp.separator_of (c := ' ') (p := .blank) rfl (by decide) rfl rfl

/-- A type in front of a name, with the star of a pointer. -/
theorem phrase_typed {elem : ElemType} {type : String} (h : elem.cppName? = some type) (name : Name) :
    Phrase (type ++ " " ++ name.text) ((typeCpp type).tokens ++
      ((if name.pointer then [.symbol "*"] else []) ++ [.name name.identifier])) := by
  obtain ⟨-, -, hphrase⟩ := typeCpp_eq h
  have happend := hphrase.append separator_blank Cpp.ready_blank name.phrase_text
  cases hpointer : name.pointer <;> simpa [hpointer, Pending.tokens] using happend

/-- An assignment is a phrase with its tokens up to the semicolon. -/
theorem phrase_assign {target value : Expr} (htarget : target.Assignable)
    (hvalue : value.Readable true) : Cpp.AllStmtsGrouped (assignCpp target value) ∧
      ∃ ts, Phrase (target.text ++ " = " ++ value.text) ts ∧
        Cpp.stmtsTokens (assignCpp target value) = ts ++ [.symbol ";"] := by
  obtain ⟨hvalueGrouped, hvaluePhrase⟩ := hvalue.phrase
  -- The target is a declaration or a place.
  cases htarget with
  | declare h =>
    obtain ⟨id, number, h⟩ := h
    obtain ⟨-, hproper, -⟩ := typeCpp_eq h
    refine ⟨⟨⟨hproper, hvalueGrouped⟩, trivial⟩, _,
      (phrase_typed h ⟨number, false⟩).append separator_equals Cpp.ready_blank hvaluePhrase, ?_⟩
    simp [assignCpp, Cpp.stmtsTokens, Cpp.Stmt.tokens, Pending.tokens]
  | place h =>
    obtain ⟨hgrouped, hphrase⟩ := h.phrase
    rw [assignCpp_of_readable h]
    refine ⟨⟨⟨hgrouped, hvalueGrouped⟩, trivial⟩, _,
      hphrase.append separator_equals Cpp.ready_blank hvaluePhrase, ?_⟩
    simp [Cpp.stmtsTokens, Cpp.Stmt.tokens, Pending.tokens]

/-- The extents of an array behind its name. -/
theorem phrase_extents {text : String} {ts : List Token} (h : Phrase text ts) {extents : List Int64}
    (hextents : ∀ extent ∈ extents, 0 ≤ extent.toInt) :
    Phrase (extents.foldl (fun text extent => text ++ "[" ++ toString extent.toInt ++ "]") text)
      (ts ++ Cpp.extentTokens (extents.map fun extent => toString extent.toInt)) := by
  induction extents generalizing text ts with
  | nil => simpa [Cpp.extentTokens] using h
  | cons extent rest ih =>
    rw [List.forall_mem_cons] at hextents
    have hextent := phrase_integer extent.toInt
    rw [integerCpp, if_neg (by omega)] at hextent
    have hfirst := phrase_subscript h hextent
    simpa [Cpp.extentTokens, Cpp.Expr.tokens] using ih hfirst hextents.2

/-- A declaration with extents that are not negative. -/
structure Declarator.Readable (declarator : Declarator) : Prop where
  declares : ∃ pointer, declarator.mention.Declares pointer
  extents : ∀ extent ∈ declarator.extents, 0 ≤ extent.toInt

/-- A line that declares a value. -/
theorem phrase_declarator {declarator : Declarator} (h : declarator.Readable)
    (hvalue : declarator.mention.Declares false) : Cpp.AllStmtsGrouped declarator.cpp ∧
      ∃ ts, Phrase declarator.text ts ∧ Cpp.stmtsTokens declarator.cpp = ts ++ [.symbol ";"] := by
  obtain ⟨mention, extents⟩ := declarator
  obtain ⟨id, number, htype⟩ := hvalue
  obtain ⟨-, hproper, -⟩ := typeCpp_eq htype
  refine ⟨⟨hproper, trivial⟩, _, phrase_extents (phrase_typed htype ⟨number, false⟩) h.extents, ?_⟩
  simp [Declarator.cpp, Cpp.stmtsTokens, Cpp.Stmt.tokens]

/-! ## Heads of loops -/

/-- The head of a loop, of a form that can be read. -/
inductive LoopHead.Readable : LoopHead → Prop
  | range {m : Mention} {lower test upper advance step : Expr} (hm : m.Declares false)
      (hlower : lower.Readable true) (htest : test.Readable false) (hupper : upper.Readable false)
      (hadvance : advance.Readable false) (hstep : step.Readable true) :
      Readable (.range (.mention m) lower test upper advance step)
  | counter (dim : Nat) {extent : Int64} (hextent : 0 ≤ extent.toInt) : Readable (.counter dim extent)

/-- The head of a loop as it is written between its parentheses. -/
def LoopHead.inner : LoopHead → String
  | .range start lower test upper advance step =>
    start.text ++ " = " ++ lower.text ++ "; " ++ (test.text ++ " < " ++ upper.text) ++ "; "
      ++ (advance.text ++ " += " ++ step.text)
  | .counter dim extent =>
    "int" ++ " " ++ counterName dim ++ " = " ++ "0" ++ "; "
      ++ (counterName dim ++ " < " ++ toString extent.toInt) ++ "; ++" ++ counterName dim

/-- The head of a loop is its inside between parentheses. -/
theorem LoopHead.text_eq : (head : LoopHead) → head.text = "for (" ++ head.inner ++ ")"
  | .range start lower test upper advance step => by
    show "for (" ++ start.text ++ " = " ++ lower.text ++ "; " ++ test.text ++ " < " ++ upper.text
      ++ "; " ++ advance.text ++ " += " ++ step.text ++ ")" = "for (" ++ (start.text ++ " = "
      ++ lower.text ++ "; " ++ (test.text ++ " < " ++ upper.text) ++ "; "
      ++ (advance.text ++ " += " ++ step.text)) ++ ")"
    simp only [String.append_assoc]
  | .counter dim extent => by
    show "for (int " ++ counterName dim ++ " = 0; " ++ counterName dim ++ " < "
      ++ toString extent.toInt ++ "; ++" ++ counterName dim ++ ")" = "for (" ++ ("int" ++ " "
      ++ counterName dim ++ " = " ++ "0" ++ "; " ++ (counterName dim ++ " < "
      ++ toString extent.toInt) ++ "; ++" ++ counterName dim) ++ ")"
    exact String.toList_inj.1 (by simp)

/-- A semicolon in the head of a loop is one token. -/
theorem separator_semicolon : Separator "; " [.symbol ";"] .blank :=
  Cpp.separator_of (c := ';') (p := .symbol [';']) rfl (by decide) rfl rfl

/-- The head of a loop stands for a loop with any body. -/
theorem LoopHead.Readable.phrase {head : LoopHead} (h : head.Readable) (body : List Cpp.Stmt) :
    ∃ loop ts, head.cpp body = [loop] ∧ (Cpp.AllStmtsGrouped body → loop.Grouped) ∧
      Phrase head.inner ts ∧ loop.tokens = .keyword "for" :: .symbol "(" :: (ts ++ .symbol ")" ::
        .symbol "\x7b" :: (Cpp.stmtsTokens body ++ [.symbol "\x7d"])) := by
  cases h with
  | @range m lower test upper advance step hm hlower htest hupper hadvance hstep =>
    obtain ⟨id, number, htype⟩ := hm
    obtain ⟨-, hproper, -⟩ := typeCpp_eq htype
    have hadd : Separator " += " [.symbol "+="] .blank :=
      Cpp.separator_of (c := ' ') (p := .blank) rfl (by decide) rfl rfl
    -- Three parts with semicolons between them: the definition, the comparison and the step.
    have hcompare := htest.phrase.2.append (separator_operator .lt) Cpp.ready_blank hupper.phrase.2
    have hforward := hadvance.phrase.2.append hadd Cpp.ready_blank hstep.phrase.2
    have hphrase := ((((phrase_typed htype ⟨number, false⟩).append separator_equals Cpp.ready_blank
      hlower.phrase.2).append separator_semicolon Cpp.ready_blank hcompare).append
        separator_semicolon Cpp.ready_blank hforward)
    refine ⟨_, _, rfl, ?_, hphrase, ?_⟩
    · intro hbody
      exact ⟨hproper, hlower.phrase.1, ⟨rfl, by decide, htest.phrase.1, hupper.phrase.1⟩,
        ⟨hadvance.phrase.1, hstep.phrase.1⟩, hbody⟩
    · simp [Cpp.Stmt.tokens, Cpp.Expr.tokens, Cpp.Advance.tokens, Pending.tokens, Operator.symbol]
  | @counter dim extent hextent =>
    have hint : Phrase "int" [.keyword "int"] :=
      phrase_keyword (c := 'i') rfl (by decide) (by decide) (by decide)
    have hincrement : Separator "; ++" [.symbol ";"] (.symbol ['+', '+']) :=
      Cpp.separator_of (c := ';') (p := .symbol [';']) rfl (by decide) rfl rfl
    have hready : (Pending.symbol ['+', '+']).Ready :=
      Cpp.ready_symbol (by simp) (by simp) (by decide) (by decide)
    -- The loop of a counter runs from zero.
    have hindex := phrase_counterName dim
    have hzero : Phrase "0" [.number "0"] := Phrase.natural 0
    have hbound := phrase_integer extent.toInt
    rw [integerCpp, if_neg (by omega)] at hbound
    have hcompare := hindex.append (separator_operator .lt) Cpp.ready_blank hbound
    have hphrase := (((hint.append separator_blank Cpp.ready_blank hindex).append separator_equals
      Cpp.ready_blank hzero).append separator_semicolon Cpp.ready_blank hcompare).append
        hincrement hready hindex
    refine ⟨_, _, rfl, ?_, hphrase, ?_⟩
    · intro hbody
      exact ⟨(by decide : "int" ∈ Cpp.arithmeticTypes), trivial,
        ⟨rfl, by decide, trivial, trivial⟩, trivial, hbody⟩
    · simp [Cpp.Stmt.tokens, Cpp.TypeName.tokens, Cpp.Expr.tokens, Cpp.Advance.tokens,
        Pending.tokens, Operator.symbol]

/-! ## Statements -/

mutual

/-- A statement of a form that can be read. -/
def Stmt.Readable : Stmt → Prop
  | .declaration declarator _ => declarator.Readable ∧ declarator.mention.Declares false
  | .assign .set target value _ => target.Assignable ∧ value.Readable true
  | .pragma pragma => OneLine pragma.text
  | .blank => True
  | .loop head _ body _ => head.Readable ∧ StmtsReadable body
  | .branch condition _ onTrue none => condition.Readable true ∧ StmtsReadable onTrue
  | .branch condition _ onTrue (some onFalse) =>
    condition.Readable true ∧ StmtsReadable onTrue ∧ StmtsReadable onFalse
  | .assign .. | .initialized .. | .call .. | .accelerator .. => False
termination_by structural stmt => stmt

/-- Some statements of forms that can be read. -/
def StmtsReadable : List Stmt → Prop
  | [] => True
  | stmt :: rest => stmt.Readable ∧ StmtsReadable rest
termination_by structural stmts => stmts

end

/-- Two blocks can be read if and only if one behind the other can. -/
theorem stmtsReadable_append {xs ys : List Stmt} :
    StmtsReadable (xs ++ ys) ↔ StmtsReadable xs ∧ StmtsReadable ys := by
  induction xs with
  | nil => simp [StmtsReadable]
  | cons x xs ih => simp [StmtsReadable, ih, and_assoc]

/-- A loop opens with a keyword and a parenthesis. -/
theorem lexes_for : Lexes .blank "for (" [.keyword "for"] (.symbol ['(']) := rfl

/-- A conditional opens with a keyword and a parenthesis. -/
theorem lexes_if : Lexes .blank "if (" [.keyword "if"] (.symbol ['(']) := rfl

/-- A text that starts as a directive does. -/
def StartsDirective (text : String) : Prop :=
  ∃ rest, text.toList = '#' :: rest

/-- A directive is known by its start. -/
theorem StartsDirective.append {text : String} (h : StartsDirective text) (text' : String) :
    StartsDirective (text ++ text') := by
  obtain ⟨rest, hrest⟩ := h
  exact ⟨rest ++ text'.toList, by rw [String.toList_append, hrest, List.cons_append]⟩

/-- A pragma is a directive. -/
theorem Pragma.startsDirective : (pragma : Pragma) → StartsDirective pragma.text
  | .dataflow | .unroll | .returnInterface => ⟨_, rfl⟩
  | .pipeline _ => .append ⟨_, rfl⟩ _
  | .scalarInterface _ => .append (.append ⟨_, rfl⟩ _) _
  | .axiInterface _ => .append ⟨_, rfl⟩ _
  | .bramInterface _ => .append ⟨_, rfl⟩ _
  | .resource .. => .append (.append (.append ⟨_, rfl⟩ _) _) _
  | .partition .. => .append (.append (.append (.append (.append (.append ⟨_, rfl⟩ _) _) _) _) _) _

/-- A pragma is a directive. -/
theorem lines_pragma {pragma : Pragma} (h : OneLine pragma.text) (depth : Nat) :
    Lines (indent depth ++ pragma.text ++ "\n") [] := by
  obtain ⟨rest, hrest⟩ := pragma.startsDirective
  have htext : indent depth ++ pragma.text ++ "\n" =
      indent depth ++ "#" ++ String.ofList rest ++ "\n" := String.toList_inj.1 (by simp [hrest])
  have hopen : Lexes .blank (indent depth ++ "#") [] .directive :=
    Lexes.append (lines_indent depth) rfl
  rw [htext]
  refine lines_ignored (.inr rfl) hopen fun hbreak => h ?_
  rw [hrest]
  exact List.mem_cons_of_mem _ (by simpa using hbreak)

mutual

/-- A statement is written as its syntax, on lines of its own. -/
theorem lines_stmt : (stmt : Stmt) → ∀ depth, stmt.Readable →
    Cpp.AllStmtsGrouped stmt.cpp ∧ Lines (stmt.text depth) (Cpp.stmtsTokens stmt.cpp)
  | .declaration declarator note, depth, h => by
    obtain ⟨hgrouped, ts, hphrase, htokens⟩ := phrase_declarator h.1 h.2
    rw [Stmt.cpp, htokens]
    exact ⟨hgrouped, lines_simple hphrase depth note⟩
  | .assign .set target value note, depth, h => by
    obtain ⟨hgrouped, ts, hphrase, htokens⟩ := phrase_assign h.1 h.2
    have htext : (Stmt.assign .set target value note).text depth =
        indent depth ++ (target.text ++ " = " ++ value.text) ++ ";" ++ lineEnd note :=
      String.toList_inj.1 (by simp [Stmt.text, Assignment.symbol])
    rw [Stmt.cpp, htokens, htext]
    exact ⟨hgrouped, lines_simple hphrase depth note⟩
  | .pragma pragma, depth, h => ⟨trivial, lines_pragma h depth⟩
  | .blank, depth, _ => ⟨trivial, lexes_lineEnd Cpp.closed_blank none⟩
  | .loop head note body closing, depth, h => by
    -- The line of the head, those of the body and the line of the brace.
    obtain ⟨hbody, hbodyLines⟩ := lines_stmts body (depth + 1) h.2
    obtain ⟨loop, ts, hcpp, hgrouped, hphrase, htokens⟩ := h.1.phrase (stmtsCpp body)
    rw [Stmt.cpp, hcpp]
    refine ⟨⟨hgrouped hbody, trivial⟩, ?_⟩
    have hlines := ((lines_head lexes_for hphrase depth note).append hbodyLines).append
      (lines_brace depth closing)
    rw [← LoopHead.text_eq] at hlines
    simpa [Stmt.text, Cpp.stmtsTokens, htokens, String.append_assoc] using hlines
  | .branch condition note onTrue none, depth, h => by
    obtain ⟨hTrue, hTrueLines⟩ := lines_stmts onTrue (depth + 1) h.2
    obtain ⟨hgrouped, hphrase⟩ := h.1.phrase
    refine ⟨⟨⟨hgrouped, hTrue⟩, trivial⟩, ?_⟩
    have hlines := ((lines_head lexes_if hphrase depth note).append hTrueLines).append
      (lines_brace depth none)
    simpa [Stmt.text, Stmt.cpp, Cpp.stmtsTokens, Cpp.Stmt.tokens, String.append_assoc, lineEnd]
      using hlines
  | .branch condition note onTrue (some onFalse), depth, h => by
    obtain ⟨hTrue, hTrueLines⟩ := lines_stmts onTrue (depth + 1) h.2.1
    obtain ⟨hFalse, hFalseLines⟩ := lines_stmts onFalse (depth + 1) h.2.2
    obtain ⟨hgrouped, hphrase⟩ := h.1.phrase
    refine ⟨⟨⟨hgrouped, hTrue, hFalse⟩, trivial⟩, ?_⟩
    have helse : Lexes .blank "\x7d else \x7b\n"
        [.symbol "\x7d", .keyword "else", .symbol "\x7b"] .blank := rfl
    have hbetween : Lines (indent depth ++ "\x7d else \x7b\n")
        [.symbol "\x7d", .keyword "else", .symbol "\x7b"] := (lines_indent depth).append helse
    have hlines := (((lines_head lexes_if hphrase depth note).append hTrueLines).append
      (hbetween.append hFalseLines)).append (lines_brace depth none)
    simpa [Stmt.text, Stmt.cpp, Cpp.stmtsTokens, Cpp.Stmt.tokens, String.append_assoc, lineEnd]
      using hlines
  | .assign .add .., _, h | .assign .multiply .., _, h | .initialized .., _, h | .call .., _, h
  | .accelerator .., _, h => h.elim
termination_by structural stmt => stmt

/-- Statements are written as their syntax. -/
theorem lines_stmts : (stmts : List Stmt) → ∀ depth, StmtsReadable stmts →
    Cpp.AllStmtsGrouped (stmtsCpp stmts) ∧
      Lines (stmtsText depth stmts) (Cpp.stmtsTokens (stmtsCpp stmts))
  | [], _, _ => ⟨trivial, .nil⟩
  | stmt :: rest, depth, h => by
    obtain ⟨hstmt, hlines⟩ := lines_stmt stmt depth h.1
    obtain ⟨hrest, hrestLines⟩ := lines_stmts rest depth h.2
    rw [stmtsCpp, Cpp.stmtsTokens_append]
    exact ⟨Cpp.allStmtsGrouped_append.2 ⟨hstmt, hrest⟩, hlines.append hrestLines⟩
termination_by structural stmts => stmts

end

/-! ## Functions -/

/-- A function of a form that can be read. -/
structure FunctionCode.Readable (function : FunctionCode) : Prop where
  name : Cpp.isName function.name = true
  remarks : ∀ remark ∈ function.remarks, OneLine remark
  ports : ∀ port ∈ function.ports, port.Readable
  body : StmtsReadable function.body

/-- A port is a phrase with the tokens of a parameter. -/
theorem phrase_port {port : Declarator} (h : port.Readable) :
    port.paramCpp.IsProper ∧ Phrase port.text port.paramCpp.tokens := by
  obtain ⟨mention, extents⟩ := port
  obtain ⟨pointer, id, number, htype⟩ := h.declares
  obtain ⟨-, hproper, -⟩ := typeCpp_eq htype
  refine ⟨hproper, ?_⟩
  have htokens (type : String) : Cpp.Param.tokens ⟨typeCpp type, Name.identifier ⟨number, pointer⟩,
      pointer, extents.map fun extent => toString extent.toInt⟩ = (typeCpp type).tokens ++
        ((if pointer then [.symbol "*"] else []) ++ [.name (Name.identifier ⟨number, pointer⟩)]) ++
          Cpp.extentTokens (extents.map fun extent => toString extent.toInt) := by
    simp [Cpp.Param.tokens]
  rw [Declarator.paramCpp, htokens]
  exact phrase_extents (phrase_typed htype ⟨number, pointer⟩) h.extents

/-- Ports on lines of their own, up to the brace behind them. -/
theorem lexes_ports {ports : List Declarator} (h : ∀ port ∈ ports, port.Readable) :
    Lexes .blank (",\n".intercalate (ports.map fun port => indent 1 ++ port.text) ++ "\n) \x7b")
      (Cpp.paramTokens (ports.map Declarator.paramCpp)) (.symbol ['\x7b']) := by
  have hend : Separator "\n) \x7b" [.symbol ")"] (.symbol ['\x7b']) :=
    Cpp.separator_of (c := '\n') (p := .blank) rfl (by decide) rfl rfl
  have hcomma : Separator ",\n" [.symbol ","] .blank :=
    Cpp.separator_of (c := ',') (p := .symbol [',']) rfl (by decide) rfl rfl
  induction ports with
  | nil => exact hend .blank Cpp.closed_blank
  | cons port rest ih =>
    rw [List.forall_mem_cons] at h
    have hport := (phrase_port h.1).2
    cases rest with
    | nil => exact hport.between (lines_indent 1) Cpp.ready_blank hend
    | cons next rest =>
      have hall := (hport.between (lines_indent 1) Cpp.ready_blank hcomma).append (ih h.2)
      simpa [Cpp.paramTokens, Pending.tokens, String.append_assoc] using hall

/-- Remarks are no tokens. -/
theorem lines_remarks {remarks : List String} (h : ∀ remark ∈ remarks, OneLine remark) :
    Lines (String.join (remarks.map fun remark => "/// " ++ remark ++ "\n")) [] := by
  induction remarks with
  | nil => exact .nil
  | cons remark rest ih =>
    rw [List.forall_mem_cons] at h
    rw [List.map_cons, String.join_cons]
    have hopen : Lexes .blank "/// " [] .comment := rfl
    exact (lines_ignored (.inl rfl) hopen h.1).append (ih h.2)

/-- The text of a function is read as its syntax. -/
theorem FunctionCode.Readable.readFunction_text {function : FunctionCode} (h : function.Readable) :
    Cpp.readFunction function.text = some function.cpp := by
  obtain ⟨hbody, hbodyLines⟩ := lines_stmts function.body 1 h.body
  have hgrouped : function.cpp.Grouped := by
    refine ⟨fun param hparam => ?_, hbody⟩
    obtain ⟨port, hport, rfl⟩ := List.mem_map.1 hparam
    exact (phrase_port (h.ports port hport)).1
  refine Cpp.readFunction_of_tokens hgrouped ?_
  -- The name and the ports are the head, up to the brace.
  have hvoid : Lexes .blank "void " [.keyword "void"] .blank := rfl
  have hopen : Separator "(\n" [.symbol "("] .blank :=
    Cpp.separator_of (c := '(') (p := .symbol ['(']) rfl (by decide) rfl rfl
  have hclose : Lexes .blank "\x7d\n\n" [.symbol "\x7d"] .blank := rfl
  have hname := (Phrase.of_isName h.name).between hvoid Cpp.ready_blank hopen
  have hhead := (hname.append (lexes_ports h.ports)).append
    (lexes_lineEnd (Cpp.closed_symbol (by simp)) (some function.note))
  -- The remarks, the head, the body and the closing brace, one behind the other.
  have hall := (Lexes.append (lines_remarks h.remarks) hhead).append
    (Lexes.append hbodyLines hclose)
  have htext : function.text = String.join (function.remarks.map fun remark =>
      "/// " ++ remark ++ "\n") ++ ("void " ++ function.name ++ "(\n" ++
        (",\n".intercalate (function.ports.map fun port => indent 1 ++ port.text) ++ "\n) \x7b") ++
          lineEnd (some function.note)) ++ (stmtsText 1 function.body ++ "\x7d\n\n") := by
    simp only [FunctionCode.text, String.append_assoc]
  rw [htext]
  refine (Lines.tokenize hall).trans ?_
  simp [Pending.tokens, FunctionCode.cpp, Cpp.Function.tokens]

end Code

end HlsEmit
