import HlsEmit.Proofs.AffineDivision
import HlsEmit.Proofs.Layout.Words
import HlsEmit.Proofs.Reading.Calls
import Mathlib.Order.Bounds.Defs

/-!
# Chains of affine expressions

Where a map has several results, the greatest of them is a lower bound, and the least of them an upper
one. They are written as calls of one function of two arguments, grouped to the left: the calls are
opened in front of the first result, and each further result closes one.

## Key results

- `nestedText_eq`: nested calls, from the left to the right
- `AffineExpr.balanced_code`: affine expressions have balanced parentheses
- `Selector.chooses_foldl`, `eval_nestedCalls`: nested calls choose one of all values
- `AffineExpr.chain_denotes`: what is written for a chain, and what C++ computes
-/

namespace HlsEmit

open Cpp (CallDerives Machine Phrase)
open Code (Expr)

/-! ## The text of nested calls -/

/-- Calls of a function, grouped to the left, with these texts as arguments. -/
def nestedText (function : String) : List String → String
  | [] => ""
  | first :: rest => rest.foldl (fun lhs rhs => function ++ "(" ++ lhs ++ ", " ++ rhs ++ ")") first

/-- Nested calls have the texts of their arguments. -/
theorem Code.Expr.text_nestedCalls (function : String) (codes : List Expr) :
    (nestedCalls function codes).text = nestedText function (codes.map text) := by
  cases codes with
  | nil => rfl
  | cons first rest =>
    rw [nestedCalls, chain, List.map_cons, nestedText, List.foldl_map]
    refine (List.foldl_hom text fun lhs rhs => ?_).symm
    simp [text, argsText, String.append_assoc]

/-- All calls are opened in front of the first text, and each further text closes one. -/
theorem nestedText_eq (function first : String) (rest : List String) :
    nestedText function (first :: rest) =
      String.join (List.replicate rest.length (function ++ "(")) ++ first ++
        String.join (rest.map fun next => ", " ++ next ++ ")") := by
  induction rest generalizing first with
  | nil => simp [nestedText]
  | cons next rest ih =>
    have hstep : nestedText function (first :: next :: rest) =
        nestedText function ((function ++ "(" ++ first ++ ", " ++ next ++ ")") :: rest) := rfl
    rw [hstep, ih, List.length_cons, List.replicate_succ', String.join_append, List.map_cons,
      String.join_cons, String.join_cons, String.join_nil]
    simp only [String.append_assoc, String.append_empty]

/-! ## Balanced parentheses -/

/-- Every parenthesis that is opened is closed behind it, and none else is. -/
inductive Balanced : List Char → Prop
  | nil : Balanced []
  | plain {c : Char} {cs : List Char} : c ∉ ['(', ')'] → Balanced cs → Balanced (c :: cs)
  | paren {cs ds : List Char} : Balanced cs → Balanced ds → Balanced ('(' :: (cs ++ ')' :: ds))

namespace Balanced

variable {cs ds : List Char}

/-- Text without parentheses is balanced. -/
theorem of_plain (h : ∀ c ∈ cs, c ∉ ['(', ')']) : Balanced cs := by
  induction cs with
  | nil => exact .nil
  | cons c cs ih =>
    rw [List.forall_mem_cons] at h
    exact .plain h.1 (ih h.2)

/-- Two balanced texts are balanced together. -/
theorem append (h : Balanced cs) (h' : Balanced ds) : Balanced (cs ++ ds) := by
  induction h with
  | nil => exact h'
  | plain hc _ ih => exact .plain hc ih
  | @paren inner rest hinner _ _ ih =>
    rw [List.cons_append, List.append_assoc, List.cons_append]
    exact .paren hinner ih

/-- Parentheses around a balanced text. -/
theorem closed (h : Balanced cs) : Balanced ('(' :: (cs ++ [')'])) :=
  .paren h .nil

end Balanced

/-- The text of some code has balanced parentheses. -/
abbrev Code.Expr.Balanced (e : Expr) : Prop :=
  HlsEmit.Balanced e.text.toList

/-- No digit is a parenthesis. -/
theorem not_paren_of_isDigit {c : Char} (h : c.isDigit = true) : c ∉ ['(', ')'] := by
  intro hc
  simp only [List.mem_cons, List.not_mem_nil, or_false] at hc
  rcases hc with rfl | rfl <;> cases h

/-- A number has no parentheses. -/
theorem balanced_nat (n : Nat) : Balanced (toString n).toList := by
  rw [Phrase.toList_toString]
  exact .of_plain fun c hc => not_paren_of_isDigit (Phrase.isDigit_of_mem_toDigits hc)

/-- The text of a constant has no parentheses. -/
theorem balanced_literal {literal : Literal} {text : String} (h : literal.scalarText? = some text) :
    Balanced text.toList := by
  refine .of_plain fun c hc => ?_
  rcases isNumberChar_literal h c hc with (hdigit | hsign) | hletter
  · exact not_paren_of_isDigit hdigit
  · exact (by decide : ∀ c ∈ ['.', 'e', '-'], c ∉ ['(', ')']) c hsign
  · exact (by decide : ∀ c ∈ "INFINITY".toList, c ∉ ['(', ')']) c hletter

/-- No name of a value has parentheses. -/
theorem Name.balanced_text (name : Name) : Balanced name.text.toList := by
  have hidentifier : Balanced name.identifier.toList := by
    rw [identifier, String.toList_append]
    exact .append (.of_plain (by decide)) (balanced_nat name.number)
  rw [text]
  split
  · rw [String.toList_append]
    exact .append (.of_plain (by decide)) hidentifier
  · exact hidentifier

namespace Code.Expr.Balanced

variable {lhs rhs inner : Expr}

/-- An operation of balanced sides is balanced. -/
theorem operation (operator : Operator) (hlhs : lhs.Balanced) (hrhs : rhs.Balanced) :
    (Expr.operation operator lhs rhs).Balanced := by
  have hsymbol : HlsEmit.Balanced (" " ++ operator.symbol ++ " ").toList :=
    .of_plain (by cases operator <;> decide)
  have hboth := (hlhs.append hsymbol).append hrhs
  simpa [Expr.Balanced, text] using hboth

/-- Parentheses around balanced text are balanced. -/
theorem paren (h : inner.Balanced) : (Expr.paren inner).Balanced := by
  simpa [Expr.Balanced, text] using h.closed

/-- A sign in front keeps a text balanced. -/
theorem minus {text : String} (h : HlsEmit.Balanced text.toList) :
    HlsEmit.Balanced ("-" ++ text).toList := by
  rw [String.toList_append]
  exact .append (.of_plain (by decide)) h

/-- A negated balanced expression is balanced. -/
theorem negate (h : inner.Balanced) : (Expr.negate inner).Balanced :=
  minus h

/-- An integer literal is balanced. -/
theorem integer (value : Int) : (Expr.integer value).Balanced := by
  cases value with
  | ofNat n => exact balanced_nat n
  | negSucc n => exact minus (balanced_nat (n + 1))

end Code.Expr.Balanced

/-- What stands for an operand has balanced parentheses: a name, a constant, or nothing. -/
theorem Arena.balanced_operandAt (arena : Arena) (table : NameTable) (operands : List ValueId)
    (position : Nat) : (arena.operandAt table operands position).Balanced := by
  unfold operandAt
  split
  · next id _ =>
    show Balanced (arena.designator table id).text.toList
    unfold designator
    split
    · next text htext =>
      obtain ⟨-, literal, -, hliteral⟩ := exists_literal htext
      exact balanced_literal hliteral
    · split
      · next name _ => exact name.balanced_text
      · exact .nil
  · exact .nil

/-- An affine expression has balanced parentheses if its operands have. -/
theorem AffineExpr.balanced_code {operand : Nat → Expr} {dims : Nat}
    (hoperand : ∀ position, (operand position).Balanced) (e : AffineExpr) :
    (e.code operand dims).Balanced :=
  code_induction hoperand .integer (fun operator => .operation operator) .negate .paren e

/-! ## Functions that choose -/

/-- The two functions that chains are calls of. -/
inductive Selector where
  | max
  | min
deriving DecidableEq, Repr

namespace Selector

/-- The name of the function. -/
def name : Selector → String
  | .max => "max"
  | .min => "min"

/-- What the function chooses of two integers. -/
def choose : Selector → Int → Int → Int
  | .max => Max.max
  | .min => Min.min

/-- An integer is the greatest of some, or the least of them. -/
def Chooses : Selector → List Int → Int → Prop
  | .max, values, n => IsGreatest {x | x ∈ values} n
  | .min, values, n => IsLeast {x | x ∈ values} n

/-- Chosen again and again from the left to the right, one of all integers remains. -/
theorem chooses_foldl (selector : Selector) (first : Int) (rest : List Int) :
    selector.Chooses (first :: rest) (rest.foldl selector.choose first) := by
  cases selector with
  | max => exact List.max?_eq_some_iff.1 List.max?_cons'
  | min => exact List.min?_eq_some_iff.1 List.min?_cons'

/-- The two selecting functions are among those C++ calls. -/
theorem name_mem_callees (selector : Selector) : selector.name ∈ Code.callees := by
  cases selector <;> decide

/-- A call has balanced parentheses if its arguments have. -/
theorem balanced_call (selector : Selector) {lhs rhs : Expr} (hlhs : lhs.Balanced)
    (hrhs : rhs.Balanced) : (Expr.call selector.name [lhs, rhs]).Balanced := by
  have hname : Balanced selector.name.toList := .of_plain (by cases selector <;> decide)
  have hcomma : Balanced ", ".toList := .of_plain (by decide)
  have hargs := (hlhs.append hcomma).append hrhs
  have hcall := hname.append hargs.closed
  simpa [Expr.Balanced, Expr.text, Code.argsText] using hcall

end Selector

/-! ## Nested calls as C++ reads them -/

/-- The text of some code is calls of calls: those that the code stands for. -/
structure Code.Expr.IsCalls (e : Expr) : Prop where
  phrase : Phrase e.text e.cpp.tokens
  derives : CallDerives e.cpp.tokens e.cpp

section Calls

variable {selector : Selector} {lhs rhs : Expr}

/-- An operand stands as an argument as it is. -/
theorem Code.Expr.HasRank.isCalls (h : lhs.HasRank .unary) : lhs.IsCalls where
  phrase := h.phrase
  derives := .arithmetic (h.ofUnary .sum).derives

/-- A selection of two calls is a call. -/
theorem Selector.isCalls_call (selector : Selector) (hlhs : lhs.IsCalls) (hrhs : rhs.IsCalls) :
    (Expr.call selector.name [lhs, rhs]).IsCalls := by
  have hcomma : Cpp.Separator ", " [.symbol ","] .blank :=
    Cpp.separator_of (c := ',') (p := .symbol [',']) rfl (by decide) rfl rfl
  have hphrase := Code.phrase_call (Code.phrase_callee selector.name_mem_callees)
    (hlhs.phrase.append hcomma Cpp.ready_blank hrhs.phrase)
  have hcpp : (Expr.call selector.name [lhs, rhs]).cpp = .call selector.name [lhs.cpp, rhs.cpp] :=
    Code.callCpp_of_callee selector.name_mem_callees _
  have htokens : (Cpp.Expr.call selector.name [lhs.cpp, rhs.cpp]).tokens =
      .name selector.name :: .symbol "(" ::
        (lhs.cpp.tokens ++ .symbol "," :: (rhs.cpp.tokens ++ [.symbol ")"])) := by
    simp [Cpp.Expr.tokens, Cpp.argTokens]
  constructor
  · rw [hcpp, htokens]
    simpa [Expr.text, Code.argsText, Cpp.Pending.tokens] using hphrase
  · rw [hcpp, htokens]
    exact .call hlhs.derives hrhs.derives

variable {quotient remainder : Int → Int → Int} {env : Cpp.Env Int}

/-- A call has the value that the function chooses. -/
theorem Selector.eval_call (selector : Selector) {x y : Int}
    (hlhs : (Machine.selecting quotient remainder).eval env lhs.cpp = some x)
    (hrhs : (Machine.selecting quotient remainder).eval env rhs.cpp = some y) :
    (Machine.selecting quotient remainder).eval env (Expr.call selector.name [lhs, rhs]).cpp =
      some (selector.choose x y) := by
  rw [Code.eval_callTwo selector.name_mem_callees, hlhs, hrhs]
  cases selector <;> rfl

/-- Nested calls have the value that is chosen from the left to the right. -/
theorem eval_nestedCalls {code : AffineExpr → Expr} {value : AffineExpr → Int} {first : AffineExpr}
    {rest : List AffineExpr} (h : ∀ e ∈ first :: rest,
      (Machine.selecting quotient remainder).eval env (code e).cpp = some (value e)) :
    (Machine.selecting quotient remainder).eval env
        (Expr.nestedCalls selector.name ((first :: rest).map code)).cpp =
      some ((rest.map value).foldl selector.choose (value first)) := by
  rw [List.forall_mem_cons] at h
  -- the calls so far have the value that has been chosen so far
  have hchain : ∀ (rest : List AffineExpr) (lhs : Expr) (x : Int),
      (∀ e ∈ rest, (Machine.selecting quotient remainder).eval env (code e).cpp = some (value e)) →
      (Machine.selecting quotient remainder).eval env lhs.cpp = some x →
      (Machine.selecting quotient remainder).eval env
          (Expr.nestedCalls selector.name (lhs :: rest.map code)).cpp =
        some ((rest.map value).foldl selector.choose x) := by
    intro rest
    induction rest with
    | nil => exact fun lhs x _ hlhs => hlhs
    | cons next rest ih =>
      intro lhs x hrest hlhs
      rw [List.forall_mem_cons] at hrest
      exact ih _ _ hrest.2 (selector.eval_call hlhs hrest.1)
  exact hchain rest (code first) (value first) h.2 h.1

end Calls

/-! ## Chains -/

/-- A named operand that is no constant stands for the number of its value. -/
theorem NameTable.Named.stands {arena : Arena} {table : NameTable} {operands : List ValueId}
    {position : Nat} (h : table.Named arena operands position) (value : ValueId → Int) :
    table.Stands arena operands value position (table.input operands value position) := by
  obtain ⟨id, hid, hdeclared, hconst⟩ := h
  cases howner : table.owner? id with
  | none =>
    rw [isDeclared_eq_false_iff.2 (owner?_eq_none_iff.1 howner)] at hdeclared
    cases hdeclared
  | some owner =>
    have hinput : table.input operands value position = value owner := by simp [input, hid, howner]
    rw [hinput]
    exact .named hid hconst howner

namespace AffineExpr

/-- Everything that an expression uses has a text, and no text with a sign in front is negated. -/
structure Faithful (arena : Arena) (table : NameTable) (operands : List ValueId) (dims : Nat)
    (e : AffineExpr) : Prop where
  shown : ∀ position ∈ e.positions dims, (arena.operandAt table operands position).text ≠ ""
  unsigned : ∀ x ∈ e.negated, x.isNegative (arena.isNegative operands) dims = false

variable {arena : Arena} {table : NameTable} {operands : List ValueId} {dims : Nat} {e : AffineExpr}

/-- Faithful code reads back as a unary expression. -/
theorem Faithful.hasRank (h : e.Faithful arena table operands dims) :
    (e.code (arena.operandAt table operands) dims).HasRank .unary :=
  e.hasRank_code_of_unsigned
    (fun _ hposition => Arena.hasRank_operandAt_of_text (h.shown _ hposition))
    fun x hx => x.unsigned_code_iff.2 (h.unsigned x hx)

/-- Arithmetic over operands that stand for integers has its value where functions choose, too. -/
theorem Faithful.eval_selecting (h : e.Faithful arena table operands dims)
    (hv : table.Valid NameTable.noValues) {quotient remainder : Int → Int → Int}
    {value : ValueId → Int} {input : Nat → Int}
    (hinput : ∀ position ∈ e.positions dims,
      table.Stands arena operands value position (input position)) :
    (Machine.selecting quotient remainder).eval (table.objects value)
        (e.code (arena.operandAt table operands) dims).cpp =
      some (e.value quotient remainder input dims) := by
  rw [h.hasRank.derives.eval_selecting]
  exact e.eval_code_of_positions fun position hposition =>
    hv.eval_of_stands (hinput position hposition) quotient remainder

/-- Over named operands that are no constants, and without products of a negative constant and minus
one, nothing else is needed. -/
theorem Proper.faithful (hv : table.Valid NameTable.noValues)
    (h : e.Proper (table.Named arena operands) dims) : e.Faithful arena table operands dims where
  shown position hposition := by
    obtain ⟨c, text, htext, -⟩ := (hv.hasRank_operandAt (h.usable_of_mem position hposition)).1.phrase
    intro hempty
    rw [hempty] at htext
    cases htext
  unsigned x hx := by
    obtain ⟨hproper, hconstant⟩ := h.of_mem_negated x hx
    have hunsigned : Unsigned (x.code (arena.operandAt table operands) dims).text :=
      x.unsigned_code (fun _ hposition =>
        (hv.hasRank_operandAt (hproper.usable_of_mem _ hposition)).2) hconstant
    exact x.unsigned_code_iff.1 hunsigned

/-- A chain of expressions is written as nested calls of a function: all are opened in front of the
first expression, one for each of the others, which close them, and so the parentheses are balanced.
As C++ reads it, its value is the greatest of the values of all expressions, or the least. -/
theorem chain_denotes (selector : Selector) (arena : Arena) (calls : List NameTable.Call)
    (operands : List ValueId) (dims : Nat) (first : AffineExpr) (rest : List AffineExpr) :
    let names := NameTable.empty.after calls
    let code := AffineExpr.code (arena.operandAt names operands) dims
    let chain := Expr.nestedCalls selector.name ((first :: rest).map code)
    chain.text = nestedText selector.name ((first :: rest).map fun e => (code e).text) ∧
      chain.text = String.join (List.replicate rest.length (selector.name ++ "(")) ++
        (code first).text ++ String.join (rest.map fun e => ", " ++ (code e).text ++ ")") ∧
      chain.Balanced ∧
      ((∀ e ∈ first :: rest, e.Faithful arena names operands dims) →
        ∃ read, Cpp.readCalls chain.text = some read ∧
          ∀ quotient remainder value input,
            (∀ e ∈ first :: rest, ∀ position ∈ e.positions dims,
              names.Stands arena operands value position (input position)) →
            ∃ n, (Machine.selecting quotient remainder).eval (names.objects value) read = some n ∧
              selector.Chooses
                ((first :: rest).map fun e => e.value quotient remainder input dims) n) := by
  intro names code chain
  have hv : names.Valid NameTable.noValues := NameTable.valid_reached calls
  have htext : chain.text = nestedText selector.name ((first :: rest).map fun e => (code e).text) := by
    rw [Expr.text_nestedCalls, List.map_map]
    rfl
  have hsome : (first :: rest).map code ≠ [] := List.cons_ne_nil _ _
  have hbalanced (e : AffineExpr) : (code e).Balanced :=
    e.balanced_code (arena.balanced_operandAt names operands)
  -- The text written out, its parentheses, and its value: the chain is read as nested calls, and a
  -- fold of the selection over the values chooses one of them.
  refine ⟨htext, ?_, ?_, fun hfaithful => ?_⟩
  · rw [htext, List.map_cons, nestedText_eq, List.length_map, List.map_map]
    rfl
  · exact Expr.nestedCalls_induction hsome (List.forall_mem_map.2 fun e _ => hbalanced e)
      fun _ _ => selector.balanced_call
  · have hcalls : ∀ e ∈ (first :: rest).map code, e.IsCalls :=
      List.forall_mem_map.2 fun e he => (hfaithful e he).hasRank.isCalls
    have hchain : chain.IsCalls :=
      Expr.nestedCalls_induction hsome hcalls fun _ _ => selector.isCalls_call
    refine ⟨chain.cpp, Cpp.readCalls_eq_some_iff.2 ⟨_, hchain.phrase.tokenize, hchain.derives⟩, ?_⟩
    intro quotient remainder value input hinput
    exact ⟨_, eval_nestedCalls fun e he => (hfaithful e he).eval_selecting hv (hinput e he),
      selector.chooses_foldl _ _⟩

end AffineExpr

/-! ### Three results over a shared name and a pointer -/

/-- What is behind the pointer, less three. -/
def lessThree : AffineExpr :=
  .add (.symbol 0) (.constant (-3))

/-- Two is behind the pointer, and the other value is minus two. -/
def twoAndMinusTwo (id : ValueId) : Int :=
  if id = ⟨1⟩ then 2 else -2

/-- Three expressions over a shared value and a pointer, all of them proper. -/
theorem threeResults_proper : ∀ e ∈ [.dim 0, minusSigns, lessThree],
    e.Proper ((NameTable.empty.after sharedAndPointer).Named #[] [⟨2⟩, ⟨1⟩]) 1 := by
  have hshared : (NameTable.empty.after sharedAndPointer).Named #[] [⟨2⟩, ⟨1⟩] 0 :=
    ⟨⟨2⟩, rfl, by decide, rfl⟩
  have hpointer : (NameTable.empty.after sharedAndPointer).Named #[] [⟨2⟩, ⟨1⟩] 1 :=
    ⟨⟨1⟩, rfl, by decide, rfl⟩
  refine List.forall_mem_cons.2 ⟨⟨?_, ?_, ?_⟩, List.forall_mem_cons.2 ⟨minusSigns_proper,
    List.forall_mem_singleton.2 ⟨?_, ?_, ?_⟩⟩⟩
  · simp [AffineExpr.parts, hshared]
  · simp [AffineExpr.parts]
  · simp [AffineExpr.parts]
  · simp [AffineExpr.parts, lessThree]
  · simp [AffineExpr.parts, lessThree, hpointer]
  · simp [AffineExpr.parts, lessThree]

/-- The values are minus two, one and minus one. -/
theorem threeResults_chain :
    let names := NameTable.empty.after sharedAndPointer
    let code := AffineExpr.code (Arena.operandAt #[] names [⟨2⟩, ⟨1⟩]) 1
    let chain := Expr.nestedCalls "max" ([.dim 0, minusSigns, lessThree].map code)
    (∀ e ∈ [.dim 0, minusSigns, lessThree], e.Faithful #[] names [⟨2⟩, ⟨1⟩] 1) ∧
      chain.text = "max(max(val0, (((val0 - (-*val1)) + (*val1 - 9223372036854775808) - 1) / " ++
        "(*val1 - 9223372036854775808))), (*val1 - 3))" ∧
      ∃ read, Cpp.readCalls chain.text = some read ∧
        (Machine.selecting Int.tdiv Int.tmod).eval (names.objects twoAndMinusTwo) read = some 1 := by
  intro names code chain
  have hfaithful : ∀ e ∈ [.dim 0, minusSigns, lessThree], e.Faithful #[] names [⟨2⟩, ⟨1⟩] 1 :=
    fun e he => (threeResults_proper e he).faithful (NameTable.valid_reached sharedAndPointer)
  obtain ⟨htext, -, -, hread⟩ := AffineExpr.chain_denotes .max #[] sharedAndPointer [⟨2⟩, ⟨1⟩] 1
    (.dim 0) [minusSigns, lessThree]
  obtain ⟨read, hread, heval⟩ := hread hfaithful
  obtain ⟨n, hn, hgreatest⟩ := heval Int.tdiv Int.tmod twoAndMinusTwo
    (names.input [⟨2⟩, ⟨1⟩] twoAndMinusTwo) fun e he position hposition =>
      ((threeResults_proper e he).usable_of_mem position hposition).stands twoAndMinusTwo
  have hvalues : ([.dim 0, minusSigns, lessThree].map fun e => e.value Int.tdiv Int.tmod
      (names.input [⟨2⟩, ⟨1⟩] twoAndMinusTwo) 1) = [-2, 1, -1] := by decide +kernel
  rw [hvalues] at hgreatest
  -- One is among the values and none of them is greater.
  have hmem : n ∈ [-2, 1, -1] := hgreatest.1
  have hleast : 1 ≤ n := hgreatest.2 (by decide : (1 : Int) ∈ [-2, 1, -1])
  obtain rfl : n = 1 := by
    simp only [List.mem_cons, List.not_mem_nil, or_false] at hmem
    omega
  exact ⟨hfaithful, htext.trans (by decide +kernel), read, hread, hn⟩

end HlsEmit
