import HlsEmit.Cpp.Arithmetic
import HlsEmit.Proofs.Reading.Parse

/-!
# Arithmetic is read as the grammar derives it

The parser finds an expression that the grammar derives, behind which nothing goes on with it, and
nothing else. So some tokens are one expression at most: the grammar is not ambiguous.

## Key results

- `Derives.parse`: what is derived is found
- `derives_of_parse`: what is found is derived
- `arithmetic?_eq_some_iff`, `Derives.unique`: the tokens of a whole expression
-/

namespace HlsEmit.Cpp

/-! ## What is derived is found -/

/-- Some tokens do not go on with an expression of a rank. -/
def Rank.Stops (rank : Rank) (ts : List Token) : Prop :=
  ∀ s rest, ts = .symbol s :: rest → s ∉ rank.operators ++ rank.tighter.operators

/-- How many ranks are tighter. -/
def Rank.height : Rank → Nat
  | .sum => 2
  | .product => 1
  | .unary => 0

/-- How many calls are enough to read an expression. -/
def Rank.calls (rank : Rank) (ts : List Token) : Nat :=
  4 * ts.length + rank.height

/-- Every rank stops at the end. -/
theorem Rank.stops_nil (rank : Rank) : rank.Stops [] := by
  rintro s rest ⟨⟩

/-- Where a rank stops, a tighter one does. -/
theorem Rank.Stops.tighter {rank : Rank} {ts : List Token} (h : rank.Stops ts) :
    rank.tighter.Stops ts := by
  intro s rest hts hs
  refine h s rest hts ?_
  cases rank <;> simp_all [Rank.operators, Rank.tighter]

/-- Behind an operand, an operator of the rank itself stops it. -/
theorem Rank.stops_operator {rank : Rank} {operator : String} (h : operator ∈ rank.operators)
    (ts : List Token) : rank.tighter.Stops (.symbol operator :: ts) := by
  rintro s rest ⟨⟩
  revert operator
  cases rank <;> decide

/-- Every rank stops at a closing parenthesis. -/
theorem Rank.stops_close (rank : Rank) (ts : List Token) : rank.Stops (.symbol ")" :: ts) := by
  rintro s rest ⟨⟩
  cases rank <;> decide

/-- Every expression has a token. -/
theorem Derives.length_pos {rank : Rank} {ts : List Token} {e : Expr} (h : Derives rank ts e) :
    0 < ts.length := by
  induction h with
  | tighter _ ih => exact ih
  | _ => simp only [List.length_append, List.length_cons]; omega

/-- An expression that is no operand is its first operand and what is behind that. -/
theorem parseArithmetic_chain {rank : Rank} (hrank : rank ≠ .unary) (depth : Nat)
    (ts : List Token) : parseArithmetic (depth + 1) rank ts =
      (parseArithmetic depth rank.tighter ts).bind fun first =>
        parseChain depth rank first.1 first.2 := by
  cases rank with
  | unary => exact absurd rfl hrank
  | _ => simp only [parseArithmetic]; rfl

/-- A chain ends where its rank stops. -/
theorem parseChain_of_stops {rank : Rank} {rest : List Token} (h : rank.Stops rest) (depth : Nat)
    (e : Expr) : parseChain (depth + 1) rank e rest = some (e, rest) := by
  match rest with
  | [] | .keyword _ :: _ | .name _ :: _ | .number _ :: _ => simp [parseChain]
  | .symbol s :: ts =>
    have hstop : s ∉ rank.operators := fun hs => h s ts rfl (List.mem_append_left _ hs)
    simp [parseChain, hstop]

/-- The operator that comes next, with its operand. -/
theorem parseChain_operator {rank : Rank} {operator : String} {depth : Nat} {lhs rhs : Expr}
    {ts rest : List Token} (hoperator : operator ∈ rank.operators)
    (h : parseArithmetic depth rank.tighter ts = some (rhs, rest)) :
    parseChain (depth + 1) rank lhs (.symbol operator :: ts) =
      parseChain depth rank (.binary operator lhs rhs) rest := by
  rw [parseChain, if_pos hoperator, h]
  rfl

/-- An expression of a rank is found behind which nothing goes on with it. -/
def Found (rank : Rank) (ts : List Token) (e : Expr) : Prop :=
  ∀ depth rest, rank.Stops rest → rank.calls ts ≤ depth →
    parseArithmetic depth rank (ts ++ rest) = some (e, rest)

/-- Reading an expression of a rank goes on behind it, with enough calls left for what is there. -/
def FoundInFront (rank : Rank) (ts : List Token) (e : Expr) : Prop :=
  ∀ depth rest, rank.tighter.Stops rest → rank.calls ts ≤ depth → ∃ left,
    depth < left + rank.calls ts ∧ parseArithmetic depth rank (ts ++ rest) = parseChain left rank e rest

/-- What is found in front of a chain is found. -/
theorem FoundInFront.found {rank : Rank} {ts : List Token} {e : Expr} (h : FoundInFront rank ts e) :
    Found rank ts e := by
  intro depth rest hrest hdepth
  obtain ⟨left, hleft, hparse⟩ := h depth rest hrest.tighter hdepth
  obtain ⟨left, rfl⟩ : ∃ l, left = l + 1 := ⟨left - 1, by omega⟩
  rw [hparse, parseChain_of_stops hrest]

/-- What a tighter rank finds starts a chain. -/
theorem Found.tighter {rank : Rank} (hrank : rank ≠ .unary) {ts : List Token} {e : Expr}
    (h : Found rank.tighter ts e) (hpos : 0 < ts.length) : FoundInFront rank ts e := by
  intro depth rest hrest hdepth
  have hheight : rank.height = rank.tighter.height + 1 := by
    cases rank <;> first | rfl | exact absurd rfl hrank
  simp only [Rank.calls] at hdepth ⊢
  obtain ⟨depth, rfl⟩ : ∃ d, depth = d + 1 := ⟨depth - 1, by omega⟩
  refine ⟨depth, by omega, ?_⟩
  rw [parseArithmetic_chain hrank, h depth rest hrest (by simp only [Rank.calls]; omega)]
  rfl

/-- An operator and its right side extend a chain. -/
theorem FoundInFront.binary {rank : Rank} {operator : String} {ts us : List Token} {lhs rhs : Expr}
    (hoperator : operator ∈ rank.operators) (h : FoundInFront rank ts lhs)
    (h' : Found rank.tighter us rhs) :
    FoundInFront rank (ts ++ .symbol operator :: us) (.binary operator lhs rhs) := by
  intro depth rest hrest hdepth
  have hheight : rank.tighter.height ≤ 1 := by cases rank <;> decide
  simp only [Rank.calls, List.length_append, List.length_cons] at hdepth ⊢
  obtain ⟨left, hleft, hparse⟩ := h depth (.symbol operator :: (us ++ rest))
    (Rank.stops_operator hoperator _) (by simp only [Rank.calls]; omega)
  simp only [Rank.calls] at hleft
  obtain ⟨left, rfl⟩ : ∃ l, left = l + 1 := ⟨left - 1, by omega⟩
  have hrhs := h' left rest hrest (by simp only [Rank.calls]; omega)
  refine ⟨left, by omega, ?_⟩
  rw [List.append_assoc, List.cons_append, hparse, parseChain_operator hoperator hrhs]

/-- What the grammar derives is found. -/
theorem Derives.parse {rank : Rank} {ts : List Token} {e : Expr} (h : Derives rank ts e) :
    Found rank ts e ∧ (rank ≠ .unary → FoundInFront rank ts e) := by
  induction h with
  | number text | name name | target pointer =>
    refine ⟨fun depth rest _ hdepth => ?_, fun hrank => absurd rfl hrank⟩
    simp only [Rank.calls, List.length_cons] at hdepth
    obtain ⟨depth, rfl⟩ : ∃ d, depth = d + 1 := ⟨depth - 1, by omega⟩
    simp [parseArithmetic]
  | negate _ ih =>
    refine ⟨fun depth rest hrest hdepth => ?_, fun hrank => absurd rfl hrank⟩
    simp only [Rank.calls, List.length_cons] at hdepth
    obtain ⟨depth, rfl⟩ : ∃ d, depth = d + 1 := ⟨depth - 1, by omega⟩
    have hoperand := ih.1 depth rest hrest (by simp only [Rank.calls]; omega)
    simp [parseArithmetic, hoperand]
  | paren _ ih =>
    refine ⟨fun depth rest _ hdepth => ?_, fun hrank => absurd rfl hrank⟩
    simp only [Rank.calls, List.length_cons, List.length_append, List.length_nil] at hdepth
    obtain ⟨depth, rfl⟩ : ∃ d, depth = d + 1 := ⟨depth - 1, by omega⟩
    have hinner := ih.1 depth (.symbol ")" :: rest) (Rank.stops_close _ _)
      (by simp only [Rank.calls, Rank.height]; omega)
    simp [parseArithmetic, hinner]
  -- A chain of one operand; the unary rank has no chains.
  | @tighter rank ts e h ih =>
    by_cases hrank : rank = .unary
    · subst hrank
      exact ⟨ih.1, fun hrank => absurd rfl hrank⟩
    · have hfound := ih.1.tighter hrank h.length_pos
      exact ⟨hfound.found, fun _ => hfound⟩
  -- The chain on the left goes on with the operator.
  | @binary rank operator ts us lhs rhs hoperator _ _ ihlhs ihrhs =>
    have hrank : rank ≠ .unary := by rintro rfl; cases hoperator
    have hfound := (ihlhs.2 hrank).binary hoperator ihrhs.1
    exact ⟨hfound.found, fun _ => hfound⟩

/-! ## What is found is derived -/

/-- An expected token stands in front. -/
theorem eq_cons_of_expect {token : Token} {ts rest : List Token} (h : expect token ts = some rest) :
    ts = token :: rest := by
  cases ts with
  | nil => cases h
  | cons first ts =>
    rw [expect] at h
    split at h
    · next heq => cases h; rw [heq]
    · cases h

/-- What is found with so many calls is derived. -/
def ParseDerives (depth : Nat) : Prop :=
  ∀ rank ts e rest, parseArithmetic depth rank ts = some (e, rest) →
    ∃ front, ts = front ++ rest ∧ Derives rank front e

/-- What goes on behind its first operands with so many calls is derived. -/
def ChainDerives (depth : Nat) : Prop :=
  ∀ rank front lhs ts e rest, Derives rank front lhs → parseChain depth rank lhs ts = some (e, rest) →
    ∃ more, ts = more ++ rest ∧ Derives rank (front ++ more) e

/-- What is parsed as unary is derived as such. -/
theorem ParseDerives.unary {depth : Nat} (h : ParseDerives depth) {ts rest : List Token} {e : Expr}
    (hparse : parseArithmetic (depth + 1) .unary ts = some (e, rest)) :
    ∃ front, ts = front ++ rest ∧ Derives .unary front e := by
  unfold parseArithmetic at hparse
  -- One case per way a unary expression starts.
  split at hparse
  · cases hparse
    exact ⟨[_], rfl, .number _⟩
  · cases hparse
    exact ⟨[_], rfl, .name _⟩
  · cases hparse
    exact ⟨[_, _], rfl, .target _⟩
  · obtain ⟨⟨operand, behind⟩, hoperand, hresult⟩ := Option.bind_eq_some_iff.1 hparse
    cases hresult
    obtain ⟨front, rfl, hderives⟩ := h _ _ _ _ hoperand
    exact ⟨_ :: front, rfl, .negate hderives⟩
  · obtain ⟨⟨inner, behind⟩, hinner, hresult⟩ := Option.bind_eq_some_iff.1 hparse
    obtain ⟨last, hclose, hresult⟩ := Option.bind_eq_some_iff.1 hresult
    cases hresult
    obtain ⟨front, rfl, hderives⟩ := h _ _ _ _ hinner
    rw [eq_cons_of_expect hclose]
    exact ⟨_ :: (front ++ [.symbol ")"]), by simp, .paren hderives⟩
  · cases hparse

/-- One step more derives what it parses. -/
theorem ParseDerives.succ {depth : Nat} (h : ParseDerives depth) (hchain : ChainDerives depth) :
    ParseDerives (depth + 1) := by
  intro rank ts e rest hparse
  by_cases hrank : rank = .unary
  · subst hrank
    exact h.unary hparse
  · rw [parseArithmetic_chain hrank] at hparse
    obtain ⟨⟨first, behind⟩, hfirst, hbehind⟩ := Option.bind_eq_some_iff.1 hparse
    obtain ⟨front, rfl, hderives⟩ := h _ _ _ _ hfirst
    obtain ⟨more, rfl, hwhole⟩ := hchain _ _ _ _ _ _ hderives.tighter hbehind
    exact ⟨front ++ more, by simp, hwhole⟩

/-- One step more of a chain derives what it parses. -/
theorem ChainDerives.succ {depth : Nat} (hchain : ChainDerives depth) (h : ParseDerives depth) :
    ChainDerives (depth + 1) := by
  intro rank front lhs ts e rest hlhs hparse
  -- Only an operator of the rank extends the chain.
  match ts with
  | [] | .keyword _ :: _ | .name _ :: _ | .number _ :: _ =>
    simp only [parseChain, Option.some.injEq, Prod.mk.injEq] at hparse
    obtain ⟨rfl, rfl⟩ := hparse
    exact ⟨[], rfl, by simpa using hlhs⟩
  | .symbol s :: ts =>
    rw [parseChain] at hparse
    split at hparse
    · next hs =>
      obtain ⟨⟨rhs, behind⟩, hrhs, hbehind⟩ := Option.bind_eq_some_iff.1 hparse
      obtain ⟨operand, rfl, hderives⟩ := h _ _ _ _ hrhs
      obtain ⟨more, rfl, hwhole⟩ := hchain _ _ _ _ _ _ (.binary hs hlhs hderives) hbehind
      exact ⟨.symbol s :: (operand ++ more), by simp, by simpa using hwhole⟩
    · cases hparse
      exact ⟨[], rfl, by simpa using hlhs⟩

/-- What is found is derived: an expression, and one that goes on behind its first operands. -/
theorem derives_of_parse (depth : Nat) : ParseDerives depth ∧ ChainDerives depth := by
  induction depth with
  | zero =>
    exact ⟨fun _ _ _ _ h => by simp [parseArithmetic] at h,
      fun _ _ _ _ _ _ _ h => by simp [parseChain] at h⟩
  | succ depth ih => exact ⟨ih.1.succ ih.2, ih.2.succ ih.1⟩

/-! ## Whole expressions -/

/-- The tokens of an expression are found to be that expression, and no others. -/
theorem arithmetic?_eq_some_iff {ts : List Token} {e : Expr} :
    arithmetic? ts = some e ↔ Derives .sum ts e := by
  constructor
  · intro h
    obtain ⟨⟨found, rest⟩, hparse, h⟩ := Option.bind_eq_some_iff.1 h
    cases rest with
    | nil =>
      cases h
      obtain ⟨front, rfl, hderives⟩ := (derives_of_parse _).1 _ _ _ _ hparse
      simpa using hderives
    | cons token rest => cases h
  · intro h
    have hparse := h.parse.1 (4 * ts.length + 3) [] (Rank.stops_nil _)
      (by simp only [Rank.calls, Rank.height]; omega)
    rw [List.append_nil] at hparse
    simp [arithmetic?, hparse]

/-- Some tokens are one expression at most. -/
theorem Derives.unique {ts : List Token} {e e' : Expr} (h : Derives .sum ts e)
    (h' : Derives .sum ts e') : e = e' := by
  rw [← arithmetic?_eq_some_iff] at h h'
  rw [h] at h'
  exact Option.some.inj h'

/-- A text is read as an expression if the grammar derives that from its tokens, and only then. -/
theorem readArithmetic_eq_some_iff {text : String} {e : Expr} :
    readArithmetic text = some e ↔ ∃ ts, tokenize text = some ts ∧ Derives .sum ts e := by
  rw [readArithmetic, Option.bind_eq_bind, Option.bind_eq_some_iff]
  simp only [arithmetic?_eq_some_iff]

end HlsEmit.Cpp
