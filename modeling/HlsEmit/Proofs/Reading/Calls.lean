import HlsEmit.Cpp.Calls
import HlsEmit.Proofs.Reading.Arithmetic

/-!
# Calls are read as the grammar derives them

The parser finds the calls that the grammar derives from some tokens, and nothing else. No expression of
arithmetic starts with a name in front of a parenthesis, so the first two tokens tell which of the two
there is.

## Key results

- `readCalls_eq_some_iff`: a text is read as calls just if the grammar derives those
- `Derives.eval_selecting`: arithmetic has the same value where calls have one too
-/

namespace HlsEmit.Cpp

/-! ## What is derived is found -/

/-- Some tokens do not go on with calls: there are none, or an argument ends. -/
def AtEnd (ts : List Token) : Prop :=
  ts = [] ∨ (∃ rest, ts = .symbol "," :: rest) ∨ ∃ rest, ts = .symbol ")" :: rest

/-- A sum stops at the end of an argument. -/
theorem AtEnd.stops {ts : List Token} (h : AtEnd ts) : Rank.sum.Stops ts := by
  rcases h with rfl | ⟨rest, rfl⟩ | ⟨rest, rfl⟩
  · exact Rank.stops_nil _
  · rintro s more ⟨⟩
    decide
  · exact Rank.stops_close _ _

/-- An expression of arithmetic is found where an argument ends. -/
theorem Derives.parse_argument {ts rest : List Token} {e : Expr} (h : Derives .sum ts e)
    (hrest : AtEnd rest) :
    parseArithmetic (4 * (ts ++ rest).length + 3) .sum (ts ++ rest) = some (e, rest) := by
  apply h.parse.1
  · exact hrest.stops
  · simp only [Rank.calls, Rank.height, List.length_append]
    omega

/-- No expression of arithmetic is a name in front of a parenthesis. -/
theorem Derives.not_call {ts rest more : List Token} {e : Expr} {name : String} (h : Derives .sum ts e)
    (hrest : AtEnd rest) : ts ++ rest ≠ .name name :: .symbol "(" :: more := by
  intro heq
  have hfound := h.parse_argument hrest
  -- the name alone would be found in front of the parenthesis
  have hname : Derives .sum [.name name] (.name name) := .tighter (.tighter (.name name))
  have hopen : Rank.sum.Stops (.symbol "(" :: more) := by
    rintro s others ⟨⟩
    decide
  have hfound' := hname.parse.1 (4 * (ts ++ rest).length + 3) (.symbol "(" :: more) hopen
    (by rw [heq]; simp only [Rank.calls, Rank.height, List.length_cons, List.length_nil]; omega)
  rw [List.singleton_append, ← heq, hfound] at hfound'
  cases hfound'
  rcases hrest with hrest | ⟨_, hrest⟩ | ⟨_, hrest⟩ <;> simp at hrest

/-- What is no call is read as arithmetic. -/
theorem parseCalls_arithmetic {ts : List Token}
    (h : ∀ name more, ts ≠ .name name :: .symbol "(" :: more) (depth : Nat) :
    parseCalls (depth + 1) ts = parseArithmetic (4 * ts.length + 3) .sum ts :=
  parseCalls.eq_3 _ _ h

/-- What is derived as a call is parsed as one. -/
theorem CallDerives.parse {ts : List Token} {e : Expr} (h : CallDerives ts e) :
    ∀ depth rest, AtEnd rest → ts.length ≤ depth → parseCalls depth (ts ++ rest) = some (e, rest) := by
  induction h with
  | @arithmetic ts e h =>
    intro depth rest hrest hdepth
    have hpos := h.length_pos
    obtain ⟨depth, rfl⟩ : ∃ d, depth = d + 1 := ⟨depth - 1, by omega⟩
    rw [parseCalls_arithmetic fun _ _ => h.not_call hrest, h.parse_argument hrest]
  | @call function ts us lhs rhs _ _ ihlhs ihrhs =>
    intro depth rest hrest hdepth
    simp only [List.length_cons, List.length_append] at hdepth
    obtain ⟨depth, rfl⟩ : ∃ d, depth = d + 1 := ⟨depth - 1, by omega⟩
    have hfirst := ihlhs depth (.symbol "," :: (us ++ .symbol ")" :: rest)) (.inr (.inl ⟨_, rfl⟩))
      (by omega)
    have hsecond := ihrhs depth (.symbol ")" :: rest) (.inr (.inr ⟨_, rfl⟩)) (by omega)
    simp [parseCalls, hfirst, hsecond, expect]

/-! ## What is found is derived -/

/-- What is parsed as a call is derived as one. -/
theorem derives_of_parseCalls {depth : Nat} {ts rest : List Token} {e : Expr}
    (h : parseCalls depth ts = some (e, rest)) :
    ∃ front, ts = front ++ rest ∧ CallDerives front e := by
  induction depth generalizing ts rest e with
  | zero => simp [parseCalls] at h
  | succ depth ih =>
    unfold parseCalls at h
    -- A known function with two arguments, or an arithmetic expression.
    split at h
    · cases h
    · next _ _ _ _ _ heq =>
      cases heq
      obtain ⟨⟨lhs, behind⟩, hlhs, h⟩ := Option.bind_eq_some_iff.1 h
      obtain ⟨next, hcomma, h⟩ := Option.bind_eq_some_iff.1 h
      obtain ⟨⟨rhs, last⟩, hrhs, h⟩ := Option.bind_eq_some_iff.1 h
      obtain ⟨final, hclose, hresult⟩ := Option.bind_eq_some_iff.1 h
      obtain ⟨front, rfl, hfront⟩ := ih hlhs
      obtain ⟨more, rfl, hmore⟩ := ih hrhs
      cases hresult
      rw [eq_cons_of_expect hcomma, eq_cons_of_expect hclose]
      exact ⟨_, by simp, .call hfront hmore⟩
    · obtain ⟨front, hts, hfront⟩ := (derives_of_parse _).1 _ _ _ _ h
      exact ⟨front, hts, .arithmetic hfront⟩

/-! ## Whole texts -/

/-- The tokens of calls are found to be these calls, and no others. -/
theorem calls?_eq_some_iff {ts : List Token} {e : Expr} : calls? ts = some e ↔ CallDerives ts e := by
  constructor
  · intro h
    obtain ⟨⟨found, rest⟩, hparse, h⟩ := Option.bind_eq_some_iff.1 h
    cases rest with
    | nil =>
      cases h
      obtain ⟨front, rfl, hderives⟩ := derives_of_parseCalls hparse
      simpa using hderives
    | cons token rest => cases h
  · intro h
    have hparse := h.parse ts.length [] (.inl rfl) (Nat.le_refl _)
    rw [List.append_nil] at hparse
    simp [calls?, hparse]

/-- A text is read as calls just if the grammar derives those from its tokens. -/
theorem readCalls_eq_some_iff {text : String} {e : Expr} :
    readCalls text = some e ↔ ∃ ts, tokenize text = some ts ∧ CallDerives ts e := by
  rw [readCalls, Option.bind_eq_bind, Option.bind_eq_some_iff]
  simp only [calls?_eq_some_iff]

/-! ## Values -/

/-- In arithmetic there are no calls, so it has the same value where calls have one too. -/
theorem Derives.eval_selecting {rank : Rank} {ts : List Token} {e : Expr} (h : Derives rank ts e)
    (quotient remainder : Int → Int → Int) (env : Env Int) :
    (Machine.selecting quotient remainder).eval env e =
      (Machine.integers quotient remainder).eval env e := by
  induction h with
  | number | name | target => rfl
  | negate _ ih =>
    rw [Machine.eval, Machine.eval, ih]
    rfl
  | paren _ ih =>
    rw [Machine.eval, Machine.eval, ih]
  | tighter _ ih => exact ih
  | binary _ _ _ ihlhs ihrhs =>
    rw [Machine.eval, Machine.eval, ihlhs, ihrhs]
    rfl

end HlsEmit.Cpp
