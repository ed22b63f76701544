import HlsEmit.Cpp.Condition
import HlsEmit.Proofs.Reading.Arithmetic

/-!
# Conditions are read as the grammar derives them

The parser finds the condition that the grammar derives from some tokens, and nothing else. All
comparisons of a condition have to hold for it to hold.

## Key results

- `readCondition_eq_some_iff`: a text is read as a condition just if the grammar derives that
- `Condition.holds?_eq_some`: the truth of a condition whose comparisons have one
-/

namespace HlsEmit.Cpp

/-! ## What is derived is found -/

/-- Some tokens do not go on with a comparison: there are none, or another one is joined. -/
def AtJoint (ts : List Token) : Prop :=
  ts = [] ∨ ∃ rest, ts = .symbol "&&" :: rest

/-- A sum ends in front of a joint. -/
theorem AtJoint.stops {ts : List Token} (h : AtJoint ts) : Rank.sum.Stops ts := by
  rcases h with rfl | ⟨rest, rfl⟩
  · exact Rank.stops_nil _
  · rintro s more ⟨⟩
    decide

/-- In front of a comparing operator an expression of arithmetic ends. -/
theorem stops_comparison {operator : String} (h : operator ∈ comparisons) (ts : List Token) :
    Rank.sum.Stops (.symbol operator :: ts) := by
  rintro s more ⟨⟩
  revert operator
  decide

/-- A comparison is found in front of a joint. -/
theorem ComparisonDerives.parse {ts rest : List Token} {comparison : Comparison}
    (h : ComparisonDerives ts comparison) (hrest : AtJoint rest) :
    parseComparison (ts ++ rest) = some (comparison, rest) := by
  cases h with
  | @mk operator ts us lhs rhs hoperator hlhs hrhs =>
    -- The left side ends at the operator, the right side at the joint.
    have hfirst : parseArithmetic (4 * (ts ++ .symbol operator :: (us ++ rest)).length + 3) .sum
        (ts ++ .symbol operator :: (us ++ rest)) = some (lhs, .symbol operator :: (us ++ rest)) := by
      apply hlhs.parse.1
      · exact stops_comparison hoperator _
      · simp only [Rank.calls, Rank.height, List.length_append, List.length_cons]
        omega
    have hsecond : parseArithmetic (4 * (us ++ rest).length + 3) .sum (us ++ rest) =
        some (rhs, rest) := by
      apply hrhs.parse.1
      · exact hrest.stops
      · simp only [Rank.calls, Rank.height, List.length_append]
        omega
    rw [List.append_assoc, List.cons_append, parseComparison, hfirst]
    simp only [Option.bind_eq_bind, Option.bind_some, if_pos hoperator, hsecond]
    rfl

/-- How often comparisons are joined in a condition. -/
def Condition.joints : Condition → Nat
  | .compare _ => 0
  | .both first _ => first.joints + 1

/-- There is a token for each joint. -/
theorem ConditionDerives.joints_le {ts : List Token} {c : Condition} (h : ConditionDerives ts c) :
    c.joints ≤ ts.length := by
  induction h with
  | compare _ => exact Nat.zero_le _
  | both _ _ ih =>
    rw [Condition.joints, List.length_append, List.length_cons]
    omega

/-- Reading a condition goes on behind it. -/
theorem ConditionDerives.parse {ts : List Token} {c : Condition} (h : ConditionDerives ts c) :
    ∀ depth rest, AtJoint rest → ((parseComparison (ts ++ rest)).bind fun first =>
      parseJoined (depth + c.joints) (.compare first.1) first.2) = parseJoined depth c rest := by
  induction h with
  | compare hcomparison =>
    intro depth rest hrest
    rw [hcomparison.parse hrest]
    rfl
  | @both ts us first last _ hlast ih =>
    intro depth rest hrest
    -- The conjunction so far is read first, and the reader goes on with the last comparison.
    have hjoined : parseJoined (depth + 1) first (.symbol "&&" :: (us ++ rest)) =
        parseJoined depth (.both first last) rest := by
      rw [parseJoined, hlast.parse hrest]
      rfl
    have hfirst := ih (depth + 1) (.symbol "&&" :: (us ++ rest)) (.inr ⟨_, rfl⟩)
    rw [hjoined] at hfirst
    have hdepth : depth + (first.joints + 1) = depth + 1 + first.joints := by omega
    rw [List.append_assoc, List.cons_append, Condition.joints, hdepth, hfirst]

/-! ## What is found is derived -/

/-- What is read as a comparison is one. -/
theorem derives_of_parseComparison {ts rest : List Token} {comparison : Comparison}
    (h : parseComparison ts = some (comparison, rest)) :
    ∃ front, ts = front ++ rest ∧ ComparisonDerives front comparison := by
  obtain ⟨⟨lhs, behind⟩, hlhs, hbehind⟩ := Option.bind_eq_some_iff.1 h
  obtain ⟨front, hts, hfront⟩ := (derives_of_parse _).1 _ _ _ _ hlhs
  match behind with
  | [] | .keyword _ :: _ | .name _ :: _ | .number _ :: _ => cases hbehind
  | .symbol operator :: behind =>
    dsimp only at hbehind
    split at hbehind
    · next hoperator =>
      obtain ⟨⟨rhs, last⟩, hrhs, hresult⟩ := Option.bind_eq_some_iff.1 hbehind
      obtain ⟨more, rfl, hmore⟩ := (derives_of_parse _).1 _ _ _ _ hrhs
      cases hresult
      exact ⟨front ++ .symbol operator :: more, by simp [hts], .mk hoperator hfront hmore⟩
    · cases hbehind

/-- What is read behind a condition goes on with it. -/
theorem derives_of_parseJoined {depth : Nat} {front ts : List Token} {first c : Condition}
    (hfirst : ConditionDerives front first) (h : parseJoined depth first ts = some c) :
    ConditionDerives (front ++ ts) c := by
  -- The condition read so far grows with each comparison, so it stands open.
  induction depth generalizing front ts first with
  | zero =>
    cases ts with
    | nil =>
      rw [parseJoined] at h
      cases h
      rwa [List.append_nil]
    | cons => simp [parseJoined] at h
  | succ depth ih =>
    unfold parseJoined at h
    split at h
    · cases h
      rwa [List.append_nil]
    · next _ _ depth' first' ts' heq =>
      obtain ⟨⟨last, behind⟩, hlast, hjoined⟩ := Option.bind_eq_some_iff.1 h
      obtain ⟨more, rfl, hmore⟩ := derives_of_parseComparison hlast
      cases heq
      have hwhole := ih (hfirst.both hmore) hjoined
      rwa [List.append_assoc, List.cons_append] at hwhole
    · cases h

/-! ## Whole conditions -/

/-- The tokens of a condition are found to be that condition, and no others. -/
theorem condition?_eq_some_iff {ts : List Token} {c : Condition} :
    condition? ts = some c ↔ ConditionDerives ts c := by
  constructor
  · intro h
    obtain ⟨⟨first, rest⟩, hfirst, h⟩ := Option.bind_eq_some_iff.1 h
    obtain ⟨front, rfl, hfront⟩ := derives_of_parseComparison hfirst
    exact derives_of_parseJoined (.compare hfront) h
  · intro h
    have hfound := h.parse (ts.length - c.joints) [] (.inl rfl)
    have hdepth : ts.length - c.joints + c.joints = ts.length := Nat.sub_add_cancel h.joints_le
    rw [List.append_nil, hdepth] at hfound
    rw [condition?, Option.bind_eq_bind, hfound]
    cases ts.length - c.joints <;> rfl

/-- A text is read as a condition just if the grammar derives that from its tokens. -/
theorem readCondition_eq_some_iff {text : String} {c : Condition} :
    readCondition text = some c ↔ ∃ ts, tokenize text = some ts ∧ ConditionDerives ts c := by
  rw [readCondition, Option.bind_eq_bind, Option.bind_eq_some_iff]
  simp only [condition?_eq_some_iff]

/-! ## Truth -/

/-- A condition holds just if all its comparisons do, each of which does or does not. -/
theorem Condition.holds?_eq_some (m : Machine Int) (env : Env Int) (c : Condition)
    (hdecided : ∀ comparison ∈ c.comparisons, ∃ answer, comparison.holds? m env = some answer) :
    ∃ answer, c.holds? m env = some answer ∧
      (answer = true ↔ ∀ comparison ∈ c.comparisons, comparison.holds? m env = some true) := by
  induction c with
  | compare comparison =>
    obtain ⟨answer, hanswer⟩ := hdecided comparison (List.mem_singleton_self _)
    refine ⟨answer, hanswer, ?_⟩
    simp [comparisons, hanswer]
  | both first last ih =>
    rw [comparisons, List.forall_mem_append] at hdecided
    obtain ⟨answer, hfirst, hall⟩ := ih hdecided.1
    obtain ⟨answer', hlast⟩ := hdecided.2 last (List.mem_singleton_self _)
    rw [comparisons, List.forall_mem_append, ← hall, List.forall_mem_singleton, hlast]
    cases answer with
    | false => exact ⟨false, by simp [holds?, hfirst], by simp⟩
    | true => exact ⟨answer', by simp [holds?, hfirst, hlast], by simp⟩

end HlsEmit.Cpp
