import HlsEmit.Emission.Values
import HlsEmit.Proofs.Meaning.Expression

/-!
# Loops over the elements of an array

The loops that a rule writes around the statement for one element run through all indices of the
array, in the order of its elements. What they do is therefore a fold over `allIndices`, of whatever
the statement does for one of them.

## Key results

- `exec_counterLoop`: one loop is a fold over the numbers below its extent
- `execAll_counterLoops`: a nest is a fold over all indices
- `foldlM_setElement`: to set each element is to set all of them
-/

namespace HlsEmit

open Cpp (Object Machine Env)
open Code (Expr Stmt counterName stmtsCpp)

variable {V A : Type} {m : Machine V} {limit : Nat}

/-! ## Indices -/

/-- All indices of the extents are in bounds. -/
theorem inBounds_of_mem {extents indices : List Int} (h : indices ∈ allIndices extents) :
    inBounds extents indices = true := by
  induction extents generalizing indices with
  | nil =>
    rw [List.mem_singleton.1 h]
    rfl
  | cons extent rest ih =>
    obtain ⟨index, hindex, h⟩ := List.mem_flatMap.1 h
    obtain ⟨others, hothers, rfl⟩ := List.mem_map.1 h
    have hlt := List.mem_range.1 hindex
    simp only [inBounds, ih hothers, Bool.and_true, Bool.and_eq_true, decide_eq_true_eq]
    omega

/-- There are as many indices as extents. -/
theorem length_of_mem_allIndices {extents indices : List Int} (h : indices ∈ allIndices extents) :
    indices.length = extents.length := by
  induction extents generalizing indices with
  | nil => rw [List.mem_singleton.1 h]
  | cons extent rest ih =>
    obtain ⟨index, -, h⟩ := List.mem_flatMap.1 h
    obtain ⟨others, hothers, rfl⟩ := List.mem_map.1 h
    rw [List.length_cons, List.length_cons, ih hothers]

/-- A fold over joined lists is a fold of folds. -/
theorem foldlM_flatMap {α β σ : Type} (f : σ → β → Option σ) (g : α → List β) (l : List α) (init : σ) :
    (l.flatMap g).foldlM f init = l.foldlM (fun state a => (g a).foldlM f state) init := by
  induction l generalizing init with
  | nil => rfl
  | cons a rest ih =>
    rw [List.flatMap_cons, List.foldlM_append, List.foldlM_cons]
    exact congrArg _ (funext fun state => ih state)

/-- All indices are run through one dimension after the other. -/
theorem foldlM_allIndices (act : List Int → A → Option A) (extent : Int) (rest : List Int) (a : A) :
    (allIndices (extent :: rest)).foldlM (fun a indices => act indices a) a =
      (List.range extent.toNat).foldlM (fun a (index : Nat) =>
        (allIndices rest).foldlM (fun a indices => act ((index : Int) :: indices) a) a) a := by
  rw [allIndices, foldlM_flatMap]
  simp only [List.foldlM_map]

/-- Sets the elements one by one, each to its own value. -/
theorem foldlM_setElement (element : List Int → Option V) (l : List (List Int))
    (hall : ∀ indices ∈ l, (element indices).isSome) (elements : List Int → Option V) :
    (l.foldlM (fun elements indices => do return setElement elements indices (← element indices))
      elements) = some fun indices => if indices ∈ l then element indices else elements indices := by
  induction l generalizing elements with
  | nil => simp
  | cons indices rest ih =>
    rw [List.forall_mem_cons] at hall
    obtain ⟨value, hvalue⟩ := Option.isSome_iff_exists.1 hall.1
    rw [List.foldlM_cons, hvalue]
    refine (ih hall.2 _).trans ?_
    congr 1
    funext others
    -- An element that is set again later keeps its last value, which is the same one.
    by_cases hmem : others ∈ rest
    · simp [hmem]
    · by_cases heq : others = indices
      · simp [heq, setElement, hvalue]
      · simp [hmem, heq, setElement]

/-! ## Counters -/

/-- Counters of different loops have different names. -/
theorem Code.counterName_inj {dim dim' : Nat} (h : counterName dim = counterName dim') :
    dim = dim' := by
  simp only [counterName, String.append_right_inj, Nat.toString_eq_repr] at h
  have hdigits : Nat.toDigits 10 dim = Nat.toDigits 10 dim' := by
    rw [← Nat.toList_repr, ← Nat.toList_repr, h]
  rw [← @Nat.ofDigitChars_ten_toDigits dim, hdigits, Nat.ofDigitChars_ten_toDigits]

/-- A counter starts with its letter. -/
theorem Code.counterName_head (dim : Nat) : (counterName dim).toList.head? = some 'i' := by
  rw [counterName, String.toList_append]
  rfl

/-- No counter is the infinite literal. -/
theorem Code.counterName_ne_infinity (dim : Nat) : counterName dim ≠ "INFINITY" := by
  intro h
  have hhead := counterName_head dim
  rw [h] at hhead
  exact absurd hhead (by decide)

/-- No value is named like a counter. -/
theorem Code.identifier_ne_counterName (name : Name) (dim : Nat) : name.identifier ≠ counterName dim := by
  intro h
  have hhead := counterName_head dim
  rw [← h, Name.identifier, String.toList_append] at hhead
  have hfirst : ('v' : Char) = 'i' := Option.some.inj hhead
  exact absurd hfirst (by decide)

/-- The counter over a dimension as an object. -/
def Code.counterObject (dim : Nat) (value : V) : String × Object V :=
  (counterName dim, .scalar ⟨"int", none⟩ (some value))

open Code (counterObject)

/-- The counters of the loops around, the innermost one first, where they stand for some indices. -/
inductive CounterFront (m : Machine V) : List Int → Env V → Prop
  | nil : CounterFront m [] []
  | cons {indices : List Int} {front : Env V} {n : Nat} {value : V} (h : CounterFront m indices front)
      (hvalue : m.counter n = some value) (hindex : m.index value = some (n : Int)) :
      CounterFront m (indices ++ [(n : Int)]) (counterObject indices.length value :: front)

/-- Indices are evaluated from left to right. -/
theorem evalIndices_append (m : Machine V) (env : Env V) (xs ys : List Cpp.Expr) :
    m.evalIndices env (xs ++ ys) =
      (do return (← m.evalIndices env xs) ++ (← m.evalIndices env ys)) := by
  induction xs with
  | nil => simp [Machine.evalIndices]
  | cons x xs ih => simp [Machine.evalIndices, ih, Option.bind_assoc]

/-- Indices have the same values where their expressions do. -/
theorem evalIndices_congr {env env' : Env V} {es : List Cpp.Expr}
    (h : ∀ e ∈ es, m.eval env e = m.eval env' e) : m.evalIndices env es = m.evalIndices env' es := by
  induction es with
  | nil => rfl
  | cons e es ih =>
    rw [List.forall_mem_cons] at h
    rw [Machine.evalIndices, Machine.evalIndices, h.1, ih h.2]

namespace CounterFront

variable {indices : List Int} {front env : Env V}

/-- The front holds counters only. -/
theorem name_of_mem (h : CounterFront m indices front) {entry : String × Object V}
    (hentry : entry ∈ front) : ∃ dim < indices.length, entry.1 = counterName dim := by
  induction h with
  | nil => cases hentry
  | @cons indices front n value h hvalue hindex ih =>
    rw [List.length_append, List.length_singleton]
    rcases List.mem_cons.1 hentry with rfl | hentry
    · exact ⟨indices.length, by omega, rfl⟩
    · obtain ⟨dim, hdim, hname⟩ := ih hentry
      exact ⟨dim, by omega, hname⟩

/-- The objects of values are found behind the counters. -/
theorem lookup (h : CounterFront m indices front) {name : String}
    (hname : ∀ dim, name ≠ counterName dim) : (front ++ env).lookup name = env.lookup name := by
  have hnone : List.lookup name front = none := by
    rw [List.lookup_eq_none_iff]
    intro entry hentry
    obtain ⟨dim, -, heq⟩ := h.name_of_mem hentry
    rw [heq]
    exact bne_iff_ne.2 (hname dim)
  rw [List.lookup_append, hnone, Option.none_or]

/-- Assigning to a name that is no counter leaves the front. -/
theorem assign (h : CounterFront m indices front) {name : String}
    (hname : ∀ dim, name ≠ counterName dim) (object : Object V) :
    Env.assign name object (front ++ env) = front ++ env.assign name object := by
  have hall : ∀ entry ∈ front, entry.1 ≠ name := by
    intro entry hentry heq
    obtain ⟨dim, -, hdim⟩ := h.name_of_mem hentry
    exact hname dim (heq ▸ hdim)
  clear h
  induction front with
  | nil => rfl
  | cons entry rest ih =>
    rw [List.forall_mem_cons] at hall
    rw [List.cons_append, Env.assign, if_neg hall.1, ih hall.2, List.cons_append]

/-- The counters stand for their indices. -/
theorem counted (h : CounterFront m indices front) (env : Env V) :
    Counted m (front ++ env) indices := by
  induction h with
  | nil => rfl
  -- The new counter is the innermost; the others keep their values since its name differs.
  | @cons indices front n value h hvalue hindex ih =>
    have hfront : m.evalIndices (counterObject indices.length value :: front ++ env)
        ((List.range indices.length).map fun dim => .name (counterName dim)) = some indices := by
      refine (evalIndices_congr fun e he => ?_).trans ih
      obtain ⟨dim, hdim, rfl⟩ := List.mem_map.1 he
      have hne : counterName dim ≠ counterName indices.length := by
        intro heq
        have hlt := List.mem_range.1 hdim
        have hsame := Code.counterName_inj heq
        omega
      rw [Machine.eval, Machine.eval, Machine.nameValue, Machine.nameValue, List.cons_append,
        counterObject, Env.lookup_cons_of_ne hne]
    have hlast : m.evalIndices (counterObject indices.length value :: front ++ env)
        [.name (counterName indices.length)] = some [(n : Int)] := by
      simp [Machine.evalIndices, Machine.eval, Machine.nameValue, counterObject, hindex]
    rw [Counted, List.length_append, List.length_singleton, List.range_succ, List.map_append,
      evalIndices_append, hfront]
    simp only [List.map_cons, List.map_nil, hlast]
    rfl

/-- A state and its objects match also inside of loops. -/
theorem matches_front {arena : Arena} {t : NameTable} {held : ValueId → Prop} {σ : State V}
    (h : CounterFront m indices front) (hmatches : Matches m arena t held σ env) :
    Matches m arena t held σ (front ++ env) := by
  induction h with
  | nil => exact hmatches
  | cons h hvalue hindex ih =>
    exact ih.cons _ (Code.counterName_ne_infinity _) fun id name _ _ =>
      Code.identifier_ne_counterName name _

end CounterFront

/-! ## Loops -/

/-- The test of a loop. -/
def Cpp.Machine.holds (m : Machine V) (test : Cpp.Expr) (env : Env V) : Option Bool := do
  m.truth (← m.eval env test)

/-- One iteration of a loop. -/
def Cpp.Machine.proceed (m : Machine V) (limit : Nat) (body : List Cpp.Stmt) (advance : Cpp.Advance)
    (env : Env V) : Option (Env V) := do
  m.advance ((← m.execAll limit body env).leave env.length) advance

/-- A loop declares its index, goes on as long as its test holds and drops the index. -/
theorem exec_loop (m : Machine V) (limit : Nat) (type : Cpp.TypeName) (index : String)
    (first test : Cpp.Expr) (advance : Cpp.Advance) (body : List Cpp.Stmt) (env : Env V) :
    m.exec limit (.loop type index first test advance body) env = (do
      let inside ← m.define env type index first
      let behind ← iterate (m.holds test) (m.proceed limit body advance) limit inside
      return behind.leave env.length) := rfl

/-- The test and the advance of a loop over a dimension. -/
theorem counter_step {extent : Int} (h : m.CountsTo extent) {n : Nat} (hn : (n : Int) ≤ extent)
    (dim : Nat) {value : V} (hvalue : m.counter n = some value) (env : Env V) :
    m.holds (.binary "<" (.name (counterName dim)) (.number (toString extent)))
      (counterObject dim value :: env) = some (decide ((n : Int) < extent)) ∧
      m.index value = some (n : Int) := by
  obtain ⟨value', bound, hvalue', hindex, hbound, hless⟩ := h.counts n hn
  rw [hvalue] at hvalue'
  cases hvalue'
  refine ⟨?_, hindex⟩
  simp only [Machine.holds, Machine.eval, Machine.nameValue, counterObject, List.lookup_cons_self,
    hbound]
  exact hless

/-- A counter is advanced by one. -/
theorem advance_counter (dim : Nat) {n : Nat} {value next : V} (hvalue : m.counter n = some value)
    (hnext : m.counter (n + 1) = some next) (env : Env V) :
    m.advance (counterObject dim value :: env) (.increment (.name (counterName dim))) =
      some (counterObject dim next :: env) := by
  have hsum : (do m.convert ⟨"int", none⟩ (← m.binary "+" value (← m.constant "1"))) = some next := by
    rw [Machine.counter, hvalue] at hnext
    simpa using hnext
  obtain ⟨one, hone, hsum⟩ := Option.bind_eq_some_iff.1 hsum
  obtain ⟨sum, hsum, hconvert⟩ := Option.bind_eq_some_iff.1 hsum
  simp [Machine.advance, Machine.eval, Machine.nameValue, counterObject, hone, hsum, Machine.store,
    Machine.setName, hconvert, Env.assign]

/-- Leaving a scope of one object drops it. -/
theorem leave_cons (entry : String × Object V) {env env' : Env V} (h : env.length = env'.length) :
    Env.leave (entry :: env) env'.length = env := by
  rw [Env.leave, List.length_cons, h, Nat.add_sub_cancel_left, List.drop_one, List.tail_cons]

/-- One loop over a dimension is a fold over the numbers below its extent. -/
theorem exec_counterLoop {extent : Int} (hextent : m.CountsTo extent) (hpos : 0 ≤ extent)
    (hlimit : extent.toNat < limit) (dim : Nat) (E : A → Env V) {length : Nat}
    (hlength : ∀ a, (E a).length = length) (act : A → Nat → Option A) (body : List Cpp.Stmt)
    (hbody : ∀ n : Nat, (n : Int) < extent → ∀ value, m.counter n = some value →
      m.index value = some (n : Int) → ∀ a a', act a n = some a' →
        m.execAll limit body (counterObject dim value :: E a) =
          some (counterObject dim value :: E a'))
    {a a' : A} (hact : (List.range extent.toNat).foldlM act a = some a') :
    m.exec limit (.loop ⟨"int", none⟩ (counterName dim) (.number "0")
      (.binary "<" (.name (counterName dim)) (.number (toString extent)))
      (.increment (.name (counterName dim))) body) (E a) = some (E a') := by
  have hcounter (n : Nat) (hn : (n : Int) ≤ extent) : ∃ value, m.counter n = some value := by
    obtain ⟨value, -, hvalue, -⟩ := hextent.counts n hn
    exact ⟨value, hvalue⟩
  -- the induction is on the number of iterations that are left
  have hrun : ∀ (left n : Nat) (a : A) (value : V) (limit' : Nat), n + left = extent.toNat →
      (List.range' n left).foldlM act a = some a' → m.counter n = some value → left < limit' →
      ∃ last, iterate
        (m.holds (.binary "<" (.name (counterName dim)) (.number (toString extent))))
        (m.proceed limit body (.increment (.name (counterName dim))))
        limit' (counterObject dim value :: E a) = some (counterObject dim last :: E a') := by
    intro left
    induction left with
    | zero =>
      intro n a value limit' hn hfold hvalue hlimit'
      cases hfold
      obtain ⟨fuel, rfl⟩ : ∃ fuel, limit' = fuel + 1 := ⟨limit' - 1, by omega⟩
      have htest := (counter_step hextent (by omega) dim hvalue (E a')).1
      rw [decide_eq_false (by omega)] at htest
      exact ⟨value, iterate_of_false htest⟩
    | succ left ih =>
      intro n a value limit' hn hfold hvalue hlimit'
      obtain ⟨fuel, rfl⟩ : ∃ fuel, limit' = fuel + 1 := ⟨limit' - 1, by omega⟩
      have hlt : (n : Int) < extent := by omega
      obtain ⟨htest, hindex⟩ := counter_step hextent (Int.le_of_lt hlt) dim hvalue (E a)
      rw [decide_eq_true hlt] at htest
      rw [List.range'_succ, List.foldlM_cons] at hfold
      obtain ⟨behind, hbehind, hfold⟩ := Option.bind_eq_some_iff.1 hfold
      obtain ⟨next, hnext⟩ := hcounter (n + 1) (by omega)
      have hleave : Env.leave (counterObject dim value :: E behind)
          (counterObject dim value :: E a).length = counterObject dim value :: E behind := by
        simp [Env.leave, hlength]
      have hstep : m.proceed limit body (.increment (.name (counterName dim)))
          (counterObject dim value :: E a) = some (counterObject dim next :: E behind) := by
        rw [Machine.proceed, hbody n hlt value hvalue hindex a behind hbehind]
        exact (congrArg (m.advance · _) hleave).trans (advance_counter dim hvalue hnext _)
      rw [iterate_of_true htest hstep]
      exact ih (n + 1) behind next fuel (by omega) hfold hnext (by omega)
  obtain ⟨first, hfirst⟩ := hcounter 0 hpos
  rw [List.range_eq_range'] at hact
  obtain ⟨last, hlast⟩ := hrun extent.toNat 0 a first limit (by omega) hact hfirst hlimit
  have hdefine : m.define (E a) ⟨"int", none⟩ (counterName dim) (.number "0") =
      some (counterObject dim first :: E a) := by
    obtain ⟨zero, hzero, hconvert⟩ := Option.bind_eq_some_iff.1 hfirst
    simp [Machine.define, Machine.eval, hzero, hconvert, counterObject]
  rw [exec_loop]
  refine Option.bind_eq_some_iff.2 ⟨_, hdefine, Option.bind_eq_some_iff.2 ⟨_, hlast, ?_⟩⟩
  exact congrArg some (leave_cons _ ((hlength a').trans (hlength a).symm))

/-- A nest of loops is a fold over all indices. -/
theorem execAll_counterLoops (E : A → Env V) {length : Nat} (hlength : ∀ a, (E a).length = length)
    (act : List Int → A → Option A) {body : List Stmt} {extents : List Int64}
    (hextents : ∀ extent ∈ extents, m.CountsTo extent.toInt ∧ 0 ≤ extent.toInt ∧
      extent.toInt.toNat < limit) {outer : List Int} {front : Env V}
    (hfront : CounterFront m outer front)
    (hbody : ∀ inner ∈ allIndices (extents.map Int64.toInt), ∀ front',
      CounterFront m (outer ++ inner) front' → ∀ a a', act (outer ++ inner) a = some a' →
        m.execAll limit (stmtsCpp body) (front' ++ E a) = some (front' ++ E a'))
    {a a' : A} (hact : (allIndices (extents.map Int64.toInt)).foldlM
      (fun a inner => act (outer ++ inner) a) a = some a') :
    m.execAll limit (stmtsCpp (Emission.counterLoops body outer.length extents)) (front ++ E a) =
      some (front ++ E a') := by
  -- On the extents; `outer` are the indices of the loops around, which `front` holds.
  induction extents generalizing outer front a a' with
  | nil =>
    have hone := hbody [] (List.mem_singleton_self _) front (by rwa [List.append_nil]) a a'
    refine hone ?_
    simpa [allIndices] using hact
  | cons extent rest ih =>
    rw [List.forall_mem_cons] at hextents
    rw [List.map_cons, foldlM_allIndices] at hact
    have hloop := exec_counterLoop hextents.1.1 hextents.1.2.1 hextents.1.2.2 outer.length
      (fun a => front ++ E a) (fun a => by rw [List.length_append, hlength])
      (fun a (index : Nat) => (allIndices (rest.map Int64.toInt)).foldlM
        (fun a inner => act (outer ++ (index : Int) :: inner) a) a)
      (stmtsCpp (Emission.counterLoops body (outer.length + 1) rest)) ?_ hact
    · show m.execAll limit [_] _ = _
      rw [Machine.execAll]
      exact Option.bind_eq_some_iff.2 ⟨_, hloop, rfl⟩
    -- One turn of the outermost loop is the whole fold of the loops inside.
    · intro n hn value hvalue hindex b b' hfold
      have hcons := hfront.cons hvalue hindex
      have hinner := @ih hextents.2 _ _ hcons (fun inner hmem front' hfront' c c' hc => ?_) b b' ?_
      · simpa using hinner
      · rw [List.append_assoc, List.singleton_append] at hfront' hc
        refine hbody _ ?_ front' hfront' c c' hc
        refine List.mem_flatMap.2 ⟨n, List.mem_range.2 (by omega), ?_⟩
        exact List.mem_map_of_mem hmem
      · simpa using hfold

end HlsEmit
