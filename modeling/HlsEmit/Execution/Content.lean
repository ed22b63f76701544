/-!
# Contents and loops

What values hold while a program runs, whatever the numbers are: a scalar or the elements of an
array, each of which may not have been set yet. Arrays are indexed by lists of integers.
-/

namespace HlsEmit

/-- What a value holds: a scalar or the elements of an array. -/
inductive Content (V : Type) where
  | scalar (value : Option V)
  | array (elements : List Int → Option V)

/-- Whether there is an index for each extent, and in its range. -/
def inBounds : (extents indices : List Int) → Bool
  | [], [] => true
  | extent :: extents, index :: indices =>
    0 ≤ index && index < extent && inBounds extents indices
  | _, _ => false

/-- All indices of an array in the order of its elements. -/
def allIndices : (extents : List Int) → List (List Int)
  | [] => [[]]
  | extent :: extents =>
    (List.range extent.toNat).flatMap fun (index : Nat) =>
      (allIndices extents).map fun indices => (index : Int) :: indices

/-- The elements with one of them set. -/
def setElement {V : Type} (elements : List Int → Option V) (indices : List Int) (value : V) :
    List Int → Option V :=
  fun others => if others = indices then some value else elements others

/-- The elements of an array, if there is one for each index. -/
def tabulate {V : Type} (extents : List Int) (element : List Int → Option V) :
    Option (List Int → Option V) :=
  if (allIndices extents).all fun indices => (element indices).isSome then
    some fun indices => if indices ∈ allIndices extents then element indices else none
  else none

/-! ## Loops -/

/-- Takes steps as long as a test holds, and tests so many times at most. -/
def iterate {α : Type} (test : α → Option Bool) (step : α → Option α) : (limit : Nat) → α → Option α
  | 0, _ => none
  | limit + 1, state => do
    if ← test state then iterate test step limit (← step state) else some state

section Iterate

variable {α β : Type} {test : α → Option Bool} {step : α → Option α} {limit : Nat} {state next : α}

/-- A loop whose test holds goes on behind one step. -/
theorem iterate_of_true (htest : test state = some true) (hstep : step state = some next) :
    iterate test step (limit + 1) state = iterate test step limit next := by
  simp [iterate, htest, hstep]

/-- A loop whose test fails ends where it stands. -/
theorem iterate_of_false (htest : test state = some false) :
    iterate test step (limit + 1) state = some state := by
  simp [iterate, htest]

/-- A loop that ends is followed by another one if each test and each step is. -/
theorem iterate_refines {R : α → β → Prop} {test' : β → Option Bool} {step' : β → Option β}
    (htest : ∀ a b holds, R a b → test a = some holds → test' b = some holds)
    (hstep : ∀ a b next, R a b → test a = some true → step a = some next →
      ∃ next', step' b = some next' ∧ R next next')
    {limit' : Nat} (hlimit : limit ≤ limit') {a behind : α} {b : β}
    (hrun : iterate test step limit a = some behind) (h : R a b) :
    ∃ behind', iterate test' step' limit' b = some behind' ∧ R behind behind' := by
  induction limit generalizing limit' a b with
  | zero => simp [iterate] at hrun
  | succ limit ih =>
    -- The other loop has at least as many turns left, so it can take this one too.
    obtain ⟨limit', rfl⟩ : ∃ rest, limit' = rest + 1 := ⟨limit' - 1, by omega⟩
    cases hholds : test a with
    | none => simp [iterate, hholds] at hrun
    | some holds =>
      cases holds with
      | false =>
        rw [iterate_of_false hholds] at hrun
        cases hrun
        exact ⟨b, iterate_of_false (htest _ b false h hholds), h⟩
      | true =>
        cases hnext : step a with
        | none => simp [iterate, hholds, hnext] at hrun
        | some next =>
          rw [iterate_of_true hholds hnext] at hrun
          obtain ⟨next', hstep', hR⟩ := hstep a b next h hholds hnext
          rw [iterate_of_true (htest a b true h hholds) hstep']
          -- The states behind the step are related again.
          exact ih (by omega) hrun hR

end Iterate

end HlsEmit
