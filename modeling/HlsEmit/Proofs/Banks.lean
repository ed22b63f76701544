import HlsEmit.Model.Value
import HlsEmit.Proofs.AffineDivision

/-!
# Banks of an array

A layout map gives the bank of an element in each dimension. `PartitionLayout.ofMap` reads the number
of banks off the form of a result: a quotient by `size` makes as many blocks as it takes to hold the
extent, a remainder by `banks` makes that many, and any other result leaves the dimension whole.

The form says what the result is divided by, and not what is divided. A remainder is always one of
the banks. A quotient is one of them just if what is divided lies in the blocks, as an index of the
dimension itself does (`PartitionLayout.bank_of_own_dimension`). An index of another dimension need
not: the map that exchanges two dimensions sends elements beyond the banks of the shorter one.

## Key results

- `PartitionLayout.ofMap_derived`: one entry for each extent, of the form of its result, with the
  exact number of blocks
- `DimPartition.Derived.bank_iff`: which elements have a bank that there is
- `PartitionLayout.bank_of_own_dimension`: all elements do, if each result divides its own dimension
-/

namespace HlsEmit

/-- How many blocks of a size hold so many elements. -/
def blocks (extent size : Int) : Int :=
  -(-extent).fdiv size

section Blocks

variable {extent size n : Int}

/-- The blocks hold all elements, and one block less does not. -/
theorem blocks_spec (hsize : 0 < size) :
    extent ≤ blocks extent size * size ∧ (blocks extent size - 1) * size < extent := by
  have hsum := Int.fmod_add_mul_fdiv (-extent) size
  have hnonneg : 0 ≤ (-extent).fmod size := Int.fmod_nonneg_of_pos _ hsize
  have hless : (-extent).fmod size < size := Int.fmod_lt_of_pos _ hsize
  have hproduct : blocks extent size * size = -(size * (-extent).fdiv size) := by
    rw [blocks, Int.neg_mul, Int.mul_comm]
  rw [Int.sub_mul, Int.one_mul, hproduct]
  omega

/-- An exact quotient is the number of blocks, and any other one falls short by one. -/
theorem tdiv_add_eq_blocks (hextent : 0 ≤ extent) (hsize : 0 < size) :
    extent.tdiv size + (if extent.tmod size = 0 then 0 else 1) = blocks extent size := by
  have hsum := Int.tmod_add_mul_tdiv extent size
  have hnonneg : 0 ≤ extent.tmod size := Int.tmod_nonneg _ hextent
  have hless : extent.tmod size < size := Int.tmod_lt_of_pos _ hsize
  obtain ⟨hholds, hleast⟩ := @blocks_spec extent size hsize
  rw [Int.mul_comm] at hholds hleast
  -- The least number of blocks that holds the extent lies between the quotient and one more.
  by_cases hexact : extent.tmod size = 0
  · rw [if_pos hexact, Int.add_zero]
    have hle : size * extent.tdiv size ≤ size * blocks extent size := by omega
    have hlt : size * (blocks extent size - 1) < size * extent.tdiv size := by omega
    have := Int.le_of_mul_le_mul_left hle hsize
    have := Int.lt_of_mul_lt_mul_left hlt (Int.le_of_lt hsize)
    omega
  · rw [if_neg hexact]
    have hlt : size * extent.tdiv size < size * blocks extent size := by omega
    have hnext : size * (blocks extent size - 1) < size * (extent.tdiv size + 1) := by
      rw [Int.mul_add, Int.mul_one]; omega
    have := Int.lt_of_mul_lt_mul_left hlt (Int.le_of_lt hsize)
    have := Int.lt_of_mul_lt_mul_left hnext (Int.le_of_lt hsize)
    omega

/-- There are no more blocks than elements, and none only if there is no element. -/
theorem blocks_le (hextent : 0 ≤ extent) (hsize : 0 < size) :
    0 ≤ blocks extent size ∧ blocks extent size ≤ extent := by
  rw [← tdiv_add_eq_blocks hextent hsize]
  have hsum := Int.tmod_add_mul_tdiv extent size
  have hnonneg : 0 ≤ extent.tmod size := Int.tmod_nonneg _ hextent
  have hquotient : 0 ≤ extent.tdiv size := Int.tdiv_nonneg hextent (Int.le_of_lt hsize)
  have hscaled : 1 * extent.tdiv size ≤ size * extent.tdiv size :=
    Int.mul_le_mul_of_nonneg_right hsize hquotient
  split
  · omega
  · omega

/-- The quotient of a number is that of one of the blocks just if the number lies in the blocks. -/
theorem fdiv_block_iff (hsize : 0 < size) :
    (0 ≤ n.fdiv size ∧ n.fdiv size < blocks extent size) ↔
      (0 ≤ n ∧ n < blocks extent size * size) := by
  rw [Int.fdiv_eq_ediv_of_nonneg n (Int.le_of_lt hsize), Int.ediv_nonneg_iff_of_pos hsize,
    Int.ediv_lt_iff_lt_mul hsize]

end Blocks

/-! ## Entries of a layout -/

/-- A result is a quotient or a remainder by this constant. -/
def AffineExpr.SplitsBy (c : Int64) (result : Option AffineExpr) : Prop :=
  ∃ divided, result = some (.floorDiv divided (.constant c)) ∨
    result = some (.mod divided (.constant c))

/-- An entry has the form of the result that gives the bank of a dimension. -/
inductive DimPartition.Derived (extent : Int64) : Option AffineExpr → DimPartition → Prop
  | block (divided : AffineExpr) {size factor : Int64} (hsize : 0 < size.toInt)
      (hfactor : factor.toInt = blocks extent.toInt size.toInt) :
      Derived extent (some (.floorDiv divided (.constant size))) (.block factor)
  | cyclic (divided : AffineExpr) {factor : Int64} (hfactor : 0 < factor.toInt) :
      Derived extent (some (.mod divided (.constant factor))) (.cyclic factor)
  | whole {result : Option AffineExpr} (hform : ∀ c, AffineExpr.SplitsBy c result → c.toInt ≤ 0) :
      Derived extent result .whole

namespace PartitionLayout

variable {extent : Int64} {result : Option AffineExpr}

/-- The number of blocks is computed without an overflow. -/
theorem toInt_blocks {size : Int64} (hextent : 0 ≤ extent.toInt) (hsize : 0 < size.toInt) :
    (extent / size + if extent % size = 0 then 0 else 1).toInt =
      blocks extent.toInt size.toInt := by
  obtain ⟨hnonneg, hle⟩ := blocks_le hextent hsize
  have hmax : extent.toInt < 2 ^ 63 := extent.toInt_lt
  -- Neither the quotient nor the correction leaves the range, since the extent is not negative.
  have hquotient : (extent / size).toInt = extent.toInt.tdiv size.toInt := by
    have hle := Int.tdiv_le_self size.toInt hextent
    have hpos := Int.tdiv_nonneg hextent (Int.le_of_lt hsize)
    rw [Int64.toInt_div]
    exact Int.bmod_eq_of_le (by omega) (by omega)
  have hexact : extent % size = 0 ↔ extent.toInt.tmod size.toInt = 0 := by
    rw [← Int64.toInt_inj, Int64.toInt_mod]; rfl
  have hrest : (if extent % size = 0 then 0 else 1 : Int64).toInt =
      if extent.toInt.tmod size.toInt = 0 then 0 else 1 := by
    by_cases h : extent % size = 0
    · rw [if_pos h, if_pos (hexact.1 h)]; rfl
    · rw [if_neg h, if_neg (mt hexact.2 h)]; rfl
  rw [Int64.toInt_add, hquotient, hrest, tdiv_add_eq_blocks hextent hsize]
  exact Int.bmod_eq_of_le (by omega) (by omega)

/-- What does not divide by a positive constant leaves a dimension whole. -/
theorem ofResult_whole (hform : ∀ c, AffineExpr.SplitsBy c result → c.toInt ≤ 0) :
    ofResult extent result = .whole := by
  have hnegative {c : Int64} (h : AffineExpr.SplitsBy c result) : ¬ 0 < c := fun hc =>
    absurd (hform c h) (Int.not_le.2 (Int64.lt_iff_toInt_lt.1 hc))
  unfold ofResult
  split
  · next divided rhs =>
    cases rhs with
    | constant c => exact if_neg (hnegative ⟨divided, .inl rfl⟩)
    | _ => rfl
  · next divided rhs =>
    cases rhs with
    | constant c => exact if_neg (hnegative ⟨divided, .inr rfl⟩)
    | _ => rfl
  · rfl

/-- The entry of a dimension has the form of its result. -/
theorem ofResult_derived (hextent : 0 ≤ extent.toInt) (result : Option AffineExpr) :
    DimPartition.Derived extent result (ofResult extent result) := by
  by_cases hsplits : ∃ c, AffineExpr.SplitsBy c result ∧ 0 < c.toInt
  · obtain ⟨c, ⟨divided, rfl | rfl⟩, hc⟩ := hsplits
    · have hpos : 0 < c := Int64.lt_iff_toInt_lt.2 hc
      show DimPartition.Derived _ _ (if 0 < c then _ else _)
      rw [if_pos hpos]
      exact .block divided hc (toInt_blocks hextent hc)
    · have hpos : 0 < c := Int64.lt_iff_toInt_lt.2 hc
      show DimPartition.Derived _ _ (if 0 < c then _ else _)
      rw [if_pos hpos]
      exact .cyclic divided hc
  · have hform (c : Int64) (h : AffineExpr.SplitsBy c result) : c.toInt ≤ 0 :=
      Int.not_lt.1 fun hc => hsplits ⟨c, h, hc⟩
    rw [ofResult_whole hform]
    exact .whole hform

/-- There is one entry for each extent, and it has the form of the result in its place. -/
theorem ofMap_derived (map : AffineMap) (extents : List Int64)
    (hextents : ∀ extent ∈ extents, 0 ≤ extent.toInt) :
    (ofMap map extents).dims.length = extents.length ∧
      ∀ (dim : Nat) (extent : Int64), extents[dim]? = some extent →
        ∃ entry, (ofMap map extents).dims[dim]? = some entry ∧
          DimPartition.Derived extent map.results[dim]? entry := by
  constructor
  · exact List.length_mapIdx
  · intro dim extent hextent
    have hentry : (ofMap map extents).dims[dim]? = some (ofResult extent map.results[dim]?) := by
      rw [ofMap, List.getElem?_mapIdx, hextent]; rfl
    exact ⟨_, hentry, ofResult_derived (hextents extent (List.mem_of_getElem? hextent)) _⟩

end PartitionLayout

/-! ## Banks that there are -/

namespace DimPartition

variable {extent : Int64} {result : AffineExpr} {entry : DimPartition}

/-- The bank is one that there is. A dimension that stays whole has no banks to choose from. -/
def HasBank (entry : DimPartition) (bank : Int) : Prop :=
  entry.kind ≠ .none → 0 ≤ bank ∧ bank < entry.factor.toInt

/-- What a result divides lies in the blocks that hold the extent. -/
def InBlocks (extent : Int64) (input : Nat → Int) (dims : Nat) (result : AffineExpr) : Prop :=
  ∀ divided size, result = .floorDiv divided (.constant size) → 0 < size.toInt →
    0 ≤ divided.meaning input dims ∧
      divided.meaning input dims < blocks extent.toInt size.toInt * size.toInt

/-- An element has a bank just if a result that is a quotient divides what lies in the blocks. -/
theorem Derived.bank_iff (h : Derived extent (some result) entry) (input : Nat → Int) (dims : Nat) :
    entry.HasBank (result.meaning input dims) ↔ InBlocks extent input dims result := by
  generalize hresult : some result = some' at h
  cases h with
  -- The bank is the quotient, so it is a bank just if the element lies in the blocks.
  | @block divided size factor hsize hfactor =>
    cases hresult
    have hbank : HasBank (.block factor) (AffineExpr.meaning input dims
        (.floorDiv divided (.constant size))) ↔
          0 ≤ (divided.meaning input dims).fdiv size.toInt ∧
            (divided.meaning input dims).fdiv size.toInt < blocks extent.toInt size.toInt := by
      rw [← hfactor]
      exact ⟨fun h => h (nomatch ·), fun h _ => h⟩
    rw [hbank, fdiv_block_iff hsize]
    constructor
    · intro h divided' size' heq _
      cases heq
      exact h
    · exact fun h => h divided size rfl hsize
  -- A remainder by a positive factor is always a bank.
  | @cyclic divided factor hfactor =>
    cases hresult
    constructor
    · exact fun _ _ _ heq => nomatch heq
    · exact fun _ _ => ⟨Int.fmod_nonneg_of_pos _ hfactor, Int.fmod_lt_of_pos _ hfactor⟩
  -- The dimension has no entry, so no result divides it.
  | whole hform =>
    subst hresult
    constructor
    · intro _ divided size heq hsize
      exact absurd (hform size ⟨divided, .inl (congrArg some heq)⟩) (Int.not_le.2 hsize)
    · exact fun _ hkind => absurd rfl hkind

/-- What lies in the extent lies in the blocks. -/
theorem inBlocks_of_lt {divided : AffineExpr} {size : Int64} {input : Nat → Int} {dims : Nat}
    (hnonneg : 0 ≤ divided.meaning input dims)
    (hless : divided.meaning input dims < extent.toInt) :
    InBlocks extent input dims (.floorDiv divided (.constant size)) := by
  intro divided' size' heq hsize
  cases heq
  exact ⟨hnonneg, Int.lt_of_lt_of_le hless (blocks_spec hsize).1⟩

end DimPartition

namespace PartitionLayout

/-- Indices are inside the extents of an array. -/
def Inside (extents : List Int64) (input : Nat → Int) : Prop :=
  ∀ (dim : Nat) (extent : Int64), extents[dim]? = some extent →
    0 ≤ input dim ∧ input dim < extent.toInt

/-- Every quotient among the results is one of the dimension in its place. -/
def DividesOwn (map : AffineMap) (extents : List Int64) : Prop :=
  ∀ (dim : Nat) (divided rhs : AffineExpr), dim < extents.length →
    map.results[dim]? = some (.floorDiv divided rhs) → ∃ position, divided = .dim position ∧
      position.toNat = dim

/-- Each element has a bank in each dimension, if every quotient is one of its own dimension. -/
theorem bank_of_own_dimension (map : AffineMap) (extents : List Int64)
    (hextents : ∀ extent ∈ extents, 0 ≤ extent.toInt) (hown : DividesOwn map extents)
    (input : Nat → Int) (hinside : Inside extents input) (dim : Nat) (entry : DimPartition)
    (hentry : (ofMap map extents).dims[dim]? = some entry) :
    ∀ result ∈ map.results[dim]?, entry.HasBank (result.meaning input map.dims.toNat) := by
  intro result hresult
  obtain ⟨hlength, hderived⟩ := ofMap_derived map extents hextents
  have hdim : dim < extents.length := by
    rw [← hlength]
    exact (List.getElem?_eq_some_iff.1 hentry).1
  obtain ⟨entry', hentry', hform⟩ := hderived dim extents[dim] (List.getElem?_eq_getElem hdim)
  cases hentry.symm.trans hentry'
  rw [hresult] at hform
  rw [hform.bank_iff]
  intro divided size hquotient hsize
  subst hquotient
  -- The divided index is the one of this dimension, so it lies inside the extent.
  obtain ⟨position, rfl, hposition⟩ := hown dim divided _ hdim hresult
  have hindex : (AffineExpr.dim position).meaning input map.dims.toNat = input dim :=
    congrArg input hposition
  obtain ⟨hnonneg, hless⟩ := hinside dim extents[dim] (List.getElem?_eq_getElem hdim)
  exact DimPartition.inBlocks_of_lt (hindex ▸ hnonneg) (hindex ▸ hless) _ _ rfl hsize

/-- The map that exchanges two dimensions of 4 and 16 elements makes one block of the first, and
four blocks of the second. Its first result is a quotient of the second index, which takes the element
(0, 15) to bank 3. -/
example :
    let exchanged : AffineMap :=
      { dims := 2
        results := [.floorDiv (.dim 1) (.constant 4), .floorDiv (.dim 0) (.constant 4)] }
    let index (dim : Nat) : Int := if dim = 0 then 0 else 15
    (ofMap exchanged [4, 16]).dims = [.block 1, .block 4] ∧
      exchanged.results.map (AffineExpr.meaning index 2) = [3, 0] := by
  decide

end PartitionLayout

end HlsEmit
