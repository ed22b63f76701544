import HlsEmit.Proofs.Stages.Admission

/-!
# Checks in front of operations

What has to hold before an operation is written, as a list: conditions on the operation, the entries
of its values and the operation around, each with the code of the report if it does not hold. The
conditions are looked at in order, and only the first that fails is reported (`Op.preChecks`).

Admission goes through the same conditions while it takes an operation apart. `Decides` says that a
part of it has a result if some checks hold, and else the problem of the first that does not.

## Key results

- `Decides.bind`: in a sequence, the checks of what comes next are behind those of what comes first
- `decides_bound`, `decides_map`, `decides_set`, `decides_nest`, `decides_yield`, `decides_constant`,
  `decides_dim`, `decides_rank`: the parts of admission and their checks
-/

namespace HlsEmit

/-- A condition, with the code of the report if it does not hold. -/
structure PreCheck where
  holds : Bool
  code : String
deriving DecidableEq, Repr

/-- The code of the first condition that does not hold. -/
def firstFailure : List PreCheck → Option String
  | [] => none
  | check :: rest => if check.holds then firstFailure rest else some check.code

/-- The first failure of two lists of checks. -/
theorem firstFailure_append (checks checks' : List PreCheck) :
    firstFailure (checks ++ checks') = (firstFailure checks).or (firstFailure checks') := by
  induction checks with
  | nil => rfl
  | cons check rest ih =>
    rw [List.cons_append, firstFailure, firstFailure]
    split
    · exact ih
    · rfl

/-! ## Conditions -/

/-- The operands bind all inputs of a bound, and it has at least so many results. -/
def AffineBound.fits (bound : AffineBound) (needed : Nat) : Bool :=
  bound.map.inputs = bound.operands.length ∧ needed ≤ bound.map.results.length

/-- So many operands bind all inputs of a map, and it has a result. -/
def AffineMap.fits (map : AffineMap) (operands : Nat) : Bool :=
  map.inputs = operands ∧ map.results ≠ []

/-- Whether a yield can hand values to an operation of this kind. -/
def OpKind.takesYields : OpKind → Bool
  | .scfIf | .affineIf _ | .affineParallel .. => true
  | _ => false

/-- The elements of a dense constant. -/
def Literal.elements? : Literal → Option (List Literal)
  | .dense elements => some elements
  | _ => none

/-- The number that a constant is. -/
def Literal.int? : Literal → Option Int64
  | .int value => some value
  | _ => none

/-- A constant that is not written where it is used is an array of scalars with a C++ type. -/
def constantChecks (values : Arena) (names : NameTable) (result : ValueId) : List PreCheck :=
  if values.isBound names result then []
  else
    let info := values.info result
    let elements? := info.constant.bind Literal.elements?
    [⟨info.isShaped && elements?.isSome, "E0301"⟩,
      ⟨info.elem.cppName?.isSome, "E0303"⟩,
      ⟨elements?.any fun elements => elements.all fun e => e.scalarText?.isSome, "E0301"⟩]

/-- The position of a dimension is a constant number, the extents of the array are known, and there
is one in this position. -/
def dimChecks (values : Arena) (array index : ValueId) : List PreCheck :=
  let info := values.info array
  let position? := (values.info index).constant.bind Literal.int?
  let extents? := if info.isShaped then info.shape.extents? else none
  [⟨position?.isSome, "E0202"⟩,
    ⟨extents?.isSome, "E0200"⟩,
    ⟨position?.any fun position => extents?.any fun extents =>
      0 ≤ position && position.toInt.toNat < extents.length, "E0201"⟩]

/-- The body of a nest has indices; each has a lower and an upper bound and a step. -/
def nestChecks (lower upper : AffineBound) (steps : List Int64) (indices : Nat) : List PreCheck :=
  [⟨0 < indices, "E0104"⟩,
    ⟨lower.fits indices, "E0104"⟩,
    ⟨upper.fits indices, "E0104"⟩,
    ⟨indices ≤ steps.length, "E0104"⟩]

namespace Accelerator.Template

/-- A number of a calling sequence, if the extent is known or the product has 64 bits. -/
def number? (template : Template) (values : Arena) (operands : List ValueId)
    (known : List (String × Int)) : ExtentSource → Option Int
  | .dim role dim => do
    let extents ← (values.info (← (template.roles.zip operands).lookup role)).shape.extents?
    return (← extents[dim]?).toInt
  | .product lhs rhs =>
    let value := (known.lookup lhs).getD 0 * (known.lookup rhs).getD 0
    if Int64.minValue.toInt ≤ value ∧ value ≤ Int64.maxValue.toInt then some value else none

/-- The problem of a number that cannot be found. -/
def lack (template : Template) (key : String) : ExtentSource → Problem
  | .dim role dim => .missingExtent template.routine dim role
  | .product lhs rhs => .extentOverflow template.routine key lhs rhs

/-- A number that is not known is reported as an error of its code. -/
theorem lack_code (template : Template) (key : String) (source : ExtentSource) :
    (template.lack key source).code = "E0200" ∧ (template.lack key source).severity = .error := by
  cases source <;> exact ⟨rfl, rfl⟩

/-- All numbers of a calling sequence can be found, one after the other. -/
def numberChecks (template : Template) (values : Arena) (operands : List ValueId) :
    (known : List (String × Int)) → List (String × ExtentSource) → List PreCheck
  | _, [] => []
  | known, (key, source) :: rest =>
    let number? := template.number? values operands known source
    ⟨number?.isSome, "E0200"⟩ ::
      template.numberChecks values operands (known ++ [(key, number?.getD 0)]) rest

/-- There is an operand for each role, and all numbers can be found. -/
def checks (template : Template) (values : Arena) (operands : List ValueId) : List PreCheck :=
  ⟨operands.length = template.roles.length, "E0105"⟩ ::
    template.numberChecks values operands [] template.extents

end Accelerator.Template

namespace Op

/-- The arguments of the first region. -/
def indices (op : Op) : List ValueId :=
  (op.regions.head?.map BlockOf.args).getD []

/-- The checks of a rule, for an operation with enough operands, results and regions. -/
def ruleChecks (values : Arena) (names : NameTable) (owner : Option Op) (op : Op) :
    List PreCheck :=
  match op.kind with
  | .scfFor => [⟨op.indices ≠ [], "E0105"⟩]
  | .affineFor lower upper _ =>
    [⟨lower.fits 1, "E0104"⟩, ⟨upper.fits 1, "E0104"⟩, ⟨op.indices ≠ [], "E0105"⟩]
  | .affineIf set => [⟨set.inputs = op.operands.length, "E0104"⟩]
  | .affineParallel lower upper steps => nestChecks lower upper steps op.indices.length
  | .scfYield | .affineYield =>
    [⟨op.operands = [] || owner.any fun owner => owner.kind.takesYields, "E0401"⟩]
  | .affineApply map | .affineMax map | .affineMin map =>
    [⟨map.fits op.operands.length, "E0104"⟩]
  | .affineLoad map => [⟨map.fits (op.operands.length - 1), "E0104"⟩]
  | .affineStore map => [⟨map.fits (op.operands.length - 2), "E0104"⟩]
  | .dim =>
    match op.operands with
    | array :: index :: _ => dimChecks values array index
    | _ => []
  | .rank =>
    match op.operands with
    | array :: _ => [⟨(values.info array).shape.rank?.isSome, "E0203"⟩]
    | [] => []
  | .cmpF predicate => [⟨predicate.operator?.isSome, "E0302"⟩]
  | .constant =>
    match op.results with
    | result :: _ => constantChecks values names result
    | [] => []
  | .ip kind => (Accelerator.Template.of kind).checks values op.operands
  | .other _ => [⟨false, "E0400"⟩]
  | .scfIf | .alloc | .alloca | .dealloc | .load | .store | .tensorLoad | .tensorStore
  | .tensorToMemref | .binary _ | .unary _ | .cmpI _ | .select | .cast _ | .call _ | .ret | .assign
  | .finish | .ipCall _ => []

/-- Nothing is in the way of looking at an operation: its values have entries, and the inputs of its
maps and sets have numbers with 32 bits. -/
structure Readable (op : Op) (values : Arena) : Prop where
  operands : ∀ id ∈ op.operands, (values.info? id).isSome
  results : ∀ id ∈ op.results, (values.info? id).isSome
  inputs : ∀ inputs ∈ op.kind.inputs, inputs.1.toNat + inputs.2.toNat < UInt32.size

/-- All checks in front of an operation, in order. -/
def preChecks (values : Arena) (names : NameTable) (owner : Option Op) (op : Op) : List PreCheck :=
  ⟨op.counts.covers op.kind.needs, "E0105"⟩ :: op.ruleChecks values names owner

end Op

/-! ## Decisions -/

/-- A computation has a result if all checks hold, and else an error with the code of the first that
does not. -/
def Decides {α : Type} (checks : List PreCheck) : Except Obstacle α → Prop
  | .ok _ => firstFailure checks = none
  | .error (.problem p) => firstFailure checks = some p.code ∧ p.severity = .error
  | .error (.overrun _) => False

namespace Decides

variable {α β : Type} {checks checks' : List PreCheck} {check : PreCheck} {x : Except Obstacle α}
variable {f : α → Except Obstacle β}

/-- Without checks, a value is right. -/
theorem ok (value : α) : Decides [] (.ok value) := rfl

/-- A check that fails decides. -/
theorem failed {p : Problem} (hholds : check.holds = false) (hcode : p.code = check.code)
    (hseverity : p.severity = .error) :
    Decides (check :: checks) (.error (.problem p) : Except Obstacle α) := by
  simp [Decides, firstFailure, hholds, hcode, hseverity]

/-- A check that holds leaves the decision to those behind it. -/
theorem passed (hholds : check.holds = true) (h : Decides checks x) :
    Decides (check :: checks) x := by
  cases x with
  | ok value => simpa [Decides, firstFailure, hholds] using h
  | error obstacle =>
    cases obstacle with
    | problem p => simpa [Decides, firstFailure, hholds] using h
    | overrun missing => exact h

/-- A result that depends on one condition. -/
theorem ofCondition {P : Prop} [Decidable P] {p : Problem} {code : String} (value : α)
    (hcode : p.code = code) (hseverity : p.severity = .error) :
    Decides [⟨P, code⟩] (if P then .ok value else .error (.problem p)) := by
  split
  · next h => exact .passed (decide_eq_true h) (.ok _)
  · next h => exact .failed (decide_eq_false h) hcode hseverity

/-- The checks of what comes next are looked at behind those of what comes first. -/
theorem bind (hx : Decides checks x) (hf : ∀ value, x = .ok value → Decides checks' (f value)) :
    Decides (checks ++ checks') (x >>= f) := by
  cases x with
  | ok value =>
    have hnext := hf value rfl
    have hfirst : firstFailure checks = none := hx
    show Decides (checks ++ checks') (f value)
    -- No check of the first part fails, so those of the second part decide.
    cases hvalue : f value with
    | ok result => rw [hvalue] at hnext; simpa [Decides, firstFailure_append, hfirst] using hnext
    | error obstacle =>
      rw [hvalue] at hnext
      cases obstacle with
      | problem p => simpa [Decides, firstFailure_append, hfirst] using hnext
      | overrun missing => exact hnext
  | error obstacle =>
    cases obstacle with
    | problem p => exact ⟨by rw [firstFailure_append, hx.1]; rfl, hx.2⟩
    | overrun missing => exact hx

/-- What comes next has no checks of its own. -/
theorem bindFree (hx : Decides checks x) (hf : ∀ value, x = .ok value → Decides [] (f value)) :
    Decides checks (x >>= f) := by
  rw [← List.append_nil checks]
  exact hx.bind hf

/-- A function of the value leaves the decision as it is. -/
theorem map (f : α → β) (hx : Decides checks x) : Decides checks (do return f (← x)) :=
  hx.bindFree fun value _ => ok (f value)

/-- A list is gone through without a failure if there is none at any place. -/
theorem mapM {line : α → Except Obstacle β} {lines : List α}
    (h : ∀ a ∈ lines, Decides [] (line a)) : Decides [] (lines.mapM line) := by
  induction lines with
  | nil => exact ok _
  | cons a lines ih =>
    rw [List.forall_mem_cons] at h
    rw [List.mapM_cons]
    exact h.1.bindFree fun value _ => (ih h.2).map _

end Decides

section Rules

variable {arena : Arena} {t : NameTable}

/-! ### Maps, bounds and sets -/

/-- The inputs of a map are counted without an overrun if their number has 32 bits. -/
theorem countInputs_of_lt {dims symbols : UInt32} (h : dims.toNat + symbols.toNat < UInt32.size) :
    countInputs dims symbols = .ok (dims.toNat + symbols.toNat) := by
  unfold countInputs
  dsimp only
  rw [if_pos h]

/-- A bound is refused unless it fits. -/
theorem decides_bound {bound : AffineBound} (needed : Nat)
    (h : bound.map.dims.toNat + bound.map.symbols.toNat < UInt32.size) :
    Decides [⟨bound.fits needed, "E0104"⟩] (bound.check needed) := by
  unfold AffineBound.check
  rw [countInputs_of_lt h]
  exact .ofCondition _ rfl rfl

/-- A map is refused unless it fits. -/
theorem decides_map {map : AffineMap} (operands : List ValueId)
    (h : map.dims.toNat + map.symbols.toNat < UInt32.size) :
    Decides [⟨map.fits operands.length, "E0104"⟩] (map.check arena t operands) := by
  unfold AffineMap.check
  rw [countInputs_of_lt h]
  exact .ofCondition _ rfl rfl

/-- A map that has one result is refused unless it fits. -/
theorem decides_mapFirst {map : AffineMap} (operands : List ValueId)
    (h : map.dims.toNat + map.symbols.toNat < UInt32.size) :
    Decides [⟨map.fits operands.length, "E0104"⟩] (map.checkFirst arena t operands) := by
  have hadmits : Admits _ (Obstacle.Within [(map.dims, map.symbols)])
      (map.check arena t operands) := admits_map (List.mem_singleton_self _)
  refine (decides_map operands h).bindFree fun codes hcodes => ?_
  rw [hcodes] at hadmits
  split
  · exact .ok _
  · exact absurd rfl hadmits.1

/-- A set is refused unless it has as many inputs as there are operands. -/
theorem decides_set {set : IntegerSet} (operands : List ValueId)
    (h : set.dims.toNat + set.symbols.toNat < UInt32.size) :
    Decides [⟨set.inputs = operands.length, "E0104"⟩] (set.check arena t operands) := by
  unfold IntegerSet.check
  rw [countInputs_of_lt h]
  exact .ofCondition _ rfl rfl

/-! ### Loops and yields -/

/-- A body is refused unless it has an index. -/
theorem decides_index (body : Block) :
    Decides [⟨body.args ≠ [], "E0105"⟩] body.checkIndex := by
  unfold BlockOf.checkIndex
  split
  · next hargs => exact .failed (by simp [hargs]) rfl rfl
  · next hargs => exact .passed (by simp [hargs]) (.ok _)

/-- A loop for every index can be put together if there are enough bounds and steps. -/
theorem decides_loops {indices : List ValueId} {lowers uppers : List AffineValue}
    {steps : List Int64} (hlowers : indices.length ≤ lowers.length)
    (huppers : indices.length ≤ uppers.length) (hsteps : indices.length ≤ steps.length) :
    Decides [] (nestLoops indices lowers uppers steps) := by
  fun_induction nestLoops indices lowers uppers steps with
  | case1 => exact .ok _
  | case2 index indices lower lowers upper uppers step steps ih =>
    exact (ih (by simpa using hlowers) (by simpa using huppers) (by simpa using hsteps)).map _
  | case3 index indices lowers uppers steps hnone =>
    -- one of the lists is too short, against the bounds on their lengths
    obtain ⟨lower, lowers, rfl⟩ := List.exists_cons_of_length_pos (Nat.zero_lt_of_lt hlowers)
    obtain ⟨upper, uppers, rfl⟩ := List.exists_cons_of_length_pos (Nat.zero_lt_of_lt huppers)
    obtain ⟨step, steps, rfl⟩ := List.exists_cons_of_length_pos (Nat.zero_lt_of_lt hsteps)
    exact (hnone lower lowers upper uppers step steps rfl rfl rfl).elim

/-- A nest is refused for its first fault: no index, a bound that does not fit, a missing step or a
missing bound. -/
theorem decides_nest {lower upper : AffineBound} (steps : List Int64) (body : Block)
    (hlower : lower.map.dims.toNat + lower.map.symbols.toNat < UInt32.size)
    (hupper : upper.map.dims.toNat + upper.map.symbols.toNat < UInt32.size) :
    Decides (nestChecks lower upper steps body.args.length) (planNest lower upper steps body) := by
  have hlength {bound : AffineBound} {values : List AffineValue} {needed : Nat}
      (h : bound.check needed = .ok values) : needed ≤ values.length := by
    have hadmits : Admits _ (Obstacle.Within [(bound.map.dims, bound.map.symbols)])
        (bound.check needed) := admits_bound (List.mem_singleton_self _)
    rw [h] at hadmits
    exact hadmits.2
  -- The checks stand in the order in which the plan looks at them.
  unfold planNest
  dsimp only
  by_cases hindices : body.args.length = 0
  · rw [if_pos hindices]
    exact .failed (by simp [hindices]) rfl rfl
  rw [if_neg hindices]
  refine .passed (decide_eq_true (Nat.pos_of_ne_zero hindices)) ?_
  refine (decides_bound _ hlower).bind fun lowers hlowers => ?_
  refine (decides_bound _ hupper).bind fun uppers huppers => ?_
  by_cases hsteps : steps.length < body.args.length
  · rw [if_pos hsteps]
    exact .failed (decide_eq_false (Nat.not_le.2 hsteps)) rfl rfl
  rw [if_neg hsteps]
  refine .passed (decide_eq_true (Nat.not_lt.1 hsteps)) ?_
  exact (decides_loops (hlength hlowers) (hlength huppers) (Nat.not_lt.1 hsteps)).map _

/-- A yield of values is refused unless the operation around it takes them. -/
theorem decides_yield (owner : Option Op) (operands : List ValueId) :
    Decides [⟨operands = [] || owner.any fun owner => owner.kind.takesYields, "E0401"⟩]
      (planYield owner operands) := by
  unfold planYield
  split
  · next hempty => exact .passed (by simp [List.isEmpty_iff.1 hempty]) (.ok _)
  · next hempty =>
    have hoperands : operands ≠ [] := fun h => hempty (List.isEmpty_iff.2 h)
    split
    · exact .failed (by simp [hoperands]) rfl rfl
    · next around =>
      split
      · next hkind => exact .passed (by simp [hkind, OpKind.takesYields]) (.ok _)
      · next set hkind => exact .passed (by simp [hkind, OpKind.takesYields]) (.ok _)
      · next lower upper steps hkind =>
        exact .passed (by simp [hkind, OpKind.takesYields]) (.ok _)
      · next hif haffine hnest =>
        refine .failed ?_ rfl rfl
        -- Only the three kinds named before take what is yielded.
        have htakes : around.kind.takesYields = false := by
          cases hkind : around.kind with
          | scfIf => exact (hif hkind).elim
          | affineIf set => exact (haffine set hkind).elim
          | affineParallel lower upper steps => exact (hnest lower upper steps hkind).elim
          | _ => rfl
        simp [hoperands, htakes]

/-! ### Values -/

/-- A list has a result if it has one at every place. -/
theorem isSome_mapM {α β : Type} (f : α → Option β) (xs : List α) :
    (xs.mapM f).isSome = xs.all fun x => (f x).isSome := by
  induction xs with
  | nil => rfl
  | cons x xs ih =>
    rw [List.mapM_cons, List.all_cons, ← ih]
    cases f x with
    | none => rfl
    | some value => cases xs.mapM f <;> rfl

/-- A constant is refused for its first fault: no literal, no shape for a dense one, no type or an
element without a text. -/
theorem decides_constant {result : ValueId} (hknown : (arena.info? result).isSome) :
    Decides (constantChecks arena t result) (planConstant arena t result) := by
  unfold planConstant constantChecks
  rw [Arena.checkBound_of_known hknown, Arena.entry_of_known hknown]
  dsimp only [bind, Except.bind]
  split
  · exact .ok _
  -- A result that has a name is left alone; the checks are about the others.
  cases hconstant : (arena.info result).constant with
  | none => exact .failed (by simp) rfl rfl
  | some literal =>
    cases literal with
    | dense elements =>
      dsimp only [Option.bind_some, Literal.elements?]
      by_cases hshaped : (arena.info result).isShaped = true
      · rw [hshaped]
        refine .passed rfl ?_
        cases htype : (arena.info result).elem.cppName? with
        | none => exact .failed rfl rfl rfl
        | some type =>
          refine .passed rfl ?_
          dsimp only [Option.isNone]
          have htexts := isSome_mapM Literal.scalarText? elements
          cases htexts' : elements.mapM Literal.scalarText? with
          | none => exact .failed (by rw [htexts'] at htexts; exact htexts.symm) rfl rfl
          | some texts => exact .passed (by rw [htexts'] at htexts; exact htexts.symm) (.ok _)
      · rw [Bool.eq_false_iff.2 hshaped]
        exact .failed rfl rfl rfl
    | _ => exact .failed (by simp [Literal.elements?]) rfl rfl

/-- An extent is refused unless the array has a shape and the index is a constant among its
dimensions. -/
theorem decides_dim {array index : ValueId} (harray : (arena.info? array).isSome)
    (hindex : (arena.info? index).isSome) :
    Decides (dimChecks arena array index) (constantDim arena array index) := by
  unfold constantDim dimChecks
  rw [Arena.entry_of_known harray, Arena.entry_of_known hindex]
  dsimp only [bind, Except.bind]
  cases hconstant : (arena.info index).constant with
  | none => exact .failed rfl rfl rfl
  | some literal =>
    cases literal with
    | int position =>
      refine .passed rfl ?_
      dsimp only [Option.bind_some, Literal.int?]
      cases if (arena.info array).isShaped then (arena.info array).shape.extents? else none with
      | none => exact .failed rfl rfl rfl
      | some extents =>
        refine .passed rfl ?_
        -- a negative position is not looked up, so that `toNat` does not make it the first one
        have hfound : (if 0 ≤ position then extents[position.toInt.toNat]? else none).isSome =
            (decide (0 ≤ position) && decide (position.toInt.toNat < extents.length)) := by
          by_cases hposition : 0 ≤ position
          · rw [if_pos hposition, decide_eq_true hposition, Bool.true_and]
            by_cases hlength : position.toInt.toNat < extents.length
            · rw [List.getElem?_eq_getElem hlength, decide_eq_true hlength]
              rfl
            · rw [List.getElem?_eq_none (Nat.not_lt.1 hlength), decide_eq_false hlength]
              rfl
          · rw [if_neg hposition, decide_eq_false hposition, Bool.false_and]
            rfl
        dsimp only
        revert hfound
        cases if 0 ≤ position then extents[position.toInt.toNat]? else none with
        | none => exact fun hfound => .failed hfound.symm rfl rfl
        | some extent => exact fun hfound => .passed hfound.symm (.ok _)
    | _ => exact .failed rfl rfl rfl

/-- A rank is refused unless the array has one. -/
theorem decides_rank {array : ValueId} (harray : (arena.info? array).isSome) :
    Decides [⟨(arena.info array).shape.rank?.isSome, "E0203"⟩] (constantRank arena array) := by
  unfold constantRank
  rw [Arena.entry_of_known harray]
  dsimp only [bind, Except.bind]
  split
  · next rank hrank => exact .passed (by simp [hrank]) (.ok _)
  · next hrank => exact .failed (by simp [hrank]) rfl rfl

end Rules

end HlsEmit
