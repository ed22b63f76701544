import HlsEmit.Proofs.Account.Statement
import HlsEmit.Proofs.Meaning.Expression

/-!
# Code over held values

Where all values of a formula, a term or a place are held, writing it reports nothing and declares
nothing: the code is a function of the name table. A formula `Denotes` what the evaluation computes
if its code can be read and has that value at the counters of the loops around.

## Key results

- `Emission.formula_of_bound`, `Emission.place_of_bound`: nothing is declared over bound values
- `Emission.formula_of_held`, `Emission.place_of_held`: the code that is written
- `Formula.denotes_binary`, `Formula.denotes_select`: elementwise operations
-/

namespace HlsEmit

open Cpp (Object Machine Env)
open Code (Expr)

/-! ## Code -/

/-- The code of a term whose values are held. -/
def Term.heldCode (arena : Arena) (t : NameTable) : Term → Expr
  | .value id => arena.useCode t id
  | .code expr => expr
  | .affine function values => .nestedCalls function
    (values.map fun value => value.expr.code (arena.operandAt t value.operands) value.dims)

/-- The code of a place whose values are held. -/
def Place.heldCode (arena : Arena) (t : NameTable) (place : Place) : Expr :=
  (place.base.heldCode arena t).subscripts (place.subscripts.map (Term.heldCode arena t))

/-- The code of a formula whose values are held, inside of so many loops. -/
def Formula.heldCode (arena : Arena) (t : NameTable) (rank : Nat) : Formula → Expr
  | .copy source => (arena.useCode t source).atCounters rank
  | .binary operator lhs rhs =>
    .operation operator ((arena.useCode t lhs).atCounters rank) ((arena.useCode t rhs).atCounters rank)
  | .function head operand => .call head [(arena.useCode t operand).atCounters rank]
  | .select condition onTrue onFalse =>
    .conditional
      ((arena.useCode t condition).atCounters (if (arena.info condition).isShaped then rank else 0))
      ((arena.useCode t onTrue).atCounters rank) ((arena.useCode t onFalse).atCounters rank)

namespace Emission

variable {arena : Arena} {function : Option String} {t : NameTable} {held : ValueId → Prop}
variable {id : ValueId}

/-! ### Bound values -/

section Bound

variable (op : Op)

/-- The values of some code are in the value table and bound, so that nothing is declared. -/
def Bound (arena : Arena) (t : NameTable) (ids : List ValueId) : Prop :=
  ∀ id ∈ ids, (arena.info? id).isSome ∧ arena.isBound t id = true

/-- A bound operand is written as it stands. -/
theorem operand_of_bound (hbound : arena.isBound t id = true) :
    (operand op id).run ⟨arena, function⟩ t = ⟨arena.useCode t id, t, [], [], []⟩ := by
  unfold operand mention
  rw [bind_of_quiet (mentionAs_of_bound hbound), pure_apply]
  rfl

/-- A bound element is written as it stands. -/
theorem element_of_bound (hbound : arena.isBound t id = true) (rank : Nat) :
    (element op rank id).run ⟨arena, function⟩ t =
      ⟨(arena.useCode t id).atCounters rank, t, [], [], []⟩ := by
  unfold element
  rw [bind_of_quiet (operand_of_bound op hbound), pure_apply]

/-- Affine values are written as they stand. -/
theorem affineCodes_apply (values : List AffineValue) :
    (affineCodes values).run ⟨arena, function⟩ t =
      ⟨values.map fun value => value.expr.code (arena.operandAt t value.operands) value.dims, t,
        [], [], []⟩ := by
  induction values with
  | nil => rfl
  | cons value rest ih =>
    have hfirst : (affineCode value).run ⟨arena, function⟩ t =
        ⟨value.expr.code (arena.operandAt t value.operands) value.dims, t, [], [], []⟩ := by
      unfold affineCode
      rw [bind_of_quiet (operandAt_apply _ _), pure_apply]
    unfold affineCodes
    rw [bind_of_quiet hfirst, bind_of_quiet ih, pure_apply]
    rfl

/-- A term over bound values is written as it stands. -/
theorem term_of_bound {term : Term} (h : ∀ id ∈ term.values, arena.isBound t id = true) :
    (Emission.term op term).run ⟨arena, function⟩ t = ⟨term.heldCode arena t, t, [], [], []⟩ := by
  cases term with
  | value id => exact operand_of_bound op (h id (by simp [Term.values]))
  | code code => rfl
  | affine function values =>
    unfold Emission.term
    rw [bind_of_quiet (affineCodes_apply values), pure_apply]
    rfl

/-- Terms over bound values are written as they stand. -/
theorem terms_of_bound {terms : List Term}
    (h : ∀ id ∈ terms.flatMap Term.values, arena.isBound t id = true) :
    (Emission.terms op terms).run ⟨arena, function⟩ t =
      ⟨terms.map (Term.heldCode arena t), t, [], [], []⟩ := by
  induction terms with
  | nil => rfl
  | cons term rest ih =>
    simp only [List.flatMap_cons, List.forall_mem_append] at h
    unfold Emission.terms
    rw [bind_of_quiet (term_of_bound op h.1), bind_of_quiet (ih h.2), pure_apply]
    rfl

/-- A place over bound values is written as it stands. -/
theorem place_of_bound {place : Place} (h : ∀ id ∈ place.values, arena.isBound t id = true) :
    (Emission.place op place).run ⟨arena, function⟩ t = ⟨place.heldCode arena t, t, [], [], []⟩ := by
  rw [Place.values, List.forall_mem_append] at h
  unfold Emission.place
  rw [bind_of_quiet (term_of_bound op h.1), bind_of_quiet (terms_of_bound op h.2), pure_apply]
  rfl

/-- A formula over bound values is written as it stands. -/
theorem formula_of_bound {formula : Formula} (h : Bound arena t formula.values) (rank : Nat) :
    (Emission.formula op rank formula).run ⟨arena, function⟩ t =
      ⟨formula.heldCode arena t rank, t, [], [], []⟩ := by
  have helement {id : ValueId} (hid : id ∈ formula.values) (rank : Nat) :
      (element op rank id).run ⟨arena, function⟩ t =
        ⟨(arena.useCode t id).atCounters rank, t, [], [], []⟩ :=
    element_of_bound op (h id hid).2 rank
  -- One case per form, its elements from left to right.
  cases formula with
  | copy source => exact helement (by simp [Formula.values]) rank
  | binary operator lhs rhs =>
    unfold Emission.formula
    rw [bind_of_quiet (helement (by simp [Formula.values]) rank),
      bind_of_quiet (helement (by simp [Formula.values]) rank), pure_apply]
    rfl
  | function head operand =>
    unfold Emission.formula
    rw [bind_of_quiet (helement (by simp [Formula.values]) rank), pure_apply]
    rfl
  | select condition onTrue onFalse =>
    unfold Emission.formula
    rw [bind_of_quiet (info_apply (h condition (by simp [Formula.values])).1),
      bind_of_quiet (helement (by simp [Formula.values]) _),
      bind_of_quiet (helement (by simp [Formula.values]) rank),
      bind_of_quiet (helement (by simp [Formula.values]) rank), pure_apply]
    rfl

end Bound

/-! ### Held values -/

section Held

variable (h : Holding arena t held) (op : Op)

include h

/-- A held operand is written as it stands. -/
theorem operand_of_held (hid : held id) :
    (operand op id).run ⟨arena, function⟩ t = ⟨arena.useCode t id, t, [], [], []⟩ :=
  operand_of_bound op (h.isBound hid)

/-- A held element is written as it stands. -/
theorem element_of_held (hid : held id) (rank : Nat) :
    (element op rank id).run ⟨arena, function⟩ t =
      ⟨(arena.useCode t id).atCounters rank, t, [], [], []⟩ :=
  element_of_bound op (h.isBound hid) rank

/-- A formula is written as it stands. -/
theorem formula_of_held {formula : Formula} (hids : ∀ id ∈ formula.values, held id) (rank : Nat) :
    (Emission.formula op rank formula).run ⟨arena, function⟩ t =
      ⟨formula.heldCode arena t rank, t, [], [], []⟩ :=
  formula_of_bound op (fun id hid => ⟨(h.known id (hids id hid)).listed, h.isBound (hids id hid)⟩) rank

/-- A term over held values is written as it stands. -/
theorem term_of_held {term : Term} (hids : ∀ id ∈ term.values, held id) :
    (Emission.term op term).run ⟨arena, function⟩ t = ⟨term.heldCode arena t, t, [], [], []⟩ :=
  term_of_bound op fun id hid => h.isBound (hids id hid)

/-- A place is written as it stands. -/
theorem place_of_held {place : Place} (hids : ∀ id ∈ place.values, held id) :
    (Emission.place op place).run ⟨arena, function⟩ t = ⟨place.heldCode arena t, t, [], [], []⟩ :=
  place_of_bound op fun id hid => h.isBound (hids id hid)

end Held

end Emission

/-! ## Formulas -/

variable {V : Type} {m : Machine V} {meaning : Meaning V} {arena : Arena}
variable {held : ValueId → Prop} {result : ValueId}

/-- The code of a formula over held values computes the elements that a result is set to. -/
structure Formula.Denotes (m : Machine V) (meaning : Meaning V) (arena : Arena) (held : ValueId → Prop)
    (result : ValueId) (formula : Formula) (element : State V → List Int → Option V) : Prop where
  values : ∀ id ∈ formula.values, held id
  readable : ∀ t, Holding arena t held → ∀ rank, (rank ≠ 0 → (arena.info result).isShaped = true) →
    (formula.heldCode arena t rank).Readable true
  alike : ∀ t σ env indices, Holding arena t held → Matches m arena t held σ env →
    Counted m env indices →
    SetsAlike m meaning arena result (element σ indices)
      (m.eval env (formula.heldCode arena t indices.length).cpp)

namespace Formula

/-- The element of a held value of the same shape, as a part of an expression. -/
theorem readable_part {t : NameTable} {id : ValueId} (h : Holding arena t held) (hid : held id)
    (hshape : (arena.info id).isShaped = (arena.info result).isShaped) {rank : Nat}
    (hrank : rank ≠ 0 → (arena.info result).isShaped = true) (alone : Bool) :
    ((arena.useCode t id).atCounters rank).Readable alone :=
  h.readable_element hid (fun hne => hshape.trans (hrank hne)) alone

/-- A copy has the value of its source. -/
theorem denotes_copy (hm : m.Implements meaning) {source : ValueId} (hsource : held source)
    (hshape : (arena.info source).isShaped = (arena.info result).isShaped) :
    (Formula.copy source).Denotes m meaning arena held result fun σ => σ.element? arena source where
  values := by simpa [Formula.values] using hsource
  readable t h rank hrank := readable_part h hsource hshape hrank true
  alike t σ env indices h hmatches hcounted :=
    .of_refines hm (hmatches.refines_element h hsource hcounted)

/-- An operator that computes a function of two elements. -/
theorem denotes_binary (hm : m.Implements meaning) {operator : Code.Operator}
    (hoperator : operator ≠ .and) {f : V → V → Option V}
    (hf : ∀ x y, Refines (f x y) (m.binary operator.symbol x y)) {lhs rhs : ValueId}
    (hlhs : held lhs) (hrhs : held rhs)
    (hshape : (arena.info lhs).isShaped = (arena.info result).isShaped)
    (hshape' : (arena.info rhs).isShaped = (arena.info result).isShaped) :
    (Formula.binary operator lhs rhs).Denotes m meaning arena held result fun σ indices => do
      f (← σ.element? arena lhs indices) (← σ.element? arena rhs indices) where
  values := by simpa [Formula.values] using ⟨hlhs, hrhs⟩
  readable t h rank hrank :=
    .operation hoperator (readable_part h hlhs hshape hrank false)
      (readable_part h hrhs hshape' hrank false)
  alike t σ env indices h hmatches hcounted :=
    .of_refines hm (.bind (hmatches.refines_element h hlhs hcounted) fun x _ =>
      .bind (hmatches.refines_element h hrhs hcounted) fun y _ => hf x y)

/-- The function that a unary operation is written as. -/
theorem denotes_function (hm : m.Implements meaning) (operation : UnaryOp) {operand : ValueId}
    (hoperand : held operand)
    (hshape : (arena.info operand).isShaped = (arena.info result).isShaped) :
    (Formula.function operation.head operand).Denotes m meaning arena held result fun σ indices => do
      meaning.unary operation (← σ.element? arena operand indices) where
  values := by simpa [Formula.values] using hoperand
  readable t h rank hrank := by
    have harg := readable_part h hoperand hshape hrank true
    -- Two functions are written as operators, all others as calls.
    cases operation with
    | neg => exact .callMinus harg
    | rsqrt => exact .callRsqrt harg
    | _ => exact .call (by decide) harg
  alike t σ env indices h hmatches hcounted := by
    have harg := hmatches.refines_element h hoperand hcounted
    refine .of_refines hm fun value hvalue => ?_
    obtain ⟨x, hx, hvalue⟩ := Option.bind_eq_some_iff.1 hvalue
    have hcall := hm.unary operation x value hvalue
    have heval := harg x hx
    cases operation with
    | neg =>
      show m.eval env (.negate (.paren ((arena.useCode t operand).atCounters indices.length).cpp)) =
        some value
      rw [Machine.eval, Machine.eval, heval]
      exact hcall
    | rsqrt =>
      show m.eval env (.binary "/" (.number "1.0") (.call "sqrt"
        [((arena.useCode t operand).atCounters indices.length).cpp])) = some value
      simp only [Machine.eval, Machine.evalArgs, heval]
      exact hcall
    | _ =>
      show m.eval env (.call _ [((arena.useCode t operand).atCounters indices.length).cpp]) =
        some value
      simp only [Machine.eval, Machine.evalArgs, heval]
      exact hcall

/-- A condition that decides between two elements. The one that is chosen is converted to the common
type of both before the result is set to it. -/
theorem denotes_select (hm : m.Implements meaning) {condition onTrue onFalse : ValueId}
    (hcondition : held condition) (hTrue : held onTrue) (hFalse : held onFalse)
    (hshapeTrue : (arena.info onTrue).isShaped = (arena.info result).isShaped)
    (hshapeFalse : (arena.info onFalse).isShaped = (arena.info result).isShaped)
    (hmerges : m.Merges meaning arena onTrue onFalse result) :
    (Formula.select condition onTrue onFalse).Denotes m meaning arena held result fun σ indices => do
      if ← meaning.truth (← σ.element? arena condition
          (if (arena.info condition).isShaped then indices else [])) then
        σ.element? arena onTrue indices
      else σ.element? arena onFalse indices where
  values := by simpa [Formula.values] using ⟨hcondition, hTrue, hFalse⟩
  readable t h rank hrank := by
    refine .conditional (h.readable_element hcondition ?_ false)
      (readable_part h hTrue hshapeTrue hrank false) (readable_part h hFalse hshapeFalse hrank false)
    exact fun hne => Decidable.byContradiction fun hnot => hne (if_neg hnot)
  alike t σ env indices h hmatches hcounted := by
    have hchoice : Refines (σ.element? arena condition
        (if (arena.info condition).isShaped then indices else []))
        (m.eval env ((arena.useCode t condition).atCounters
          (if (arena.info condition).isShaped then indices.length else 0)).cpp) := by
      split
      · exact hmatches.refines_element h hcondition hcounted
      · exact hmatches.refines_element h hcondition (rfl : Counted m env [])
    obtain ⟨typeTrue, typeFalse, htypeTrue, htypeFalse, hvalues⟩ := hmerges
    intro type htype number hnumber
    obtain ⟨chosen, hchosen, hconvert⟩ := Option.bind_eq_some_iff.1 hnumber
    obtain ⟨x, hx, hchosen⟩ := Option.bind_eq_some_iff.1 hchosen
    obtain ⟨holds, hholds, hchosen⟩ := Option.bind_eq_some_iff.1 hchosen
    have hcondition : m.eval env ((arena.useCode t condition).atCounters
        (if (arena.info condition).isShaped then indices.length else 0)).cpp = some x := hchoice x hx
    have htruth : m.truth x = some holds := hm.truth x holds hholds
    -- what is chosen has a value, so both branches have an element at these indices
    obtain ⟨id, hmem, hid, helement, hshape⟩ : ∃ id ∈ [onTrue, onFalse], held id ∧
        σ.element? arena id indices = some chosen ∧
          (arena.info id).isShaped = (arena.info result).isShaped := by
      cases holds with
      | true => exact ⟨onTrue, by simp, hTrue, hchosen, hshapeTrue⟩
      | false => exact ⟨onFalse, by simp, hFalse, hchosen, hshapeFalse⟩
    have hrank : (arena.info result).isShaped = true ↔ indices.length ≠ 0 := by
      rw [← hshape, hmatches.shaped_iff_of_element h hid helement, Ne, Ne, List.length_eq_zero_iff]
    have hwritten := hmatches.typeOf_element h hTrue (hshapeTrue ▸ hrank)
    have hwritten' := hmatches.typeOf_element h hFalse (hshapeFalse ▸ hrank)
    have hmerged := hvalues id hmem chosen (hmatches.canBe_element hid helement) type htype number hconvert
    have hbranch : (if holds then m.eval env ((arena.useCode t onTrue).atCounters indices.length).cpp
        else m.eval env ((arena.useCode t onFalse).atCounters indices.length).cpp) = some chosen := by
      cases holds with
      | true => exact hmatches.refines_element h hTrue hcounted chosen hchosen
      | false => exact hmatches.refines_element h hFalse hcounted chosen hchosen
    show (do m.convert type (← m.eval env (.conditional _ _ _))) = some number
    rw [Machine.eval, hcondition, hwritten, hwritten', htypeTrue, htypeFalse]
    simpa [htruth, hbranch] using hmerged

end Formula

end HlsEmit
