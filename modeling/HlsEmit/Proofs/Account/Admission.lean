import HlsEmit.Model.Dominance
import HlsEmit.Proofs.Account.Statement
import HlsEmit.Proofs.Rules

/-!
# What is admitted

The plan of an operation is made of the parts of the operation, and nothing is looked up in vain on
the way to it: the checks in front of a rule cover everything that the rule takes.

## Key results

- `Op.plan_admits`: the plan of an operation is `Planned`, and what may be in its way is a problem
  other than a name, or a map with too many inputs
-/

namespace HlsEmit

open Code

/-! ## Checked computations -/

/-- A computation has a result that is `fine`, or something in its way that is accepted. -/
def Admits {α : Type} (fine : α → Prop) (accepted : Obstacle → Prop) :
    Except Obstacle α → Prop
  | .ok value => fine value
  | .error obstacle => accepted obstacle

namespace Admits

variable {α β : Type} {fine : α → Prop} {fine' : β → Prop} {accepted : Obstacle → Prop}
variable {x : Except Obstacle α} {f : α → Except Obstacle β}

/-- A check behind an admitted one is asked only of what the first one accepts. -/
theorem bind (hx : Admits fine accepted x)
    (hf : ∀ value, fine value → Admits fine' accepted (f value)) :
    Admits fine' accepted (x >>= f) := by
  cases x with
  | ok value => exact hf value hx
  | error obstacle => exact hx

/-- A check over a list accepts what its parts accept. -/
theorem mapM {line : α → Except Obstacle β} {lines : List α}
    (h : ∀ a ∈ lines, Admits fine' accepted (line a)) :
    Admits (fun values => ∀ value ∈ values, fine' value) accepted (lines.mapM line) := by
  induction lines with
  | nil => exact List.forall_mem_nil fine'
  | cons a lines ih =>
    rw [List.forall_mem_cons] at h
    rw [List.mapM_cons]
    refine bind h.1 fun value hvalue => bind (ih h.2) fun values hvalues => ?_
    exact List.forall_mem_cons.2 ⟨hvalue, hvalues⟩

/-- A weaker property of the value suffices. -/
theorem mono {fine₂ : α → Prop} (hx : Admits fine accepted x) (h : ∀ value, fine value → fine₂ value) :
    Admits fine₂ accepted x := by
  cases x with
  | ok value => exact h value hx
  | error obstacle => exact hx

/-- Every check is admitted if nothing is asked of it. -/
theorem always (x : Except Obstacle α) : Admits (fun _ => True) (fun _ => True) x := by
  cases x <;> trivial

end Admits

/-- What may be in the way of an operation whose maps and sets are these: an error that is not about a
name, and nothing that was looked up in vain but a number of inputs beyond 32 bits. -/
def Obstacle.Within (inputs : List (UInt32 × UInt32)) : Obstacle → Prop
  | .problem p => (∀ error, p ≠ .naming error) ∧ p.severity = .error
  | .overrun missing => ∃ dims symbols, missing = .inputs dims symbols ∧
      (dims, symbols) ∈ inputs ∧ UInt32.size ≤ dims.toNat + symbols.toNat

/-- The numbers of dimensions and symbols of the maps and sets of a kind of operation. -/
def OpKind.inputs : OpKind → List (UInt32 × UInt32)
  | .affineFor lower upper _ | .affineParallel lower upper _ =>
    [(lower.map.dims, lower.map.symbols), (upper.map.dims, upper.map.symbols)]
  | .affineIf set => [(set.dims, set.symbols)]
  | .affineApply map | .affineMax map | .affineMin map | .affineLoad map | .affineStore map =>
    [(map.dims, map.symbols)]
  | _ => []

section Rules

variable {arena : Arena} {t : NameTable} {inputs : List (UInt32 × UInt32)}

/-- A check that ends in an error other than one of naming is admitted. -/
theorem admits_problem {α : Type} {fine : α → Prop} {problem : Problem}
    (h : ∀ error, problem ≠ .naming error) (herror : problem.severity = .error) :
    Admits fine (Obstacle.Within inputs) (throw (.problem problem)) := ⟨h, herror⟩

/-! ## Maps, bounds and sets -/

/-- The inputs of a map are counted, or there are too many of them. -/
theorem admits_countInputs {dims symbols : UInt32} (h : (dims, symbols) ∈ inputs) :
    Admits (fun _ => True) (Obstacle.Within inputs) (countInputs dims symbols) := by
  unfold countInputs
  dsimp only
  split
  · trivial
  · next hlarge => exact ⟨dims, symbols, rfl, h, by omega⟩

/-- A bound gives the values of its map, and at least as many as are needed. -/
theorem admits_bound {bound : AffineBound} {needed : Nat}
    (h : (bound.map.dims, bound.map.symbols) ∈ inputs) :
    Admits (fun values => values = bound.values ∧ needed ≤ values.length) (Obstacle.Within inputs)
      (bound.check needed) := by
  refine .bind (admits_countInputs h) fun count _ => ?_
  split
  · next hfits => exact ⟨rfl, by simpa [AffineBound.values] using hfits.2⟩
  · exact admits_problem (by simp) rfl

/-- The code of a map uses the operands only. -/
theorem admits_map {map : AffineMap} {operands : List ValueId}
    (h : (map.dims, map.symbols) ∈ inputs) :
    Admits (fun codes => codes ≠ [] ∧
        ∀ code ∈ codes, ∀ m ∈ code.mentions, ∃ id ∈ operands, m = .use (arena.use t id))
      (Obstacle.Within inputs) (map.check arena t operands) := by
  refine .bind (admits_countInputs h) fun count _ => ?_
  split
  · next hfits =>
    refine ⟨by simpa [AffineMap.code] using hfits.2, ?_⟩
    intro code hcode m hm
    obtain ⟨e, -, rfl⟩ := List.mem_map.1 hcode
    exact Arena.mem_mentions_code hm
  · exact admits_problem (by simp) rfl

/-- The first result of a map only mentions operands of the map. -/
theorem admits_first {map : AffineMap} {operands : List ValueId}
    (h : (map.dims, map.symbols) ∈ inputs) :
    Admits (fun code => ∀ m ∈ code.mentions, ∃ id ∈ operands, m = .use (arena.use t id))
      (Obstacle.Within inputs) (map.checkFirst arena t operands) := by
  refine .bind (admits_map h) fun codes hcodes => ?_
  split
  · next first rest => exact hcodes.2 first (List.mem_cons_self ..)
  · exact absurd rfl hcodes.1

/-- A mention in a list of expressions is one in an expression of the list. -/
theorem Code.mem_mentionsOfExprs {m : Mention} {codes : List Expr} :
    m ∈ mentionsOfExprs codes ↔ ∃ code ∈ codes, m ∈ code.mentions := by
  induction codes with
  | nil => simp [mentionsOfExprs]
  | cons code codes ih => simp [mentionsOfExprs, ih]

/-- The condition of a set only mentions operands of the set. -/
theorem admits_set {set : IntegerSet} {operands : List ValueId}
    (h : (set.dims, set.symbols) ∈ inputs) :
    Admits (fun code => ∀ m ∈ code.mentions, ∃ id ∈ operands, m = .use (arena.use t id))
      (Obstacle.Within inputs) (set.check arena t operands) := by
  refine .bind (admits_countInputs h) fun count _ => ?_
  split
  · intro m hm
    rw [IntegerSet.condition, Expr.mentions_all] at hm
    obtain ⟨code, hcode, hm⟩ := Code.mem_mentionsOfExprs.1 hm
    obtain ⟨i, hi, rfl⟩ := List.mem_mapIdx.1 hcode
    rw [Expr.mentions, Expr.mentions, List.append_nil] at hm
    exact Arena.mem_mentions_code hm
  · exact admits_problem (by simp) rfl

/-! ## Loops -/

/-- The index of a body is its first argument. -/
theorem admits_index {body : Block} :
    Admits (fun index => ∃ args, body.args = index :: args) (Obstacle.Within inputs)
      body.checkIndex := by
  unfold BlockOf.checkIndex
  split
  · exact admits_problem (by simp) rfl
  · next index args hargs => exact ⟨args, hargs⟩

/-- There is a loop for every index if there are enough bounds and steps. -/
theorem admits_loops {indices : List ValueId} {lowers uppers : List AffineValue}
    {steps : List Int64} (hlowers : indices.length ≤ lowers.length)
    (huppers : indices.length ≤ uppers.length) (hsteps : indices.length ≤ steps.length) :
    Admits (fun loops => loops.map NestLoop.index = indices ∧
        ∀ loop ∈ loops, loop.lower ∈ lowers ∧ loop.upper ∈ uppers)
      (Obstacle.Within inputs) (nestLoops indices lowers uppers steps) := by
  -- On the indices: each takes the first bound and the first step that are left.
  induction indices generalizing lowers uppers steps with
  | nil => exact ⟨rfl, by simp⟩
  | cons index indices ih =>
    rw [List.length_cons] at hlowers huppers hsteps
    obtain ⟨lower, lowers, rfl⟩ := List.exists_cons_of_length_pos (Nat.zero_lt_of_lt hlowers)
    obtain ⟨upper, uppers, rfl⟩ := List.exists_cons_of_length_pos (Nat.zero_lt_of_lt huppers)
    obtain ⟨step, steps, rfl⟩ := List.exists_cons_of_length_pos (Nat.zero_lt_of_lt hsteps)
    rw [List.length_cons] at hlowers huppers hsteps
    refine .bind (ih (Nat.le_of_succ_le_succ hlowers) (Nat.le_of_succ_le_succ huppers)
      (Nat.le_of_succ_le_succ hsteps)) fun loops hloops => ⟨by simp [hloops.1], ?_⟩
    intro loop hloop
    rcases List.mem_cons.1 hloop with rfl | hloop
    · exact ⟨List.mem_cons_self .., List.mem_cons_self ..⟩
    · obtain ⟨hlower, hupper⟩ := hloops.2 loop hloop
      exact ⟨List.mem_cons_of_mem _ hlower, List.mem_cons_of_mem _ hupper⟩

/-- All values of a bound read the operands of the bound. -/
theorem AffineBound.operands_of_mem_values {bound : AffineBound} {value : AffineValue}
    (h : value ∈ bound.values) : value.operands = bound.operands := by
  obtain ⟨result, -, rfl⟩ := List.mem_map.1 h
  rfl

/-- A nest has a loop for each argument of its body. -/
theorem admits_nest {lower upper : AffineBound} {steps : List Int64} {body : Block}
    (hlower : (lower.map.dims, lower.map.symbols) ∈ inputs)
    (hupper : (upper.map.dims, upper.map.symbols) ∈ inputs) :
    Admits (fun plan => ∃ loops, plan = .nest loops ∧ loops.map NestLoop.index = body.args ∧
        ∀ loop ∈ loops, loop.lower.operands = lower.operands ∧
          loop.upper.operands = upper.operands)
      (Obstacle.Within inputs) (planNest lower upper steps body) := by
  unfold planNest
  dsimp only
  split
  · exact admits_problem (by simp) rfl
  -- The steps are only counted once both bounds are known to be long enough.
  refine .bind (admits_bound hlower) fun lowers ⟨hlowers, hlowersLength⟩ => ?_
  refine .bind (admits_bound hupper) fun uppers ⟨huppers, huppersLength⟩ => ?_
  split
  · exact admits_problem (by simp) rfl
  · next hsteps =>
    refine .bind (admits_loops hlowersLength huppersLength (Nat.not_lt.1 hsteps)) fun loops hloops => ?_
    refine ⟨loops, rfl, hloops.1, fun loop hloop => ?_⟩
    obtain ⟨hlower, hupper⟩ := hloops.2 loop hloop
    rw [hlowers] at hlower
    rw [huppers] at hupper
    exact ⟨AffineBound.operands_of_mem_values hlower, AffineBound.operands_of_mem_values hupper⟩

end Rules

/-! ## Plans -/

/-- A value is the only one that an operation defines. -/
structure Op.Gives (op : Op) (result : ValueId) : Prop where
  count : op.kind.resultCount? = some 1
  head : op.results.head? = some result

/-- What a plan is made of: where the values that it mentions come from. -/
def Op.Planned (arena : Arena) (t : NameTable) (owner : Option Op) (op : Op) : Plan → Prop
  | .nothing => op.kind.resultCount? = some 0 ∨
      ∃ result, op.Gives result ∧ arena.isBound t result = true
  | .compute target formula => (∀ id ∈ formula.values, id ∈ op.operands) ∧
      (op.Gives target ∨ op.kind.resultCount? = some 0 ∧ target ∈ op.operands)
  | .assign target source => (∀ id ∈ source.values, id ∈ op.operands) ∧
      (∀ m ∈ target.mentions ++ source.mentions, ∃ id ∈ op.operands, m = .use (arena.use t id)) ∧
      ((∃ result, op.Gives result ∧ target = .scalar result) ∨
        op.kind.resultCount? = some 0 ∧ ∀ id ∈ target.values, id ∈ op.operands)
  | .allocate array | .define array _ => op.Gives array ∧ arena.isBound t array = false
  | .share source result => op.kind = .tensorToMemref ∧ op.operands.head? = some source ∧
      op.Gives result ∧ arena.isBound t result = false
  | .call _ => op.kind.resultCount? = none
  | .blockCall _ => op.kind.resultCount? = some 0
  | .accelerator operands _ => op.kind.resultCount? = some 0 ∧
      operands = op.operands.map (arena.use t)
  | .loop index lower upper step =>
      (op.kind = .scfFor ∨ ∃ lower upper step, op.kind = .affineFor lower upper step) ∧
      (∃ body rest args, op.regions = body :: rest ∧ body.args = index :: args) ∧
      (∀ id ∈ lower.values ++ upper.values ++ step.values, id ∈ op.operands ++ op.kind.mentioned) ∧
      lower.mentions ++ upper.mentions ++ step.mentions = []
  | .branch condition => (op.kind = .scfIf ∨ ∃ set, op.kind = .affineIf set) ∧ op.regions ≠ [] ∧
      (∀ id ∈ condition.values, id ∈ op.operands) ∧
      ∀ m ∈ condition.mentions, ∃ id ∈ op.operands, m = .use (arena.use t id)
  | .nest loops => (∃ lower upper steps, op.kind = .affineParallel lower upper steps) ∧
      (∃ body rest, op.regions = body :: rest ∧ loops.map NestLoop.index = body.args) ∧
      ∀ loop ∈ loops, ∀ id ∈ loop.lower.operands ++ loop.upper.operands, id ∈ op.kind.mentioned
  | .deliver results => op.kind.resultCount? = some 0 ∧ ∃ around, owner = some around ∧
      around.results = results ∧ (around.kind = .scfIf ∨ ∃ set, around.kind = .affineIf set)
  | .reduce around => op.kind.resultCount? = some 0 ∧ owner = some around ∧
      ∃ lower upper steps, around.kind = .affineParallel lower upper steps

section Plans

variable {arena : Arena} {t : NameTable} {owner : Option Op}

/-- The entry of a known value is its information. -/
theorem Arena.entry_of_known {id : ValueId} (h : (arena.info? id).isSome) :
    arena.entry id = .ok (arena.info id) := by
  obtain ⟨info, hinfo⟩ := Option.isSome_iff_exists.1 h
  simp [Arena.entry, Arena.info, hinfo]

/-- Of a known value it can be asked whether it is bound. -/
theorem Arena.checkBound_of_known {id : ValueId} (h : (arena.info? id).isSome) :
    arena.checkBound t id = .ok (arena.isBound t id) := by
  unfold Arena.checkBound Arena.isBound
  cases t.isDeclared id with
  | true => rfl
  | false =>
    rw [Arena.entry_of_known h, ← Emission.constantText?_info h]
    rfl

/-- A yield binds nothing, and plans whatever its owner asks for. -/
theorem admits_yield {inputs : List (UInt32 × UInt32)} {op : Op}
    (h : op.kind.resultCount? = some 0) :
    Admits (op.Planned arena t owner) (Obstacle.Within inputs) (planYield owner op.operands) := by
  unfold planYield
  split
  · exact .inl h
  · split
    · exact admits_problem (by simp) rfl
    · next around =>
      split
      · next hkind => exact ⟨h, around, rfl, rfl, .inl hkind⟩
      · next set hkind => exact ⟨h, around, rfl, rfl, .inr ⟨set, hkind⟩⟩
      · next lower upper steps hkind => exact ⟨h, rfl, lower, upper, steps, hkind⟩
      · exact admits_problem (by simp) rfl

/-- A scalar constant is bound, so only the constants of arrays are defined. -/
theorem admits_constant {inputs : List (UInt32 × UInt32)} {op : Op} {result : ValueId}
    (hknown : (arena.info? result).isSome) (hresult : op.Gives result) :
    Admits (op.Planned arena t owner) (Obstacle.Within inputs) (planConstant arena t result) := by
  unfold planConstant
  rw [Arena.checkBound_of_known hknown, Arena.entry_of_known hknown]
  -- Bound already, by its literal or as a result of the function: nothing is to be defined.
  cases hbound : arena.isBound t result with
  | true => exact .inr ⟨result, hresult, hbound⟩
  | false =>
    dsimp only [bind, Except.bind]
    rw [if_neg Bool.false_ne_true]
    split
    · split
      · exact admits_problem (by simp) rfl
      · split
        · exact admits_problem (by simp) rfl
        · split
          · exact ⟨hresult, hbound⟩
          · exact admits_problem (by simp) rfl
    · exact admits_problem (by simp) rfl

/-- The extent of a known array at a known index is found or refused. -/
theorem admits_dim {inputs : List (UInt32 × UInt32)} {array index : ValueId}
    (harray : (arena.info? array).isSome) (hindex : (arena.info? index).isSome) :
    Admits (fun _ => True) (Obstacle.Within inputs) (constantDim arena array index) := by
  unfold constantDim
  rw [Arena.entry_of_known harray, Arena.entry_of_known hindex]
  dsimp only [bind, Except.bind]
  split
  · split
    · exact admits_problem (by simp) rfl
    · split
      · trivial
      · exact admits_problem (by simp) rfl
  · exact admits_problem (by simp) rfl

/-- The rank of a known array is found or refused. -/
theorem admits_rank {inputs : List (UInt32 × UInt32)} {array : ValueId}
    (harray : (arena.info? array).isSome) :
    Admits (fun _ => True) (Obstacle.Within inputs) (constantRank arena array) := by
  unfold constantRank
  rw [Arena.entry_of_known harray]
  dsimp only [bind, Except.bind]
  split
  · trivial
  · exact admits_problem (by simp) rfl

/-! ## Accelerator blocks -/

/-- The operand that plays a role is one of the operands. -/
theorem Accelerator.Template.operand?_mem {template : Accelerator.Template}
    {operands : List Use} {role : String} {operand : Use}
    (h : template.operand? operands role = some operand) : operand ∈ operands := by
  rw [Accelerator.Template.operand?, List.lookup_eq_some_iff] at h
  obtain ⟨before, after, hzip, -⟩ := h
  have hmem : (role, operand) ∈ template.roles.zip operands := by rw [hzip]; simp
  exact (List.of_mem_zip hmem).2

/-- If there are as many operands as roles, there is one in the position of each role. -/
theorem Accelerator.Template.operandFor_eq {template : Accelerator.Template} {operands : List Use}
    (hcount : operands.length = template.roles.length) (role : String) :
    template.operandFor operands role = .ok (template.operand? operands role) := by
  unfold Accelerator.Template.operandFor
  cases hoperand : template.operand? operands role with
  | some operand => rfl
  | none =>
    refine if_neg fun hrole => ?_
    rw [Accelerator.Template.operand?, List.lookup_eq_none_iff] at hoperand
    have hroles : (template.roles.zip operands).map Prod.fst = template.roles :=
      List.map_fst_zip (Nat.le_of_eq hcount.symm)
    rw [← hroles, List.mem_map] at hrole
    obtain ⟨entry, hentry, rfl⟩ := hrole
    simpa using hoperand entry hentry

/-- Then a placeholder that is not replaced is no role. -/
theorem Accelerator.Template.unfilled_eq {template : Accelerator.Template} {operands : List Use}
    (hcount : operands.length = template.roles.length) (key : String) :
    template.unfilled operands key = .problem (.openPlaceholder template.routine key) := by
  rw [Accelerator.Template.unfilled, operandFor_eq hcount]

section Templates

variable {template : Accelerator.Template} {operands : List Use}
variable {inputs : List (UInt32 × UInt32)}
variable (hcount : operands.length = template.roles.length)
variable (hknown : ∀ operand ∈ operands, (arena.info? operand.value).isSome)

include hcount hknown

/-- One number of a template is found or refused. -/
theorem admits_extent (known : List (String × Int)) (key : String)
    (source : Accelerator.ExtentSource) :
    Admits (fun _ => True) (Obstacle.Within inputs)
      (template.extent arena operands known key source) := by
  cases source with
  | dim role dim =>
    unfold Accelerator.Template.extent
    dsimp only
    have hextent (extents : Option (List Int64)) :
        Admits (fun _ => True) (Obstacle.Within inputs)
          (template.staticExtent role dim extents) := by
      unfold Accelerator.Template.staticExtent
      split
      · trivial
      · exact admits_problem (by simp) rfl
    -- The count of the operands is right, so the operand of the role is there and no index
    -- overruns.
    rw [Accelerator.Template.operandFor_eq hcount]
    dsimp only [bind, Except.bind]
    split
    · next operand hoperand =>
      rw [Arena.entry_of_known (hknown operand (Accelerator.Template.operand?_mem hoperand))]
      exact hextent _
    · exact hextent none
  | product lhs rhs =>
    unfold Accelerator.Template.extent
    dsimp only
    split
    · trivial
    · exact admits_problem (by simp) rfl

/-- The numbers of a template are found or refused. -/
theorem admits_extents (known : List (String × Int))
    (sources : List (String × Accelerator.ExtentSource)) :
    Admits (fun _ => True) (Obstacle.Within inputs)
      (template.extentsFrom arena operands known sources) := by
  induction sources generalizing known with
  | nil => trivial
  | cons source rest ih =>
    exact .bind (admits_extent hcount hknown known source.1 source.2) fun value _ => ih _

omit hcount in
/-- A template of known operands is filled or refused. -/
theorem admits_fill :
    Admits (fun _ => True) (Obstacle.Within inputs) (template.fill arena operands) := by
  unfold Accelerator.Template.fill
  dsimp only
  split
  · exact admits_problem (by simp) rfl
  next hmatch =>
  have hcount : operands.length = template.roles.length := Decidable.not_not.1 hmatch
  have htype : Admits (fun _ => True) (Obstacle.Within inputs)
      (template.typeFor arena operands) := by
    unfold Accelerator.Template.typeFor
    rw [Accelerator.Template.operandFor_eq hcount]
    dsimp only [bind, Except.bind]
    split
    · next operand hoperand =>
      rw [Arena.entry_of_known (hknown operand (Accelerator.Template.operand?_mem hoperand))]
      trivial
    · trivial
  -- In the order of the source: the numbers, the type, then line after line.
  refine .bind (admits_extents hcount hknown _ _) fun extents _ => ?_
  refine .bind htype fun type _ => ?_
  refine .mono (@Admits.mapM _ _ (fun _ => True) _ _ _ fun line _ => ?_) fun _ _ => trivial
  cases Accelerator.substitute (template.lookup operands type extents) line with
  | ok text => trivial
  | error key =>
    dsimp only [Except.mapError]
    rw [Accelerator.Template.unfilled_eq hcount]
    exact admits_problem (by simp) rfl

end Templates

/-! ## Operations -/

/-- A formula mentions operands only. -/
theorem OpKind.HasFormula.values {kind : OpKind} {operands : List ValueId} {formula : Formula}
    (h : kind.HasFormula operands formula) : ∀ id ∈ formula.values, id ∈ operands := by
  cases h <;> simp [Formula.values]

/-- A kind with a formula has one result. -/
theorem OpKind.HasFormula.resultCount {kind : OpKind} {operands : List ValueId} {formula : Formula}
    (h : kind.HasFormula operands formula) : kind.resultCount? = some 1 := by
  cases h <;> rfl

section Operations

variable {op : Op} {rule : Except Obstacle Plan}

/-- The first result of an operation that has one result at most. -/
theorem Op.gives_of {result : ValueId} {rest : List ValueId}
    (hcount : op.kind.resultCount? = some 1) (hresults : op.results = result :: rest) :
    op.Gives result :=
  ⟨hcount, by rw [hresults]; rfl⟩

/-- The result of an operation is set to something over its operands. -/
theorem admits_scalar {inputs : List (UInt32 × UInt32)} {result : ValueId} {source : Place}
    (hresult : op.Gives result) (hvalues : ∀ id ∈ source.values, id ∈ op.operands)
    (hmentions : ∀ m ∈ source.mentions, ∃ id ∈ op.operands, m = .use (arena.use t id)) :
    Admits (op.Planned arena t owner) (Obstacle.Within inputs)
      (.ok (.assign (.scalar result) source)) :=
  ⟨hvalues, by simpa using hmentions, .inl ⟨result, hresult, rfl⟩⟩

/-- Subscripts that are code over some values mention only these. -/
theorem mentions_subscripts {codes : List Expr} {indices : List ValueId} (array : ValueId)
    (hcodes : ∀ code ∈ codes, ∀ m ∈ code.mentions, ∃ id ∈ indices, m = .use (arena.use t id))
    (hindices : ∀ id ∈ indices, id ∈ op.operands) :
    ∀ m ∈ (Place.elementAt array codes).mentions, ∃ id ∈ op.operands, m = .use (arena.use t id) := by
  intro m hm
  rw [Place.mentions_elementAt, Code.mem_mentionsOfExprs] at hm
  obtain ⟨code, hcode, hm⟩ := hm
  obtain ⟨id, hid, rfl⟩ := hcodes code hcode m hm
  exact ⟨id, hindices id hid, rfl⟩

/-- A loop between affine bounds mentions what the bounds are about. -/
theorem admits_affineFor {lower upper : AffineBound} {step : Int64} {body : Block}
    {regions : List Block} (hkind : op.kind = .affineFor lower upper step)
    (hregions : op.regions = body :: regions) :
    Admits (op.Planned arena t owner) (Obstacle.Within op.kind.inputs) (do
      let lowers ← lower.check 1
      let uppers ← upper.check 1
      return .loop (← body.checkIndex) (.affine "max" lowers) (.affine "min" uppers)
        (.code (.integer step.toInt))) := by
  refine .bind (admits_bound (by simp [hkind, OpKind.inputs])) fun lowers hlowers => ?_
  refine .bind (admits_bound (by simp [hkind, OpKind.inputs])) fun uppers huppers => ?_
  refine .bind admits_index fun index hindex => ?_
  obtain ⟨args, hargs⟩ := hindex
  refine ⟨.inr ⟨lower, upper, step, hkind⟩, ⟨body, regions, args, hregions, hargs⟩, ?_, rfl⟩
  -- each value of a bound stands for the operands of the bound
  intro id hid
  simp only [Term.values, List.append_nil, List.mem_append, List.mem_flatMap] at hid
  rw [hkind, OpKind.mentioned, List.mem_append, List.mem_append]
  rcases hid with ⟨value, hvalue, hid⟩ | ⟨value, hvalue, hid⟩
  · rw [hlowers.1] at hvalue
    exact .inr (.inl (AffineBound.operands_of_mem_values hvalue ▸ hid))
  · rw [huppers.1] at hvalue
    exact .inr (.inr (AffineBound.operands_of_mem_values hvalue ▸ hid))

/-- A nest mentions what its bounds are about. -/
theorem admits_affineParallel {lower upper : AffineBound} {steps : List Int64} {body : Block}
    {regions : List Block} (hkind : op.kind = .affineParallel lower upper steps)
    (hregions : op.regions = body :: regions) :
    Admits (op.Planned arena t owner) (Obstacle.Within op.kind.inputs)
      (planNest lower upper steps body) := by
  refine (admits_nest (by simp [hkind, OpKind.inputs]) (by simp [hkind, OpKind.inputs])).mono ?_
  rintro plan ⟨loops, rfl, hindices, hoperands⟩
  refine ⟨⟨lower, upper, steps, hkind⟩, ⟨body, regions, hregions, hindices⟩, fun loop hloop id hid => ?_⟩
  obtain ⟨hlower, hupper⟩ := hoperands loop hloop
  rw [hkind, OpKind.mentioned]
  rwa [hlower, hupper] at hid

/-- What a rule takes of an operation are parts of the operation, and nothing is looked up in vain. -/
theorem Op.Ruled.admits (h : op.Ruled arena t owner rule)
    (hoperands : ∀ id ∈ op.operands, (arena.info? id).isSome)
    (hresults : ∀ id ∈ op.results, (arena.info? id).isSome) :
    Admits (op.Planned arena t owner) (Obstacle.Within op.kind.inputs) rule := by
  cases h with
  -- loops and conditionals
  | scfFor hkind hops hregs =>
    refine .bind admits_index fun index hindex => ?_
    obtain ⟨args, hargs⟩ := hindex
    exact ⟨.inl hkind, ⟨_, _, args, hregs, hargs⟩, by simp [hops, Term.values], rfl⟩
  | scfIf hkind hops hregs =>
    exact ⟨.inl hkind, by simp [hregs], by simp [hops, Term.values], by simp [Term.mentions]⟩
  | affineFor hkind hregs => exact admits_affineFor hkind hregs
  | affineIf hkind hregs =>
    refine .bind (admits_set (by simp [hkind, OpKind.inputs])) fun code hcode => ?_
    exact ⟨.inr ⟨_, hkind⟩, by simp [hregs], by simp [Term.values], hcode⟩
  | affineParallel hkind hregs => exact admits_affineParallel hkind hregs
  | yield hkind => exact admits_yield (by rcases hkind with hkind | hkind <;> rw [hkind] <;> rfl)
  -- results of maps
  | affineApply hkind hress =>
    have hgives : op.Gives _ := Op.gives_of (by rw [hkind]; rfl) hress
    refine .bind (admits_first (by simp [hkind, OpKind.inputs])) fun code hcode => ?_
    exact admits_scalar hgives (by simp) (by simpa using hcode)
  | @affineExtremum map function result rest hkind hress =>
    have hinputs : (map.dims, map.symbols) ∈ op.kind.inputs := by
      rcases hkind with ⟨hkind, -⟩ | ⟨hkind, -⟩ <;> simp [hkind, OpKind.inputs]
    have hcount : op.kind.resultCount? = some 1 := by
      rcases hkind with ⟨hkind, -⟩ | ⟨hkind, -⟩ <;> rw [hkind] <;> rfl
    refine .bind (admits_map hinputs) fun codes hcodes => ?_
    refine admits_scalar (Op.gives_of hcount hress) (by simp) fun m hm => ?_
    rw [Place.mentions_code, Expr.mentions_nestedCalls, Code.mem_mentionsOfExprs] at hm
    obtain ⟨code, hcode, hm⟩ := hm
    exact hcodes.2 code hcode m hm
  | @affineLoad map array indices result rest hkind hops hress =>
    have hgives : op.Gives result := Op.gives_of (by rw [hkind]; rfl) hress
    refine .bind (admits_map (by simp [hkind, OpKind.inputs])) fun codes hcodes => ?_
    exact admits_scalar hgives (by simp [hops])
      (mentions_subscripts array hcodes.2 fun id hid => by simp [hops, hid])
  | @affineStore map value array indices hkind hops =>
    refine .bind (admits_map (by simp [hkind, OpKind.inputs])) fun codes hcodes => ?_
    refine ⟨by simp [hops], ?_, .inr ⟨by rw [hkind]; rfl, by simp [hops]⟩⟩
    rw [Place.mentions_scalar, List.append_nil]
    exact mentions_subscripts array hcodes.2 fun id hid => by simp [hops, hid]
  -- elements and arrays
  | load hkind hops hress =>
    exact admits_scalar (Op.gives_of (by rw [hkind]; rfl) hress) (by simp [hops]) (by simp)
  | store hkind hops =>
    refine ⟨by simp [hops], by simp, .inr ⟨by rw [hkind]; rfl, fun id hid => ?_⟩⟩
    rw [hops]
    exact List.mem_cons_of_mem _ (by simpa using hid)
  | @alloc result rest hkind hress =>
    have hgives : op.Gives result :=
      Op.gives_of (by rcases hkind with hkind | hkind <;> rw [hkind] <;> rfl) hress
    rw [Arena.checkBound_of_known (hresults result (List.mem_of_head? hgives.head))]
    cases hbound : arena.isBound t result with
    | true => exact .inr ⟨result, hgives, hbound⟩
    | false => exact ⟨hgives, hbound⟩
  | tensorStore hkind hops =>
    exact ⟨by simp [hops, Formula.values], .inr ⟨by rw [hkind]; rfl, by simp [hops]⟩⟩
  | @tensorToMemref source result rest others hkind hops hress =>
    have hgives : op.Gives result := Op.gives_of (by rw [hkind]; rfl) hress
    rw [Arena.checkBound_of_known (hresults result (List.mem_of_head? hgives.head))]
    cases hbound : arena.isBound t result with
    | true => exact ⟨by simp [hops, Formula.values], .inl hgives⟩
    | false => exact ⟨hkind, by rw [hops]; rfl, hgives, hbound⟩
  | constant hkind hress =>
    have hgives : op.Gives _ := Op.gives_of (by rw [hkind]; rfl) hress
    exact admits_constant (hresults _ (List.mem_of_head? hgives.head)) hgives
  | @dim array index result rest others hkind hops hress =>
    have hgives : op.Gives result := Op.gives_of (by rw [hkind]; rfl) hress
    have harray := hoperands array (by simp [hops])
    have hindex := hoperands index (by simp [hops])
    refine .bind (admits_dim harray hindex) fun extent _ => ?_
    exact admits_scalar hgives (by simp) (by simp)
  | @rank array result rest others hkind hops hress =>
    have hgives : op.Gives result := Op.gives_of (by rw [hkind]; rfl) hress
    refine .bind (admits_rank (hoperands array (by simp [hops]))) fun extent _ => ?_
    exact admits_scalar hgives (by simp) (by simp)
  -- computations
  | compute hkind hress => exact ⟨hkind.values, .inl (Op.gives_of hkind.resultCount hress)⟩
  | incomparable => exact admits_problem (by simp) rfl
  | cast hkind hops hress =>
    exact admits_scalar (Op.gives_of (by rw [hkind]; rfl) hress) (by simp [hops]) (by simp)
  -- calls, and what is not written
  | call hkind => exact (by rw [hkind]; rfl : op.kind.resultCount? = none)
  | accelerator hkind =>
    have hknown : ∀ operand ∈ op.operands.map (arena.use t),
        (arena.info? operand.value).isSome := by
      simpa [Arena.use] using hoperands
    exact .bind (admits_fill hknown) fun lines _ => ⟨by rw [hkind]; rfl, rfl⟩
  | blockCall hkind => exact (by rw [hkind]; rfl : op.kind.resultCount? = some 0)
  | silent hkind => exact .inl (by rcases hkind with hkind | hkind | hkind <;> rw [hkind] <;> rfl)
  | unknown => exact admits_problem (by simp) rfl

/-- What a plan is made of, and what may be in its way. -/
theorem Op.plan_admits (hoperands : ∀ id ∈ op.operands, (arena.info? id).isSome)
    (hresults : ∀ id ∈ op.results, (arena.info? id).isSome) :
    Admits (op.Planned arena t owner) (Obstacle.Within op.kind.inputs)
      (op.plan arena t owner) := by
  unfold Op.plan
  split
  · next hcovers => exact (Op.ruled hcovers).admits hoperands hresults
  · exact admits_problem (by simp) rfl

end Operations

end Plans

end HlsEmit
