import HlsEmit.Proofs.Account.Admission

/-!
# When problems are found

Emission meets problems at different times: before anything is emitted, when it looks at the blocks
of a function or writes its signature, when it counts the parts of an operation and then admits it,
and while it writes. Every problem belongs to one of these stages, and no stage reports the problems
of another one.

This module is about admission: the checks in front of an operation fail because of problems of that
stage only, once its parts were counted.

## Key results

- `Problem.stage_of_arity`: the report of what an operation lacks is that of no other problem
- `Op.plan_checks`: only problems of admission are in the way of an operation that has its parts
-/

namespace HlsEmit

/-- When a problem is found. -/
inductive Stage where
  /-- Before the emission, in the value table. -/
  | table
  /-- Before the signature of a function is complete, in its blocks. -/
  | function
  /-- When a returned value is added to the signature of a function. -/
  | signature
  /-- When the operands, the results and the regions of an operation are counted. -/
  | counting
  /-- When the rule of an operation looks at its parts, before a line of it is written. -/
  | admission
  /-- Where a value is mentioned or the loops over its elements are written. -/
  | writing
deriving DecidableEq, Repr

/-- The stage that finds a problem. -/
def Problem.stage : Problem → Stage
  | .dangling _ => .table
  | .blockCount _ | .returnCount _ | .unterminated => .function
  | .boundInSignature _ => .signature
  | .arity .. => .counting
  | .boundShape .. | .setShape .. | .noNestIndices | .stepCount .. | .mapShape .. | .noLoopIndex
  | .roleCount .. | .openPlaceholder .. | .dynamicDim _ | .missingExtent .. | .extentOverflow ..
  | .dimRange .. | .dimNotConstant | .unranked _ | .constantPayload _ | .denseElement _
  | .noOperator _ | .denseElemType _ | .noRule _ | .yieldToOp _ | .yieldToFunction => .admission
  | .naming _ | .yieldCount .. | .dynamicShape _ | .noElemType .. | .noReduction _
  | .noMemoryCore .. => .writing

/-- The code of a missing value is that of no other problem. -/
theorem Problem.stage_of_code {problem : Problem} (h : problem.code = "E0106") :
    problem.stage = .table := by
  cases problem <;> simp [Problem.code] at h ⊢
  rfl

/-! ### Missing parts -/

/-- Read from behind without its number, a text that ends with one goes on with what is in front. -/
theorem dropWhile_number (front : String) {between : String} {c : Char} {rest : List Char}
    (hbetween : between.toList.reverse = c :: rest) (hc : c.isDigit = false) (n : Nat) :
    (front ++ between ++ toString n).toList.reverse.dropWhile Char.isDigit =
      c :: (rest ++ front.toList.reverse) := by
  have hdigits : ∀ d ∈ (toString n).toList.reverse, d.isDigit = true := by
    intro d hd
    have hd' : d ∈ Nat.toDigits 10 n := by simpa [toString, Nat.repr] using hd
    exact Nat.isDigit_of_mem_toDigits (by decide) (by decide) hd'
  rw [String.toList_append, String.toList_append, List.reverse_append, List.reverse_append,
    hbetween, List.dropWhile_append_of_pos hdigits, List.cons_append,
    List.dropWhile_cons_of_neg (by simp [hc])]

/-- A text ends without digits if the word at its end does. -/
theorem dropWhile_word (front : String) {word : String} {c : Char} {rest : List Char}
    (hword : word.toList.reverse = c :: rest) (hc : c.isDigit = false) :
    (front ++ word).toList.reverse.dropWhile Char.isDigit =
      c :: (rest ++ front.toList.reverse) := by
  rw [String.toList_append, List.reverse_append, hword, List.cons_append,
    List.dropWhile_cons_of_neg (by simp [hc])]

/-- The report of what an operation lacks is that of no other problem. -/
theorem Problem.stage_of_arity {problem : Problem} {needed found : Counts} {origin origin' : Origin}
    (h : problem.report origin = (Problem.arity needed found).report origin') :
    problem.stage = .counting := by
  have hcode : problem.code = "E0105" := Option.some.inj (congrArg Diagnostic.code h)
  have hmessage : problem.message = (Problem.arity needed found).message :=
    congrArg Diagnostic.message h
  -- of all messages with this code, only this one ends with a comma and a number
  obtain ⟨front, hfront⟩ : ∃ front, (Problem.arity needed found).message =
      front ++ ", " ++ toString found.regions := ⟨_, rfl⟩
  have hcomma : ", ".toList.reverse = [' ', ','] := rfl
  have hbehind := dropWhile_number front hcomma rfl found.regions
  rw [← hfront, ← hmessage] at hbehind
  cases problem with
  | arity => rfl
  | noLoopIndex =>
    have hbefore : Problem.noLoopIndex.message = "loop body has no induction " ++ "variable" := by
      decide
    rw [hbefore, dropWhile_word _ rfl rfl] at hbehind
    cases hbehind
  | yieldCount values results =>
    obtain ⟨before, hbefore⟩ : ∃ before, (Problem.yieldCount values results).message =
      before ++ " result(s)" := ⟨_, rfl⟩
    rw [hbefore, dropWhile_word before rfl rfl] at hbehind
    cases hbehind
  | roleCount routine roles operands =>
    obtain ⟨before, hbefore⟩ : ∃ before, (Problem.roleCount routine roles operands).message =
      before ++ "); found " ++ toString operands := ⟨_, rfl⟩
    rw [hbefore, dropWhile_number before rfl rfl] at hbehind
    cases hbehind
  | openPlaceholder routine key =>
    obtain ⟨before, hbefore⟩ : ∃ before, (Problem.openPlaceholder routine key).message =
      before ++ "`" := ⟨_, rfl⟩
    rw [hbefore, dropWhile_word before rfl rfl] at hbehind
    cases hbehind
  | _ => simp [Problem.code] at hcode

/-! ## Admission -/

/-- Whether something in the way of an operation is found by admission. -/
def Obstacle.OfAdmission : Obstacle → Prop
  | .problem p => p.stage = .admission
  | .overrun _ => True

/-- A check that fails because of a problem of admission, if at all. -/
abbrev Checks {α : Type} (x : Except Obstacle α) : Prop :=
  Admits (fun _ => True) Obstacle.OfAdmission x

section Checks

variable {α : Type} {arena : Arena} {t : NameTable}

/-- A value is not in the way. -/
theorem checks_ok (value : α) : Checks (.ok value) := trivial

/-- A problem of admission is one. -/
theorem checks_problem {p : Problem} (h : p.stage = .admission) :
    Checks (throw (.problem p) : Except Obstacle α) := h

/-- An overrun is no problem. -/
theorem checks_overrun (missing : Overrun) :
    Checks (throw (.overrun missing) : Except Obstacle α) := trivial

/-- What is made of the result of a check. -/
theorem Admits.checked {β : Type} {x : Except Obstacle α} (f : α → β) (hx : Checks x) :
    Checks (do return f (← x)) :=
  .bind hx fun value _ => checks_ok (f value)

/-- Looking a value up is no problem. -/
theorem checks_entry (id : ValueId) : Checks (arena.entry id) := by
  unfold Arena.entry
  split
  · exact checks_ok _
  · exact checks_overrun _

/-- Asking for a name is no problem. -/
theorem checks_bound (id : ValueId) : Checks (arena.checkBound t id) := by
  unfold Arena.checkBound
  split
  · exact checks_ok _
  · exact (checks_entry id).checked _

/-! ### Maps, bounds and sets -/

/-- Counting inputs is no problem. -/
theorem checks_countInputs (dims symbols : UInt32) : Checks (countInputs dims symbols) := by
  unfold countInputs
  dsimp only
  split
  · exact checks_ok _
  · exact checks_overrun _

/-- A bound that does not fit is a problem of admission. -/
theorem checks_affineBound (bound : AffineBound) (needed : Nat) : Checks (bound.check needed) := by
  refine .bind (checks_countInputs ..) fun inputs _ => ?_
  split
  · exact checks_ok _
  · exact checks_problem rfl

/-- A map that does not fit is a problem of admission. -/
theorem checks_map (map : AffineMap) (operands : List ValueId) :
    Checks (map.check arena t operands) := by
  refine .bind (checks_countInputs ..) fun inputs _ => ?_
  split
  · exact checks_ok _
  · exact checks_problem rfl

/-- A map without results, or with other inputs, is a problem of admission. -/
theorem checks_mapFirst (map : AffineMap) (operands : List ValueId) :
    Checks (map.checkFirst arena t operands) := by
  refine .bind (checks_map ..) fun codes _ => ?_
  split
  · exact checks_ok _
  · exact checks_overrun _

/-- A set with other inputs is a problem of admission. -/
theorem checks_set (set : IntegerSet) (operands : List ValueId) :
    Checks (set.check arena t operands) := by
  refine .bind (checks_countInputs ..) fun inputs _ => ?_
  split
  · exact checks_ok _
  · exact checks_problem rfl

/-! ### Loops and yields -/

/-- A body without an index is a problem of admission. -/
theorem checks_index (body : Block) : Checks body.checkIndex := by
  unfold BlockOf.checkIndex
  split
  · exact checks_problem rfl
  · exact checks_ok _

/-- The loops of a nest overrun at most. -/
theorem checks_loops (indices : List ValueId) (lowers uppers : List AffineValue)
    (steps : List Int64) : Checks (nestLoops indices lowers uppers steps) := by
  fun_induction nestLoops indices lowers uppers steps with
  | case1 => exact checks_ok _
  | case2 index indices lower lowers upper uppers step steps ih => exact ih.checked _
  | case3 => exact checks_overrun _

/-- A nest that lacks a part is a problem of admission. -/
theorem checks_nest (lower upper : AffineBound) (steps : List Int64) (body : Block) :
    Checks (planNest lower upper steps body) := by
  unfold planNest
  dsimp only
  split
  · exact checks_problem rfl
  refine .bind (checks_affineBound ..) fun lowers _ => ?_
  refine .bind (checks_affineBound ..) fun uppers _ => ?_
  split
  · exact checks_problem rfl
  · exact (checks_loops ..).checked _

/-- A yield in a wrong place is a problem of admission. -/
theorem checks_yield (owner : Option Op) (operands : List ValueId) :
    Checks (planYield owner operands) := by
  unfold planYield
  split
  · exact checks_ok _
  split
  · exact checks_problem rfl
  split
  · exact checks_ok _
  · exact checks_ok _
  · exact checks_ok _
  · exact checks_problem rfl

/-! ### Values -/

/-- A constant that cannot be written is a problem of admission. -/
theorem checks_constant (result : ValueId) : Checks (planConstant arena t result) := by
  refine .bind (checks_bound result) fun bound _ => ?_
  split
  · exact checks_ok _
  refine .bind (checks_entry result) fun info _ => ?_
  split
  -- A dense literal is checked for its shape, its type and the texts of its elements.
  · by_cases hscalar : (!info.isShaped) = true
    · rw [if_pos hscalar]
      exact checks_problem rfl
    rw [if_neg hscalar]
    by_cases htype : info.elem.cppName?.isNone = true
    · rw [if_pos htype]
      exact checks_problem rfl
    rw [if_neg htype]
    split
    · exact checks_ok _
    · exact checks_problem rfl
  · exact checks_problem rfl

/-- An extent that is not known is a problem of admission. -/
theorem checks_dim (array index : ValueId) : Checks (constantDim arena array index) := by
  refine .bind (checks_entry array) fun info _ => ?_
  refine .bind (checks_entry index) fun position _ => ?_
  split
  · split
    · exact checks_problem rfl
    · split
      · exact checks_ok _
      · exact checks_problem rfl
  · exact checks_problem rfl

/-- A rank that is not known is a problem of admission. -/
theorem checks_rank (array : ValueId) : Checks (constantRank arena array) := by
  refine .bind (checks_entry array) fun info _ => ?_
  split
  · exact checks_ok _
  · exact checks_problem rfl

/-! ### Accelerators -/

section Templates

variable (template : Accelerator.Template) (operands : List Use)

/-- An extent that is not static is a problem of admission. -/
theorem checks_staticExtent (role : String) (dim : Nat) (extents : Option (List Int64)) :
    Checks (template.staticExtent role dim extents) := by
  unfold Accelerator.Template.staticExtent
  split
  · exact checks_ok _
  · exact checks_problem rfl

/-- The operand of a role is there or overruns. -/
theorem checks_operandFor (role : String) : Checks (template.operandFor operands role) := by
  unfold Accelerator.Template.operandFor
  split
  · exact checks_ok _
  · split
    · exact trivial
    · exact checks_ok _

/-- A number that is not known is a problem of admission. -/
theorem checks_extent (known : List (String × Int)) (key : String)
    (source : Accelerator.ExtentSource) :
    Checks (template.extent arena operands known key source) := by
  unfold Accelerator.Template.extent
  split
  · refine .bind (checks_operandFor ..) fun operand _ => ?_
    split
    · exact .bind (checks_entry _) fun info _ => checks_staticExtent ..
    · exact .bind (checks_ok none) fun extents _ => checks_staticExtent ..
  · dsimp only
    split
    · exact checks_ok _
    · exact checks_problem rfl

/-- Numbers that are not known are problems of admission. -/
theorem checks_extents (known : List (String × Int))
    (sources : List (String × Accelerator.ExtentSource)) :
    Checks (template.extentsFrom arena operands known sources) := by
  induction sources generalizing known with
  | nil => exact checks_ok _
  | cons source rest ih => exact .bind (checks_extent ..) fun value _ => ih _

/-- The type is no problem. -/
theorem checks_type : Checks (template.typeFor arena operands) := by
  unfold Accelerator.Template.typeFor
  refine .bind (checks_operandFor ..) fun operand _ => ?_
  split
  · exact (checks_entry _).checked _
  · exact checks_ok _

/-- An accelerator that cannot be filled in is a problem of admission. -/
theorem checks_fill : Checks (template.fill arena operands) := by
  unfold Accelerator.Template.fill
  dsimp only
  split
  · exact checks_problem rfl
  refine .bind (checks_extents ..) fun extents _ => ?_
  refine .bind (checks_type ..) fun type _ => ?_
  refine .mono (@Admits.mapM _ _ (fun _ => True) _ _ _ fun line _ => ?_) fun _ _ => trivial
  -- A line is filled in, or stops at a key; the key of a role that has no operand overruns.
  cases Accelerator.substitute (template.lookup operands type extents) line with
  | ok text => exact checks_ok _
  | error key =>
    have hkey := checks_operandFor template operands key
    dsimp only [Except.mapError]
    unfold Accelerator.Template.unfilled
    cases hoperand : template.operandFor operands key with
    | ok operand => exact checks_problem rfl
    | error obstacle =>
      rw [hoperand] at hkey
      exact hkey

end Templates

/-! ### Operations -/

/-- What is in the way of the rule of an operation is a problem of admission. -/
theorem Op.Ruled.checks {op : Op} {owner : Option Op} {rule : Except Obstacle Plan}
    (h : op.Ruled arena t owner rule) : Checks rule := by
  -- Each rule by the check that it makes.
  cases h with
  | scfFor => exact (checks_index _).checked _
  | affineFor =>
    refine .bind (checks_affineBound ..) fun lowers _ => ?_
    refine .bind (checks_affineBound ..) fun uppers _ => ?_
    exact (checks_index _).checked _
  | affineIf => exact (checks_set ..).checked _
  | affineParallel => exact checks_nest ..
  | yield => exact checks_yield ..
  | affineApply => exact (checks_mapFirst ..).checked _
  | affineExtremum | affineLoad | affineStore => exact (checks_map ..).checked _
  | alloc | tensorToMemref => exact (checks_bound _).checked _
  | dim => exact (checks_dim ..).checked _
  | rank => exact (checks_rank _).checked _
  | constant => exact checks_constant _
  | accelerator => exact (checks_fill ..).checked _
  | incomparable | unknown => exact checks_problem rfl
  | scfIf | load | store | compute | tensorStore | cast | call | blockCall | silent =>
    exact checks_ok _

/-- Only problems of admission are in the way of an operation that has its parts. -/
theorem Op.plan_checks (op : Op) (owner : Option Op)
    (hcovers : op.counts.covers op.kind.needs = true) : Checks (op.plan arena t owner) := by
  rw [Op.plan, if_pos hcovers]
  exact (Op.ruled hcovers).checks

/-- An operation without its parts has no plan. -/
theorem Op.plan_of_lacking {op : Op} (owner : Option Op)
    (hlacking : op.counts.covers op.kind.needs = false) :
    op.plan arena t owner = .error (.problem (.arity op.kind.needs op.counts)) := by
  rw [Op.plan, if_neg (Bool.eq_false_iff.1 hlacking)]

/-- What is in the way of a plan is found when the parts of the operation are counted or when it is
admitted. -/
theorem Op.stage_of_plan {op : Op} {owner : Option Op} {p : Problem}
    (hplan : op.plan arena t owner = .error (.problem p)) :
    p.stage = .counting ∨ p.stage = .admission := by
  cases hcovers : op.counts.covers op.kind.needs with
  | false =>
    rw [Op.plan_of_lacking owner hcovers] at hplan
    cases hplan
    exact .inl rfl
  | true =>
    have hchecks : Checks (op.plan arena t owner) := op.plan_checks owner hcovers
    rw [hplan] at hchecks
    exact .inr hchecks

end Checks

end HlsEmit
