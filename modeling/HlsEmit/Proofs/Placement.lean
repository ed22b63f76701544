import HlsEmit.Execution.Evaluation
import HlsEmit.Proofs.Pragmas.Binds
import HlsEmit.Proofs.Turns

/-!
# The placement of arrays

The pragmas of an array on the chip name its memory core and split its dimensions into banks. They are
written for the ports of a top function, and at the turn of each operation that allocates an array or
gives a buffer another value. If no argument is given twice, each array gets its pragmas at most once,
and all of them. No other array has any, however it is declared.

## Key results

- `Module.arrays_placed`: the placing pragmas of each function, in order
- `Function.PlacedAs.placement`: all pragmas that place one array
-/

namespace HlsEmit

open Code

/-! ## Placing pragmas -/

/-- The array that a pragma places. -/
def Code.Pragma.array? : Pragma → Option ValueId
  | .resource array _ | .partition array _ _ _ => some array.value
  | _ => none

/-- The pragmas in some code that place arrays. -/
def Code.placementsOf (stmts : List Stmt) : List Pragma :=
  (pragmasOfStmts stmts).filter fun pragma => pragma.array?.isSome

/-- All pragmas that place an array. -/
def ValueInfo.placement (info : ValueInfo) (array : Use) : List Pragma :=
  .resource array info.core :: info.partitions array

/-- Whether a value is placed on the chip. -/
def Arena.isOnChip (arena : Arena) (id : ValueId) : Bool :=
  (arena.info id).memory.isOnChip

/-- The pragmas that place the arrays of some uses. -/
def Arena.placements (arena : Arena) (arrays : List Use) : List Pragma :=
  arrays.flatMap fun array => (arena.info array.value).placement array

/-- The array that an operation makes and places at its turn: it is on the chip, and it has neither a
name nor a literal. -/
def Dispatch.array? (arena : Arena) (turn : Dispatch) : Option ValueId :=
  if turn.op.kind.form = .array then
    turn.op.results.head?.filter fun id => arena.isOnChip id && !arena.isBound turn.names id
  else none

/-- The arrays that are placed at some turns. -/
def arraysOf (arena : Arena) (turns : List Dispatch) : List ValueId :=
  turns.filterMap (Dispatch.array? arena)

/-- The placing pragmas of an array are about that array. -/
theorem ValueInfo.array?_of_mem {info : ValueInfo} {array : Use} {pragma : Pragma}
    (h : pragma ∈ info.placement array) : pragma.array? = some array.value := by
  rw [placement, List.mem_cons] at h
  rcases h with rfl | h
  · rfl
  · obtain ⟨entry, -, hentry⟩ := List.mem_filterMap.1 h
    unfold DimPartition.pragma? at hentry
    split at hentry
    · cases hentry
    · cases hentry
      rfl

/-- Placing pragmas are collected from left to right. -/
@[simp] theorem Code.placementsOf_append (stmts stmts' : List Stmt) :
    placementsOf (stmts ++ stmts') = placementsOf stmts ++ placementsOf stmts' := by
  simp [placementsOf]

/-- A loop has the placing pragmas of its body. -/
theorem Code.placementsOf_loop (head : LoopHead) (note : Option Note) (body : List Stmt)
    (closing : Option Note) : placementsOf [.loop head note body closing] = placementsOf body := by
  simp [placementsOf, pragmasOfStmts, Stmt.pragmas]

/-- A conditional has the placing pragmas of its branches. -/
theorem Code.placementsOf_branch (condition : Expr) (note : Option Note) (onTrue : List Stmt)
    (onFalse : Option (List Stmt)) : placementsOf [.branch condition note onTrue onFalse] =
      placementsOf onTrue ++ placementsOf (onFalse.getD []) := by
  cases onFalse <;> simp [placementsOf, pragmasOfStmts, Stmt.pragmas]

/-- Scheduling a loop places no array. -/
theorem OpAttrs.placementsOf_loopPragmas (attrs : OpAttrs) : placementsOf attrs.loopPragmas = [] := by
  cases hpipeline : attrs.pipeline <;> cases hunroll : attrs.unroll <;>
    simp [loopPragmas, hpipeline, hunroll] <;> rfl

/-- Statements without pragmas place nothing. -/
theorem Code.Unmarked.placements {stmts : List Stmt} (h : Unmarked stmts) : placementsOf stmts = [] := by
  rw [placementsOf, h.pragmas, List.filter_nil]

/-- The pragmas of an array place it, and nothing else. -/
theorem ValueInfo.placementsOf_memoryPragmas (info : ValueInfo) (array : Use) :
    placementsOf (info.memoryPragmas array) = info.placement array := by
  have hblank : placementsOf [.blank] = [] := rfl
  rw [memoryPragmas_eq, placementsOf_append, hblank, List.append_nil, placementsOf,
    pragmasOfStmts_map, placement]
  exact List.filter_eq_self.2 fun pragma hpragma => by rw [array?_of_mem hpragma, Option.isSome_some]

namespace Emission

variable {α β : Type} {arena : Arena} {scope : Scope} {t : NameTable} {id : ValueId}

/-! ## Placing emissions -/

/-- Between two tables, an emission has written these placing pragmas: all those of some arrays, which
are the ones that are placed at its turns. None of them was bound before, and all of them are bound
behind. -/
structure Fills (arena : Arena) (t : NameTable) (pragmas : List Pragma) (o : Outcome α) : Prop where
  placed : ∃ uses : List Use, uses.map Use.value = arraysOf arena o.dispatched ∧
    pragmas = arena.placements uses
  distinct : (arraysOf arena o.dispatched).Nodup
  kept : ∀ id, arena.isBound t id = true → arena.isBound o.names id = true
  fresh : ∀ id ∈ arraysOf arena o.dispatched, arena.isBound t id = false
  bound : ∀ id ∈ arraysOf arena o.dispatched, arena.isBound o.names id = true

namespace Fills

variable {pragmas pragmas' : List Pragma} {o : Outcome α} {o' : Outcome β}

/-- Where nothing is placed, only the names have to be kept. -/
theorem of_none (harrays : arraysOf arena o.dispatched = [])
    (hkept : ∀ id, arena.isBound t id = true → arena.isBound o.names id = true) :
    Fills arena t [] o where
  placed := ⟨[], by rw [harrays]; rfl, rfl⟩
  distinct := by rw [harrays]; exact .nil
  kept := hkept
  fresh := by simp [harrays]
  bound := by simp [harrays]

/-- What notes no turn places nothing. -/
theorem of_built {e : Emission α} (h : Built False e) : Fills arena t [] (e.run scope t) :=
  of_none (by rw [h.dispatched]; rfl) fun _ hid => h.bound hid

/-- Two emissions, one after the other, place different arrays. -/
theorem andThen (h : Fills arena t pragmas o) (h' : Fills arena o.names pragmas' o') :
    Fills arena t (pragmas ++ pragmas') (o.andThen o') := by
  have harrays : arraysOf arena (o.andThen o').dispatched =
      arraysOf arena o.dispatched ++ arraysOf arena o'.dispatched := List.filterMap_append
  obtain ⟨uses, huses, hpragmas⟩ := h.placed
  obtain ⟨uses', huses', hpragmas'⟩ := h'.placed
  constructor
  · refine ⟨uses ++ uses', ?_, ?_⟩
    · rw [harrays, List.map_append, huses, huses']
    · rw [hpragmas, hpragmas', Arena.placements, Arena.placements, Arena.placements,
        List.flatMap_append]
  · -- what the first one placed is bound when the second one starts
    rw [harrays]
    refine List.nodup_append.2 ⟨h.distinct, h'.distinct, fun id hid other hother heq => ?_⟩
    have hbound := h.bound id hid
    rw [heq, h'.fresh other hother] at hbound
    cases hbound
  · exact fun id hid => h'.kept id (h.kept id hid)
  · -- what is free in between was free before, since names are kept
    rw [harrays, List.forall_mem_append]
    refine ⟨h.fresh, fun id hid => Bool.eq_false_iff.2 fun hbefore => ?_⟩
    have hbound := h.kept id hbefore
    rw [h'.fresh id hid] at hbound
    cases hbound
  · rw [harrays, List.forall_mem_append]
    exact ⟨fun id hid => h'.kept id (h.bound id hid), h'.bound⟩

end Fills

/-- Without errors, an emission writes the pragmas of the arrays that are placed at its turns. `post`
is about its code and these pragmas. -/
def Placing (arena : Arena) (e : Emission α) (post : α → List Pragma → Prop) : Prop :=
  ∀ function t, (e.run ⟨arena, function⟩ t).Clean →
    ∃ pragmas, Fills arena t pragmas (e.run ⟨arena, function⟩ t) ∧
      post (e.run ⟨arena, function⟩ t).value pragmas

namespace Placing

variable {e : Emission α} {next : α → Emission β} {post : α → List Pragma → Prop}
variable {postNext : β → List Pragma → Prop} {plain : α → Prop}

/-- An emission without turns. -/
theorem ofBuilt (h : Built False e) (hpost : Cleanly e fun value => post value []) :
    Placing arena e post :=
  fun _ _ hclean => ⟨[], .of_built h, hpost _ _ hclean⟩

/-- What follows adds its pragmas behind. -/
theorem bind (h : Placing arena e post)
    (hnext : ∀ value pragmas, post value pragmas →
      Placing arena (next value) fun value' pragmas' => postNext value' (pragmas ++ pragmas')) :
    Placing arena (e >>= next) postNext := by
  intro function t hclean
  rw [bind_apply] at hclean ⊢
  obtain ⟨hfirst, hrest⟩ := hclean.of_andThen
  obtain ⟨pragmas, hfills, hpost⟩ := h function t hfirst
  obtain ⟨pragmas', hfills', hpost'⟩ := hnext _ pragmas hpost function _ hrest
  exact ⟨pragmas ++ pragmas', hfills.andThen hfills', hpost'⟩

/-- A sequence whose first emission has no turns. -/
theorem bindBuilt (h : Built False e) (hunmarked : Cleanly e plain)
    (hnext : ∀ value, plain value → Placing arena (next value) postNext) :
    Placing arena (e >>= next) postNext := by
  have hquiet : Placing arena e fun value pragmas => plain value ∧ pragmas = [] :=
    ofBuilt h (hunmarked.mono fun _ hvalue => ⟨hvalue, rfl⟩)
  refine bind hquiet ?_
  rintro value _ ⟨hvalue, rfl⟩
  exact hnext value hvalue

/-- What is made of the code of an emission. -/
theorem map {f : α → β} (h : Placing arena e post)
    (hpost : ∀ value pragmas, post value pragmas → postNext (f value) pragmas) :
    Placing arena (do return f (← e)) postNext :=
  bind h fun value pragmas hvalue =>
    ofBuilt (.pure _) (.pure (by simpa using hpost value pragmas hvalue))

end Placing

/-! ## Plans -/

variable {op : Op} {bodies : List (Emission (List Stmt))} {plan : Plan}

/-- An emission of statements whose placing pragmas are those of the arrays placed at its turns. -/
abbrev PlacingStmts (arena : Arena) (e : Emission (List Stmt)) : Prop :=
  Placing arena e fun stmts pragmas => placementsOf stmts = pragmas

/-- The body of the first region has its own pragmas. -/
theorem placing_firstBody (h : ∀ body ∈ bodies, PlacingStmts arena body) :
    PlacingStmts arena (firstBody op bodies) := by
  cases bodies with
  | nil =>
    intro function t hclean
    cases hclean.of_andThen.1.overruns
  | cons body rest => exact h body (List.mem_cons_self ..)

/-- The body of the second region has its own pragmas, if it is there. -/
theorem placing_secondBody (h : ∀ body ∈ bodies, PlacingStmts arena body) :
    Placing arena (secondBody bodies) fun onFalse pragmas =>
      placementsOf (onFalse.getD []) = pragmas := by
  rcases bodies with _ | ⟨first, _ | ⟨second, rest⟩⟩
  · exact .ofBuilt (.pure _) (.pure rfl)
  · exact .ofBuilt (.pure _) (.pure rfl)
  · exact .map (h second (by simp)) fun _ _ hstmts => hstmts

/-- A nest has the placing pragmas of its body. -/
theorem placementsOf_nestStmts (body : List Stmt) (closing : Option Note) (heads : List LoopHead) :
    placementsOf (nestStmts body closing heads) = placementsOf body := by
  induction heads generalizing closing with
  | nil => rfl
  | cons head rest ih => rw [nestStmts, placementsOf_loop, ih none]

/-- A plan that makes no array has the placing pragmas of its regions. -/
theorem placing_render (hplan : plan.form ≠ .array) (h : ∀ body ∈ bodies, PlacingStmts arena body) :
    PlacingStmts arena (render op bodies plan) := by
  -- Only the three structured plans open regions; around these they write nothing that places.
  have hfirst : PlacingStmts arena (firstBody op bodies) := placing_firstBody h
  have hdeclarations : Cleanly (predeclare op op.results) fun stmts => placementsOf stmts = [] :=
    (unmarked_predeclare op op.results).mono fun _ => Unmarked.placements
  have hany {α : Type} (e : Emission α) : Cleanly e fun _ => True := fun _ _ _ => trivial
  cases plan with
  | allocate | share => exact absurd rfl hplan
  | loop index lower upper step =>
    refine .bindBuilt (built_loopHead op index lower upper step) (hany _) fun head _ => ?_
    refine .map hfirst fun body pragmas hbody => ?_
    rw [placementsOf_loop, placementsOf_append, op.attrs.placementsOf_loopPragmas, hbody,
      List.nil_append]
  | branch condition =>
    refine .bindBuilt (built_predeclare op op.results) hdeclarations fun declarations hnone => ?_
    refine .bindBuilt (built_term op condition) (hany _) fun condition _ => ?_
    refine .bind hfirst fun onTrue pragmas honTrue => ?_
    refine .map (placing_secondBody h) fun onFalse pragmas' honFalse => ?_
    rw [placementsOf_append, hnone, placementsOf_branch, honTrue, honFalse, List.nil_append]
  | nest loops =>
    refine .bindBuilt (built_predeclare op op.results) hdeclarations fun declarations hnone => ?_
    refine .bindBuilt (built_nestHeads op loops) (hany _) fun heads _ => ?_
    refine .map hfirst fun body pragmas hbody => ?_
    rw [placementsOf_append, hnone, placementsOf_nestStmts, hbody, List.nil_append]
  | _ =>
    exact .ofBuilt (built_render rfl bodies)
      ((unmarked_render rfl bodies).mono fun _ => Unmarked.placements)

/-! ## Operations -/

/-- The pragmas of an array on the chip, and no pragmas of any other array. -/
theorem arrayPragmas_value (op : Option Op) (id : ValueId) (scope : Scope) (t : NameTable) :
    ∃ array : Use, array.value = id ∧
      placementsOf ((arrayPragmas op id).run scope t).value =
        if scope.values.isOnChip id then (scope.values.info id).placement array else [] := by
  have hinfo : ((info id).run scope t).value = scope.values.info id := rfl
  refine ⟨scope.values.use ((info id).run scope t).names id, rfl, ?_⟩
  unfold arrayPragmas
  rw [bind_apply, Outcome.andThen, hinfo, Arena.isOnChip]
  dsimp only
  cases honChip : (scope.values.info id).memory.isOnChip with
  | false => rfl
  | true =>
    rw [← ValueInfo.placementsOf_memoryPragmas]
    simp only [Bool.not_true, Bool.false_eq_true, if_false, if_true]
    split <;> rfl

/-- Only an operation with a plan that makes an array places one at its turn. -/
theorem array?_of_fits {owner : Option Op} {function : Option String} (hfits : op.Fits arena t plan)
    (hplan : plan.form ≠ .array) : Dispatch.array? arena ⟨function, owner, op, t⟩ = none := by
  -- An array is placed at the turn of a kind that makes arrays, and only if its result is free.
  have hother (hform : op.kind.form ≠ .array) :
      Dispatch.array? arena ⟨function, owner, op, t⟩ = none := if_neg hform
  have hleaf (h : op.kind.form = .plain ∨
      op.kind.form = .array ∧ ∃ id, op.results.head? = some id ∧ arena.isBound t id = true) :
      Dispatch.array? arena ⟨function, owner, op, t⟩ = none := by
    rcases h with hform | ⟨hform, id, hhead, hbound⟩
    · exact hother (by rw [hform]; decide)
    · simp [Dispatch.array?, hhead, hbound, Option.filter]
  cases plan with
  | allocate | share => exact absurd rfl hplan
  | loop =>
    have hform : op.kind.form = .loop := hfits
    exact hother (by rw [hform]; decide)
  | branch =>
    have hform : op.kind.form = .branch := hfits
    exact hother (by rw [hform]; decide)
  | nest => exact hother (by rw [hfits.1]; decide)
  | _ => exact hleaf hfits

/-- A plan that makes an array binds it. -/
theorem binds_render (h : plan.makes? = some id) (bodies : List (Emission (List Stmt))) :
    Binds (render op bodies plan) id := by
  cases plan with
  | allocate array =>
    cases h
    exact .first (binds_arrayDeclarator (some op) id) fun _ => (built_arrayPragmas ..).map _
  | share source result =>
    cases h
    exact .first (binds_share op source id) fun _ => built_arrayPragmas ..
  | _ => cases h

/-- The placing pragmas of an operation that makes an array. -/
theorem render_value (op : Op) (h : plan.makes? = some id) (bodies : List (Emission (List Stmt)))
    (scope : Scope) (t : NameTable) :
    ∃ array : Use, array.value = id ∧ placementsOf ((render op bodies plan).run scope t).value =
      if scope.values.isOnChip id then (scope.values.info id).placement array else [] := by
  cases plan with
  | allocate array =>
    cases h
    exact arrayPragmas_value (some op) id scope _
  | share source result =>
    cases h
    exact arrayPragmas_value (some op) id scope ((share op source id).run scope t).names
  | _ => cases h

/-- The turn of an operation that places no array. -/
theorem Fills.of_turn {turn : Dispatch} (h : turn.array? arena = none) :
    Fills arena t [] (⟨(), t, [], [turn], []⟩ : Outcome Unit) :=
  .of_none (by simp [arraysOf, h]) fun _ hid => hid

/-- The turn of an operation that places an array, unless it is not on the chip. -/
theorem Fills.of_array {turn : Dispatch} {array : Use} {o : Outcome α}
    (hturns : o.dispatched = [turn])
    (hturn : turn.array? arena = if arena.isOnChip array.value then some array.value else none)
    (hkept : ∀ id, arena.isBound t id = true → arena.isBound o.names id = true)
    (hfree : arena.isBound t array.value = false)
    (hbound : arena.isBound o.names array.value = true) :
    Fills arena t
      (if arena.isOnChip array.value then (arena.info array.value).placement array else []) o := by
  -- The one turn is that of the array, unless the array is off the chip.
  have harrays : arraysOf arena o.dispatched =
      (if arena.isOnChip array.value then [array] else []).map Use.value := by
    rw [hturns, arraysOf, List.filterMap_cons, hturn]
    cases arena.isOnChip array.value <;> rfl
  refine ⟨⟨_, harrays.symm, ?_⟩, ?_, hkept, ?_, ?_⟩
  · cases arena.isOnChip array.value <;> simp [Arena.placements]
  · rw [harrays]
    cases arena.isOnChip array.value <;> simp
  · rw [harrays]
    cases arena.isOnChip array.value <;> simp [hfree]
  · rw [harrays]
    cases arena.isOnChip array.value <;> simp [hbound]

/-- An operation places its own array and those of its regions. -/
theorem placing_operation (owner : Option Op) (h : ∀ body ∈ bodies, PlacingStmts arena body) :
    PlacingStmts arena (operation owner op bodies) := by
  intro function t hclean
  obtain ⟨plan, hfits, hrender, hrun⟩ := operation_of_clean hclean
  rw [hrun, bind_apply, dispatch_apply]
  -- a plan that makes an array opens no region; any other places what its regions do
  by_cases hplan : plan.form = .array
  · have hmakes : ∃ id, plan.makes? = some id ∧ op.kind.form = .array ∧
        op.results.head? = some id ∧ arena.isBound t id = false := by
      cases plan with
      | allocate array => exact ⟨array, rfl, hfits⟩
      | share source result => exact ⟨result, rfl, hfits⟩
      | _ => cases hplan
    obtain ⟨id, hmakes, hform, hhead, hfree⟩ := hmakes
    have hopened : plan.form.opened = 0 := by rw [hplan]; rfl
    have hbuilt : Built False (render op bodies plan) := built_render hopened bodies
    have hbound := binds_render hmakes bodies ⟨arena, function⟩ t hrender
    obtain ⟨array, rfl, hpragmas⟩ := render_value op hmakes bodies ⟨arena, function⟩ t
    have hturn : Dispatch.array? arena ⟨function, owner, op, t⟩ =
        if arena.isOnChip array.value then some array.value else none := by
      simp [Dispatch.array?, hform, hhead, hfree, Option.filter]
    have hturns := congrArg (⟨function, owner, op, t⟩ :: ·)
      (hbuilt.dispatched ⟨arena, function⟩ t)
    exact ⟨_, .of_array hturns hturn (fun _ hid => hbuilt.bound hid) hfree hbound, hpragmas⟩
  · have hrendered : PlacingStmts arena (render op bodies plan) := placing_render hplan h
    obtain ⟨pragmas, hfills, hpost⟩ := hrendered function t hrender
    have hturn : Dispatch.array? arena ⟨function, owner, op, t⟩ = none := array?_of_fits hfits hplan
    exact ⟨[] ++ pragmas, (Fills.of_turn hturn).andThen hfills, hpost⟩

mutual

/-- An operation with everything inside of it. -/
theorem placing_ofOp (owner : Option Op) : (op : Op) → PlacingStmts arena (ofOp owner op)
  | ⟨kind, operands, results, attrs, regions, line⟩ => by
    rw [ofOp]
    exact placing_operation owner (placing_ofRegions _ regions)

/-- Each region of an operation. -/
theorem placing_ofRegions (owner : Op) : (regions : List (BlockOf Op)) →
    ∀ body ∈ ofRegions owner regions, PlacingStmts arena body
  | [] => by simp [ofRegions]
  | region :: rest => by
    simp only [ofRegions, List.forall_mem_cons]
    exact ⟨placing_ofBlock (some owner) region, placing_ofRegions owner rest⟩

/-- A block. -/
theorem placing_ofBlock (owner : Option Op) : (block : BlockOf Op) →
    PlacingStmts arena (ofBlock owner block)
  | ⟨_, ops⟩ => placing_ofOps owner ops

/-- Some operations with everything inside of them. -/
theorem placing_ofOps (owner : Option Op) : (ops : List Op) → PlacingStmts arena (ofOps owner ops)
  | [] => .ofBuilt (.pure _) (.pure rfl)
  | op :: rest => .bind (placing_ofOp owner op) fun _ _ hfirst =>
    .map (placing_ofOps owner rest) fun _ _ hrest => by rw [placementsOf_append, hfirst, hrest]

end

/-- The body of a function places the arrays of its operations. -/
theorem placing_body (blocks : List Block) : PlacingStmts arena (body blocks) := by
  cases blocks with
  | nil => exact .ofBuilt (.pure _) (.pure rfl)
  | cons block rest => exact placing_ofBlock none block

/-! ## Functions -/

/-- The pragmas of the ports that are arrays on the chip. -/
theorem portArrayPragmas_value (ports : List ValueId) (scope : Scope) (t : NameTable) :
    ∃ arrays : List Use, arrays.map Use.value =
        ports.filter (fun id => (scope.values.info id).isShaped && scope.values.isOnChip id) ∧
      placementsOf ((portArrayPragmas ports).run scope t).value = scope.values.placements arrays := by
  induction ports generalizing t with
  | nil => exact ⟨[], rfl, rfl⟩
  | cons port rest ih =>
    have hinfo : ((info port).run scope t).value = scope.values.info port := rfl
    unfold portArrayPragmas
    rw [bind_apply, Outcome.andThen, hinfo]
    -- A scalar has no pragmas, and neither has an array off the chip.
    cases hshaped : (scope.values.info port).isShaped with
    | false =>
      obtain ⟨arrays, hvalues, hpragmas⟩ := ih ((info port).run scope t).names
      exact ⟨arrays, by simp [hshaped, hvalues], hpragmas⟩
    | true =>
      let t' := ((info port).run scope t).names
      obtain ⟨array, harray, hfirst⟩ := arrayPragmas_value none port scope t'
      obtain ⟨arrays, hvalues, hrest⟩ := ih ((arrayPragmas none port).run scope t').names
      have hpragmas := congrArg₂ (· ++ ·) hfirst hrest
      rw [← placementsOf_append] at hpragmas
      cases honChip : scope.values.isOnChip port with
      | false =>
        rw [honChip] at hpragmas
        exact ⟨arrays, by simp [honChip, hvalues], hpragmas⟩
      | true =>
        rw [honChip] at hpragmas
        refine ⟨array :: arrays, by simp [hshaped, honChip, harray, hvalues], ?_⟩
        rw [Arena.placements, List.flatMap_cons, harray]
        exact hpragmas

/-- Interfaces place no arrays. -/
theorem interfaces_value (ports : List ValueId) (scope : Scope) (t : NameTable) :
    placementsOf ((interfaces ports).run scope t).value = [] := by
  have hport (info : ValueInfo) (port : Use) : placementsOf (info.interfacePragmas port) = [] := by
    unfold ValueInfo.interfacePragmas
    split
    · rfl
    split <;> rfl
  induction ports generalizing t with
  | nil => rfl
  | cons port rest ih =>
    have hfirst := hport (scope.values.info port)
      (scope.values.use ((info port).run scope t).names port)
    have hrest := ih ((interface port).run scope t).names
    have happend := congrArg₂ (· ++ ·) hfirst hrest
    rw [← placementsOf_append] at happend
    exact happend

/-- The pragmas in front of the body of a function. -/
theorem functionPragmas_value (attrs : FuncAttrs) (ports : List ValueId) (scope : Scope)
    (t : NameTable) :
    ∃ arrays : List Use, arrays.map Use.value = (if attrs.topFunction then
        ports.filter (fun id => (scope.values.info id).isShaped && scope.values.isOnChip id) else []) ∧
      placementsOf ((functionPragmas attrs ports).run scope t).value =
        scope.values.placements arrays := by
  have hdataflow : placementsOf (if attrs.dataflow then [.pragma .dataflow, .blank] else []) = [] := by
    split <;> rfl
  have hpipeline : placementsOf (if attrs.pipeline then
      [.pragma (.pipeline (attrs.targetInterval.getD 1)), .blank] else []) = [] := by
    split <;> rfl
  unfold functionPragmas
  dsimp only
  -- Only a top function places its ports.
  cases attrs.topFunction with
  | false =>
    refine ⟨[], rfl, ?_⟩
    show placementsOf (_ ++ _) = []
    rw [placementsOf_append, hdataflow, hpipeline, List.append_nil]
  | true =>
    let t' := ((interfaces ports).run scope t).names
    obtain ⟨arrays, hvalues, hpragmas⟩ := portArrayPragmas_value ports scope t'
    have hinterfaces : placementsOf (.pragma .returnInterface ::
        ((interfaces ports).run scope t).value) = [] := interfaces_value ports scope t
    have harrays : placementsOf (.blank :: ((portArrayPragmas ports).run scope t').value) =
        scope.values.placements arrays := hpragmas
    refine ⟨arrays, hvalues, ?_⟩
    show placementsOf (_ ++ _ ++ .pragma .returnInterface :: ((interfaces ports).run scope t).value ++
      .blank :: ((portArrayPragmas ports).run scope t').value) = _
    rw [placementsOf_append, placementsOf_append, placementsOf_append, hdataflow, hpipeline,
      hinterfaces, harrays, List.nil_append, List.nil_append, List.nil_append]

end Emission

/-- The ports of a function that are placed: those of a top function that are arrays on the chip. -/
def Function.portArrays (arena : Arena) (function : Function) : List ValueId :=
  if function.attrs.topFunction then
    (function.args ++ function.returned).filter fun id =>
      (arena.info id).isShaped && arena.isOnChip id
  else []

/-- The returned values are the operands of the return. -/
theorem Function.returned_eq (function : Function) :
    function.returned = (function.blocks.head?.bind BlockOf.returnOp?).elim [] Op.operands := by
  unfold Function.returned
  cases function.blocks.head?.bind BlockOf.returnOp? <;> rfl

/-- The placed ports are ports, in order. -/
theorem Function.portArrays_sublist (arena : Arena) (function : Function) :
    (function.portArrays arena).Sublist (function.args ++ function.returned) := by
  unfold Function.portArrays
  split
  · exact List.filter_sublist
  · exact List.nil_sublist _

/-- The arrays that the code of a function places: those among its ports, and those that are placed at
the turns of its operations. -/
structure Function.PlacedAs (arena : Arena) (function : Function) (code : FunctionCode)
    (turns : List Dispatch) : Prop where
  reached : turns.map Dispatch.op = function.reached
  placements : ∃ arrays : List Use,
    arrays.map Use.value = function.portArrays arena ++ arraysOf arena turns ∧
      placementsOf code.body = arena.placements arrays
  distinct : function.args.Nodup → (function.portArrays arena ++ arraysOf arena turns).Nodup

namespace Emission

variable {arena : Arena} {t : NameTable}

/-- The parts of a function, one after the other. -/
theorem function_run (arena : Arena) (t : NameTable) (function : Function) (name : Option String) :
    let scope : Scope := ⟨arena, some function.name⟩
    let ret := function.blocks.head?.bind BlockOf.returnOp?
    let checked := (checkStructure function).run scope t
    let arguments := (arguments function.args).run scope checked.names
    let found := (returnOp? function).run scope arguments.names
    let results := (results ret).run scope found.names
    let pragmas := (functionPragmas function.attrs (function.args ++ ret.elim [] Op.operands)).run
      scope results.names
    let body := (body function.blocks).run scope pragmas.names
    (Emission.function function).run ⟨arena, name⟩ t =
      checked.andThen (arguments.andThen (found.andThen (results.andThen (pragmas.andThen
        (body.andThen ⟨{
          name := function.name
          remarks := function.attrs.remarks
          ports := arguments.value ++ results.value
          note := { line := function.line }
          body := pragmas.value ++ body.value }, body.names, [], [], []⟩))))) := by
  intro scope ret checked arguments found
  -- The return that is looked for is the one the signature is written from.
  have hret : ret = found.value := (returnOp?_value function scope arguments.names).symm
  clear_value ret
  subst hret
  rfl

/-- If no argument is given twice, the ports are different values, and all of them are bound behind the
signature. -/
theorem ports_distinct {scope : Scope} {function : Function} {args : List ValueId} {ret : Option Op}
    (hargs : args.Nodup) (harguments : ((arguments args).run scope t).Clean)
    (hresults : ((results ret).run scope ((returnOp? function).run scope
      ((arguments args).run scope t).names).names).Clean) :
    (args ++ ret.elim [] Op.operands).Nodup ∧ ∀ id ∈ args ++ ret.elim [] Op.operands,
      scope.values.isBound ((results ret).run scope ((returnOp? function).run scope
        ((arguments args).run scope t).names).names).names id = true := by
  obtain ⟨hnodup, hreturned⟩ := fresh_results hresults
  have hfound : Built False (returnOp? function) := built_returnOp? function
  have hresults' : Built False (results ret) := built_results ret
  have hbound : ∀ id ∈ args, scope.values.isBound ((returnOp? function).run scope
      ((arguments args).run scope t).names).names id = true := fun id hid =>
    hfound.bound (binds_arguments hid scope t harguments)
  refine ⟨List.nodup_append.2 ⟨hargs, hnodup, fun id hid other hother heq => ?_⟩, fun id hid => ?_⟩
  · -- a returned value that is an argument would have been reported
    have hbefore := hbound id hid
    rw [heq, (hreturned other hother).1] at hbefore
    cases hbefore
  · rcases List.mem_append.1 hid with hid | hid
    · exact hresults'.bound (hbound id hid)
    · exact (hreturned id hid).2

/-- A function that is emitted without an error. -/
theorem placed_function (function : Function) (name : Option String)
    (h : ((Emission.function function).run ⟨arena, name⟩ t).Clean) :
    function.PlacedAs arena ((Emission.function function).run ⟨arena, name⟩ t).value
      ((Emission.function function).run ⟨arena, name⟩ t).dispatched := by
  have hreached := turned_function function _ t h
  have hrun := function_run arena t function name
  extract_lets scope ret checked arguments found results pragmas body at hrun
  rw [hrun] at h hreached ⊢
  obtain ⟨-, h⟩ := h.of_andThen
  obtain ⟨harguments, h⟩ := h.of_andThen
  obtain ⟨-, h⟩ := h.of_andThen
  obtain ⟨hresults, h⟩ := h.of_andThen
  obtain ⟨hbody, -⟩ := h.of_andThen.2.of_andThen
  obtain ⟨arrays, hvalues, hplaced⟩ :=
    functionPragmas_value function.attrs (function.args ++ ret.elim [] Op.operands) scope results.names
  obtain ⟨_, hfills, hplacements⟩ := placing_body function.blocks _ _ hbody
  obtain ⟨arrays', hvalues', rfl⟩ := hfills.placed
  have hports : function.portArrays arena = arrays.map Use.value := by
    rw [hvalues, Function.portArrays, function.returned_eq]
  -- only the body has turns
  have hturns : body.dispatched = (checked.andThen (arguments.andThen (found.andThen (results.andThen
      (pragmas.andThen (body.andThen ⟨(), body.names, [], [], []⟩)))))).dispatched := by
    have h₁ : checked.dispatched = [] := (built_checkStructure function).dispatched scope t
    have h₂ : arguments.dispatched = [] := (built_arguments function.args).dispatched scope _
    have h₃ : found.dispatched = [] := (built_returnOp? function).dispatched scope _
    have h₄ : results.dispatched = [] := (built_results ret).dispatched scope _
    have h₅ : pragmas.dispatched = [] := (built_functionPragmas _ _).dispatched scope _
    simp [Outcome.andThen, h₁, h₂, h₃, h₄, h₅]
  have hplacedAs : ∃ uses : List Use,
      uses.map Use.value = function.portArrays arena ++ arraysOf arena body.dispatched ∧
        placementsOf (pragmas.value ++ body.value) = arena.placements uses := by
    refine ⟨arrays ++ arrays', by rw [List.map_append, hports, hvalues'], ?_⟩
    rw [placementsOf_append, hplaced, hplacements, Arena.placements, Arena.placements,
      Arena.placements, List.flatMap_append]
  have hdistinct (hargs : function.args.Nodup) :
      (function.portArrays arena ++ arraysOf arena body.dispatched).Nodup := by
    obtain ⟨hdifferent, hbound⟩ := ports_distinct hargs harguments hresults
    have hsublist := function.portArrays_sublist arena
    rw [function.returned_eq] at hsublist
    have hpragmas : Built False (functionPragmas function.attrs
      (function.args ++ ret.elim [] Op.operands)) := built_functionPragmas _ _
    refine List.nodup_append.2 ⟨hdifferent.sublist hsublist, hfills.distinct, ?_⟩
    intro id hid other hother heq
    -- a port is bound before the body starts, and the body makes only free arrays
    have hbefore : arena.isBound pragmas.names id = true :=
      hpragmas.bound (hbound id (hsublist.subset hid))
    rw [heq, hfills.fresh other hother] at hbefore
    cases hbefore
  rw [hturns] at hplacedAs hdistinct
  exact ⟨hreached, hplacedAs, hdistinct⟩

end Emission

/-! ## Modules -/

/-- The arrays of several functions, with the turns of each behind those of the ones in front. -/
inductive PlacedInOrder (arena : Arena) :
    List Function → List FunctionCode → List Dispatch → Prop where
  | nil : PlacedInOrder arena [] [] []
  | cons {function : Function} {functions : List Function} {code : FunctionCode}
    {codes : List FunctionCode} {turns turns' : List Dispatch}
    (first : function.PlacedAs arena code turns) (rest : PlacedInOrder arena functions codes turns') :
    PlacedInOrder arena (function :: functions) (code :: codes) (turns ++ turns')

/-- Every function places its own arrays. -/
theorem Emission.placed_functions {arena : Arena} {name : Option String} {t : NameTable}
    {functions : List Function}
    (h : ((Emission.functions functions).run ⟨arena, name⟩ t).Clean) :
    PlacedInOrder arena functions ((Emission.functions functions).run ⟨arena, name⟩ t).value
      ((Emission.functions functions).run ⟨arena, name⟩ t).dispatched := by
  induction functions generalizing t with
  | nil => exact .nil
  | cons function rest ih =>
    have hrest := ih h.of_andThen.2.of_andThen.1
    have hcons := PlacedInOrder.cons (placed_function function name h.of_andThen.1) hrest
    -- putting the code together notes no turns either
    rw [← List.append_nil ((Emission.functions rest).run _ _).dispatched] at hcons
    exact hcons

/-- Without errors, the placing pragmas of each function are those of its ports and of the operations
that make an array, in order. -/
theorem Module.arrays_placed {module : Module} {includes : List String}
    (h : module.Succeeds includes) :
    PlacedInOrder module.values module.functions (module.program includes).value.functions
      (module.program includes).dispatched := by
  have hfunctions := Emission.placed_functions h.clean.of_andThen.1
  rw [← List.append_nil ((Emission.functions module.functions).run _ _).dispatched] at hfunctions
  exact hfunctions

/-! ## One array -/

section OneArray

variable {arena : Arena} {arrays : List Use} {id : ValueId}

/-- The pragmas of other arrays do not place this one. -/
theorem filter_placements_of_not_mem (h : id ∉ arrays.map Use.value) :
    (arena.placements arrays).filter (fun pragma => pragma.array? = some id) = [] := by
  refine List.filter_eq_nil_iff.2 fun pragma hpragma harray => h ?_
  obtain ⟨array, hmem, hpragma⟩ := List.mem_flatMap.1 hpragma
  rw [ValueInfo.array?_of_mem hpragma, decide_eq_true_eq, Option.some.injEq] at harray
  exact harray ▸ List.mem_map_of_mem hmem

/-- An array that is placed once has all of its pragmas, and no others. -/
theorem filter_placements_of_mem (hdistinct : (arrays.map Use.value).Nodup)
    (h : id ∈ arrays.map Use.value) :
    ∃ array : Use, array.value = id ∧
      (arena.placements arrays).filter (fun pragma => pragma.array? = some id) =
        (arena.info id).placement array := by
  induction arrays with
  | nil => cases h
  | cons first rest ih =>
    rw [List.map_cons, List.nodup_cons] at hdistinct
    rw [Arena.placements, List.flatMap_cons, List.filter_append]
    by_cases hfirst : first.value = id
    · -- the pragmas of this array are all kept, and those of the others all dropped
      subst hfirst
      have hall : ((arena.info first.value).placement first).filter
          (fun pragma => pragma.array? = some first.value) = (arena.info first.value).placement first :=
        List.filter_eq_self.2 fun pragma hpragma => by simp [ValueInfo.array?_of_mem hpragma]
      exact ⟨first, rfl, by rw [hall, ← Arena.placements, filter_placements_of_not_mem hdistinct.1,
        List.append_nil]⟩
    · obtain ⟨array, harray, hpragmas⟩ := ih hdistinct.2 ((List.mem_cons.1 h).resolve_left (Ne.symm hfirst))
      have hnone : ((arena.info first.value).placement first).filter
          (fun pragma => pragma.array? = some id) = [] :=
        List.filter_eq_nil_iff.2 fun pragma hpragma => by
          simp [ValueInfo.array?_of_mem hpragma, hfirst]
      exact ⟨array, harray, by rw [hnone, List.nil_append]; exact hpragmas⟩

end OneArray

/-- If no argument is given twice, an array that is placed has exactly one pragma for its memory and
one for each dimension that is split, and no other pragma places an array. -/
theorem Function.PlacedAs.placement {arena : Arena} {function : Function} {code : FunctionCode}
    {turns : List Dispatch} (h : function.PlacedAs arena code turns) (hargs : function.args.Nodup)
    (id : ValueId) :
    (id ∈ function.portArrays arena ++ arraysOf arena turns → ∃ array : Use, array.value = id ∧
      (pragmasOfStmts code.body).filter (fun pragma => pragma.array? = some id) =
        (arena.info id).placement array) ∧
    (id ∉ function.portArrays arena ++ arraysOf arena turns →
      (pragmasOfStmts code.body).filter (fun pragma => pragma.array? = some id) = []) := by
  obtain ⟨arrays, hvalues, hplacements⟩ := h.placements
  have hdistinct := h.distinct hargs
  -- The pragmas about this array are found among those that place any.
  have hfilter : (pragmasOfStmts code.body).filter (fun pragma => pragma.array? = some id) =
      (arena.placements arrays).filter (fun pragma => pragma.array? = some id) := by
    rw [← hplacements, placementsOf, List.filter_filter]
    refine List.filter_congr fun pragma _ => ?_
    cases pragma.array? <;> simp
  rw [← hvalues] at hdistinct ⊢
  rw [hfilter]
  exact ⟨filter_placements_of_mem hdistinct, filter_placements_of_not_mem⟩

end HlsEmit
