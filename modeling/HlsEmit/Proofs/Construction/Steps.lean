import HlsEmit.Construction.Calls
import HlsEmit.Proofs.Dangling

/-!
# What steps construct

A step adds values and appends operations, and the steps that fill its regions do the same in
between. The account of all of them together is `Builds`: which values are added, that each call
meets as many numbers as table entries, and what is known of the operations and of the values that
they mention.

Accounts of calls that follow one another are put together by `Builds.append`; the account of a call
that fills regions holds the one of the calls inside (`Builds.op`). The results of a conditional and
of a nest are in the table before their regions are filled but are given out afterwards, so giving
out is a step of its own (`Builds.record`).

## Key results

- `Builds.op`: a call that appends an operation, around the calls that fill its regions
- `builds_loop`, `builds_conditional`, `builds_setConditional`, `builds_nest`: the regions of each
  kind of step
- `Step.builds`, `runAll_builds`: all steps, by induction on what they are filled with
-/

namespace HlsEmit

/-! ## Walks over operations -/

/-- Within one operation are the operation and all of its regions. -/
theorem withinOps_singleton (op : Op) : withinOps [op] = op :: withinBlocks op.regions := by
  cases op
  rw [withinOps, withinOps, Op.within, List.append_nil]

/-- Within two lists is what is within the first, then what is within the second. -/
theorem withinOps_append (ops ops' : List Op) :
    withinOps (ops ++ ops') = withinOps ops ++ withinOps ops' := by
  induction ops with
  | nil => rfl
  | cons op rest ih => rw [List.cons_append, withinOps, withinOps, ih, List.append_assoc]

/-- Two lists mention what the first mentions, then what the second mentions. -/
theorem mentionedInOps_append (ops ops' : List Op) :
    mentionedInOps (ops ++ ops') = mentionedInOps ops ++ mentionedInOps ops' := by
  induction ops with
  | nil => rfl
  | cons op rest ih => rw [List.cons_append, mentionedInOps, mentionedInOps, ih, List.append_assoc]

/-- Within one block are its operations. -/
theorem withinBlocks_singleton (args : List ValueId) (ops : List Op) :
    withinBlocks [⟨args, ops⟩] = withinOps ops := by
  rw [withinBlocks, withinBlocks, withinBlock, List.append_nil]

/-- One block mentions its arguments and what its operations mention. -/
theorem mentionedInBlocks_singleton (args : List ValueId) (ops : List Op) :
    mentionedInBlocks [⟨args, ops⟩] = args ++ mentionedInOps ops := by
  rw [mentionedInBlocks, mentionedInBlocks, mentionedInBlock, List.append_nil]

/-- The mentions of an operation, in the order of the walk. -/
theorem Op.mentioned_eq (op : Op) : op.mentioned =
    op.operands ++ op.results ++ op.kind.mentioned ++ mentionedInBlocks op.regions := by
  cases op
  rw [Op.mentioned]

namespace Construction

/-! ## Adding values -/

/-- The next number is that of the value that is added next, and the caller was given only values of
the table. -/
structure Draft.Dense (draft : Draft) : Prop where
  numbered : draft.supply.next = UInt32.ofNat draft.values.size
  known : ∀ id ∈ draft.known, id.index < draft.values.size

/-- From one draft to another, these values are added. -/
structure Adds (draft : Draft) (ids : List ValueId) (draft' : Draft) : Prop where
  dense : draft'.Dense
  kept : draft.values.toList <+: draft'.values.toList
  size : draft'.values.size = draft.values.size + ids.length
  /-- They have the next numbers, in order. -/
  consecutive : ids = (List.range' draft.values.size ids.length).map nextValue

namespace Adds

variable {draft draft' draft'' : Draft} {ids ids' : List ValueId}

/-- Nothing is added where nothing is called. -/
theorem nil (hdraft : draft.Dense) : Adds draft [] draft :=
  ⟨hdraft, List.prefix_rfl, rfl, rfl⟩

/-- Values are added behind those added before. -/
theorem append (h : Adds draft ids draft') (h' : Adds draft' ids' draft'') :
    Adds draft (ids ++ ids') draft'' where
  dense := h'.dense
  kept := h.kept.trans h'.kept
  size := by
    rw [h'.size, h.size, List.length_append]
    omega
  consecutive := by
    rw [List.length_append, ← List.range'_append_1, List.map_append, ← h.size,
      ← h.consecutive, ← h'.consecutive]

/-- What was added is in the table. -/
theorem index_lt (h : Adds draft ids draft') : ∀ id ∈ ids, id.index < draft'.values.size := by
  intro id hid
  rw [h.consecutive, List.mem_map] at hid
  obtain ⟨count, hcount, rfl⟩ := hid
  have hle := index_nextValue_le count
  rw [List.mem_range'_1] at hcount
  rw [h.size]
  omega

/-- The caller is given values of the table. -/
theorem record (h : Adds draft ids draft') (call : String) {given : List ValueId}
    (hgiven : ∀ id ∈ given, id.index < draft'.values.size) :
    Adds draft ids ((Construction.record (.allocated call given)).run draft').2 where
  dense := by
    refine ⟨h.dense.numbered, fun id hid => ?_⟩
    have hlog : id ∈ draft'.known ++ given := by
      simpa [Draft.known, Record.ids, Construction.record, StateT.run] using hid
    exact (List.mem_append.1 hlog).elim (h.dense.known id) (hgiven id)
  kept := h.kept
  size := h.size
  consecutive := h.consecutive

/-- A value is added at the end of the table and numbered by its place. -/
theorem add (hdraft : draft.Dense) (info : ValueInfo) :
    Adds draft [((Construction.add info).run draft).1] ((Construction.add info).run draft).2 where
  dense := by
    refine ⟨?_, fun id hid => ?_⟩
    · show draft.supply.next + 1 = UInt32.ofNat (draft.values.push info).size
      rw [Array.size_push, hdraft.numbered, UInt32.ofNat_add]
      rfl
    · show id.index < (draft.values.push info).size
      rw [Array.size_push]
      exact Nat.lt_succ_of_lt (hdraft.known id hid)
  kept := by
    show draft.values.toList <+: (draft.values.push info).toList
    rw [Array.toList_push]
    exact List.prefix_append ..
  size := Array.size_push ..
  consecutive := by
    show [⟨draft.supply.next⟩] = [nextValue draft.values.size]
    rw [nextValue, hdraft.numbered]

/-- Values are added one after the other. -/
theorem addAll (hdraft : draft.Dense) (infos : List ValueInfo) :
    Adds draft ((Construction.addAll infos).run draft).1
      ((Construction.addAll infos).run draft).2 := by
  induction infos generalizing draft with
  | nil => exact nil hdraft
  | cons info rest ih => exact (add hdraft info).append (ih (add hdraft info).dense)

end Adds

/-- A computation that adds one value, whatever the draft is. -/
def AddsOne (e : Construction ValueId) : Prop :=
  ∀ draft, ∃ info, e.run draft = (add info).run draft

/-- Adding an entry adds one value. -/
theorem addsOne_add (info : ValueInfo) : AddsOne (add info) :=
  fun _ => ⟨info, rfl⟩

/-- A value like another is one value. -/
theorem addsOne_addLike (operand : ValueId) (elem : Option ElemType) :
    AddsOne (addLike operand elem) := by
  intro draft
  cases hinfo : draft.values.info? operand with
  | none =>
    exists { elem := elem.getD .f32 }
    simp [addLike, info?, StateT.run, bind, StateT.bind, hinfo]
  | some info =>
    exists { elem := elem.getD info.elem, shape := info.shape }
    simp [addLike, info?, StateT.run, bind, StateT.bind, hinfo]

/-- A value for an element of an array is one value. -/
theorem addsOne_addElement (array : ValueId) : AddsOne (addElement array) :=
  fun draft => ⟨{ elem := (draft.values.info? array).elim .f32 ValueInfo.elem }, rfl⟩

/-- A call that adds one value adds the value it returns. -/
theorem AddsOne.adds {e : Construction ValueId} (he : AddsOne e) {draft : Draft}
    (hdraft : draft.Dense) : Adds draft [(e.run draft).1] (e.run draft).2 := by
  obtain ⟨info, hrun⟩ := he draft
  rw [hrun]
  exact .add hdraft info

/-! ## Calls -/

/-- The next number that a call meets is that of the value that is added next, and the values that it
adds are the next ones. -/
structure Call.InOrder (call : Call) : Prop where
  numbered : call.draft.supply.next = UInt32.ofNat call.draft.values.size
  added : call.added =
    (List.range' call.draft.values.size call.added.length).map nextValue

/-- What some calls construct: `ops` are all operations, at any depth, and `ids` all values that are
mentioned. -/
structure Builds (draft : Draft) (calls : List Call) (ops : List Op) (ids : List ValueId)
    (draft' : Draft) : Prop where
  adds : Adds draft (calls.flatMap Call.added) draft'
  inOrder : ∀ call ∈ calls, call.InOrder
  /-- The table that a call meets is a front part of the one that is left. -/
  stays : ∀ call ∈ calls, call.draft.values.toList <+: draft'.values.toList
  /-- What the operations define was added for them, in the same order. -/
  defined : (ops.flatMap Op.ownDefined).Sublist (calls.flatMap Call.added)
  /-- What a call appends is among the operations. -/
  stands : ∀ call ∈ calls, ∀ op ∈ call.appended, op ∈ ops
  complete : ∀ op ∈ ops, op.counts.covers op.kind.needs = true
  inTable : ∀ id ∈ ids, id.index < draft'.values.size

/-- What some calls construct that append operations to a block. -/
abbrev BuildsOps (draft : Draft) (calls : List Call) (outcome : List Op × Draft) : Prop :=
  Builds draft calls (withinOps outcome.1) (mentionedInOps outcome.1) outcome.2

namespace Builds

variable {draft draft' draft'' opened : Draft} {calls calls' : List Call} {ops ops' : List Op}
variable {ids ids' : List ValueId}

/-- No call builds no operation. -/
theorem nil (hdraft : draft.Dense) : Builds draft [] [] [] draft :=
  ⟨.nil hdraft, by simp, by simp, by simp, by simp, by simp, by simp⟩

/-- What two scripts build stands one behind the other. -/
theorem append (h : Builds draft calls ops ids draft')
    (h' : Builds draft' calls' ops' ids' draft'') :
    Builds draft (calls ++ calls') (ops ++ ops') (ids ++ ids') draft'' where
  adds := by
    rw [List.flatMap_append]
    exact h.adds.append h'.adds
  inOrder := List.forall_mem_append.2 ⟨h.inOrder, h'.inOrder⟩
  stays := List.forall_mem_append.2
    ⟨fun call hcall => (h.stays call hcall).trans h'.adds.kept, h'.stays⟩
  defined := by
    rw [List.flatMap_append, List.flatMap_append]
    exact h.defined.append h'.defined
  stands := by
    rw [List.forall_mem_append]
    exact ⟨fun call hcall op hop => List.mem_append_left _ (h.stands call hcall op hop),
      fun call hcall op hop => List.mem_append_right _ (h'.stands call hcall op hop)⟩
  complete := List.forall_mem_append.2 ⟨h.complete, h'.complete⟩
  inTable := by
    -- the table only grows
    have hgrows := h'.adds.size
    refine List.forall_mem_append.2 ⟨fun id hid => ?_, h'.inTable⟩
    have hindex := h.inTable id hid
    omega

/-- The caller is given values of the table. -/
theorem record (h : Builds draft calls ops ids draft') (call : String) {given : List ValueId}
    (hgiven : ∀ id ∈ given, id.index < draft'.values.size) :
    Builds draft calls ops ids ((Construction.record (.allocated call given)).run draft').2 :=
  { h with adds := h.adds.record call hgiven }

/-- A call that appends no operation by itself. -/
theorem silent (call : Call) (hdraft : call.draft.Dense) (happended : call.appended = [])
    (hadds : Adds call.draft call.added draft') : Builds call.draft [call] [] [] draft' where
  adds := by simpa using hadds
  inOrder := by simpa using ⟨hdraft.numbered, hadds.consecutive⟩
  stays := by simpa using hadds.kept
  defined := by simp
  stands := by simp [happended]
  complete := by simp
  inTable := by simp

/-- A call that appends an operation and fills its regions with the operations of further calls. -/
theorem op (call : Call) (op : Op) (hdraft : call.draft.Dense) (happended : call.appended = [op])
    (hadded : call.added = op.ownDefined) (hadds : Adds call.draft op.ownDefined opened)
    (hinner : Builds opened calls ops ids draft')
    (hops : withinBlocks op.regions = ops)
    (hids : ∀ id ∈ mentionedInBlocks op.regions, id ∈ op.ownDefined ∨ id ∈ ids)
    (hcomplete : op.counts.covers op.kind.needs = true)
    (hpassed : ∀ id ∈ op.operands ++ op.kind.mentioned, id.index < call.draft.values.size) :
    BuildsOps call.draft (call :: calls) ([op], draft') where
  -- The operation adds its own values first; those of its regions come behind them.
  adds := by
    rw [List.flatMap_cons, hadded]
    exact hadds.append hinner.adds
  inOrder := by
    rw [List.forall_mem_cons]
    refine ⟨⟨hdraft.numbered, ?_⟩, hinner.inOrder⟩
    rw [hadded]
    exact hadds.consecutive
  stays := List.forall_mem_cons.2 ⟨hadds.kept.trans hinner.adds.kept, hinner.stays⟩
  defined := by
    rw [withinOps_singleton, hops, List.flatMap_cons, List.flatMap_cons, hadded]
    exact hinner.defined.append_left _
  stands := by
    rw [withinOps_singleton, hops, List.forall_mem_cons, happended, List.forall_mem_singleton]
    exact ⟨List.mem_cons_self, fun call hcall op hop =>
      List.mem_cons_of_mem _ (hinner.stands call hcall op hop)⟩
  complete := by
    rw [withinOps_singleton, hops, List.forall_mem_cons]
    exact ⟨hcomplete, hinner.complete⟩
  -- What was in the table stays there, so what was passed in and what was added is still found.
  inTable := by
    have hgrows := hinner.adds.size
    have hadds_size := hadds.size
    have hdefined : ∀ id ∈ op.ownDefined, id.index < draft'.values.size := by
      intro id hid
      have hindex := hadds.index_lt id hid
      omega
    have hown : ∀ id ∈ op.operands ++ op.kind.mentioned, id.index < draft'.values.size := by
      intro id hid
      have hindex := hpassed id hid
      omega
    rw [List.forall_mem_append] at hown
    rw [mentionedInOps, mentionedInOps, List.append_nil, Op.mentioned_eq]
    simp only [List.forall_mem_append]
    refine ⟨⟨⟨hown.1, fun id hid => ?_⟩, hown.2⟩, fun id hid => ?_⟩
    · exact hdefined id (List.mem_append_right _ hid)
    · exact (hids id hid).elim (hdefined id) (hinner.inTable id)

/-- A call that appends an operation without regions. -/
theorem leaf (call : Call) (op : Op) (hdraft : call.draft.Dense) (happended : call.appended = [op])
    (hadded : call.added = op.ownDefined) (hadds : Adds call.draft op.ownDefined draft')
    (hregions : op.regions = []) (hcomplete : op.counts.covers op.kind.needs = true)
    (hpassed : ∀ id ∈ op.operands ++ op.kind.mentioned, id.index < call.draft.values.size) :
    BuildsOps call.draft [call] ([op], draft') := by
  refine .op call op hdraft happended hadded hadds (.nil hadds.dense) ?_ ?_ hcomplete hpassed
  · rw [hregions, withinBlocks]
  · simp [hregions, mentionedInBlocks]

/-- A call that appends an operation and fills its only region. -/
theorem around (call : Call) (op : Op) {args : List ValueId} {inside : List Op}
    (hdraft : call.draft.Dense) (happended : call.appended = [op])
    (hadded : call.added = op.ownDefined)
    (hadds : Adds call.draft op.ownDefined opened) (hregions : op.regions = [⟨args, inside⟩])
    (hinner : BuildsOps opened calls (inside, draft'))
    (hcomplete : op.counts.covers op.kind.needs = true)
    (hpassed : ∀ id ∈ op.operands ++ op.kind.mentioned, id.index < call.draft.values.size) :
    BuildsOps call.draft (call :: calls) ([op], draft') := by
  refine .op call op hdraft happended hadded hadds hinner ?_ ?_ hcomplete hpassed
  · rw [hregions, withinBlocks_singleton]
  · intro id hid
    rw [hregions, mentionedInBlocks_singleton, List.mem_append] at hid
    exact hid.imp_left fun harg => by simp [Op.ownDefined, hregions, harg]

/-- What further calls append to the same block. -/
theorem andThen {outcome outcome' : List Op × Draft} (h : BuildsOps draft calls outcome)
    (h' : BuildsOps outcome.2 calls' outcome') :
    BuildsOps draft (calls ++ calls') (outcome.1 ++ outcome'.1, outcome'.2) := by
  rw [BuildsOps, withinOps_append, mentionedInOps_append]
  exact h.append h'

/-- Mentions beside those of operations. -/
theorem mention (h : Builds draft calls ops ids draft')
    (hids : ∀ id ∈ ids', id.index < draft'.values.size) :
    Builds draft calls ops (ids' ++ ids) draft' :=
  { h with inTable := List.forall_mem_append.2 ⟨hids, h.inTable⟩ }

/-- Some calls as one. -/
theorem merge (h : Builds draft calls ops ids draft') (hdraft : draft.Dense)
    (passed : List ValueId) (raw : Bool) :
    Builds draft [⟨draft, passed, calls.flatMap Call.added, calls.flatMap Call.appended, raw⟩] ops ids
      draft' where
  adds := by simpa using h.adds
  inOrder := by simpa using ⟨hdraft.numbered, h.adds.consecutive⟩
  stays := by simpa using h.adds.kept
  defined := by simpa using h.defined
  stands := by
    rw [List.forall_mem_singleton]
    intro op hop
    obtain ⟨call, hcall, hop⟩ := List.mem_flatMap.1 hop
    exact h.stands call hcall op hop
  complete := h.complete
  inTable := h.inTable

end Builds

/-! ## Steps without regions -/

section Steps

variable {draft : Draft} {passed : List ValueId} {raw : Bool}

/-- A call that computes one result from operands. -/
theorem builds_computing {e : Construction ValueId} (he : AddsOne e) (hdraft : draft.Dense)
    (name : String) {kind : OpKind} {operands : List ValueId}
    (hneeds : (⟨operands.length, 1, 0⟩ : Counts).covers kind.needs = true)
    (hkind : kind.mentioned = []) (hpassed : ∀ id ∈ operands, id.index < draft.values.size) :
    let outcome := (do computing name kind operands (← e) : Construction (List Op)).run draft
    BuildsOps draft [⟨draft, passed, [(e.run draft).1], outcome.1, raw⟩] outcome := by
  let op : Op := { kind, operands, results := [(e.run draft).1] }
  have hadds : Adds draft op.ownDefined (e.run draft).2 := he.adds hdraft
  have hpassed' : ∀ id ∈ op.operands ++ op.kind.mentioned, id.index < draft.values.size := by
    simpa [op, hkind] using hpassed
  exact .leaf ⟨draft, passed, op.results, [op], raw⟩ op hdraft rfl rfl
    (hadds.record name hadds.index_lt) rfl hneeds hpassed'

/-- A call without a result. -/
theorem builds_acting (hdraft : draft.Dense) (name : String) {kind : OpKind}
    {operands : List ValueId} (hneeds : (⟨operands.length, 0, 0⟩ : Counts).covers kind.needs = true)
    (hkind : kind.mentioned = []) (hpassed : ∀ id ∈ operands, id.index < draft.values.size) :
    let outcome := (acting name kind operands).run draft
    BuildsOps draft [⟨draft, passed, [], outcome.1, raw⟩] outcome := by
  let op : Op := { kind, operands }
  have hadds : Adds draft op.ownDefined draft := .nil hdraft
  have hpassed' : ∀ id ∈ op.operands ++ op.kind.mentioned, id.index < draft.values.size := by
    simpa [op, hkind] using hpassed
  exact .leaf ⟨draft, passed, [], [op], raw⟩ op hdraft rfl rfl (hadds.record name (by simp)) rfl
    hneeds hpassed'

/-- A constant, before it is given out. -/
theorem builds_constant (hdraft : draft.Dense) (info : ValueInfo) :
    let outcome := (constant info).run draft
    BuildsOps draft [⟨draft, passed, [outcome.1.1], [outcome.1.2], raw⟩]
      ([outcome.1.2], outcome.2) := by
  let op : Op := { kind := .constant, results := [((add info).run draft).1] }
  have hadds : Adds draft op.ownDefined ((add info).run draft).2 := .add hdraft info
  have hpassed : ∀ id ∈ op.operands ++ op.kind.mentioned, id.index < draft.values.size := by
    simp [op, OpKind.mentioned]
  exact .leaf ⟨draft, passed, op.results, [op], raw⟩ op hdraft rfl rfl hadds rfl rfl hpassed

/-- A call that adds a constant and its operation. -/
theorem builds_recordedConstant (hdraft : draft.Dense) (name : String) (info : ValueInfo) :
    let (id, op) := ((constant info).run draft).1
    BuildsOps draft [⟨draft, passed, [id], [op], raw⟩]
      ((do
        let (id, op) ← constant info
        record (.allocated name [id])
        return [op] : Construction (List Op)).run draft) :=
  (builds_constant hdraft info).record name (Adds.add hdraft info).index_lt

/-- The extent of an array: a constant for the position, then the operation. -/
theorem builds_dim (hdraft : draft.Dense) {array : ValueId} (position : Int64)
    (hpassed : array.index < draft.values.size) :
    BuildsOps draft [(Step.dim array position).toCall draft]
      ((Step.dim array position).run.run draft) := by
  let index := ((constant (indexInfo position)).run draft).1.1
  let op := ((constant (indexInfo position)).run draft).1.2
  let before := ((constant (indexInfo position)).run draft).2
  have hconstant : BuildsOps draft [⟨draft, [], [index], [op], false⟩] ([op], before) :=
    builds_constant hdraft (indexInfo position)
  -- the caller does not know the position, but it is in the table
  have hindices : ∀ id ∈ [array, index], id.index < before.values.size := by
    have hadds := Adds.add hdraft (indexInfo position)
    have hgrows : before.values.size = draft.values.size + 1 := hadds.size
    have hindex : index.index < before.values.size :=
      hadds.index_lt index (List.mem_singleton_self _)
    rw [List.forall_mem_cons, List.forall_mem_singleton]
    exact ⟨by omega, hindex⟩
  let outcome :=
    (do computing "dim" .dim [array, index] (← addIndex) : Construction (List Op)).run before
  have hdim : BuildsOps before
      [⟨before, [array, index], [(addIndex.run before).1], outcome.1, false⟩] outcome :=
    builds_computing (addsOne_add _) hconstant.adds.dense "dim" rfl rfl hindices
  exact (hconstant.andThen hdim).merge hdraft (Step.dim array position).passed false

/-- A call of a function with any number of results. -/
theorem builds_call (hdraft : draft.Dense) (callee : String) (operands : List ValueId)
    (infos : List ValueInfo) (hpassed : ∀ id ∈ operands, id.index < draft.values.size) :
    BuildsOps draft [(Step.call callee operands infos).toCall draft]
      ((Step.call callee operands infos).run.run draft) := by
  let results := ((addAll infos).run draft).1
  let op : Op := { kind := .call callee, operands, results }
  have hadds : Adds draft op.ownDefined ((addAll infos).run draft).2 := .addAll hdraft infos
  have hpassed' : ∀ id ∈ op.operands ++ op.kind.mentioned, id.index < draft.values.size := by
    simpa [op, OpKind.mentioned] using hpassed
  exact .leaf ((Step.call callee operands infos).toCall draft) op hdraft rfl (List.append_nil _)
    (hadds.record "call" hadds.index_lt) rfl rfl hpassed'

/-- Whether a step fills regions. -/
def Step.fills : Step → Bool
  | .scfFor .. | .affineFor .. | .affineForBounds .. | .scfIf .. | .affineIf ..
  | .parallel .. => true
  | _ => false

/-- A step that fills no regions. -/
theorem Step.builds_single {step : Step} (hdraft : draft.Dense) (hfills : step.fills = false)
    (hpush : step.isPush = false) (hpassed : ∀ id ∈ step.passed, id.index < draft.values.size) :
    BuildsOps draft [step.toCall draft] (step.run.run draft) := by
  -- Nearly every step is a computation or an action; the others add no operation, two of them or
  -- any number of results.
  cases step with
  | value info =>
    have hadds := Adds.add hdraft info
    exact .silent ((Step.value info).toCall draft) hdraft rfl
      (hadds.record "value" hadds.index_lt)
  | constant elem literal => exact builds_recordedConstant hdraft "constant" _
  | index value => exact builds_recordedConstant hdraft "index" _
  | constantArray elem extents elements => exact builds_recordedConstant hdraft "constant_array" _
  | binary op lhs rhs =>
    exact builds_computing (addsOne_addLike lhs none) hdraft "binary" rfl rfl hpassed
  | unary op operand =>
    exact builds_computing (addsOne_addLike operand none) hdraft "unary" rfl rfl hpassed
  | cmpF predicate lhs rhs =>
    exact builds_computing (addsOne_addLike lhs (some .bool)) hdraft "cmpf" rfl rfl hpassed
  | cmpI predicate lhs rhs =>
    exact builds_computing (addsOne_addLike lhs (some .bool)) hdraft "cmpi" rfl rfl hpassed
  | select condition onTrue onFalse =>
    exact builds_computing (addsOne_addLike onTrue none) hdraft "select" rfl rfl hpassed
  | cast kind operand elem =>
    exact builds_computing (addsOne_add { elem }) hdraft "cast" rfl rfl hpassed
  | dim array position => exact builds_dim hdraft position (hpassed array (by simp [Step.passed]))
  | rank array => exact builds_computing (addsOne_add _) hdraft "rank" rfl rfl hpassed
  | alloc info => exact builds_computing (addsOne_add info) hdraft "alloc" rfl rfl hpassed
  | load array indices =>
    exact builds_computing (addsOne_addElement array) hdraft "load" rfl rfl hpassed
  | store source array indices => exact builds_acting hdraft "store" rfl rfl hpassed
  | affineLoad array map indices =>
    exact builds_computing (addsOne_addElement array) hdraft "affine_load" rfl rfl hpassed
  | affineStore source array map indices =>
    exact builds_acting hdraft "affine_store" rfl rfl hpassed
  | affineApply map operands =>
    exact builds_computing (addsOne_add _) hdraft "affine_apply" rfl rfl hpassed
  | assign source =>
    exact builds_computing (addsOne_addLike source none) hdraft "assign" rfl rfl hpassed
  | tensorToMemref source info =>
    exact builds_computing (addsOne_add info) hdraft "tensor_to_memref" rfl rfl hpassed
  | yield values => exact builds_acting hdraft "yield" rfl rfl hpassed
  | ret values => exact builds_acting hdraft "ret" rfl rfl hpassed
  | call callee operands results => exact builds_call hdraft callee operands results hpassed
  | ip kind operands => exact builds_acting hdraft "ip" rfl rfl hpassed
  | push op marks => cases hpush
  | scfFor | affineFor | affineForBounds | scfIf | affineIf | parallel => cases hfills

/-! ## Steps with regions -/

/-- The first region of a step is filled from a draft as good as the one that the step meets. -/
theorem Step.opened_dense (step : Step) (hdraft : draft.Dense) : (step.opened draft).Dense := by
  have hloop (name : String) : ((do record (.allocated name [← addIndex])).run draft).2.Dense :=
    have hadds := Adds.add hdraft { elem := .index }
    (hadds.record name hadds.index_lt).dense
  cases step with
  | scfFor lower upper step body marks => exact hloop "scf_for"
  | affineFor lower upper step body marks => exact hloop "affine_for"
  | affineForBounds lower upper step body marks => exact hloop "affine_for_bounds"
  | scfIf condition results onTrue onFalse => exact (Adds.addAll hdraft results).dense
  | parallel extents elem reductions body =>
    have hindices := Adds.addAll hdraft (extents.map fun _ => { elem := .index })
    have hresult := Adds.add hindices.dense { elem }
    have hgrows := hresult.size
    refine (hresult.record "parallel ivs" fun id hid => ?_).dense
    have hindex := hindices.index_lt id hid
    omega
  | _ => exact hdraft

section Regions

variable {calls calls' : List Call} {body body' : Construction (List Op)} {opened : Draft}

/-- A loop gives out its index before its body is filled. -/
theorem builds_loop (hdraft : draft.Dense) (name : String) {kind : OpKind}
    {operands : List ValueId} (marks : Marks)
    (hneeds : (⟨operands.length, 0, 1⟩ : Counts).covers kind.needs = true)
    (hpassed : ∀ id ∈ operands ++ kind.mentioned, id.index < draft.values.size)
    (hopened : opened = ((do record (.allocated name [← addIndex])).run draft).2)
    (hbody : BuildsOps opened calls (body.run opened)) :
    let outcome := (loop name kind operands body marks).run draft
    BuildsOps draft (⟨draft, passed, [(addIndex.run draft).1], outcome.1, raw⟩ :: calls)
      outcome := by
  subst hopened
  let index := (addIndex.run draft).1
  have hadds : Adds draft [index] (addIndex.run draft).2 := .add hdraft _
  have hindex := hadds.record name hadds.index_lt
  let inside := (body.run ((do record (.allocated name [← addIndex])).run draft).2).1
  let op : Op := marks.set { kind, operands, regions := [⟨[index], inside⟩] }
  exact .around ⟨draft, passed, [index], [op], raw⟩ op hdraft rfl rfl hindex rfl hbody hneeds
    hpassed

/-- A conditional over a set fills one region. -/
theorem builds_setConditional (hdraft : draft.Dense) {set : IntegerSet} {operands : List ValueId}
    (marks : Marks) (hpassed : ∀ id ∈ operands, id.index < draft.values.size)
    (hbody : BuildsOps draft calls (body.run draft)) :
    let outcome := (setConditional set operands body marks).run draft
    BuildsOps draft (⟨draft, passed, [], outcome.1, raw⟩ :: calls) outcome := by
  let inside := (body.run draft).1
  let op : Op := marks.set { kind := .affineIf set, operands, regions := [⟨[], inside⟩] }
  have hpassed' : ∀ id ∈ op.operands ++ op.kind.mentioned, id.index < draft.values.size := by
    simpa [op, Marks.set, OpKind.mentioned] using hpassed
  exact .around ⟨draft, passed, [], [op], raw⟩ op hdraft rfl rfl (.nil hdraft) rfl
    (hbody.record "affine_if" (by simp)) rfl hpassed'

/-- The results of a conditional are given out when its regions are filled. -/
theorem builds_conditional (hdraft : draft.Dense) {condition : ValueId} (infos : List ValueInfo)
    (hpassed : condition.index < draft.values.size)
    (hopened : opened = ((addAll infos).run draft).2)
    (honTrue : BuildsOps opened calls (body.run opened))
    (honFalse : BuildsOps (body.run opened).2 calls' (body'.run (body.run opened).2)) :
    let outcome := (conditional condition infos body body').run draft
    BuildsOps draft
      (⟨draft, passed, outcome.1.flatMap Op.ownDefined, outcome.1, raw⟩ :: (calls ++ calls'))
      outcome := by
  subst hopened
  let results := ((addAll infos).run draft).1
  have hadds : Adds draft results ((addAll infos).run draft).2 := .addAll hdraft infos
  have hinner := honTrue.append honFalse
  have hgrows := hinner.adds.size
  let inside := (body.run ((addAll infos).run draft).2).1
  let inside' := (body'.run (body.run ((addAll infos).run draft).2).2).1
  let others : List Block := if inside'.isEmpty then [] else [⟨[], inside'⟩]
  -- without operations to do otherwise there is no second region, and nothing is inside of it
  have hothers : others.flatMap BlockOf.args = [] ∧ withinBlocks others = withinOps inside' ∧
      mentionedInBlocks others = mentionedInOps inside' := by
    by_cases hempty : inside' = []
    · simp [others, hempty, withinBlocks, withinOps, mentionedInBlocks, mentionedInOps]
    · simp [others, hempty, withinBlocks_singleton, mentionedInBlocks_singleton]
  let op : Op :=
    { kind := .scfIf, operands := [condition], results, regions := ⟨[], inside⟩ :: others }
  have hdefined : op.ownDefined = results := by
    simp [op, Op.ownDefined, hothers.1]
  have hgiven := hinner.record "scf_if" fun id (hid : id ∈ results) => by
    have hindex := hadds.index_lt id hid
    omega
  refine .op ⟨draft, passed, op.ownDefined ++ [], [op], raw⟩ op hdraft rfl (List.append_nil _)
    (hdefined ▸ hadds) hgiven ?_ ?_ ?_ ?_
  · rw [withinBlocks, withinBlock, hothers.2.1]
  · intro id hid
    rw [mentionedInBlocks, mentionedInBlock, hothers.2.2] at hid
    exact .inr hid
  · show Counts.covers ⟨1, results.length, others.length + 1⟩ ⟨1, 0, 1⟩ = true
    simp [Counts.covers]
  · simpa [op, OpKind.mentioned] using hpassed

/-- The indices of a nest are given out before its body is filled, its result when it is. -/
theorem builds_nest (hdraft : draft.Dense) (extents : List Int64) (elem : ElemType)
    (reductions : List ReductionKind)
    (hopened : opened = (Step.parallel extents elem reductions []).opened draft)
    (hbody : BuildsOps opened calls (body.run opened)) :
    let outcome := (nest extents elem reductions body).run draft
    BuildsOps draft (⟨draft, passed, outcome.1.flatMap Op.ownDefined, outcome.1, raw⟩ :: calls)
      outcome := by
  subst hopened
  -- The order of the source: the indices, the result, the body, then the operation around them.
  let before := (addAll (extents.map fun _ => { elem := .index })).run draft
  let indices := before.1
  let result := ((add { elem }).run before.2).1
  have hindices : Adds draft indices before.2 := .addAll hdraft _
  have hadds : Adds draft (indices ++ [result]) ((add { elem }).run before.2).2 :=
    hindices.append (.add hindices.dense _)
  have hadded := hadds.record "parallel ivs" fun id (hid : id ∈ indices) =>
    hadds.index_lt id (List.mem_append_left _ hid)
  have hgrows := hbody.adds.size
  have hgiven := hbody.record "parallel" fun id (hid : id ∈ [result]) => by
    have hindex := hadded.index_lt id (List.mem_append_right _ hid)
    exact Nat.lt_of_lt_of_le hindex (hgrows ▸ Nat.le_add_right ..)
  let inside := (body.run ((Step.parallel extents elem reductions []).opened draft)).1
  let op : Op :=
    { kind := .affineParallel (nestBound (extents.map fun _ => 0)) (nestBound extents)
        (extents.map fun _ => 1)
      results := [result], attrs := { reductions }, regions := [⟨indices, inside⟩] }
  have hdefined : op.ownDefined = indices ++ [result] := by
    simp [op, Op.ownDefined]
  have hpassed : ∀ id ∈ op.operands ++ op.kind.mentioned, id.index < draft.values.size := by
    simp [op, OpKind.mentioned, nestBound]
  exact .around ⟨draft, passed, op.ownDefined ++ [], [op], raw⟩ op hdraft rfl (List.append_nil _)
    (hdefined ▸ hadded) rfl hgiven rfl hpassed

end Regions

/-! ## All steps -/

/-- The call of a step is the first of its calls. -/
theorem Step.toCall_mem_calls (step : Step) (draft : Draft) :
    step.toCall draft ∈ step.calls draft := by
  cases step <;> exact List.mem_cons_self ..

mutual

/-- What a step constructs, with the steps that fill its regions. -/
theorem Step.builds (step : Step) : ∀ {draft : Draft}, draft.Dense →
    (∀ call ∈ step.calls draft, call.Proper) →
    BuildsOps draft (step.calls draft) (step.run.run draft) := by
  intro draft hdraft hproper
  have hcall : (step.toCall draft).Proper := hproper _ (step.toCall_mem_calls draft)
  have hpassed : ∀ id ∈ step.passed, id.index < draft.values.size := fun id hid =>
    hdraft.known id (hcall.known id hid)
  have hopened := step.opened_dense hdraft
  -- Only a step with regions needs the induction: its bodies are built behind what it opens.
  cases step with
  | scfFor lower upper step body marks =>
    have hbody := runAll_builds body hopened (List.forall_mem_cons.1 hproper).2
    exact builds_loop hdraft "scf_for" marks rfl hpassed rfl hbody
  | affineFor lower upper step body marks =>
    have hbody := runAll_builds body hopened (List.forall_mem_cons.1 hproper).2
    exact builds_loop hdraft "affine_for" marks rfl hpassed rfl hbody
  | affineForBounds lower upper step body marks =>
    have hbody := runAll_builds body hopened (List.forall_mem_cons.1 hproper).2
    exact builds_loop hdraft "affine_for_bounds" marks rfl hpassed rfl hbody
  | scfIf condition results onTrue onFalse =>
    obtain ⟨hproperTrue, hproperFalse⟩ :=
      List.forall_mem_append.1 (List.forall_mem_cons.1 hproper).2
    have honTrue := runAll_builds onTrue hopened hproperTrue
    have honFalse := runAll_builds onFalse honTrue.adds.dense hproperFalse
    have hcondition := hpassed condition (List.mem_singleton_self _)
    exact builds_conditional hdraft results hcondition rfl honTrue honFalse
  | affineIf set operands onTrue marks =>
    have honTrue := runAll_builds onTrue hopened (List.forall_mem_cons.1 hproper).2
    exact builds_setConditional hdraft marks hpassed honTrue
  | parallel extents elem reductions body =>
    have hbody := runAll_builds body hopened (List.forall_mem_cons.1 hproper).2
    exact builds_nest hdraft extents elem reductions rfl hbody
  | _ => exact Step.builds_single hdraft rfl hcall.notRaw hpassed

/-- What some steps construct. -/
theorem runAll_builds (steps : List Step) : ∀ {draft : Draft}, draft.Dense →
    (∀ call ∈ callsAll steps draft, call.Proper) →
    BuildsOps draft (callsAll steps draft) ((runAll steps).run draft) := by
  intro draft hdraft hproper
  cases steps with
  | nil => exact .nil hdraft
  | cons step rest =>
    rw [callsAll, List.forall_mem_append] at hproper
    have hfirst := Step.builds step hdraft hproper.1
    exact hfirst.andThen (runAll_builds rest hfirst.adds.dense hproper.2)

end

end Steps

end Construction

end HlsEmit
