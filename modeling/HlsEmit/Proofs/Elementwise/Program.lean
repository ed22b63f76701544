import HlsEmit.Proofs.Dangling
import HlsEmit.Proofs.Elementwise.Construction

/-!
# Elementwise programs are emitted cleanly

The operations of an elementwise program are emitted one after the other. Each finds its sources in
the name table and leaves its result there, so that nothing is in the way of any of them.

## Key results

- `completes_ofOps`: the operations of all steps, by induction on the steps
- `completes_function`: the function around them
- `ElementwiseProgram.emits_cleanly`: the program as a whole
-/

namespace HlsEmit

open Code Construction Emission

/-! ## What is written -/

/-- The statements of some steps, one after the other: each computes the next value from the sources
of its step. `count` values were added before. -/
inductive StepsWritten (extents : List Int64) : (count : Nat) → List Step → List Stmt → Prop where
  | nil {count : Nat} : StepsWritten extents count [] []
  | cons {count : Nat} {step : Step} {rest : List Step} {first others : List Stmt}
      (hfirst : WritesElements extents step.sources (nextValue count) first)
      (hothers : StepsWritten extents (count + 1) rest others) :
      StepsWritten extents count (step :: rest) (first ++ others)

/-- The ports of a function for some values of the common shape. -/
inductive PortsOf (extents : List Int64) : List ValueId → List Declarator → Prop where
  | nil : PortsOf extents [] []
  | cons {id : ValueId} {values : List ValueId} {port : Declarator} {ports : List Declarator}
      (hvalue : port.mention.value = id) (hextents : port.extents = extents)
      (htyped : port.mention.IsTyped) (hports : PortsOf extents values ports) :
      PortsOf extents (id :: values) (port :: ports)

/-- The code of an elementwise program. -/
structure Construction.ElementwiseProgram.Written (program : ElementwiseProgram)
    (code : FunctionCode) : Prop where
  /-- The arguments and the results of the steps are declared, and nothing else. -/
  declares : ∀ id, id ∈ (declarations code.mentions).map Prod.fst ↔
    id ∈ program.args ∨ id ∈ program.results
  /-- Each is declared once. -/
  once : ((declarations code.mentions).map Prod.fst).Nodup
  /-- No identifier is declared twice. -/
  identifiers : ((declarations code.mentions).map fun d => d.2.identifier).Nodup
  /-- Every declaration has a type. -/
  typed : ∀ mention ∈ code.mentions, mention.IsTyped
  /-- The ports are the arguments and the returned value. -/
  ports : PortsOf program.extents (program.args ++ [program.last]) code.ports
  /-- The body computes the results of the steps. -/
  steps : StepsWritten program.extents program.calls.length program.steps code.body

variable {arena : Arena} {extents : List Int64} {function : Option String} {ids known : List ValueId}
variable {t : NameTable} {count : Nat}

/-- The ports of two lists of values stand one behind the other. -/
theorem PortsOf.append {values values' : List ValueId} {ports ports' : List Declarator}
    (h : PortsOf extents values ports) (h' : PortsOf extents values' ports') :
    PortsOf extents (values ++ values') (ports ++ ports') := by
  induction h with
  | nil => exact h'
  | cons hvalue hextents htyped _ ih => exact .cons hvalue hextents htyped ih

/-- Every port has a type. -/
theorem PortsOf.typed {values : List ValueId} {ports : List Declarator}
    (h : PortsOf extents values ports) : ∀ m ∈ ports.map Declarator.mention, m.IsTyped := by
  induction h with
  | nil => simp
  | cons _ _ htyped _ ih => exact List.forall_mem_cons.2 ⟨htyped, ih⟩

/-- Every declaration in the steps has a type. -/
theorem StepsWritten.typed {steps : List Step} {stmts : List Stmt}
    (h : StepsWritten extents count steps stmts) : ∀ m ∈ mentionsOfStmts stmts, m.IsTyped := by
  induction h with
  | nil => simp [mentionsOfStmts]
  | cons hfirst _ ih =>
    obtain ⟨_, _, _, _, _, _, _, htyped, _⟩ := hfirst
    rw [mentionsOfStmts_append, List.forall_mem_append]
    exact ⟨htyped, ih⟩

/-! ## Steps -/

/-- An elementwise step reads known values only. -/
theorem Construction.Step.Elementwise.known_of_source {step : Step} (h : step.Elementwise known) :
    ∀ id ∈ step.sources, id ∈ known := by
  cases h <;> simp [Step.sources, *]

namespace Emission

/-- An operation that has a plan is written as its plan. -/
theorem completes_operation {op : Op} {plan : Plan} {owner : Option Op}
    {bodies : List (Emission (List Stmt))} {post : List Stmt → NameTable → Prop}
    (hplan : op.plan arena t owner = .ok plan)
    (h : Completes ⟨arena, function⟩ t (render op bodies plan) post) :
    Completes ⟨arena, function⟩ t (operation owner op bodies) post := by
  refine .bind (.of_run (dispatch_apply owner op _) ?_)
  refine .bindQuiet (inspect_apply _ _) ?_
  rw [hplan]
  exact h

section Uniform

variable (hu : arena.Uniform extents)

include hu

/-- The operations of all steps, with a return behind them. The values that are known all have names
when a step has its turn. -/
theorem completes_ofOps (ret : List ValueId) {steps : List Step} {ops : List Op}
    (hops : StepOps count steps ops) (hsteps : ElementwiseSteps known count steps)
    (ht : t.Declares ids) (hknown : Ready arena ids known)
    (hroom : count + steps.length ≤ arena.size) (hsize : arena.size ≤ UInt32.size) :
    Completes ⟨arena, function⟩ t (ofOps none (ops ++ [{ kind := .ret, operands := ret }]))
      fun stmts t' => StepsWritten extents count steps stmts ∧
        t'.Declares (stepResults count steps.length ++ ids) := by
  induction hops generalizing known ids t with
  | nil =>
    -- nothing is written for the return
    have hplan : Op.plan arena t none { kind := .ret, operands := ret } = .ok .nothing := rfl
    refine .bind (completes_operation hplan (.pure ?_))
    exact .bind (.pure (.pure ⟨.nil, ht⟩))
  | @cons count step rest ops kind formula hkind hops ih =>
    rw [List.length_cons] at hroom
    have hnext : (nextValue count).index = count := index_nextValue (by omega)
    have htarget : (arena.info? (nextValue count)).isSome := by
      simp [Arena.info?, hnext]
      omega
    have hsources : Ready arena ids formula.values := by
      rw [hkind.values]
      exact fun id hid => hknown id (hsteps.1.known_of_source id hid)
    let op : Op := { kind, operands := step.sources, results := [nextValue count] }
    have hnote : op.note = {} := rfl
    have hcompute := completes_compute function hu ht hnote hkind.plain htarget hsources
    refine .bind ((completes_operation (hkind.plan _ _ _ _) hcompute).mono ?_)
    rintro first t' ⟨hfirst, ht'⟩
    -- the result is one of the known values of the steps behind
    have hknown' : Ready arena (nextValue count :: ids) (nextValue count :: known) :=
      List.forall_mem_cons.2 ⟨⟨htarget, List.mem_cons_self ..⟩, hknown.cons _⟩
    refine .bind ((ih hsteps.2 ht' hknown' (by omega)).mono ?_)
    rintro others t'' ⟨hothers, ht''⟩
    rw [hkind.values] at hfirst
    refine .pure ⟨.cons hfirst hothers, ht''.congr fun id => ?_⟩
    simp only [stepResults, List.length_cons, List.range'_succ, List.map_cons, List.mem_append,
      List.mem_cons]
    exact or_left_comm.trans or_assoc.symm

/-! ## Signatures -/

/-- The arguments have names behind the signature, however often each is listed. -/
theorem completes_arguments {args : List ValueId} (hargs : ∀ id ∈ args, (arena.info? id).isSome)
    (ht : t.Declares ids) : Completes ⟨arena, function⟩ t (arguments args) fun ports t' =>
      PortsOf extents args ports ∧ t'.Declares (args ++ ids) := by
  induction args generalizing ids t with
  | nil => exact .pure ⟨.nil, ht⟩
  | cons arg rest ih =>
    rw [List.forall_mem_cons] at hargs
    have hmention := completes_mentionAs function hu ht false none hargs.1
    refine .bind ((completes_declarator hu none hargs.1 hmention).mono ?_)
    rintro port t' ⟨hextents, ⟨hvalue, htyped⟩, ht'⟩
    refine .bind ((ih hargs.2 ht').mono ?_)
    rintro ports t'' ⟨hports, ht''⟩
    refine .pure ⟨.cons hvalue hextents htyped hports, ht''.congr fun id => ?_⟩
    simp only [List.mem_append, List.mem_cons]
    exact or_left_comm.trans or_assoc.symm

/-- The returned value is declared in the signature, so that its step finds it with a name. -/
theorem completes_returned (ret : Op) {id : ValueId} (hid : (arena.info? id).isSome)
    (ht : t.Declares ids) (hfree : id ∉ ids) :
    Completes ⟨arena, function⟩ t (returned ret id) fun port t' =>
      PortsOf extents [id] [port] ∧ t'.Declares (id :: ids) := by
  have hbound : arena.isBound t id = false := by rw [hu.isBound hid ht, decide_eq_false hfree]
  refine .bindQuiet (isBound_apply hid) ?_
  rw [hbound, if_neg Bool.false_ne_true]
  refine .bindQuiet (info_apply hid) ?_
  rw [ValueInfo.isShaped, (hu.info hid).shape, Shape.isShaped_ofExtents]
  -- A returned scalar is a pointer, a returned array has its extents.
  cases extents with
  | nil =>
    refine .bind ((completes_mentionAs function hu ht true (some ret) hid).mono ?_)
    rintro m t' ⟨⟨hvalue, htyped⟩, ht'⟩
    exact .pure ⟨.cons hvalue rfl htyped .nil, ht'⟩
  | cons extent rest =>
    have hmention := completes_mentionAs function hu ht false (some ret) hid
    refine (completes_arrayDeclarator hu (some ret) hid hmention).mono ?_
    rintro port t' ⟨hextents, ⟨hvalue, htyped⟩, ht'⟩
    exact ⟨.cons hvalue hextents htyped .nil, ht'⟩

end Uniform

end Emission

/-! ## Operations of a program -/

/-- An operation without regions that does not return and whose values are all in front of some
position of the table. -/
structure Op.IsLeaf (op : Op) (size : Nat) : Prop where
  notReturn : op.kind ≠ .ret
  regions : op.regions = []
  inside : ∀ id, op.Mentions id → id.index < size

/-- Only kinds with bounds hide values. -/
theorem OpKind.Computes.isLeaf {kind : OpKind} {sources : List ValueId} {formula : Formula}
    (h : kind.Computes sources formula) {size : Nat} {result : ValueId}
    (hsources : ∀ id ∈ sources, id.index < size) (hresult : result.index < size) :
    Op.IsLeaf { kind, operands := sources, results := [result] } size where
  notReturn := h.notReturn
  regions := rfl
  inside id hid := by
    -- A kind that computes has no bounds, so it mentions operands and results only.
    have hnone : id ∉ kind.mentioned := by simp [h.noBounds]
    cases hid with
    | operand hid => exact hsources id hid
    | result hid => rwa [List.mem_singleton.1 hid]
    | loopBound hkind hid =>
      dsimp only at hkind
      rw [hkind] at hnone
      exact absurd (List.mem_append.2 hid) hnone
    | nestBound hkind hid =>
      dsimp only at hkind
      rw [hkind] at hnone
      exact absurd (List.mem_append.2 hid) hnone

/-- The sources of a step are in front of its result. -/
theorem Construction.StepOps.isLeaf {steps : List Step} {ops : List Op}
    (hops : StepOps count steps ops) (hsteps : ElementwiseSteps known count steps) {size : Nat}
    (hknown : ∀ id ∈ known, id.index < size) (hroom : count + steps.length ≤ size)
    (hsize : size ≤ UInt32.size) : ∀ op ∈ ops, op.IsLeaf size := by
  induction hops generalizing known with
  | nil => simp
  | @cons count step rest ops kind formula hkind hops ih =>
    rw [List.length_cons] at hroom
    have hnext : (nextValue count).index < size := by
      rw [index_nextValue (by omega)]
      omega
    refine List.forall_mem_cons.2 ⟨?_, ih hsteps.2 ?_ (by omega)⟩
    · exact hkind.isLeaf (fun id hid => hknown id (hsteps.1.known_of_source id hid)) hnext
    · exact List.forall_mem_cons.2 ⟨hnext, hknown⟩

/-- The values with names in the end are those that were declared, each once. -/
theorem Module.declared_of_names {module : Module} (h : module.dangling = [])
    (includes : List String) (hnames : (module.program includes).names.Declares ids) :
    (∀ id, id ∈ (declarations (module.program includes).value.mentions).map Prod.fst ↔ id ∈ ids) ∧
      ((declarations (module.program includes).value.mentions).map Prod.fst).Nodup ∧
      ((declarations (module.program includes).value.mentions).map fun d => d.2.identifier).Nodup := by
  have haccepts : (module.contract h fun _ => True).Accepts module.within :=
    fun _ _ _ _ => .inr trivial
  obtain ⟨events, hperm, hrun⟩ := Module.program_run h haccepts includes
  have hv := NameTable.valid_empty module.values
  rw [hrun.names] at hnames
  refine ⟨fun id => ?_, hrun.history.values_nodup hv hperm, hrun.history.identifiers hv hperm⟩
  have hdeclarations : (declarations (module.program includes).value.mentions).Perm
      (declarations (written events)) := hperm.filterMap _
  rw [(hdeclarations.map Prod.fst).mem_iff]
  constructor
  -- The replayed names of the run are the names in the end.
  · intro hid
    obtain ⟨d, hd, rfl⟩ := List.mem_map.1 hid
    refine Decidable.byContradiction fun hnot => ?_
    have hnone := hnames.unbound hnot
    rw [(hrun.history.declared hd).2] at hnone
    cases hnone
  · intro hid
    obtain ⟨name, hname⟩ := hnames.exists_name hid
    exact List.mem_map.2 ⟨(id, name), hrun.history.declaration_of rfl hname, rfl⟩

namespace Construction.ElementwiseProgram

variable (program : ElementwiseProgram) {ops : List Op}

/-! ## Programs -/

/-- The number of values of a program. -/
def valueCount : Nat :=
  program.calls.length + program.steps.length

/-- There is a step, so there are more values than calls. -/
theorem calls_lt_valueCount : program.calls.length < program.valueCount := by
  have hsteps := List.length_pos_iff.2 program.someSteps
  rw [valueCount]
  omega

/-- The last value is that of the last step. -/
theorem index_last : program.last.index = program.valueCount - 1 := by
  have hnumbered := program.numbered
  have hcalls := program.calls_lt_valueCount
  rw [valueCount] at hcalls
  exact index_nextValue (by omega)

/-- Arguments are values of the program. -/
theorem index_lt_of_arg {id : ValueId} (hid : id ∈ program.args) :
    id.index < program.valueCount :=
  Nat.lt_trans (program.addedArgs id hid) program.calls_lt_valueCount

/-- The last value is a result of a step. -/
theorem last_mem_results : program.last ∈ program.results := by
  have hcalls := program.calls_lt_valueCount
  rw [valueCount] at hcalls
  refine List.mem_map.2 ⟨program.calls.length + program.steps.length - 1, ?_, rfl⟩
  rw [List.mem_range'_1]
  omega

/-- The value that is returned is no argument. -/
theorem last_not_mem_args : program.last ∉ program.args := by
  intro hmem
  have hadded := program.addedArgs _ hmem
  have hcalls := program.calls_lt_valueCount
  rw [index_last] at hadded
  omega

section Module

variable (hleaf : ∀ op ∈ ops, op.IsLeaf program.valueCount)

include hleaf

/-- The only block of the function is its body. -/
theorem eq_body_of_hasBlock {block : Block} (h : (program.function ops).HasBlock block) :
    block = ⟨[], ops ++ [{ kind := .ret, operands := [program.last] }]⟩ := by
  induction h with
  | body h => exact List.mem_singleton.1 h
  | region _ hop hregion ih =>
    rw [ih] at hop
    rcases List.mem_append.1 hop with hop | hop
    · rw [(hleaf _ hop).regions] at hregion
      cases hregion
    · rw [List.mem_singleton.1 hop] at hregion
      cases hregion

/-- The module of a program mentions no value outside of its table. -/
theorem dangling_eq_nil {arena : Arena} (hsize : arena.size = program.valueCount) :
    Module.dangling ⟨arena, [program.function ops]⟩ = [] := by
  refine List.eq_nil_iff_forall_not_mem.2 fun id hid => ?_
  obtain ⟨houtside, function, hfunction, hmentions⟩ := Module.mem_dangling.1 hid
  rw [List.mem_singleton.1 hfunction] at hmentions
  -- Every mention is an argument, belongs to a step, or is the returned value.
  have hinside : id.index < program.valueCount := by
    cases hmentions with
    | arg h => exact program.index_lt_of_arg h
    | blockArg hblock h =>
      rw [program.eq_body_of_hasBlock hleaf hblock] at h
      cases h
    | op hblock hop h =>
      rw [program.eq_body_of_hasBlock hleaf hblock] at hop
      rcases List.mem_append.1 hop with hop | hop
      · exact (hleaf _ hop).inside id h
      · rw [List.mem_singleton.1 hop] at h
        cases h with
        | operand h =>
          have hcalls := program.calls_lt_valueCount
          rw [List.mem_singleton.1 h, index_last]
          omega
        | result h => cases h
        | loopBound hkind h => cases hkind
        | nestBound hkind h => cases hkind
  rw [hsize] at houtside
  omega

/-- The body ends with the only return. -/
theorem returnCount_eq_one : (program.function ops).returnCount = 1 := by
  have hnone : ops.countP (fun op : Op => op.kind = OpKind.ret) = 0 := by
    rw [List.countP_eq_zero]
    intro op hop
    simpa using (hleaf op hop).notReturn
  have hcount : (program.function ops).returnCount =
      (ops ++ [({ kind := .ret, operands := [program.last] } : Op)]).countP
        (fun op => op.kind = OpKind.ret) := rfl
  rw [hcount, List.countP_append, hnone]
  rfl

end Module

/-- The return of the function is its last operation. -/
theorem returnOp_function : (program.function ops).blocks.head?.bind BlockOf.returnOp? =
    some { kind := .ret, operands := [program.last] } := by
  simp [function, BlockOf.returnOp?]

section Emission

variable {arena : Arena} (hu : arena.Uniform program.extents)
variable (hsize : arena.size = program.valueCount)
variable (hops : StepOps program.calls.length program.steps ops)

include hu hsize hops

/-- The function of a program, its signature included. -/
theorem completes_function (hleaf : ∀ op ∈ ops, op.IsLeaf program.valueCount) :
    Completes ⟨arena, none⟩ .empty (Emission.function (program.function ops)) fun code t' =>
      (PortsOf program.extents (program.args ++ [program.last]) code.ports ∧
        StepsWritten program.extents program.calls.length program.steps code.body) ∧
        t'.Declares (program.results ++ program.args) := by
  have hknown {id : ValueId} (hid : id.index < program.valueCount) : (arena.info? id).isSome := by
    rw [← hsize] at hid
    simpa [Arena.info?] using hid
  have hargs : ∀ id ∈ program.args, (arena.info? id).isSome := fun id hid =>
    hknown (program.index_lt_of_arg hid)
  have hlast : (arena.info? program.last).isSome := by
    have hcalls := program.calls_lt_valueCount
    refine hknown ?_
    rw [index_last]
    omega
  have hstructure : (checkStructure (program.function ops)).run ⟨arena, program.name⟩ .empty =
      ⟨(), .empty, [], [], []⟩ := by
    unfold checkStructure
    rw [program.returnCount_eq_one hleaf]
    rfl
  have hreturn (t : NameTable) : (returnOp? (program.function ops)).run ⟨arena, program.name⟩ t =
      ⟨some { kind := .ret, operands := [program.last] }, t, [], [], []⟩ := by
    unfold returnOp?
    rw [returnOp_function]
    rfl
  -- In the order of the emission: structure, arguments, return, its port, then the steps.
  refine .inFunction (.bindQuiet hstructure ?_)
  refine .bind ((completes_arguments hu hargs NameTable.declares_empty).mono ?_)
  rintro arguments t₁ ⟨harguments, ht₁⟩
  rw [List.append_nil] at ht₁
  refine .bindQuiet (hreturn t₁) ?_
  refine .bind (.bind ((completes_returned hu _ hlast ht₁ program.last_not_mem_args).mono ?_))
  rintro port t₂ ⟨hport, ht₂⟩
  refine .bind (.pure (.pure (.bind (.pure ?_))))
  have hready : Ready arena (program.last :: program.args) program.args := fun id hid =>
    ⟨hargs id hid, List.mem_cons_of_mem _ hid⟩
  have hnumbered : arena.size ≤ UInt32.size := hsize ▸ program.numbered
  refine .bind ((completes_ofOps hu [program.last] hops program.computes ht₂ hready
    (Nat.le_of_eq hsize.symm) hnumbered).mono ?_)
  rintro body t₃ ⟨hbody, ht₃⟩
  refine .pure ⟨⟨harguments.append hport, hbody⟩, ht₃.congr fun id => ?_⟩
  -- The returned value is a result, so the declared values are the arguments and the results.
  have hresult : id = program.last → id ∈ program.results := fun heq =>
    heq ▸ program.last_mem_results
  simp only [results, List.mem_append, List.mem_cons] at hresult ⊢
  constructor
  · rintro (h | h | h)
    · exact .inl h
    · exact .inl (hresult h)
    · exact .inr h
  · exact Or.imp_right .inr

end Emission

/-- Nothing is reported or looked up in vain, each argument and each result is declared once, and
each step has its loops around one line in which every identifier is indexed by the counters of all
of them. -/
theorem emits_cleanly (program : ElementwiseProgram) (includes : List String) :
    ∃ code, program.module.emit includes = ⟨Program.text ⟨includes, [code]⟩, []⟩ ∧
      program.module.overruns includes = [] ∧ program.Written code := by
  obtain ⟨arena, ops, hmodule, hu, hsize, hops⟩ := program.module_eq
  have hleaf := hops.isLeaf program.computes (fun id hid => program.index_lt_of_arg hid)
    (Nat.le_refl program.valueCount) program.numbered
  have hdangling := program.dangling_eq_nil hleaf hsize
  -- The module has one function, so the program is that function.
  have hprogram : Completes ⟨arena, none⟩ .empty
      (do return ⟨includes, ← functions [program.function ops]⟩ : Emission Program)
      fun code t' => ∃ functionCode, code = ⟨includes, [functionCode]⟩ ∧
        (PortsOf program.extents (program.args ++ [program.last]) functionCode.ports ∧
          StepsWritten program.extents program.calls.length program.steps functionCode.body) ∧
        t'.Declares (program.results ++ program.args) := by
    refine .bind (.bind ((program.completes_function hu hsize hops hleaf).mono ?_))
    exact fun code t' h => .bind (.pure (.pure (.pure ⟨code, rfl, h⟩)))
  obtain ⟨code, hvalue, ⟨hports, hbody⟩, hdeclares⟩ := hprogram.post
  rw [hmodule]
  -- What is declared is what has a name in the end.
  have hdeclared := Module.declared_of_names hdangling includes hdeclares
  have hmentions : ((Module.program ⟨arena, [program.function ops]⟩ includes).value).mentions =
      code.mentions := by
    rw [Module.program, hvalue]
    simp [Program.mentions]
  rw [hmentions] at hdeclared
  refine ⟨code, ?_, ?_, ?_⟩
  · rw [Module.emit, hdangling]
    show Emitted.mk (Program.text (Module.program _ includes).value) _ = _
    rw [Module.program, hvalue, hprogram.raised]
  · rw [Module.overruns, hdangling]
    exact hprogram.overruns
  · exact
      { declares := fun id => by
          rw [hdeclared.1 id, List.mem_append]
          exact or_comm
        once := hdeclared.2.1
        identifiers := hdeclared.2.2
        typed := List.forall_mem_append.2 ⟨hports.typed, hbody.typed⟩
        ports := hports
        steps := hbody }

/-- The larger ones of the elements of two arrays. -/
def larger : ElementwiseProgram where
  name := "larger"
  extents := [4, 8]
  calls := [.array .f32 [4, 8], .array .f32 [4, 8]]
  args := [⟨0⟩, ⟨1⟩]
  steps := [.cmpF .ogt ⟨0⟩ ⟨1⟩, .select ⟨2⟩ ⟨0⟩ ⟨1⟩]
  addsVariables := by
    intro call hcall
    have hcall' : call = .array .f32 [4, 8] := by simpa using hcall
    exact ⟨{ elem := .f32, shape := .fixed [4, 8] }, by rw [hcall']; rfl, rfl, rfl, rfl⟩
  addedArgs := by decide
  someSteps := by decide
  computes := ⟨.cmpF rfl (by decide) (by decide), .select (by decide) (by decide) (by decide), trivial⟩
  numbered := by decide

/-- A program of two arguments, a comparison and a selection. -/
theorem larger_emits_cleanly : larger.module.values.size = 4 ∧
    ∃ code, larger.module.emit [] = ⟨Program.text ⟨[], [code]⟩, []⟩ ∧
      larger.module.overruns [] = [] ∧ larger.Written code :=
  ⟨by decide +kernel, larger.emits_cleanly []⟩

end Construction.ElementwiseProgram

end HlsEmit
