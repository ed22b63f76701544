import HlsEmit.Proofs.Rejection.Checks

/-!
# Admission decides by the checks

Each rule is gone through along its checks. The accelerator blocks have one check for the number of
operands and one for each number in their calling sequence; that a placeholder is left over is
checked by the rule as well, but never happens with the catalogue.

## Key results

- `Accelerator.exists_substitute`: every placeholder of the catalogue has a text
- `Op.plan_decides`: an operation has a plan if all of its checks hold
-/

namespace HlsEmit

/-! ## Placeholders -/

namespace Accelerator

/-- The placeholders that have a text if there is an operand for each role and all numbers are
known. -/
def Template.keys (template : Template) : List String :=
  "DT" :: (fixedTexts.map Prod.fst ++ template.extents.map Prod.fst ++ template.roles)

/-- Whether all placeholders of a line are closed and among some keys. `key` is what was read of a
placeholder so far. -/
def resolves (keys : List String) : (key : Option (List Char)) → List Char → Bool
  | none, [] => true
  | none, c :: rest =>
    if c = '\x7b' then resolves keys (some []) rest else resolves keys none rest
  | some _, [] => false
  | some key, c :: rest =>
    if c = '\x7d' then String.ofList key.reverse ∈ keys && resolves keys none rest
    else resolves keys (some (c :: key)) rest

/-- A line is filled in if each of its keys is one of those that are found. -/
theorem exists_substituteChars {keys : List String} {lookup : String → Option String}
    (hlookup : ∀ key ∈ keys, (lookup key).isSome) (key : Option (List Char)) (cs : List Char)
    (h : resolves keys key cs = true) : ∃ out, substituteChars lookup key cs = .ok out := by
  -- By the reader of the line: outside of a key, at its end, and inside.
  fun_induction substituteChars lookup key cs with
  | case1 => exact ⟨[], rfl⟩
  | case2 rest ih => exact ih h
  | case3 c rest hopen ih =>
    rw [resolves, if_neg hopen] at h
    obtain ⟨out, hout⟩ := ih h
    exact ⟨c :: out, by rw [hout]; rfl⟩
  | case4 key => cases h
  | case5 key rest name hname =>
    rw [resolves, if_pos rfl, Bool.and_eq_true, decide_eq_true_eq] at h
    have hsome := hlookup _ h.1
    rw [hname] at hsome
    cases hsome
  | case6 key rest name text htext ih =>
    rw [resolves, if_pos rfl, Bool.and_eq_true] at h
    obtain ⟨out, hout⟩ := ih h.2
    exact ⟨text.toList ++ out, by rw [hout]; rfl⟩
  | case7 key c rest hclose ih =>
    rw [resolves, if_neg hclose] at h
    exact ih h

/-- That all keys of a line are found is a property of its characters. -/
theorem resolves_ofList {keys : List String} (cs : List Char) (h : resolves keys none cs = true) :
    resolves keys none (String.ofList cs).toList = true := by
  rwa [String.toList_ofList]

/-- That all keys of a line in two parts are found is a property of its characters. -/
theorem resolves_append {keys : List String} (cs cs' : List Char)
    (h : resolves keys none (cs ++ cs') = true) :
    resolves keys none (String.ofList cs ++ String.ofList cs').toList = true := by
  rwa [String.toList_append, String.toList_ofList, String.toList_ofList]

/-- The lines around the call are the same for all reductions of a vector. -/
theorem resolves_vectorReduction {keys : List String} {routine : String}
    (hkeys : keys = (vectorReduction "amax").keys)
    (h : resolves keys none
      (routine ++ "<{DT}, {LP}, {DT}>({n}, l_strX, l_res);").toList = true) :
    ∀ line ∈ (vectorReduction routine).lines, resolves keys none line.toList = true := by
  subst hkeys
  -- a line is given by its characters, which the kernel need not decode
  simp only [vectorReduction, List.forall_mem_cons]
  refine ⟨?_, ?_, ?_, ?_, ?_, h, ?_, List.forall_mem_nil _⟩ <;>
    exact resolves_ofList _ (by decide +kernel)

/-- All placeholders of the catalogue are among the keys of their template. -/
theorem resolves_of (kind : IpKind) : ∀ line ∈ (Template.of kind).lines,
    resolves (Template.of kind).keys none line.toList = true := by
  cases kind with
  | amax =>
    exact resolves_vectorReduction rfl (resolves_append ['a', 'm', 'a', 'x'] _ (by decide +kernel))
  | amin =>
    exact resolves_vectorReduction rfl (resolves_append ['a', 'm', 'i', 'n'] _ (by decide +kernel))
  | asum =>
    exact resolves_vectorReduction rfl (resolves_append ['a', 's', 'u', 'm'] _ (by decide +kernel))
  | _ =>
    simp only [Template.of, axpy, dot, gbmv, gemm, gemv, nrm2, scal, swap, symv, trmv, fft, pseudoSqrt]
    repeat refine List.forall_mem_cons.2 ⟨resolves_ofList _ (by decide +kernel), ?_⟩
    exact List.forall_mem_nil _

/-- A key of the entries is found. -/
theorem isSome_lookup {β : Type} {entries : List (String × β)} {key : String}
    (h : key ∈ entries.map Prod.fst) : (entries.lookup key).isSome := by
  obtain ⟨entry, hentry, rfl⟩ := List.mem_map.1 h
  rw [Option.isSome_iff_ne_none]
  intro hnone
  simpa using List.lookup_eq_none_iff.1 hnone entry hentry

/-- Every placeholder of the catalogue has a text if there is an operand for each role and all
numbers are known. -/
theorem exists_substitute (kind : IpKind) (operands : List Use) (type : String)
    {extents : List (String × Int)} (hoperands : operands.length = (Template.of kind).roles.length)
    (hextents : extents.map Prod.fst = (Template.of kind).extents.map Prod.fst) {line : String}
    (hline : line ∈ (Template.of kind).lines) :
    ∃ out, substitute ((Template.of kind).lookup operands type extents) line = .ok out := by
  have hroles : ((Template.of kind).roles.zip operands).map Prod.fst = (Template.of kind).roles :=
    List.map_fst_zip (Nat.le_of_eq hoperands.symm)
  have hlookup : ∀ key ∈ (Template.of kind).keys,
      ((Template.of kind).lookup operands type extents key).isSome := by
    intro key hkey
    -- A key is the one of the type, of an extent, or of a role.
    unfold Template.lookup
    split
    · rfl
    · next hne =>
      rw [Template.keys, List.mem_cons, List.mem_append, List.mem_append] at hkey
      rw [Option.isSome_or, Option.isSome_or, Option.isSome_map, Option.isSome_map]
      rcases hkey with hkey | (hkey | hkey) | hkey
      · exact absurd hkey hne
      · simp [isSome_lookup hkey]
      · simp [isSome_lookup (hextents ▸ hkey)]
      · simp [Template.operand?, isSome_lookup (hroles.symm ▸ hkey)]
  obtain ⟨out, hout⟩ := exists_substituteChars hlookup none line.toList (resolves_of kind line hline)
  exact ⟨String.ofList out, by rw [substitute, hout]; rfl⟩

end Accelerator

/-! ## Numbers of a calling sequence -/

section Templates

variable {arena : Arena} {t : NameTable} {template : Accelerator.Template} {operands : List ValueId}

/-- What is found under a key among values that are mapped. -/
theorem lookup_zip_map {β γ : Type} (f : β → γ) (keys : List String) (values : List β)
    (key : String) : (keys.zip (values.map f)).lookup key = ((keys.zip values).lookup key).map f := by
  induction keys generalizing values with
  | nil => rfl
  | cons first keys ih =>
    cases values with
    | nil => rfl
    | cons value values =>
      rw [List.map_cons, List.zip_cons_cons, List.zip_cons_cons, List.lookup_cons, List.lookup_cons]
      cases key == first with
      | true => rfl
      | false => exact ih values

/-- The operand of a role, as it is used. -/
theorem operand?_use (role : String) :
    template.operand? (operands.map (arena.use t)) role =
      ((template.roles.zip operands).lookup role).map (arena.use t) :=
  lookup_zip_map ..

variable (hcount : operands.length = template.roles.length)

include hcount

/-- With an operand for each role, the one for a role is taken as it is used. -/
theorem operandFor_use (role : String) :
    template.operandFor (operands.map (arena.use t)) role =
      .ok (((template.roles.zip operands).lookup role).map (arena.use t)) := by
  rw [Accelerator.Template.operandFor_eq (by rw [List.length_map, hcount]), operand?_use]

variable (hknown : ∀ id ∈ operands, (arena.info? id).isSome)

include hknown

omit hcount in
/-- The operand of a role is in the arena. -/
theorem known_of_role {role : String} {id : ValueId}
    (h : (template.roles.zip operands).lookup role = some id) : (arena.info? id).isSome := by
  obtain ⟨before, after, hzip, -⟩ := List.lookup_eq_some_iff.1 h
  have hmem : (role, id) ∈ template.roles.zip operands := by rw [hzip]; simp
  exact hknown id (List.of_mem_zip hmem).2

/-- A number is found if the extent is known or the product has 64 bits. -/
theorem extent_eq (known : List (String × Int)) (key : String)
    (source : Accelerator.ExtentSource) :
    template.extent arena (operands.map (arena.use t)) known key source =
      (template.number? arena operands known source).elim
        (.error (.problem (template.lack key source))) .ok := by
  -- An extent is looked up in the shape of an operand; a product is computed.
  cases source with
  | dim role dim =>
    unfold Accelerator.Template.extent Accelerator.Template.number?
    dsimp only
    rw [operandFor_use hcount]
    cases hrole : (template.roles.zip operands).lookup role with
    | none => rfl
    | some id =>
      show (do
        let extents ← pure (← arena.entry id).shape.extents?
        template.staticExtent role dim extents) = _
      rw [Arena.entry_of_known (known_of_role hknown hrole)]
      show template.staticExtent role dim (arena.info id).shape.extents? = _
      unfold Accelerator.Template.staticExtent
      cases hextents : (arena.info id).shape.extents? with
      | none => simp [hextents, Accelerator.Template.lack]
      | some extents =>
        cases hextent : extents[dim]? with
        | none => simp [hextents, hextent, Accelerator.Template.lack]
        | some extent => simp [hextents, hextent]
  | product lhs rhs =>
    unfold Accelerator.Template.extent Accelerator.Template.number?
    dsimp only
    split <;> rfl

/-- The numbers are found one after the other. -/
theorem decides_extents (known : List (String × Int))
    (sources : List (String × Accelerator.ExtentSource)) :
    Decides (template.numberChecks arena operands known sources)
      (template.extentsFrom arena (operands.map (arena.use t)) known sources) := by
  induction sources generalizing known with
  | nil => exact .ok _
  | cons source rest ih =>
    obtain ⟨key, source⟩ := source
    obtain ⟨hcode, hseverity⟩ := template.lack_code key source
    rw [Accelerator.Template.numberChecks, Accelerator.Template.extentsFrom, extent_eq hcount hknown]
    cases template.number? arena operands known source with
    | none => exact .failed rfl hcode hseverity
    | some value => exact .passed rfl (ih _)

omit hcount hknown in
/-- The numbers that are found have the keys of the template. -/
theorem keys_extents {uses : List Use} {known found : List (String × Int)}
    {sources : List (String × Accelerator.ExtentSource)}
    (h : template.extentsFrom arena uses known sources = .ok found) :
    found.map Prod.fst = known.map Prod.fst ++ sources.map Prod.fst := by
  induction sources generalizing known with
  | nil =>
    cases h
    simp
  | cons source rest ih =>
    obtain ⟨key, source⟩ := source
    rw [Accelerator.Template.extentsFrom] at h
    cases hextent : template.extent arena uses known key source with
    | error obstacle => rw [hextent] at h; cases h
    | ok value =>
      rw [hextent] at h
      simpa using ih h

/-- No check is about the type. -/
theorem decides_type : Decides [] (template.typeFor arena (operands.map (arena.use t))) := by
  unfold Accelerator.Template.typeFor
  rw [operandFor_use hcount]
  cases hrole : (template.roles.zip operands).lookup template.dataRole with
  | none => exact .ok _
  | some id =>
    show Decides [] (do return Accelerator.dataType (← arena.entry id).elem)
    rw [Arena.entry_of_known (known_of_role hknown hrole)]
    exact .ok _

omit hcount in
/-- The lines of an accelerator call can be filled if all checks hold. -/
theorem decides_fill (kind : IpKind) :
    Decides ((Accelerator.Template.of kind).checks arena operands)
      ((Accelerator.Template.of kind).fill arena (operands.map (arena.use t))) := by
  unfold Accelerator.Template.fill Accelerator.Template.checks
  dsimp only
  rw [List.length_map]
  by_cases hcount : operands.length ≠ (Accelerator.Template.of kind).roles.length
  · rw [if_pos hcount]
    exact .failed (decide_eq_false hcount) rfl rfl
  rw [if_neg hcount]
  rw [Decidable.not_not] at hcount
  refine .passed (decide_eq_true hcount) ?_
  -- behind the numbers nothing fails: all placeholders have a text
  refine (decides_extents hcount hknown [] _).bindFree fun extents hextents => ?_
  refine (decides_type hcount hknown).bindFree fun type _ => ?_
  refine .mapM fun line hline => ?_
  obtain ⟨out, hout⟩ := Accelerator.exists_substitute kind (operands.map (arena.use t)) type
    (by rw [List.length_map, hcount]) (by simpa using keys_extents hextents) hline
  rw [hout]
  exact .ok _

end Templates

/-! ## Operations -/

section Operations

variable {arena : Arena} {t : NameTable} {owner : Option Op} {op : Op}

/-- The indices of an operation are the arguments of its first region. -/
theorem Op.indices_of {body : Block} {rest : List Block} (h : op.regions = body :: rest) :
    op.indices = body.args := by
  rw [indices, h]
  rfl

/-- What a rule takes of an operation is looked at by the checks, in the same order. -/
theorem Op.Ruled.decides {rule : Except Obstacle Plan} (hrule : op.Ruled arena t owner rule)
    (h : op.Readable arena) : Decides (op.ruleChecks arena t owner) rule := by
  obtain ⟨hoperands, hresults, hinputs⟩ := h
  have hcount {dims symbols : UInt32} (h : (dims, symbols) ∈ op.kind.inputs) :
      dims.toNat + symbols.toNat < UInt32.size := hinputs (dims, symbols) h
  unfold Op.ruleChecks
  cases hrule with
  -- loops and conditionals
  | scfFor hkind hops hregs =>
    simp only [hkind, Op.indices_of hregs]
    exact (decides_index _).map _
  | affineFor hkind hregs =>
    simp only [hkind, Op.indices_of hregs]
    refine (decides_bound 1 (hcount (by simp [hkind, OpKind.inputs]))).bind fun lowers _ => ?_
    refine (decides_bound 1 (hcount (by simp [hkind, OpKind.inputs]))).bind fun uppers _ => ?_
    exact (decides_index _).map _
  | affineIf hkind =>
    simp only [hkind]
    exact (decides_set op.operands (hcount (by simp [hkind, OpKind.inputs]))).map _
  | affineParallel hkind hregs =>
    simp only [hkind, Op.indices_of hregs]
    exact decides_nest _ _ (hcount (by simp [hkind, OpKind.inputs]))
      (hcount (by simp [hkind, OpKind.inputs]))
  | yield hkind =>
    rcases hkind with hkind | hkind <;> simp only [hkind] <;> exact decides_yield owner op.operands
  -- maps
  | affineApply hkind =>
    simp only [hkind]
    exact (decides_mapFirst op.operands (hcount (by simp [hkind, OpKind.inputs]))).map _
  | affineExtremum hkind =>
    rcases hkind with ⟨hkind, -⟩ | ⟨hkind, -⟩ <;> simp only [hkind] <;>
      exact (decides_map op.operands (hcount (by simp [hkind, OpKind.inputs]))).map _
  | affineLoad hkind hops | affineStore hkind hops =>
    simp only [hkind, hops]
    exact (decides_map _ (hcount (by simp [hkind, OpKind.inputs]))).map _
  -- what is known of values
  | alloc hkind hress =>
    rw [Arena.checkBound_of_known (hresults _ (by rw [hress]; exact List.mem_cons_self ..))]
    rcases hkind with hkind | hkind <;> simp only [hkind] <;> exact .ok _
  | tensorToMemref hkind hops hress =>
    rw [Arena.checkBound_of_known (hresults _ (by rw [hress]; exact List.mem_cons_self ..))]
    simp only [hkind]
    exact .ok _
  | @dim array index result rest others hkind hops hress =>
    simp only [hkind, hops]
    exact (decides_dim (hoperands array (by simp [hops])) (hoperands index (by simp [hops]))).map _
  | @rank array result rest others hkind hops hress =>
    simp only [hkind, hops]
    exact (decides_rank (hoperands array (by simp [hops]))).map _
  | @constant result rest hkind hress =>
    simp only [hkind, hress]
    exact decides_constant (hresults result (by simp [hress]))
  | accelerator hkind =>
    simp only [hkind]
    exact (decides_fill hoperands _).map _
  -- operators, and kinds without a rule
  | compute hkind =>
    revert hkind
    generalize op.kind = kind, op.operands = operands
    rintro (_ | _ | _ | _ | hoperator | _ | _)
    case cmpF => exact .passed (by rw [hoperator]; rfl) (.ok _)
    all_goals exact .ok _
  | incomparable hkind hoperator =>
    simp only [hkind, hoperator]
    exact .failed rfl rfl rfl
  | unknown hkind =>
    simp only [hkind]
    exact .failed rfl rfl rfl
  -- nothing is checked of the others
  | scfIf hkind | load hkind | store hkind | tensorStore hkind | cast hkind | call hkind
  | blockCall hkind =>
    simp only [hkind]
    exact .ok _
  | silent hkind => rcases hkind with hkind | hkind | hkind <;> simp only [hkind] <;> exact .ok _

/-- An operation has a plan if all of its checks hold, and else the problem of the first that does
not. -/
theorem Op.plan_decides (owner : Option Op) (h : op.Readable arena) :
    Decides (op.preChecks arena t owner) (op.plan arena t owner) := by
  unfold Op.plan Op.preChecks
  split
  · next hcovers => exact .passed hcovers ((Op.ruled hcovers).decides h)
  · next hcovers => exact .failed (Bool.eq_false_iff.2 hcovers) rfl rfl

end Operations

end HlsEmit
