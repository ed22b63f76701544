import HlsEmit.Code.Bare
import HlsEmit.Emission.Pragmas
import HlsEmit.Proofs.Primitives

/-!
# Emissions in lockstep

Two emissions are compared that start from different name tables, or emit operations with different
debugging data. What both have to have in common is said by a `Comparison`: the value table, the
values about which both name tables tell the same, and whether debugging data is the same, too.
`Lockstep` emissions then have alike values, report alike problems, and leave tables that agree again.

## Key results

- `NameTable.Agrees.insert`: tables that agree go on to do so if the same is named in both
- `Lockstep.pure`, `Lockstep.bind`: emissions are compared piece by piece
- `lockstep_mentionAs`: the only place where a name is given
-/

namespace HlsEmit

open Code

/-! ## Likeness -/

/-- Two things are the same without debugging data; if they have to be exactly the same, they are. -/
structure Alike {α β : Type} (bare : α → β) (exact : Bool) (x y : α) : Prop where
  bare_eq : bare x = bare y
  eq : exact = true → x = y

namespace Alike

variable {α β γ δ : Type} {bare : α → β} {bare' : γ → δ} {exact : Bool} {x y z : α}

/-- Everything is like itself. -/
theorem refl (x : α) : Alike bare exact x x := ⟨rfl, fun _ => rfl⟩

/-- What is made of alike things is alike if debugging data does not get into anything else. -/
theorem map (f : α → γ) (hf : ∀ x y, bare x = bare y → bare' (f x) = bare' (f y))
    (h : Alike bare exact x y) : Alike bare' exact (f x) (f y) :=
  ⟨hf x y h.bare_eq, fun hexact => congrArg f (h.eq hexact)⟩

/-- Alike lists behind each other are alike. -/
theorem append {bare : List α → List β} (hbare : ∀ xs ys, bare (xs ++ ys) = bare xs ++ bare ys)
    {xs xs' ys ys' : List α} (hx : Alike bare exact xs xs') (hy : Alike bare exact ys ys') :
    Alike bare exact (xs ++ ys) (xs' ++ ys') := by
  refine ⟨?_, fun hexact => ?_⟩
  · rw [hbare, hbare, hx.bare_eq, hy.bare_eq]
  · rw [hx.eq hexact, hy.eq hexact]

end Alike

/-- Operations that are the same but for debugging data. -/
abbrev Op.Alike (exact : Bool) (op op' : Op) : Prop :=
  HlsEmit.Alike Op.bare exact op op'

/-- The same for operations that may be missing. -/
abbrev OpAlike? (exact : Bool) (op op' : Option Op) : Prop :=
  HlsEmit.Alike (Option.map Op.bare) exact op op'

/-- Statements that are the same but for their notes. -/
abbrev StmtsAlike (exact : Bool) (stmts stmts' : List Stmt) : Prop :=
  HlsEmit.Alike bareStmts exact stmts stmts'

/-- Reports that are the same but for their source lines. -/
abbrev ReportsAlike (exact : Bool) (reports reports' : List Diagnostic) : Prop :=
  HlsEmit.Alike (List.map Diagnostic.bare) exact reports reports'

namespace Op.Alike

variable {exact : Bool} {op op' : Op} (h : op.Alike exact op')

include h

/-- Alike operations have the same kind. -/
theorem kind : op.kind = op'.kind := by
  have := congrArg Op.kind h.bare_eq
  simpa using this

/-- Alike operations have the same operands. -/
theorem operands : op.operands = op'.operands := by
  have := congrArg Op.operands h.bare_eq
  simpa using this

/-- Alike operations have the same results. -/
theorem results : op.results = op'.results := by
  have := congrArg Op.results h.bare_eq
  simpa using this

/-- Alike operations have the same attributes but for what is stripped. -/
theorem attrs : op.attrs.bare = op'.attrs.bare := by
  have := congrArg Op.attrs h.bare_eq
  simpa using this

/-- Alike operations have the same regions but for what is stripped. -/
theorem regions : op.regions.map bareBlock = op'.regions.map bareBlock := by
  have := congrArg Op.regions h.bare_eq
  simpa [bareBlocks_eq] using this

/-- Alike operations have the same reductions. -/
theorem reductions : op.attrs.reductions = op'.attrs.reductions := by
  have := congrArg OpAttrs.reductions h.attrs
  exact this

/-- Alike operations have the same pragmas of loops. -/
theorem loopPragmas : op.attrs.loopPragmas = op'.attrs.loopPragmas := by
  have := congrArg OpAttrs.loopPragmas h.attrs
  exact this

/-- Operations that are there are alike. -/
theorem some : OpAlike? exact (some op) (some op') :=
  h.map Option.some fun _ _ hbare => congrArg Option.some hbare

end Op.Alike

/-! ## Tables -/

/-- Two tables tell the same about some values, and have the same number of entries. -/
structure NameTable.Agrees (ids : ValueId → Prop) (t t' : NameTable) : Prop where
  size : t.size = t'.size
  binding : ∀ id, ids id → t.binding? id = t'.binding? id
  owner : ∀ id owner, ids id → t.binding? id = some (.shared owner) →
    t.ownName? owner = t'.ownName? owner

namespace NameTable

/-- A new binding gives its value a name of its own, or none. -/
theorem ownName?_insert (t : NameTable) (id id' : ValueId) (binding : Binding) :
    (t.insert id binding).ownName? id' =
      if id' = id then (match binding with
        | .declared name => some name
        | .shared _ => none) else t.ownName? id' := by
  unfold ownName?
  rw [binding?_insert]
  by_cases h : id' = id
  · rw [if_pos h, if_pos h]
    cases binding <;> rfl
  · rw [if_neg h, if_neg h]

namespace Agrees

variable {ids ids' : ValueId → Prop} {t t' : NameTable} {id : ValueId}

/-- Every table agrees with itself. -/
theorem refl (t : NameTable) : t.Agrees ids t :=
  ⟨rfl, fun _ _ => rfl, fun _ _ _ _ => rfl⟩

/-- Tables that agree on some values agree on fewer. -/
theorem mono (h : t.Agrees ids t') (hids : ∀ id, ids' id → ids id) : t.Agrees ids' t' :=
  ⟨h.size, fun id hid => h.binding id (hids id hid), fun id owner hid => h.owner id owner (hids id hid)⟩

/-- Tables of the same size agree on values that have no name in either. -/
theorem of_unbound (hsize : t.size = t'.size)
    (h : ∀ id, ids id → t.binding? id = none ∧ t'.binding? id = none) : t.Agrees ids t' where
  size := hsize
  binding := fun id hid => by rw [(h id hid).1, (h id hid).2]
  owner := fun id owner hid hshared => by rw [(h id hid).1] at hshared; cases hshared

/-- Tables that agree declare the same values. -/
theorem isDeclared (h : t.Agrees ids t') (hid : ids id) : t.isDeclared id = t'.isDeclared id := by
  rw [NameTable.isDeclared, NameTable.isDeclared, h.binding id hid]

/-- Tables that agree have the same owners. -/
theorem owner? (h : t.Agrees ids t') (hid : ids id) : t.owner? id = t'.owner? id := by
  rw [NameTable.owner?, NameTable.owner?, h.binding id hid]

/-- The owner of a name has the same name in both. -/
theorem ownName?_owner (h : t.Agrees ids t') (hid : ids id) {owner : ValueId}
    (howner : t.owner? id = some owner) : t.ownName? owner = t'.ownName? owner := by
  cases hbinding : t.binding? id with
  | none => rw [NameTable.owner?, hbinding] at howner; cases howner
  | some binding =>
    rw [NameTable.owner?, hbinding] at howner
    cases binding with
    | declared name =>
      cases howner
      rw [ownName?, ownName?, h.binding id hid]
    | shared owner' =>
      cases howner
      exact h.owner id owner hid hbinding

/-- Tables that agree give the same names. -/
theorem name? (h : t.Agrees ids t') (hid : ids id) : t.name? id = t'.name? id := by
  rw [NameTable.name?, NameTable.name?, ← h.owner? hid]
  cases howner : t.owner? id with
  | none => rfl
  | some owner => exact h.ownName?_owner hid howner

/-- Tables that agree go on to do so if the same is named in both. -/
theorem insert (h : t.Agrees ids t') (id : ValueId) {binding : Binding}
    (howner : ∀ owner, binding = .shared owner → t.ownName? owner = t'.ownName? owner) :
    (t.insert id binding).Agrees ids (t'.insert id binding) where
  size := congrArg (· + 1) h.size
  binding := fun other hother => by
    rw [binding?_insert, binding?_insert, h.binding other hother]
  owner := fun other owner hother hshared => by
    have hold : t.ownName? owner = t'.ownName? owner := by
      rw [binding?_insert] at hshared
      split at hshared
      · exact howner owner (Option.some.inj hshared)
      · exact h.owner other owner hother hshared
    rw [ownName?_insert, ownName?_insert, hold]

end Agrees

end NameTable

/-- What two emissions have to have in common. -/
structure Comparison where
  arena : Arena
  /-- The values about which both name tables tell the same. -/
  ids : ValueId → Prop
  /-- Whether debugging data is the same. -/
  exact : Bool

namespace Arena

variable {ids : ValueId → Prop} {t t' : NameTable} {id : ValueId} (arena : Arena)

/-- Tables that agree use values alike. -/
theorem use_eq (h : t.Agrees ids t') (hid : ids id) : arena.use t id = arena.use t' id := by
  rw [use, use, designator, designator, h.name? hid, h.size]

/-- Tables that agree use the operands of a map alike. -/
theorem operandAt_eq (h : t.Agrees ids t') {operands : List ValueId}
    (hids : ∀ id ∈ operands, ids id) : arena.operandAt t operands = arena.operandAt t' operands := by
  funext position
  rw [operandAt, operandAt]
  cases hid : operands[position]? with
  | none => rfl
  | some id =>
    have huse := arena.use_eq h (hids id (List.mem_of_getElem? hid))
    simp only [huse]

/-- Tables that agree answer alike whether a value is bound. -/
theorem checkBound_eq (h : t.Agrees ids t') (hid : ids id) :
    arena.checkBound t id = arena.checkBound t' id := by
  rw [checkBound, checkBound, h.isDeclared hid]

end Arena

/-! ## Emissions -/

namespace Emission

variable {α β γ δ : Type} {c : Comparison}

/-- What two emissions leave behind is alike. No other values were named, and no names were taken
away. -/
structure Beside (c : Comparison) (R : α → β → Prop) (t : NameTable) (o : Outcome α)
    (o' : Outcome β) : Prop where
  value : R o.value o'.value
  names : o.names.Agrees c.ids o'.names
  raised : ReportsAlike c.exact o.raised o'.raised
  others : ∀ id, ¬ c.ids id → o.names.binding? id = t.binding? id
  kept : ∀ id binding, t.binding? id = some binding → o.names.binding? id = some binding

/-- Two emissions leave behind what is alike, from any two tables that agree. -/
def Lockstep (c : Comparison) (R : α → β → Prop) (e : Emission α) (e' : Emission β) : Prop :=
  ∀ function t t', t.Agrees c.ids t' →
    Beside c R t (e.run ⟨c.arena, function⟩ t) (e'.run ⟨c.arena, function⟩ t')

/-- Nothing is named or reported. -/
theorem Beside.quiet {R : α → β → Prop} {t t' : NameTable} (ht : t.Agrees c.ids t') {x : α} {y : β}
    (h : R x y) : Beside c R t { value := x, names := t } { value := y, names := t' } :=
  ⟨h, ht, .refl [], fun _ _ => rfl, fun _ _ hbound => hbound⟩

/-- One of the values that are compared is named. -/
theorem Beside.named {R : α → β → Prop} {t t' : NameTable} (ht : t.Agrees c.ids t') {x : α} {y : β}
    (h : R x y) {id : ValueId} (hid : c.ids id) (hnew : t.isDeclared id = false) {binding : Binding}
    (howner : ∀ owner, binding = .shared owner → t.ownName? owner = t'.ownName? owner) :
    Beside c R t { value := x, names := t.insert id binding }
      { value := y, names := t'.insert id binding } := by
  refine ⟨h, ht.insert id howner, .refl [], fun other hother => ?_, fun other bound hbound => ?_⟩
  · have hne : other ≠ id := fun heq => hother (heq ▸ hid)
    rw [NameTable.binding?_insert, if_neg hne]
  · have hne : other ≠ id := by
      rintro rfl
      rw [NameTable.isDeclared, hbound] at hnew
      cases hnew
    rw [NameTable.binding?_insert, if_neg hne, hbound]

namespace Lockstep

variable {R : α → β → Prop} {R' : γ → δ → Prop} {e : Emission α} {e' : Emission β}

/-- Related values are emitted in lockstep. -/
theorem pure {x : α} {y : β} (h : R x y) : Lockstep c R (pure x) (pure y) :=
  fun _ _ _ ht => .quiet ht h

/-- Two emissions in lockstep, one behind the other. -/
theorem bind {next : α → Emission γ} {next' : β → Emission δ} (he : Lockstep c R e e')
    (hnext : ∀ x y, R x y → Lockstep c R' (next x) (next' y)) :
    Lockstep c R' (e >>= next) (e' >>= next') := by
  intro function t t' ht
  have hfirst := he function t t' ht
  have hrest := hnext _ _ hfirst.value function _ _ hfirst.names
  refine ⟨hrest.value, hrest.names, hfirst.raised.append (fun _ _ => List.map_append) hrest.raised,
    fun id hid => ?_, fun id binding hbound => ?_⟩
  · exact (hrest.others id hid).trans (hfirst.others id hid)
  · exact hrest.kept id binding (hfirst.kept id binding hbound)

/-- A sequence whose first emission has the same value in both. -/
theorem bindEq {e e' : Emission α} {next : α → Emission γ} {next' : α → Emission δ}
    (he : Lockstep c Eq e e') (hnext : ∀ x, Lockstep c R' (next x) (next' x)) :
    Lockstep c R' (e >>= next) (e' >>= next') :=
  bind he fun x _ hxy => hxy ▸ hnext x

/-- A weaker relation suffices. -/
theorem mono {R' : α → β → Prop} (he : Lockstep c R e e') (h : ∀ x y, R x y → R' x y) :
    Lockstep c R' e e' := fun function t t' ht =>
  have hrun := he function t t' ht
  ⟨h _ _ hrun.value, hrun.names, hrun.raised, hrun.others, hrun.kept⟩

end Lockstep

/-! ## Primitives -/

/-- An emission that finds something out by the tables is in lockstep where they tell the same. -/
theorem lockstep_inspect {f : Scope → NameTable → α} {g : Scope → NameTable → β} {R : α → β → Prop}
    (h : ∀ function t t', t.Agrees c.ids t' → R (f ⟨c.arena, function⟩ t) (g ⟨c.arena, function⟩ t')) :
    Lockstep c R (inspect f) (inspect g) :=
  fun function t t' ht => .quiet ht (h function t t' ht)

/-- A report of alike operations is the same but for its place. -/
theorem lockstep_raise {op op' : Option Op} (h : OpAlike? c.exact op op') (problem : Problem) :
    Lockstep c Eq (raise op problem) (raise op' problem) := by
  intro function t t' ht
  refine ⟨rfl, ht, ?_, fun _ _ => rfl, fun _ _ hbound => hbound⟩
  refine h.map (fun op => [problem.report (Origin.at function op)]) fun op op' hbare => ?_
  -- the line is all that the origin has of debugging data
  have hkind : op.map Op.kind = op'.map Op.kind := by
    have hkinds := congrArg (Option.map Op.kind) hbare
    simpa [Function.comp_def] using hkinds
  have hname (op : Option Op) : op.map (fun op => op.kind.mnemonic) =
      (op.map Op.kind).map OpKind.mnemonic := by rw [Option.map_map]; rfl
  simp only [List.map_cons, List.map_nil, Diagnostic.bare, Problem.report, Origin.at, hname, hkind]

/-- Overruns change no name. -/
theorem lockstep_overrun (missing missing' : Overrun) :
    Lockstep c Eq (overrun missing) (overrun missing') :=
  fun _ _ _ ht => ⟨rfl, ht, .refl [], fun _ _ => rfl, fun _ _ hbound => hbound⟩

/-- Looking up a value goes in lockstep. -/
theorem lockstep_info (id : ValueId) : Lockstep c Eq (info id) (info id) := by
  have hcheck : Lockstep c Eq (checkEntry id) (checkEntry id) := by
    refine .bindEq (lockstep_inspect fun _ _ _ _ => rfl) fun missing => ?_
    split
    · exact lockstep_overrun _ _
    · exact .pure rfl
  exact .bindEq hcheck fun _ => lockstep_inspect fun _ _ _ _ => rfl

/-- Asking whether a value is bound goes in lockstep. -/
theorem lockstep_isBound {id : ValueId} (hid : c.ids id) :
    Lockstep c Eq (isBound id) (isBound id) := by
  refine .bindEq (lockstep_inspect fun _ _ _ ht => ht.isDeclared hid) fun declared => ?_
  split
  · exact .pure rfl
  · exact .bindEq (lockstep_info id) fun info => .pure rfl

/-- Using a value goes in lockstep. -/
theorem lockstep_use {id : ValueId} (hid : c.ids id) : Lockstep c Eq (use id) (use id) :=
  lockstep_inspect fun _ _ _ ht => c.arena.use_eq ht hid

/-- Using the operands of a map goes in lockstep. -/
theorem lockstep_operandAt {operands : List ValueId} (h : ∀ id ∈ operands, c.ids id) :
    Lockstep c Eq (operandAt operands) (operandAt operands) :=
  lockstep_inspect fun _ _ _ ht => c.arena.operandAt_eq ht h

/-- Declaring a value goes in lockstep. -/
theorem lockstep_declare {id : ValueId} (hid : c.ids id) (pointer : Bool) :
    Lockstep c Eq (declare id pointer) (declare id pointer) := by
  intro function t t' ht
  have hdeclared := ht.isDeclared hid
  simp only [run, declare, NameTable.declare, ← hdeclared, ← ht.size]
  cases hnew : t.isDeclared id with
  | true => exact .quiet ht rfl
  | false => exact .named ht rfl hid hnew (by simp)

/-- Sharing a name goes in lockstep. -/
theorem lockstep_share {op op' : Op} (h : op.Alike c.exact op') {source result : ValueId}
    (hsource : c.ids source) (hresult : c.ids result) :
    Lockstep c Eq (share op source result) (share op' source result) := by
  refine .bindEq ?_ fun failure => ?_
  · intro function t t' ht
    simp only [run, NameTable.share, ← ht.isDeclared hresult, ← ht.owner? hsource]
    -- Both tables give the name, or neither does.
    cases hnew : t.isDeclared result with
    | true => exact .quiet ht rfl
    | false =>
      cases howner : t.owner? source with
      | none => exact .quiet ht rfl
      | some owner =>
        refine .named ht rfl hresult hnew ?_
        rintro _ ⟨⟩
        exact ht.ownName?_owner hsource howner
  · cases failure with
    | none => exact .pure rfl
    | some error => exact lockstep_raise h.some _

/-! ## Mentions -/

/-- Looking up a type goes in lockstep. -/
theorem lockstep_typeOf {op op' : Option Op} (h : OpAlike? c.exact op op') (id : ValueId) :
    Lockstep c Eq (typeOf op id) (typeOf op' id) := by
  refine .bindEq (lockstep_info id) fun info => ?_
  dsimp only
  split
  · exact .bindEq (lockstep_raise h _) fun _ => .pure rfl
  · exact .pure rfl

/-- The only place where a name is given. -/
theorem lockstep_mentionAs (pointer : Bool) {op op' : Option Op} (h : OpAlike? c.exact op op')
    {id : ValueId} (hid : c.ids id) :
    Lockstep c Eq (mentionAs pointer op id) (mentionAs pointer op' id) := by
  refine .bindEq (lockstep_isBound hid) fun bound => ?_
  split
  · exact .bindEq (lockstep_use hid) fun _ => .pure rfl
  · refine .bindEq (lockstep_typeOf h id) fun type => ?_
    refine .bindEq (lockstep_declare hid pointer) fun name => ?_
    cases name with
    | ok name => exact .pure rfl
    | error error =>
      refine .bindEq (lockstep_raise h _) fun _ => ?_
      exact .bindEq (lockstep_use hid) fun _ => .pure rfl

end Emission

end HlsEmit
