import HlsEmit.Proofs.Meaning.Access
import HlsEmit.Proofs.Meaning.Elements
import HlsEmit.Proofs.Meaning.Frame

/-!
# Loops and conditionals

A loop of the generated code tests its bound and adds its step anew in each iteration, where the
evaluation has computed both once. They are the same in all iterations, since the body sets none of
the scalars that they are made of. Both loops then run side by side: the state and its objects match
in front of every iteration.

## Key results

- `holds_index`, `advance_index`: the test of a loop and its advance
- `LoopInvariant`: what holds in front of each iteration
- `simulates_loop`: a loop, given its body
- `simulates_branch`: a conditional, given its branches
-/

namespace HlsEmit

open Cpp (Object Machine Env)
open Code

variable {V : Type} {m : Machine V} {meaning : Meaning V} {limit limit' : Nat} {c : Contract}
variable {t t₁ t₂ : NameTable} {held : ValueId → Prop}

/-! ## Values that stay the same -/

/-- A number that is the same wherever all scalars but these are. -/
def Stable (ids : List ValueId) (f : State V → Option V) : Prop :=
  ∀ σ σ', σ.Keeps ids σ' → Refines (f σ) (f σ')

/-- A scalar that is kept is stable. -/
theorem stable_scalar {ids : List ValueId} {id : ValueId} (hid : id ∉ ids) :
    Stable ids fun σ : State V => σ.scalar? id :=
  fun _ _ hkeeps _ hvalue => hkeeps.scalar hid hvalue

/-- A fixed value is stable. -/
theorem stable_const {ids : List ValueId} (value : Option V) : Stable ids fun _ => value :=
  fun _ _ _ => .refl value

/-- An affine value is refined if its inputs are. -/
theorem refines_affine_inputs {operand operand' : Nat → Option V}
    (h : ∀ position, Refines (operand position) (operand' position)) (dims : Nat) (e : AffineExpr) :
    Refines (meaning.affine operand dims e) (meaning.affine operand' dims e) := by
  induction e with
  | dim position => exact h _
  | symbol position => exact h _
  | constant value => exact .refl _
  | add lhs rhs ihl ihr | mul lhs rhs ihl ihr =>
    exact .bind ihl fun _ _ => .bind ihr fun _ _ => .refl _
  | mod lhs rhs | floorDiv lhs rhs | ceilDiv lhs rhs => exact .refl _

/-- A bound whose operands are kept is stable. -/
theorem stable_bound {ids : List ValueId} {combine : V → V → Option V} {bound : AffineBound}
    (hids : ∀ id ∈ bound.operands, id ∉ ids) :
    Stable ids fun σ => meaning.bound combine σ bound := by
  intro σ σ' hkeeps
  -- Each input is a scalar that is kept, so the results are those from before.
  have hinput (position : Nat) : Refines (Meaning.input σ bound.operands position)
      (Meaning.input σ' bound.operands position) := by
    intro value hvalue
    obtain ⟨id, hid, hvalue⟩ := Option.bind_eq_some_iff.1 hvalue
    exact Option.bind_eq_some_iff.2
      ⟨id, hid, hkeeps.scalar (hids id (List.mem_of_getElem? hid)) hvalue⟩
  have hall (results : List AffineExpr) :
      Refines (meaning.affineAll (Meaning.input σ bound.operands) bound.map.dims.toNat results)
        (meaning.affineAll (Meaning.input σ' bound.operands) bound.map.dims.toNat results) := by
    induction results with
    | nil => exact .refl _
    | cons first rest ih =>
      exact .bind (refines_affine_inputs hinput _ first) fun _ _ => .bind ih fun _ _ => .refl _
  exact .bind (hall _) fun _ _ => .refl _

/-! ## Loops -/

/-- The test of a loop, where the bound has been computed before and the index is held. -/
theorem holds_index (hm : m.Implements meaning) {arena : Arena} {σ : State V} {env : Env V}
    (hmatches : Matches m arena t held σ env) {index : ValueId} (hindex : held index)
    {bound : Cpp.Expr} {last : V} (hbound : m.eval env bound = some last) {holds : Bool}
    (hholds : (do meaning.truth (← meaning.cmpI .slt (← σ.scalar? index) last)) = some holds) :
    m.holds (.binary "<" (arena.useCode t index).cpp bound) env = some holds := by
  obtain ⟨count, hcount, hholds⟩ := Option.bind_eq_some_iff.1 hholds
  obtain ⟨less, hless, hholds⟩ := Option.bind_eq_some_iff.1 hholds
  have hcounter := hmatches.refines_use hindex count hcount
  have hbinary : m.binary "<" count last = some less := hm.cmpI .slt count last less hless
  simp only [Machine.holds, Machine.eval, hcounter, hbound]
  exact Option.bind_eq_some_iff.2 ⟨less, hbinary, hm.truth less holds hholds⟩

/-- The advance of a loop, where the step has been computed before and the index is held. -/
theorem advance_index (hm : m.Implements meaning) {arena : Arena} (hv : t.Valid arena)
    {σ next : State V} {env : Env V} (hmatches : Matches m arena t held σ env) {index : ValueId}
    (hindex : held index) (hconst : arena.constantText? index = none) {type : Cpp.TypeName}
    (htype : (arena.info index).elem.typeName? = some type) {step : Cpp.Expr} {by' : V}
    (hstep : m.eval env step = some by')
    (hnext : (do meaning.setScalar arena σ index (← meaning.binary .add (← σ.scalar? index) by')) =
      some next) :
    ∃ env', m.advance env (.add (arena.useCode t index).cpp step) = some env' ∧
      Matches m arena t held next env' ∧ env'.map Prod.fst = env.map Prod.fst ∧
        σ.Keeps [index] next := by
  obtain ⟨count, hcount, hnext⟩ := Option.bind_eq_some_iff.1 hnext
  obtain ⟨sum, hsum, hset⟩ := Option.bind_eq_some_iff.1 hnext
  obtain ⟨converted, hshaped, hconvert, rfl⟩ := of_setScalar hset
  obtain ⟨env', hstore, hmatches', hnames⟩ := hmatches.store_scalar hv hindex hconst hshaped htype
    (hm.convert _ _ htype sum converted hconvert)
  have hcounter := hmatches.refines_use hindex count hcount
  have hbinary : m.binary "+" count by' = some sum := hm.binary .add count by' sum hsum
  refine ⟨env', ?_, hmatches', hnames, .set _ (List.mem_singleton_self index)⟩
  simp [Machine.advance, hcounter, hstep, hbinary, hstore]

/-- What holds in front of each iteration: the state is that of the objects, which are those from in
front of the loop behind its counter, and nothing else has changed than what may. -/
structure LoopInvariant (m : Machine V) (arena : Arena) (t : NameTable) (held : ValueId → Prop)
    (names : List String) (changed : List ValueId) (start σ : State V) (env : Env V) : Prop where
  matched : Matches m arena t held σ env
  named : env.map Prod.fst = names
  kept : start.Keeps changed σ

/-- A loop runs beside the loop that it is written for. -/
theorem simulates_loop (hs : Supports m meaning c limit) (hlimit : limit' ≤ limit)
    (h : Holding c.arena t held) {index : ValueId} (hconst : c.arena.constantText? index = none)
    (hfree : t.binding? index = none) {type : String}
    (htype : (c.arena.info index).elem.cppName? = some type)
    (ht₁ : t₁ = t.insert index (.declared ⟨t.size, false⟩))
    (hholding : Holding c.arena t₁ fun id => id = index ∨ held id)
    {lower upper step : NameTable → Expr} {lowerOf upperOf stepOf : State V → Option V}
    (hlower : Denotes m c.arena held t lower lowerOf) (hupper : Denotes m c.arena held t upper upperOf)
    (hstep : Denotes m c.arena held t step stepOf) {inside : List ValueId}
    {run : State V → Option (State V)} {stmts : List Stmt}
    (hbody : Carries m limit c.arena [] inside (fun id => id = index ∨ held id) t₁ run stmts t₂)
    {changed : List ValueId} (hindex : index ∈ changed) (hframes : Meaning.Frames changed run)
    (hupperStable : Stable changed upperOf) (hstepStable : Stable changed stepOf)
    (note closing : Option Note) :
    Simulates m limit c.arena t held t₂ held
      (fun σ => do
        meaning.loop c.arena limit' σ index (← lowerOf σ) (← upperOf σ) (← stepOf σ) run)
      [.loop (.range (.mention (.declare index (some type) ⟨t.size, false⟩)) (lower t₁)
        (c.arena.useCode t₁ index) (upper t₁) (c.arena.useCode t₁ index) (step t₁)) note stmts
        closing] := by
  have hm := hs.implements
  have hgrows : t.Grows c.arena (fun _ => True) t₁ := by
    rw [ht₁]
    exact .declare false .refl trivial hfree hconst
  intro σ σ' env hmatches hrun
  obtain ⟨first, hfirst, hrun⟩ := Option.bind_eq_some_iff.1 hrun
  obtain ⟨last, hlast, hrun⟩ := Option.bind_eq_some_iff.1 hrun
  obtain ⟨by', hby, hrun⟩ := Option.bind_eq_some_iff.1 hrun
  obtain ⟨σ₁, hset, hrun⟩ := Option.bind_eq_some_iff.1 hrun
  obtain ⟨converted, hshaped, hconvert, hσ₁⟩ := of_setScalar hset
  obtain ⟨htypeName, -⟩ := Code.typeCpp_eq htype
  obtain ⟨object, hdefine, hmatches₁⟩ := hmatches.define_scalar h.valid hconst hfree hshaped htype
    fun env' henv' => Option.bind_eq_some_iff.2
      ⟨first, hlower.refines t₁ σ env' hgrows (ht₁ ▸ henv') first hfirst,
        hm.convert _ _ htypeName first converted hconvert⟩
  rw [← ht₁, ← hσ₁] at hmatches₁
  have hkept : σ.Keeps changed σ₁ := hσ₁ ▸ .set _ hindex
  have hupperKept : upperOf σ₁ = some last := hupperStable σ σ₁ hkept last hlast
  have hstepKept : stepOf σ₁ = some by' := hstepStable σ σ₁ hkept by' hby
  let names := Name.identifier ⟨t.size, false⟩ :: env.map Prod.fst
  let invariant := LoopInvariant m c.arena t₁ (fun id => id = index ∨ held id) names changed σ₁
  have htest : ∀ σ env' holds, invariant σ env' →
      (do meaning.truth (← meaning.cmpI .slt (← σ.scalar? index) last)) = some holds →
      m.holds (.binary "<" (c.arena.useCode t₁ index).cpp (upper t₁).cpp) env' = some holds := by
    rintro σ env' holds ⟨hmatches, -, hkeeps⟩ hholds
    have hbound := hupper.refines t₁ σ env' hgrows (hmatches.mono fun _ => .inr) last
      (hupperStable σ₁ σ hkeeps last hupperKept)
    exact holds_index hm hmatches (.inl rfl) hbound hholds
  have hnext : ∀ σ env' next, invariant σ env' →
      (do meaning.truth (← meaning.cmpI .slt (← σ.scalar? index) last)) = some true →
      (do
        let σ ← run σ
        meaning.setScalar c.arena σ index (← meaning.binary .add (← σ.scalar? index) by')) =
          some next →
      ∃ behind, m.proceed limit (stmtsCpp stmts)
        (.add (c.arena.useCode t₁ index).cpp (step t₁).cpp) env' = some behind ∧
          invariant next behind := by
    rintro σ env' next ⟨hmatches, hnames, hkeeps⟩ - hstepped
    obtain ⟨σ₂, hrun₂, hstepped⟩ := Option.bind_eq_some_iff.1 hstepped
    obtain ⟨env₂, hexec, hmatches₂, hextends⟩ := hbody.simulates σ σ₂ env' hmatches hrun₂
    -- behind the block of the body
    have hbehind := hmatches.leave hmatches₂ hholding.valid hbody.grows (fun _ => .inr) hextends
    have hkeeps₂ := hkeeps.trans (hframes σ σ₂ hrun₂)
    have hby' := hstep.refines t₁ σ₂ _ hgrows (hbehind.mono fun _ => .inr) by'
      (hstepStable σ₁ σ₂ hkeeps₂ by' hstepKept)
    obtain ⟨env₃, hadvance, hmatches₃, hnames₃, hkeeps₃⟩ := advance_index hm hholding.valid hbehind
      (.inl rfl) hconst htypeName hby' hstepped
    refine ⟨env₃, ?_, hmatches₃, ?_, hkeeps₂.trans (hkeeps₃.mono (by simpa using hindex))⟩
    · simp [Machine.proceed, hexec, hadvance]
    · rw [hnames₃, hextends.names_leave, hnames]
  obtain ⟨behind, hiterate, hmatches', hnames, -⟩ :=
    iterate_refines htest hnext hlimit hrun ⟨hmatches₁, rfl, .refl⟩
  have hextends : Env.Extends t.size env behind := ⟨[⟨t.size, false⟩], by simp, by simpa using hnames⟩
  refine ⟨behind.leave env.length, ?_, ?_, .of_names hextends.names_leave⟩
  · show m.execAll limit [.loop _ _ _ _ _ _] env = _
    rw [execAll_singleton, exec_loop]
    exact Option.bind_eq_some_iff.2 ⟨_, hdefine, Option.bind_eq_some_iff.2 ⟨behind, hiterate, rfl⟩⟩
  · have hleft := hmatches.leave hmatches' h.valid hgrows (fun _ => .inr) hextends
    exact hleft.grows (hgrows.trans (hbody.grows.mono fun _ _ => trivial))

/-! ## Conditionals -/

/-- A block between braces: what it declares is gone behind it. -/
theorem Simulates.block {P : ValueId → Prop} {stmts : List Stmt} {run : State V → Option (State V)}
    (h : Simulates m limit c.arena t₁ held t₂ held run stmts) (hv : t.Valid c.arena)
    (hgrows : t.Grows c.arena P t₁) (hinside : t₁.Grows c.arena P t₂) {σ σ' : State V} {env : Env V}
    (hmatches : Matches m c.arena t held σ env) (hrun : run σ = some σ') :
    ∃ env', m.execAll limit (stmtsCpp stmts) env = some env' ∧
      Matches m c.arena t held σ' (env'.leave env.length) ∧
      Env.Extends t.size env (env'.leave env.length) := by
  obtain ⟨env', hexec, hmatches', hextends⟩ := h σ σ' env (hmatches.grows hgrows) hrun
  have hextends' : Env.Extends t.size env env' := by
    obtain ⟨added, hadded, hnames⟩ := hextends
    exact ⟨added, fun name hname => Nat.le_trans hgrows.size_le (hadded name hname), hnames⟩
  exact ⟨env', hexec, hmatches.leave hmatches' hv (hgrows.trans hinside) (fun _ => id) hextends',
    .of_names hextends'.names_leave⟩

/-- A conditional does what the branch does that is taken. The second branch is written where the
names of the first one are known, and executed where they are not. -/
theorem simulates_branch (hm : m.Implements meaning) {t₃ : NameTable} (hv : t.Valid c.arena)
    {condition : NameTable → Expr} {f : State V → Option V}
    (hcondition : Denotes m c.arena held t condition f) {runTrue : State V → Option (State V)}
    {onTrue : List Stmt} (hTrue : Simulates m limit c.arena t held t₂ held runTrue onTrue)
    (hgrows₂ : t.Grows c.arena (fun _ => True) t₂) {runFalse : Option (State V → Option (State V))}
    {onFalse : Option (List Stmt)} (hgrows₃ : t₂.Grows c.arena (fun _ => True) t₃)
    (hFalse : Option.Rel (Simulates m limit c.arena t₂ held t₃ held) runFalse onFalse)
    (note : Option Note) :
    Simulates m limit c.arena t held t₃ held
      (fun σ => do meaning.branch σ (← f σ) runTrue runFalse)
      [.branch (condition t) note onTrue onFalse] := by
  intro σ σ' env hmatches hrun
  obtain ⟨value, hvalue, hrun⟩ := Option.bind_eq_some_iff.1 hrun
  obtain ⟨holds, hholds, hrun⟩ := Option.bind_eq_some_iff.1 hrun
  have heval : m.eval env (condition t).cpp = some value :=
    hcondition.refines t σ env .refl hmatches value hvalue
  have htruth : m.truth value = some holds := hm.truth value holds hholds
  have hgrows := hgrows₂.trans hgrows₃
  -- The first branch is executed from the state itself, the second one behind names of the first
  -- that are not there at run time.
  cases holds with
  | true =>
    obtain ⟨env', hexec, hmatches', hextends⟩ := hTrue.block hv .refl hgrows₂ hmatches hrun
    refine ⟨env'.leave env.length, ?_, hmatches'.grows hgrows, hextends⟩
    cases onFalse <;>
      simp [stmtsCpp, Stmt.cpp, execAll_singleton, Machine.exec, heval, htruth, hexec]
  | false =>
    cases hFalse with
    | none =>
      cases hrun
      refine ⟨env, ?_, hmatches.grows hgrows, .refl⟩
      simp [stmtsCpp, Stmt.cpp, execAll_singleton, Machine.exec, heval, htruth]
    | some hFalse =>
      obtain ⟨env', hexec, hmatches', hextends⟩ := hFalse.block hv hgrows₂ hgrows₃ hmatches hrun
      refine ⟨env'.leave env.length, ?_, hmatches'.grows hgrows, hextends⟩
      simp [stmtsCpp, Stmt.cpp, execAll_singleton, Machine.exec, heval, htruth, hexec]

end HlsEmit
