import HlsEmit.Emission.Values
import HlsEmit.Proofs.Naming

/-!
# What single emissions leave behind

Equations for the emissions that all others are made of, for values that are in the value table.

## Key results

- `mentionAs_of_bound`: the mention of a bound value is a use and changes nothing
- `mentionAs_of_free`: the mention of any other value declares it with the next number
-/

namespace HlsEmit

/-- The reports of naming errors are those with the code `E0103`. -/
theorem Problem.eq_naming_of_code {problem : Problem} (h : problem.code = "E0103") :
    ∃ error, problem = .naming error := by
  cases problem <;> simp [Problem.code] at h ⊢

/-- A sequence of checks succeeds if each of them does. -/
theorem ok_of_bind {ε α β : Type} {x : Except ε α} {f : α → Except ε β} {result : β}
    (h : x >>= f = .ok result) : ∃ value, x = .ok value ∧ f value = .ok result := by
  cases x with
  | ok value => exact ⟨value, rfl, h⟩
  | error error => cases h

namespace Emission

open Code

variable {α β : Type} {arena : Arena} {function : Option String} {t : NameTable}

/-! ## Sequences -/

@[simp] theorem pure_apply (value : α) (scope : Scope) (t : NameTable) :
    (pure value : Emission α).run scope t = ⟨value, t, [], [], []⟩ := rfl

/-- The outcome of a sequence, from the outcomes of its parts. -/
theorem bind_apply (first : Emission α) (next : α → Emission β) (scope : Scope) (t : NameTable) :
    (first >>= next).run scope t =
      (first.run scope t).andThen
        ((next (first.run scope t).value).run scope (first.run scope t).names) := rfl

/-- Behind an emission that only finds something out, the rest runs as if it came first. -/
theorem bind_of_quiet {first : Emission α} {next : α → Emission β} {scope : Scope} {value : α}
    (h : first.run scope t = ⟨value, t, [], [], []⟩) :
    (first >>= next).run scope t = (next value).run scope t := by
  simp only [bind_apply, h, Outcome.andThen, List.nil_append]

@[simp] theorem inspect_apply (f : Scope → NameTable → α) (scope : Scope) :
    (inspect f).run scope t = ⟨f scope t, t, [], [], []⟩ := rfl

@[simp] theorem raise_apply (op : Option Op) (problem : Problem) (scope : Scope) :
    (raise op problem).run scope t =
      ⟨(), t, [problem.report (Origin.at scope.function op)], [], []⟩ := rfl

@[simp] theorem overrun_apply (missing : Overrun) (scope : Scope) :
    (overrun missing).run scope t = ⟨(), t, [], [], [missing]⟩ := rfl

@[simp] theorem dispatch_apply (owner : Option Op) (op : Op) (scope : Scope) :
    (dispatch owner op).run scope t = ⟨(), t, [], [⟨scope.function, owner, op, t⟩], []⟩ := rfl

@[simp] theorem use_apply (id : ValueId) (scope : Scope) :
    (use id).run scope t = ⟨scope.values.use t id, t, [], [], []⟩ := rfl

@[simp] theorem operandAt_apply (operands : List ValueId) (scope : Scope) :
    (operandAt operands).run scope t = ⟨scope.values.operandAt t operands, t, [], [], []⟩ := rfl

/-- A value without a name of its own or another's shares the name of a source that has one. -/
theorem share_apply {op : Op} {source result owner : ValueId} (hfree : t.binding? result = none)
    (howner : t.owner? source = some owner) (scope : Scope) :
    (share op source result).run scope t =
      ⟨(), t.insert result (.shared owner), [], [], []⟩ := by
  simp [share, run, NameTable.share, NameTable.isDeclared, hfree, howner, bind, pure, Outcome.andThen]

/-- Nothing can be shared with a source without a name. -/
theorem share_apply_of_unnamed {op : Op} {source result : ValueId}
    (hfree : t.binding? result = none) (hunnamed : t.owner? source = none) (scope : Scope) :
    (share op source result).run scope t =
      ⟨(), t, [(Problem.naming (.undeclared source)).report (Origin.at scope.function (some op))],
        [], []⟩ := by
  simp [share, run, NameTable.share, NameTable.isDeclared, hfree, hunnamed, bind, raise, Outcome.andThen]

/-! ## Looking up -/

section Known

variable {id : ValueId} (hknown : (arena.info? id).isSome)

include hknown

/-- A known value is looked up without a report. -/
theorem info_apply : (info id).run ⟨arena, function⟩ t = ⟨arena.info id, t, [], [], []⟩ := by
  have hcheck : (checkEntry id).run ⟨arena, function⟩ t = ⟨(), t, [], [], []⟩ := by
    unfold checkEntry
    rw [bind_of_quiet (inspect_apply _ _)]
    simp [Option.isSome_iff_ne_none.1 hknown, pure_apply]
  unfold info
  rw [bind_of_quiet hcheck, inspect_apply]

/-- The literal of a value is that of its entry. -/
theorem constantText?_info : (arena.info id).constantText? = arena.constantText? id := by
  obtain ⟨entry, hentry⟩ := Option.isSome_iff_exists.1 hknown
  simp [Arena.info, Arena.constantText?, hentry]

/-- It can be asked of a known value whether it is bound. -/
theorem isBound_apply :
    (isBound id).run ⟨arena, function⟩ t = ⟨arena.isBound t id, t, [], [], []⟩ := by
  unfold isBound
  rw [bind_of_quiet (inspect_apply _ _)]
  cases hd : t.isDeclared id with
  | true => simp [pure_apply, Arena.isBound, hd]
  | false =>
    simp only [Bool.false_eq_true, if_false]
    rw [bind_of_quiet (info_apply hknown), pure_apply, constantText?_info hknown]
    simp [Arena.isBound, hd]

/-! ## Mentions -/

/-- The reports about a value whose element type has no C++ type. -/
theorem typeOf_apply (op : Option Op) :
    (typeOf op id).run ⟨arena, function⟩ t =
      ⟨(arena.info id).elem.cppName?, t,
        if (arena.info id).elem.cppName?.isNone then
          [(Problem.noElemType (arena.info id).elem id).report (Origin.at function op)]
        else [],
        [], []⟩ := by
  unfold typeOf
  rw [bind_of_quiet (info_apply hknown)]
  by_cases hnone : (arena.info id).elem.cppName?.isNone = true
  · rw [if_pos hnone, if_pos hnone]
    simp only [bind_apply, pure_apply, raise_apply, Outcome.andThen, List.append_nil]
  · rw [if_neg hnone, if_neg hnone, pure_apply]

/-- The mention of a value that is not bound declares it with the next number. -/
theorem mentionAs_of_free {pointer : Bool} {op : Option Op}
    (hfree : arena.isBound t id = false) :
    (mentionAs pointer op id).run ⟨arena, function⟩ t =
      ⟨.declare id (arena.info id).elem.cppName? ⟨t.size, pointer⟩,
        t.insert id (.declared ⟨t.size, pointer⟩),
        if (arena.info id).elem.cppName?.isNone then
          [(Problem.noElemType (arena.info id).elem id).report (Origin.at function op)]
        else [],
        [], []⟩ := by
  obtain ⟨hunnamed, -⟩ := Arena.isBound_eq_false_iff.1 hfree
  have hdeclare : (declare id pointer).run ⟨arena, function⟩ t =
      ⟨.ok ⟨t.size, pointer⟩, t.insert id (.declared ⟨t.size, pointer⟩), [], [], []⟩ := by
    simp [run, declare, NameTable.declare, NameTable.isDeclared, hunnamed]
  unfold mentionAs
  rw [bind_of_quiet (isBound_apply hknown), hfree, if_neg Bool.false_ne_true]
  simp only [bind_apply, typeOf_apply hknown, hdeclare, pure_apply, Outcome.andThen, List.append_nil]

end Known

/-! ## Bound values -/

section Bound

variable {id : ValueId} (hbound : arena.isBound t id = true)

include hbound

/-- The entry of a bound value is looked up only if it has no name, and then there is one. -/
theorem isBound_of_bound :
    (isBound id).run ⟨arena, function⟩ t = ⟨true, t, [], [], []⟩ := by
  cases hconstant : arena.constantText? id with
  | none =>
    have hdeclared : t.isDeclared id = true := by simpa [Arena.isBound, hconstant] using hbound
    unfold isBound
    rw [bind_of_quiet (inspect_apply _ _), hdeclared, if_pos rfl, pure_apply]
  | some text =>
    obtain ⟨entry, hentry, -⟩ := Option.bind_eq_some_iff.1 hconstant
    rw [isBound_apply (by rw [hentry]; rfl), hbound]

/-- The mention of a bound value is a use and changes nothing. -/
theorem mentionAs_of_bound {pointer : Bool} {op : Option Op} :
    (mentionAs pointer op id).run ⟨arena, function⟩ t =
      ⟨.use (arena.use t id), t, [], [], []⟩ := by
  unfold mentionAs
  rw [bind_of_quiet (isBound_of_bound hbound), if_pos rfl]
  rw [bind_of_quiet (use_apply _ _), pure_apply]

end Bound

end Emission

end HlsEmit
