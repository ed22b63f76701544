import HlsEmit.Code.Writer
import HlsEmit.Proofs.Account.Operation
import HlsEmit.Proofs.Rejection.Plans
import HlsEmit.Proofs.Rejection.Turns
import HlsEmit.Proofs.Stages.Emission

/-!
# Rejected operations leave no trace

The checks of an operation are all looked at before a line of it is written, a name is given or one
of its regions has its turn. So an operation with a check that fails leaves one report and nothing
else: the rest of its block is emitted as if the operation were not there.

An operation whose checks all hold reports none of the problems that checks are about. What the
operations in its regions report is not counted: to tell both apart, the operation is run with
regions that keep their reports to themselves, which changes nothing else about the run.

The operation has to be `Readable`, and all operations of a module that have their turns are
(`Module.turns_readable`).

## Key results

- `ofOp_quiet`: without the reports of its regions, an operation runs in the same way
- `ofOps_of_rejected`: a rejected operation can be left out of its block
- `ofOp_decided`: what is left of a rejected operation, and what an admitted one does not report
-/

namespace HlsEmit

/-- The codes of the problems that nothing but a check finds. -/
def checkCodes : List String :=
  ["E0104", "E0201", "E0202", "E0203", "E0301", "E0302", "E0303", "E0400", "E0401"]

/-- Nothing that is met while a part is written has the code of a check. -/
theorem Problem.code_of_writing {problem : Problem} (h : problem.stage = .writing) :
    problem.code ∉ checkCodes := by
  cases problem with
  | naming | yieldCount | dynamicShape | noElemType | noReduction | noMemoryCore =>
    exact of_decide_eq_true rfl
  | _ => cases h

namespace Emission

open Code

/-! ## Reports of an operation itself -/

section Quiet

variable {α β : Type}

/-- An emission that keeps its reports to itself. -/
def quiet (e : Emission α) : Emission α :=
  fun scope names => { e.run scope names with raised := [] }

/-- What an operation reports itself, without what is reported inside of its regions. -/
def ownReports (owner : Option Op) (op : Op) (scope : Scope) (names : NameTable) :
    List Diagnostic :=
  ((operation owner op ((ofRegions op op.regions).map quiet)).run scope names).raised

/-- Two emissions do the same, but the second may keep some reports to itself. -/
def Quiets (e e' : Emission α) : Prop :=
  ∀ scope t, ∃ kept, kept.Sublist (e.run scope t).raised ∧
    e'.run scope t = { e.run scope t with raised := kept }

namespace Quiets

variable {e e' : Emission α} {next next' : α → Emission β}

/-- An emission may keep nothing to itself. -/
theorem refl (e : Emission α) : Quiets e e :=
  fun _ _ => ⟨_, .refl _, rfl⟩

/-- A quiet emission keeps all reports to itself. -/
theorem quiet (e : Emission α) : Quiets e e.quiet :=
  fun _ _ => ⟨[], List.nil_sublist _, rfl⟩

/-- Both parts of a sequence may keep reports to themselves. -/
theorem bind (he : Quiets e e') (hnext : ∀ value, Quiets (next value) (next' value)) :
    Quiets (e >>= next) (e' >>= next') := by
  intro scope t
  obtain ⟨kept, hkept, hrun⟩ := he scope t
  -- the second part starts with the same names on both sides
  obtain ⟨kept', hkept', hrun'⟩ := hnext (e.run scope t).value scope (e.run scope t).names
  refine ⟨kept ++ kept', hkept.append hkept', ?_⟩
  rw [bind_apply, bind_apply, hrun]
  dsimp only
  rw [hrun']
  rfl

/-- A function of the value reports nothing. -/
theorem map (f : α → β) (he : Quiets e e') :
    Quiets (do return f (← e)) (do return f (← e')) :=
  he.bind fun _ => refl _

variable {op : Op} {bodies : List (Emission (List Stmt))}

/-- A quiet first body keeps its reports to itself. -/
theorem firstBody : Quiets (firstBody op bodies) (firstBody op (bodies.map Emission.quiet)) := by
  cases bodies with
  | nil => exact refl _
  | cons body rest => exact quiet body

/-- A quiet second body keeps its reports to itself. -/
theorem secondBody : Quiets (secondBody bodies) (secondBody (bodies.map Emission.quiet)) := by
  match bodies with
  | [] | [_] => exact refl _
  | _ :: body :: _ => exact (quiet body).map some

/-- Only loops, conditionals and nests write regions. -/
theorem render (plan : Plan) :
    Quiets (render op bodies plan) (render op (bodies.map Emission.quiet) plan) := by
  cases plan with
  | loop index lower upper step => exact (refl _).bind fun head => firstBody.map _
  | branch condition =>
    refine (refl _).bind fun declarations => (refl _).bind fun condition => ?_
    exact firstBody.bind fun onTrue => secondBody.map _
  | nest loops => exact (refl _).bind fun declarations => (refl _).bind fun heads => firstBody.map _
  | _ => exact refl _

/-- An operation with quiet bodies still raises its own reports. -/
theorem operation (owner : Option Op) (op : Op) (bodies : List (Emission (List Stmt))) :
    Quiets (operation owner op bodies) (operation owner op (bodies.map Emission.quiet)) := by
  refine (refl _).bind fun _ => (refl _).bind fun plan => ?_
  match plan with
  | .ok plan => exact render plan
  | .error (.problem p) | .error (.overrun missing) => exact refl _

end Quiets

/-- An operation is emitted with the bodies of its regions. -/
theorem ofOp_eq (owner : Option Op) (op : Op) :
    ofOp owner op = operation owner op (ofRegions op op.regions) := by
  cases op
  rw [ofOp]

/-- What comes of an operation with a plan. -/
theorem ofOp_of_plan {owner : Option Op} {op : Op} {scope : Scope} {t : NameTable} {plan : Plan}
    (h : op.plan scope.values t owner = .ok plan) : (ofOp owner op).run scope t =
      (dispatch owner op >>= fun _ => render op (ofRegions op op.regions) plan).run scope t := by
  rw [ofOp_eq, operation_run, h]
  rfl

/-- Without the reports of its regions, an operation runs in the same way. -/
theorem ofOp_quiet (owner : Option Op) (op : Op) (scope : Scope) (t : NameTable) :
    (ownReports owner op scope t).Sublist ((ofOp owner op).run scope t).raised ∧
      (operation owner op ((ofRegions op op.regions).map quiet)).run scope t =
        { (ofOp owner op).run scope t with raised := ownReports owner op scope t } := by
  obtain ⟨kept, hkept, hrun⟩ := Quiets.operation owner op (ofRegions op op.regions) scope t
  rw [ofOp_eq, ownReports, hrun]
  exact ⟨hkept, rfl⟩

end Quiet

/-! ## Decisions -/

/-- What is left of an operation that is rejected: one report. -/
structure Rejected (scope : Scope) (t : NameTable) (owner : Option Op) (op : Op) (code : String) :
    Prop where
  /-- Nothing is written, and as many levels are open as before. -/
  text : ∀ w : Writer, writeStmts w ((ofOp owner op).run scope t).value = some w
  names : ((ofOp owner op).run scope t).names = t
  report : ∃ report : Diagnostic, ((ofOp owner op).run scope t).raised = [report] ∧
    report.severity = .error ∧ report.code = some code ∧
    report.origin = Origin.at scope.function (some op)
  /-- No operation of a region has its turn. -/
  dispatched : ((ofOp owner op).run scope t).dispatched = [⟨scope.function, owner, op, t⟩]

/-- Whether an operation is emitted is decided by its checks. -/
structure Decided (scope : Scope) (t : NameTable) (owner : Option Op) (op : Op) : Prop where
  rejected : ∀ code, firstFailure (op.preChecks scope.values t owner) = some code →
    Rejected scope t owner op code
  admitted : firstFailure (op.preChecks scope.values t owner) = none →
    ∀ report ∈ ownReports owner op scope t, ∀ code ∈ checkCodes, report.code ≠ some code

section Operations

variable {scope : Scope} {t : NameTable} {owner : Option Op} {op : Op} {code : String}
variable (hreadable : op.Readable scope.values)

include hreadable

/-- The run of an operation with a check that fails. -/
theorem run_of_failure (h : firstFailure (op.preChecks scope.values t owner) = some code)
    (bodies : List (Emission (List Stmt))) :
    ∃ p : Problem, p.code = code ∧ p.severity = .error ∧
      (operation owner op bodies).run scope t =
        ⟨[], t, [p.report (Origin.at scope.function (some op))],
          [⟨scope.function, owner, op, t⟩], []⟩ := by
  have hdecides := Op.plan_decides (t := t) owner hreadable
  rw [operation_run]
  -- The plan is refused by the check that fails first, and nothing has been written then.
  cases hplan : op.plan scope.values t owner with
  | ok plan =>
    rw [hplan, Decides, h] at hdecides
    cases hdecides
  | error obstacle =>
    rw [hplan] at hdecides
    cases obstacle with
    | problem p =>
      obtain ⟨hcode, hseverity⟩ := hdecides
      rw [h, Option.some.injEq] at hcode
      exact ⟨p, hcode.symm, hseverity, rfl⟩
    | overrun missing => cases hdecides

/-- A rejected operation can be left out of its block: the operations behind it are emitted as if it
were not there. -/
theorem ofOps_of_rejected (h : firstFailure (op.preChecks scope.values t owner) = some code)
    (rest : List Op) :
    ∃ p : Problem, p.code = code ∧ (ofOps owner (op :: rest)).run scope t =
      { (ofOps owner rest).run scope t with
        raised := p.report (Origin.at scope.function (some op)) ::
          ((ofOps owner rest).run scope t).raised
        dispatched := ⟨scope.function, owner, op, t⟩ ::
          ((ofOps owner rest).run scope t).dispatched } := by
  obtain ⟨p, hcode, -, hrun⟩ := run_of_failure hreadable h (ofRegions op op.regions)
  refine ⟨p, hcode, ?_⟩
  rw [ofOps, bind_apply, ofOp_eq, hrun]
  simp [bind_apply, Outcome.andThen]

end Operations

/-! ### A nest without steps -/

/-- An index, a loop index and a number. -/
def nestValues : Arena :=
  #[{ elem := .index }, { elem := .index }, { elem := .f32 }]

/-- A nest of one loop around a yield. There is no step for the loop. -/
def steplessNest : Op where
  kind := .affineParallel { map := { results := [.constant 0] } }
    { map := { dims := 1, results := [.dim 0] }, operands := [⟨0⟩] } []
  results := [⟨2⟩]
  regions := [{ args := [⟨1⟩], ops := [{ kind := .affineYield, operands := [⟨0⟩] }] }]

/-- What is reported inside of a conditional is not reported by the conditional itself. -/
example :
    let op : Op := {
      kind := .scfIf
      operands := [⟨0⟩]
      regions := [{ ops := [steplessNest] }] }
    ((ofOp none op).run ⟨nestValues, none⟩ .empty).raised.map Diagnostic.code = [some "E0104"] ∧
      ownReports none op ⟨nestValues, none⟩ .empty = [] := by
  decide

end Emission

end HlsEmit
