import HlsEmit.Code.Tree

/-!
# Where the pragmas stand

The pragmas of some code, in the order in which they are written, and the ones that schedule a loop.
Those belong to the head of a loop body: `Stmt.schedules` reads them off there, loop by loop.
-/

namespace HlsEmit.Code

/-- Whether a pragma says how a loop or a function is scheduled. -/
def Pragma.isSchedule : Pragma → Bool
  | .pipeline _ | .unroll => true
  | .dataflow | .returnInterface | .scalarInterface _ | .axiInterface _ | .bramInterface _
  | .resource .. | .partition .. => false

mutual

/-- The pragmas in a statement. -/
def Stmt.pragmas : Stmt → List Pragma
  | .pragma pragma => [pragma]
  | .loop _ _ body _ => pragmasOfStmts body
  | .branch _ _ onTrue none => pragmasOfStmts onTrue
  | .branch _ _ onTrue (some onFalse) => pragmasOfStmts onTrue ++ pragmasOfStmts onFalse
  | _ => []
termination_by structural stmt => stmt

/-- The pragmas in some statements. -/
def pragmasOfStmts : List Stmt → List Pragma
  | [] => []
  | first :: rest => first.pragmas ++ pragmasOfStmts rest
termination_by structural stmts => stmts

end

/-- The scheduling pragmas that some statements start with. -/
def leadOfStmts : List Stmt → List Pragma
  | .pragma pragma :: rest => if pragma.isSchedule then pragma :: leadOfStmts rest else []
  | _ => []

mutual

/-- For each loop over a range in a statement, from the outside, the scheduling pragmas at the head of
its body. Loops over the elements of an array are not scheduled. -/
def Stmt.schedules : Stmt → List (List Pragma)
  | .loop (.range ..) _ body _ => leadOfStmts body :: schedulesOfStmts body
  | .loop (.counter ..) _ body _ => schedulesOfStmts body
  | .branch _ _ onTrue none => schedulesOfStmts onTrue
  | .branch _ _ onTrue (some onFalse) => schedulesOfStmts onTrue ++ schedulesOfStmts onFalse
  | _ => []
termination_by structural stmt => stmt

/-- The same for some statements. -/
def schedulesOfStmts : List Stmt → List (List Pragma)
  | [] => []
  | first :: rest => first.schedules ++ schedulesOfStmts rest
termination_by structural stmts => stmts

end

/-! ## Code behind each other -/

variable {stmts stmts' : List Stmt}

/-- Pragmas are collected from left to right. -/
@[simp] theorem pragmasOfStmts_append (stmts stmts' : List Stmt) :
    pragmasOfStmts (stmts ++ stmts') = pragmasOfStmts stmts ++ pragmasOfStmts stmts' := by
  induction stmts with
  | nil => simp [pragmasOfStmts]
  | cons first rest ih => simp [pragmasOfStmts, ih]

/-- Schedules of loops are collected from left to right. -/
@[simp] theorem schedulesOfStmts_append (stmts stmts' : List Stmt) :
    schedulesOfStmts (stmts ++ stmts') = schedulesOfStmts stmts ++ schedulesOfStmts stmts' := by
  induction stmts with
  | nil => simp [schedulesOfStmts]
  | cons first rest ih => simp [schedulesOfStmts, ih]

/-- The pragmas of a list of pragma lines are those lines. -/
@[simp] theorem pragmasOfStmts_map (pragmas : List Pragma) :
    pragmasOfStmts (pragmas.map .pragma) = pragmas := by
  induction pragmas with
  | nil => rfl
  | cons pragma rest ih => simp [pragmasOfStmts, Stmt.pragmas, ih]

/-- Pragma lines outside a loop schedule nothing. -/
@[simp] theorem schedulesOfStmts_map (pragmas : List Pragma) :
    schedulesOfStmts (pragmas.map .pragma) = [] := by
  induction pragmas with
  | nil => rfl
  | cons pragma rest ih => simp [schedulesOfStmts, Stmt.schedules, ih]

/-- Two lists without leading pragmas have none together. -/
theorem leadOfStmts_append (h : leadOfStmts stmts = []) (h' : leadOfStmts stmts' = []) :
    leadOfStmts (stmts ++ stmts') = [] := by
  cases stmts with
  | nil => exact h'
  | cons first rest =>
    cases first with
    | pragma pragma =>
      rw [leadOfStmts] at h
      split at h
      · cases h
      · -- another pragma ends the lead, whatever is behind it
        rename_i hother
        rw [List.cons_append, leadOfStmts, if_neg hother]
    | _ => rfl

/-- Code without pragmas does not start with one. -/
theorem leadOfStmts_eq_nil (h : pragmasOfStmts stmts = []) : leadOfStmts stmts = [] := by
  cases stmts with
  | nil => rfl
  | cons first rest =>
    cases first with
    | pragma pragma => simp [pragmasOfStmts, Stmt.pragmas] at h
    | _ => rfl

end HlsEmit.Code
