import HlsEmit.Code.Mentions

/-!
# Block scopes of the generated code

What C++ makes of the declarations in the generated code. A declaration is visible behind it, up to
the end of the block that it stands in: the declaration in the head of a loop to the end of the
loop, a port to the end of its function. The names of `visible` are those that may be used in some
place.

* `Stmt.introduces`: the names that are visible behind a statement.
* `Stmt.Scoped`, `StmtsScoped`: every use stands where its name is visible.
* `Program.Scoped`: the same for all functions of a program, each by itself.
-/

namespace HlsEmit

/-- What stands for a value may be written where these names are visible. -/
def Designator.Visible (visible : List Name) : Designator → Prop
  | .named name => name ∈ visible
  | .literal _ => True
  | .missing => False

/-- What is visible stays visible when more is. -/
theorem Designator.Visible.mono {d : Designator} {visible visible' : List Name}
    (h : d.Visible visible) (hvisible : visible ⊆ visible') : d.Visible visible' := by
  cases d with
  | named name => exact hvisible h
  | literal text => trivial
  | missing => exact h

namespace Code

/-! ## Mentions -/

/-- A mention that is a use of what is visible. -/
def Mention.Reads (visible : List Name) : Mention → Prop
  | .use u => u.designator.Visible visible
  | .declare .. => False

/-- A mention where a declaration may stand: a use of what is visible, or a declaration with a
type. -/
def Mention.Scoped (visible : List Name) : Mention → Prop
  | .use u => u.designator.Visible visible
  | .declare _ type _ => type.isSome

/-- The name that a mention declares. -/
def Mention.introduces : Mention → List Name
  | .use _ => []
  | .declare _ _ name => [name]

/-- An expression that declares nothing and uses what is visible. -/
def Expr.Reads (visible : List Name) (e : Expr) : Prop :=
  ∀ m ∈ e.mentions, m.Reads visible

/-- An expression where a declaration may stand: the declaration alone, or one that only uses what is
visible. -/
def Expr.Scoped (visible : List Name) : Expr → Prop
  | .mention m => m.Scoped visible
  | e => e.Reads visible

/-- The name that is declared by an expression where a declaration may stand. -/
def Expr.introduces : Expr → List Name
  | .mention m => m.introduces
  | _ => []

/-! ## Statements -/

/-- The names that the head of a loop declares, for the loop only. -/
def LoopHead.introduces : LoopHead → List Name
  | .range start .. => start.introduces
  | .counter .. => []

/-- The start of a loop may declare its index; the bound it starts from does not see that yet. -/
def LoopHead.Scoped (visible : List Name) : LoopHead → Prop
  | .range start lower test upper advance step =>
    let inside := start.introduces ++ visible
    start.Scoped visible ∧ lower.Reads visible ∧ test.Reads inside ∧ upper.Reads inside ∧
      advance.Reads inside ∧ step.Reads inside
  | .counter .. => True

/-- The names that are visible behind a statement and were not before. -/
def Stmt.introduces : Stmt → List Name
  | .declaration declarator _ | .initialized declarator _ _ => declarator.mention.introduces
  | .assign _ target _ _ => target.introduces
  | _ => []

/-- The names that are visible behind some statements. -/
def scopeAfter (visible : List Name) (stmts : List Stmt) : List Name :=
  stmts.foldl (fun visible stmt => stmt.introduces ++ visible) visible

mutual

/-- Every use in a statement stands where its name is visible. -/
def Stmt.Scoped (visible : List Name) : Stmt → Prop
  | .declaration declarator _ | .initialized declarator _ _ => declarator.mention.Scoped visible
  | .assign form target value _ =>
    target.Scoped visible ∧ (form = .set ∨ target.introduces = []) ∧ value.Reads visible
  | .call call _ => call.Reads visible
  | .pragma pragma => ∀ m ∈ pragma.mentions, m.Reads visible
  | .blank => True
  | .accelerator operands _ => ∀ u ∈ operands, u.designator.Visible visible
  | .loop head _ body _ => head.Scoped visible ∧ StmtsScoped (head.introduces ++ visible) body
  | .branch condition _ onTrue none => condition.Reads visible ∧ StmtsScoped visible onTrue
  | .branch condition _ onTrue (some onFalse) =>
    condition.Reads visible ∧ StmtsScoped visible onTrue ∧ StmtsScoped visible onFalse
termination_by structural stmt => stmt

/-- Every use in some statements of one block stands where its name is visible. -/
def StmtsScoped (visible : List Name) : List Stmt → Prop
  | [] => True
  | first :: rest => first.Scoped visible ∧ StmtsScoped (first.introduces ++ visible) rest
termination_by structural stmts => stmts

end

/-! ## Functions -/

/-- The names that are visible behind some ports. -/
def portScope (visible : List Name) (ports : List Declarator) : List Name :=
  ports.foldl (fun visible port => port.mention.introduces ++ visible) visible

/-- Every port is a declaration with a type, or a use of what is visible. -/
def PortsScoped (visible : List Name) : List Declarator → Prop
  | [] => True
  | first :: rest =>
    first.mention.Scoped visible ∧ PortsScoped (first.mention.introduces ++ visible) rest

/-- The ports of a function are visible in its body. -/
def FunctionCode.Scoped (function : FunctionCode) : Prop :=
  PortsScoped [] function.ports ∧ StmtsScoped (portScope [] function.ports) function.body

/-- Every use of a program stands where its name is visible. -/
def Program.Scoped (program : Program) : Prop :=
  ∀ function ∈ program.functions, function.Scoped

/-! ## Several statements -/

@[simp] theorem scopeAfter_nil (visible : List Name) : scopeAfter visible [] = visible := rfl

@[simp] theorem scopeAfter_cons (visible : List Name) (stmt : Stmt) (stmts : List Stmt) :
    scopeAfter visible (stmt :: stmts) = scopeAfter (stmt.introduces ++ visible) stmts := rfl

/-- What is visible behind two lists is what the second leaves behind the first. -/
theorem scopeAfter_append (visible : List Name) (xs ys : List Stmt) :
    scopeAfter visible (xs ++ ys) = scopeAfter (scopeAfter visible xs) ys :=
  List.foldl_append

/-- The second of two lists is read in the scope the first leaves behind. -/
theorem stmtsScoped_append {visible : List Name} {xs ys : List Stmt} :
    StmtsScoped visible (xs ++ ys) ↔
      StmtsScoped visible xs ∧ StmtsScoped (scopeAfter visible xs) ys := by
  induction xs generalizing visible with
  | nil => simp [StmtsScoped]
  | cons x xs ih => simp only [List.cons_append, StmtsScoped, ih, scopeAfter_cons, and_assoc]

/-! ## Code without declarations -/

/-- A use of what is visible stays one when more is visible. -/
theorem Mention.Reads.mono {visible visible' : List Name} {m : Mention} (h : m.Reads visible)
    (hvisible : visible ⊆ visible') : m.Reads visible' := by
  cases m with
  | use u => exact Designator.Visible.mono h hvisible
  | declare value type name => exact h.elim

/-- A use of what is visible is scoped and introduces nothing. -/
theorem Mention.Reads.scoped {visible : List Name} {m : Mention} (h : m.Reads visible) :
    m.Scoped visible ∧ m.introduces = [] := by
  cases m with
  | use u => exact ⟨h, rfl⟩
  | declare value type name => exact h.elim

/-- An expression that only uses what is visible is scoped and introduces nothing. -/
theorem Expr.Reads.scoped {visible : List Name} {e : Expr} (h : e.Reads visible) :
    e.Scoped visible ∧ e.introduces = [] := by
  cases e with
  | mention m => exact (h m (List.mem_singleton_self m)).scoped
  | _ => exact ⟨h, rfl⟩

/-- A loop head that only uses what is visible is scoped and introduces nothing. -/
theorem LoopHead.scoped_of_reads {visible : List Name} {head : LoopHead}
    (h : ∀ m ∈ head.mentions, m.Reads visible) : head.Scoped visible ∧ head.introduces = [] := by
  cases head with
  | counter dim extent => exact ⟨trivial, rfl⟩
  | range start lower test upper advance step =>
    simp only [LoopHead.mentions, List.forall_mem_append] at h
    obtain ⟨⟨⟨⟨⟨hstart, hlower⟩, htest⟩, hupper⟩, hadvance⟩, hstep⟩ := h
    have hscoped := Expr.Reads.scoped hstart
    simp only [LoopHead.Scoped, LoopHead.introduces, hscoped.2, List.nil_append]
    exact ⟨⟨hscoped.1, hlower, htest, hupper, hadvance, hstep⟩, trivial⟩

mutual

/-- A statement whose mentions all are uses of what is visible. -/
theorem Stmt.scoped_of_reads {visible : List Name} : (stmt : Stmt) →
    (∀ m ∈ stmt.mentions, m.Reads visible) → stmt.Scoped visible ∧ stmt.introduces = []
  | .declaration declarator _, h | .initialized declarator _ _, h =>
    (h declarator.mention (List.mem_singleton_self _)).scoped
  | .assign _ target value _, h => by
    simp only [Stmt.mentions, List.forall_mem_append] at h
    have htarget := Expr.Reads.scoped h.1
    exact ⟨⟨htarget.1, .inr htarget.2, h.2⟩, htarget.2⟩
  | .call _ _, h => ⟨h, rfl⟩
  | .pragma _, h => ⟨h, rfl⟩
  | .blank, _ => ⟨trivial, rfl⟩
  | .accelerator _ _, h => ⟨fun u hu => h (.use u) (List.mem_map_of_mem hu), rfl⟩
  | .loop head _ body _, h => by
    simp only [Stmt.mentions, List.forall_mem_append] at h
    have hhead := LoopHead.scoped_of_reads h.1
    refine ⟨⟨hhead.1, ?_⟩, rfl⟩
    -- The head introduces nothing, so the body is read where the loop stands.
    rw [hhead.2]
    exact (stmtsScoped_of_reads body h.2).1
  | .branch _ _ onTrue none, h => by
    simp only [Stmt.mentions, List.forall_mem_append] at h
    exact ⟨⟨h.1, (stmtsScoped_of_reads onTrue h.2).1⟩, rfl⟩
  | .branch _ _ onTrue (some onFalse), h => by
    simp only [Stmt.mentions, List.forall_mem_append] at h
    exact ⟨⟨h.1.1, (stmtsScoped_of_reads onTrue h.1.2).1, (stmtsScoped_of_reads onFalse h.2).1⟩,
      rfl⟩

/-- Statements whose mentions all are uses of what is visible. -/
theorem stmtsScoped_of_reads {visible : List Name} : (stmts : List Stmt) →
    (∀ m ∈ mentionsOfStmts stmts, m.Reads visible) →
    StmtsScoped visible stmts ∧ scopeAfter visible stmts = visible
  | [], _ => ⟨trivial, rfl⟩
  | first :: rest, h => by
    simp only [mentionsOfStmts, List.forall_mem_append] at h
    have hfirst := Stmt.scoped_of_reads first h.1
    have hrest := stmtsScoped_of_reads rest h.2
    simp only [StmtsScoped, scopeAfter_cons, hfirst.2, List.nil_append]
    exact ⟨⟨hfirst.1, hrest.1⟩, hrest.2⟩

end

/-! ## Mentions in scoped code -/

/-- Every mention in a scoped expression is scoped where the expression stands. -/
theorem Expr.Scoped.mention {visible : List Name} {e : Expr} (h : e.Scoped visible) {m : Mention}
    (hm : m ∈ e.mentions) : m.Scoped visible := by
  cases e with
  | mention m' =>
    rw [Expr.mentions, List.mem_singleton] at hm
    exact hm ▸ h
  | _ => exact (h m hm).scoped.1

/-- Every mention in a scoped loop head is scoped somewhere in it. -/
theorem LoopHead.Scoped.mention {visible : List Name} {head : LoopHead} (h : head.Scoped visible)
    {m : Mention} (hm : m ∈ head.mentions) : ∃ visible', m.Scoped visible' := by
  cases head with
  | counter dim extent => cases hm
  | range start lower test upper advance step =>
    obtain ⟨hstart, hlower, htest, hupper, hadvance, hstep⟩ := h
    simp only [LoopHead.mentions, List.mem_append] at hm
    rcases hm with ((((hm | hm) | hm) | hm) | hm) | hm
    · exact ⟨_, hstart.mention hm⟩
    · exact ⟨_, (hlower m hm).scoped.1⟩
    · exact ⟨_, (htest m hm).scoped.1⟩
    · exact ⟨_, (hupper m hm).scoped.1⟩
    · exact ⟨_, (hadvance m hm).scoped.1⟩
    · exact ⟨_, (hstep m hm).scoped.1⟩

mutual

/-- Every mention in a scoped statement is scoped where it stands. -/
theorem Stmt.Scoped.mention {m : Mention} : (stmt : Stmt) → ∀ {visible},
    stmt.Scoped visible → m ∈ stmt.mentions → ∃ visible', m.Scoped visible'
  | .declaration declarator _, _, h, hm | .initialized declarator _ _, _, h, hm => by
    rw [Stmt.mentions, Declarator.mentions, List.mem_singleton] at hm
    subst hm
    exact ⟨_, h⟩
  | .assign _ target value _, _, h, hm => by
    rw [Stmt.mentions, List.mem_append] at hm
    -- The target is read first; the value only uses what is visible.
    rcases hm with hm | hm
    · exact ⟨_, h.1.mention hm⟩
    · exact ⟨_, (h.2.2 m hm).scoped.1⟩
  | .call _ _, _, h, hm => ⟨_, (h m hm).scoped.1⟩
  | .pragma _, _, h, hm => ⟨_, (h m hm).scoped.1⟩
  | .blank, _, _, hm => by cases hm
  | .accelerator _ _, _, h, hm => by
    obtain ⟨u, hu, rfl⟩ := List.mem_map.1 hm
    exact ⟨_, h u hu⟩
  | .loop head _ body _, _, h, hm => by
    rw [Stmt.mentions, List.mem_append] at hm
    rcases hm with hm | hm
    · exact h.1.mention hm
    · exact StmtsScoped.mention body h.2 hm
  | .branch _ _ onTrue none, _, h, hm => by
    rw [Stmt.mentions, List.mem_append] at hm
    rcases hm with hm | hm
    · exact ⟨_, (h.1 m hm).scoped.1⟩
    · exact StmtsScoped.mention onTrue h.2 hm
  | .branch _ _ onTrue (some onFalse), _, h, hm => by
    rw [Stmt.mentions, List.mem_append, List.mem_append] at hm
    rcases hm with (hm | hm) | hm
    · exact ⟨_, (h.1 m hm).scoped.1⟩
    · exact StmtsScoped.mention onTrue h.2.1 hm
    · exact StmtsScoped.mention onFalse h.2.2 hm

/-- Every mention in scoped statements is scoped where it stands. -/
theorem StmtsScoped.mention {m : Mention} : (stmts : List Stmt) → ∀ {visible},
    StmtsScoped visible stmts → m ∈ mentionsOfStmts stmts → ∃ visible', m.Scoped visible'
  | [], _, _, hm => by cases hm
  | first :: rest, _, h, hm => by
    rw [mentionsOfStmts, List.mem_append] at hm
    rcases hm with hm | hm
    · exact Stmt.Scoped.mention first h.1 hm
    · exact StmtsScoped.mention rest h.2 hm

end

/-- Every port of a scoped list is scoped where it stands in the list. -/
theorem PortsScoped.mention {m : Mention} {ports : List Declarator} {visible : List Name}
    (h : PortsScoped visible ports) (hm : m ∈ ports.map Declarator.mention) :
    ∃ visible', m.Scoped visible' := by
  induction ports generalizing visible with
  | nil => cases hm
  | cons port rest ih =>
    rcases List.mem_cons.1 hm with rfl | hm
    · exact ⟨_, h.1⟩
    · exact ih h.2 hm

/-- Every mention in a scoped program is scoped where it stands. -/
theorem Program.Scoped.mention {program : Program} (h : program.Scoped) {m : Mention}
    (hm : m ∈ program.mentions) : ∃ visible, m.Scoped visible := by
  obtain ⟨function, hfunction, hm⟩ := List.mem_flatMap.1 hm
  obtain ⟨hports, hbody⟩ := h function hfunction
  rcases List.mem_append.1 hm with hm | hm
  · exact hports.mention hm
  · exact StmtsScoped.mention function.body hbody hm

end Code

end HlsEmit
