import HlsEmit.Code.Writer
import HlsEmit.Proofs.Lockstep.Program

/-!
# Functions are independent of each other

Nothing passes from one function to the next but the names that were given so far. A function looks
those of its own values up and counts the others, so its code and its reports depend on the functions
before it only through the number of their names.

## Key results

- `Emission.functions_append`: functions are emitted one after the other
- `Function.emits_independently`: one function behind two tables
- `Module.functions_independent`: the same for the functions of modules
-/

namespace HlsEmit

open Code

namespace Emission

/-- Functions are emitted one after the other. -/
theorem functions_append (fs gs : List Function) (scope : Scope) (t : NameTable) :
    let first := (functions fs).run scope t
    let rest := (functions gs).run scope first.names
    ((functions (fs ++ gs)).run scope t).value = first.value ++ rest.value ∧
      ((functions (fs ++ gs)).run scope t).names = rest.names ∧
      ((functions (fs ++ gs)).run scope t).raised = first.raised ++ rest.raised := by
  induction fs generalizing t with
  | nil => exact ⟨rfl, rfl, rfl⟩
  | cons f fs ih =>
    obtain ⟨hvalue, hnames, hraised⟩ := ih ((function f).run scope t).names
    simp only [List.cons_append, functions, bind_apply, pure_apply, Outcome.andThen, hvalue, hnames,
      hraised, List.append_assoc, List.append_nil, and_self]

/-- The functions of a module that are emitted behind others are emitted from the names that those
leave. -/
def namesBehind (values : Arena) (fs : List Function) : NameTable :=
  ((functions fs).run { values } .empty).names

end Emission

open Emission

/-! ## One function -/

section Tables

variable (values : Arena) {t t' : NameTable} {g : Function}

/-- A function has the same code and reports behind tables that tell the same about its values. -/
theorem Function.emits_independently (ht : t.Agrees (· ∈ g.mentioned) t')
    (function function' : Option String) :
    let o := (Emission.function g).run ⟨values, function⟩ t
    let o' := (Emission.function g).run ⟨values, function'⟩ t'
    o.value = o'.value ∧ o.raised = o'.raised ∧ o.names.Agrees (· ∈ g.mentioned) o'.names := by
  let c : Comparison := ⟨values, (· ∈ g.mentioned), true⟩
  have hlock : Lockstep c (HlsEmit.Alike FunctionCode.bare true) (Emission.function g) (Emission.function g) :=
    lockstep_function (.refl g) fun _ hid => hid
  have hrun := hlock function' t t' ht
  exact ⟨hrun.value.eq rfl, hrun.raised.eq rfl, hrun.names⟩

end Tables

/-! ## Names that functions give -/

section Names

variable {values : Arena} {fs : List Function}

/-- Functions are emitted in step with themselves. -/
theorem Emission.lockstep_functions_refl (values : Arena) (ids : ValueId → Prop)
    (hids : ∀ f ∈ fs, ∀ id ∈ f.mentioned, ids id) :
    Lockstep ⟨values, ids, true⟩ (Alike (List.map FunctionCode.bare) true) (functions fs)
      (functions fs) :=
  lockstep_functions (.refl fs) hids

/-- Functions name no values but those that they mention. -/
theorem Emission.binding?_of_unmentioned {id : ValueId} (h : ∀ f ∈ fs, id ∉ f.mentioned)
    (t : NameTable) : ((functions fs).run { values } t).names.binding? id = t.binding? id := by
  have hlock := lockstep_functions_refl values (fun id => ∃ f ∈ fs, id ∈ f.mentioned)
    fun f hf id hid => ⟨f, hf, hid⟩
  refine (hlock none t t (.refl t)).others id ?_
  rintro ⟨f, hf, hid⟩
  exact h f hf hid

end Names

/-- Behind functions that leave tables of the same size, all values that neither mentions are told
the same about. -/
theorem Emission.agrees_of_replaced {values : Arena} {t : NameTable} (hv : t.Valid values)
    (f f' : Function)
    (hsize : ((function f).run { values } t).names.size = ((function f').run { values } t).names.size) :
    ((function f).run { values } t).names.Agrees (fun id => id ∉ f.mentioned ∧ id ∉ f'.mentioned)
      ((function f').run { values } t).names := by
  have hlock (f : Function) := lockstep_function (c := ⟨values, (· ∈ f.mentioned), true⟩)
    (.refl f) (fun _ hid => hid) none t t (.refl t)
  have hsame (f : Function) (id : ValueId) (hid : id ∉ f.mentioned) :
      ((function f).run { values } t).names.binding? id = t.binding? id :=
    (hlock f).others id hid
  refine ⟨hsize, fun id hid => ?_, fun id owner hid hshared => ?_⟩
  · rw [hsame f id hid.1, hsame f' id hid.2]
  · -- the owner had its name before either function, and it keeps it
    rw [hsame f id hid.1] at hshared
    obtain ⟨name, hname⟩ := hv.owner_declared hshared
    have hdeclared : t.binding? owner = some (.declared name) := by
      unfold NameTable.ownName? at hname
      split at hname
      · next hbinding => rw [hbinding, Option.some.inj hname]
      · cases hname
    rw [NameTable.ownName?, NameTable.ownName?, (hlock f).kept owner _ hdeclared,
      (hlock f').kept owner _ hdeclared]

/-! ## Functions of modules -/

namespace Module

variable {module module' : Module} {before after : List Function} {g : Function}

/-- What a module has of a function that stands behind some others: the text and the reports that the
functions up to this one have beyond the others. The module goes on behind them. -/
structure HasOf (module : Module) (includes : List String) (before : List Function) (g : Function)
    (text : String) (reports : List Diagnostic) : Prop where
  text_eq : (emit ⟨module.values, before ++ [g]⟩ includes).text =
    (emit ⟨module.values, before⟩ includes).text ++ text
  reports_eq : (emit ⟨module.values, before ++ [g]⟩ includes).diagnostics =
    (emit ⟨module.values, before⟩ includes).diagnostics ++ reports
  text_goes_on : ∃ rest, (module.emit includes).text =
    (emit ⟨module.values, before ++ [g]⟩ includes).text ++ rest
  reports_go_on : ∃ rest, (module.emit includes).diagnostics =
    (emit ⟨module.values, before ++ [g]⟩ includes).diagnostics ++ rest

/-- No value is missing from a module with fewer functions. -/
theorem dangling_of_functions (h : module.dangling = []) (fs : List Function)
    (hfs : ∀ f ∈ fs, f ∈ module.functions) : (Module.mk module.values fs).dangling = [] := by
  rw [List.eq_nil_iff_forall_not_mem]
  intro id hid
  obtain ⟨hmem, houtside⟩ := List.mem_filter.1 (List.mem_eraseDups.1 hid)
  obtain ⟨f, hf, hmentioned⟩ := List.mem_flatMap.1 hmem
  have hdangling : id ∈ module.dangling :=
    List.mem_eraseDups.2
      (List.mem_filter.2 ⟨List.mem_flatMap.2 ⟨f, hfs f hf, hmentioned⟩, houtside⟩)
  rw [h] at hdangling
  cases hdangling

/-- Without dangling values a module is emitted as its program. -/
theorem emit_of_dangling (h : module.dangling = []) (includes : List String) :
    module.emit includes = ⟨(module.program includes).value.text, (module.program includes).raised⟩ := by
  rw [emit, h]

/-- The text and the reports of functions behind others. -/
theorem program_append (values : Arena) (fs gs : List Function) (includes : List String) :
    let rest := (Emission.functions gs).run { values } (namesBehind values fs)
    (program ⟨values, fs ++ gs⟩ includes).value.text =
        (program ⟨values, fs⟩ includes).value.text ++ String.join (rest.value.map FunctionCode.text) ∧
      (program ⟨values, fs ++ gs⟩ includes).raised =
        (program ⟨values, fs⟩ includes).raised ++ rest.raised := by
  obtain ⟨hvalue, -, hraised⟩ := functions_append fs gs { values } .empty
  simp only [program, bind_apply, pure_apply, Outcome.andThen, hvalue, hraised, Program.text,
    List.map_append, String.join_append, String.append_assoc, List.append_nil, and_self, namesBehind]

/-- What a module has of a function is what the emission leaves behind from there. -/
theorem hasOf (h : module.dangling = []) (hfunctions : module.functions = before ++ g :: after)
    (includes : List String) :
    let o := (Emission.function g).run { values := module.values } (namesBehind module.values before)
    module.HasOf includes before g o.value.text o.raised := by
  -- The parts of the module that end before and behind the function have no dangling values either.
  have hbefore := dangling_of_functions h before (by simp +contextual [hfunctions])
  have hupto := dangling_of_functions h (before ++ [g]) fun f hf => by
    rw [List.mem_append, List.mem_singleton] at hf
    rw [hfunctions, List.mem_append, List.mem_cons]
    exact hf.imp_right .inl
  obtain ⟨htext, hraised⟩ := program_append module.values before [g] includes
  obtain ⟨htext', hraised'⟩ := program_append module.values (before ++ [g]) after includes
  have hmodule : module = ⟨module.values, before ++ [g] ++ after⟩ := by
    cases module
    simp_all
  refine ⟨?_, ?_, ?_, ?_⟩
  · rw [emit_of_dangling hupto, emit_of_dangling hbefore, htext]
    simp [Emission.functions, bind_apply, Outcome.andThen]
  · rw [emit_of_dangling hupto, emit_of_dangling hbefore, hraised]
    simp [Emission.functions, bind_apply, Outcome.andThen]
  · rw [emit_of_dangling h, emit_of_dangling hupto]
    rw [← hmodule] at htext'
    exact ⟨_, htext'⟩
  · rw [emit_of_dangling h, emit_of_dangling hupto]
    rw [← hmodule] at hraised'
    exact ⟨_, hraised'⟩

/-- The names that the first functions of a module leave are those of a history. -/
theorem valid_namesBehind {values : Arena} {fs : List Function}
    (h : (Module.mk values fs).dangling = []) : (namesBehind values fs).Valid values := by
  have haccepts : ((Module.mk values fs).contract h fun _ => True).Accepts
      (Module.mk values fs).within := fun _ _ _ _ => .inr trivial
  obtain ⟨events, -, hrun⟩ := Module.program_run h haccepts []
  have hvalid := hrun.grows.valid (NameTable.valid_empty values)
  exact hvalid

/-- Functions do not depend on each other. Behind two tables of the same size that tell nothing about
the values of a function, the function appends the same text, reports the same, and gives the same
names to its values. So it is the same in two modules where it stands behind other functions that
mention none of its values and give as many names; and it stays the same if a single function before
it, which mentions no value of it or of the functions between, is replaced by another one that gives
as many names. -/
theorem functions_independent (g : Function) :
    (∀ (values : Arena) (function function' : Option String) (t t' : NameTable)
        (text text' : String), t.size = t'.size →
      (∀ id ∈ g.mentioned, t.binding? id = none ∧ t'.binding? id = none) →
      let o := (Emission.function g).run ⟨values, function⟩ t
      let o' := (Emission.function g).run ⟨values, function'⟩ t'
      (∃ code, o.value.write ⟨text, 0⟩ = some ⟨text ++ code, 0⟩ ∧
        o'.value.write ⟨text', 0⟩ = some ⟨text' ++ code, 0⟩) ∧
      o.raised = o'.raised ∧
      ∀ id ∈ g.mentioned, o.names.binding? id = o'.names.binding? id ∧
        o.names.name? id = o'.names.name? id) ∧
    (∀ (module module' : Module) (before before' after after' : List Function)
        (includes includes' : List String), module.values = module'.values →
      module.functions = before ++ g :: after → module'.functions = before' ++ g :: after' →
      module.dangling = [] → module'.dangling = [] →
      (∀ f ∈ before ++ before', ∀ id ∈ g.mentioned, id ∉ f.mentioned) →
      (namesBehind module.values before).size = (namesBehind module'.values before').size →
      ∃ text reports, module.HasOf includes before g text reports ∧
        module'.HasOf includes' before' g text reports) ∧
    (∀ (module module' : Module) (before between after after' : List Function) (f f' : Function)
        (includes includes' : List String), module.values = module'.values →
      module.functions = before ++ f :: between ++ g :: after →
      module'.functions = before ++ f' :: between ++ g :: after' →
      module.dangling = [] → module'.dangling = [] →
      (∀ h ∈ between ++ [g], ∀ id ∈ h.mentioned, id ∉ f.mentioned ∧ id ∉ f'.mentioned) →
      (namesBehind module.values (before ++ [f])).size =
        (namesBehind module.values (before ++ [f'])).size →
      ∃ text reports, module.HasOf includes (before ++ f :: between) g text reports ∧
        module'.HasOf includes' (before ++ f' :: between) g text reports) := by
  refine ⟨?_, ?_, ?_⟩
  · intro values function function' t t' text text' hsize hunbound
    have ht : t.Agrees (· ∈ g.mentioned) t' := .of_unbound hsize hunbound
    obtain ⟨hvalue, hraised, hnames⟩ := g.emits_independently values ht function function'
    refine ⟨⟨_, FunctionCode.write_eq text _, ?_⟩, hraised, fun id hid => ?_⟩
    · rw [hvalue]
      exact FunctionCode.write_eq text' _
    · exact ⟨hnames.binding id hid, hnames.name? hid⟩
  · intro module module' before before' after after' includes includes' hvalues hfunctions
      hfunctions' h h' hothers hsize
    have hunbound : ∀ id ∈ g.mentioned, (namesBehind module.values before).binding? id = none ∧
        (namesBehind module.values before').binding? id = none := by
      intro id hid
      rw [List.forall_mem_append] at hothers
      exact ⟨binding?_of_unmentioned (fun f hf => hothers.1 f hf id hid) .empty,
        binding?_of_unmentioned (fun f hf => hothers.2 f hf id hid) .empty⟩
    rw [← hvalues] at hsize
    obtain ⟨hvalue, hraised, -⟩ := g.emits_independently module.values
      (.of_unbound hsize hunbound) none none
    have hhas := hasOf h hfunctions includes
    have hhas' := hasOf h' hfunctions' includes'
    rw [← hvalues] at hhas'
    simp only [hvalue, hraised] at hhas
    exact ⟨_, _, hhas, hhas'⟩
  · intro module module' before between after after' f f' includes includes' hvalues hfunctions
      hfunctions' h h' hothers hsize
    rw [List.forall_mem_append, List.forall_mem_singleton] at hothers
    have hbefore := dangling_of_functions h before (by simp +contextual [hfunctions])
    have hsplit (f : Function) (fs : List Function) : (namesBehind module.values (before ++ f :: fs)) =
        ((Emission.functions fs).run { values := module.values }
          ((Emission.function f).run { values := module.values }
            (namesBehind module.values before)).names).names :=
      (functions_append before (f :: fs) { values := module.values } .empty).2.1
    rw [hsplit, hsplit] at hsize
    -- the functions between are emitted in lockstep from tables that agree on their values
    have hagrees := agrees_of_replaced (valid_namesBehind hbefore) f f' hsize
    have hbetween := lockstep_functions_refl module.values
      (fun id => id ∉ f.mentioned ∧ id ∉ f'.mentioned) hothers.1 none _ _ hagrees
    have hnames := hbetween.names.mono hothers.2
    obtain ⟨hvalue, hraised, -⟩ := g.emits_independently module.values hnames none none
    have hhas := hasOf h hfunctions includes
    have hhas' := hasOf h' hfunctions' includes'
    rw [← hvalues] at hhas'
    simp only [hsplit] at hhas hhas'
    simp only [hvalue, hraised] at hhas
    exact ⟨_, _, hhas, hhas'⟩

end Module

/-- A function that negates its argument. -/
def negation : Function where
  name := "negation"
  args := [⟨0⟩]
  blocks := [{ ops := [
    { kind := .unary .neg, operands := [⟨0⟩], results := [⟨1⟩] },
    { kind := .ret, operands := [⟨1⟩] }] }]

/-- A module in which a function of one argument stands before the negation. -/
def negationBehind (first : Function) : Module where
  values := #[
    { elem := .f32, shape := .scalar },
    { elem := .f32, shape := .scalar },
    { elem := .f32, shape := .scalar },
    { elem := .f32, shape := .fixed [8] }]
  functions := [first, negation]

/-- A function that does nothing with a number. -/
def ignoresNumber : Function where
  name := "number"
  args := [⟨2⟩]
  blocks := [{ ops := [{ kind := .ret }] }]

/-- A function without a body, which is an error. -/
def ignoresArray : Function where
  name := "array"
  args := [⟨3⟩]
  blocks := []

/-- A function behind a good one and behind one that fails. -/
theorem negation_independent :
    ((∃ code,
        ((Emission.function negation).run { values := (negationBehind ignoresNumber).values }
          (namesBehind (negationBehind ignoresNumber).values [ignoresNumber])).value.write {} =
            some ⟨"" ++ code, 0⟩ ∧
        ((Emission.function negation).run { values := (negationBehind ignoresNumber).values }
          (namesBehind (negationBehind ignoresNumber).values [ignoresArray])).value.write {} =
            some ⟨"" ++ code, 0⟩) ∧
      ((negationBehind ignoresNumber).emit []).hasErrors = false ∧
      ((negationBehind ignoresArray).emit []).hasErrors = true) ∧
    (∃ text reports,
      (negationBehind ignoresNumber).HasOf [] [ignoresNumber] negation text reports ∧
      (negationBehind ignoresArray).HasOf [] [ignoresArray] negation text reports) ∧
    (∃ text reports,
      (negationBehind ignoresNumber).HasOf [] [ignoresNumber] negation text reports ∧
      (negationBehind ignoresArray).HasOf [] [ignoresArray] negation text reports) := by
  have hindependent := Module.functions_independent negation
  refine ⟨⟨?_, by decide, by decide⟩, ?_, ?_⟩
  · exact (hindependent.1 (negationBehind ignoresNumber).values none none
      (namesBehind (negationBehind ignoresNumber).values [ignoresNumber])
      (namesBehind (negationBehind ignoresNumber).values [ignoresArray]) "" "" (by decide)
      (by decide)).1
  · exact hindependent.2.1 (negationBehind ignoresNumber) (negationBehind ignoresArray) _ _ [] [] [] []
      rfl rfl rfl (by decide) (by decide) (by decide) (by decide)
  · exact hindependent.2.2 (negationBehind ignoresNumber) (negationBehind ignoresArray) [] [] [] []
      ignoresNumber ignoresArray [] [] rfl rfl rfl (by decide) (by decide) (by decide) (by decide)

end HlsEmit
