import HlsEmit.Proofs.BlockScope
import HlsEmit.Proofs.Layout.Program
import HlsEmit.Proofs.Meaning.Function

/-!
# The generated code computes what is meant

A function of the structured core is written as C++ that computes what the function means: whatever
the numbers are, if the machine implements their meaning, then the code ends with the same contents of
all arguments and returned values. The text is read back before it is executed.

A literal is written in place of its value wherever that stands, so a value with a constant payload
has to be the result of a constant. An argument with one is no declaration any more.

A selection is written as `?:`, which converts both branches to a common type. Whether this shows in
its result depends on the machine and on the types of the branches; it does not if these are the same.

## Key results

- `Module.preserves_meaning`: the code of a function in the structured core computes what the function
  means, if its literals are faithful and its selections compute the same in C++
- `core_not_preserved`: other literals, names that are reserved, and other selections
-/

namespace HlsEmit

open Cpp (Machine)
open Code

variable {V : Type}

namespace Emission

variable {c : Contract}

/-- A function gives names to values that it mentions, and to no others. -/
theorem grows_function {function : Function} (hvalues : ∀ id ∈ function.mentioned, c.values id)
    (haccepts : ∀ missing, c.overruns missing) {t : NameTable} (hv : t.Valid c.arena)
    (name : Option String) :
    t.Grows c.arena (· ∈ function.mentioned)
      ((Emission.function function).run ⟨c.arena, name⟩ t).names := by
  have hemits : Emits (c.among (· ∈ function.mentioned)) [] (Emission.function function)
      FunctionCode.mentions :=
    emits_function (fun id hid => ⟨hvalues id hid, hid⟩) fun _ _ _ _ => .inr (haccepts _)
  obtain ⟨events, -, hrun⟩ := hemits name t hv
  have hnames : ((Emission.function function).run ⟨c.arena, name⟩ t).names = replay t events :=
    hrun.names
  rw [hnames]
  exact hrun.history.grows.mono fun _ => And.right

/-- The code of a function of several ones, if those in front of it give none of its values a name. -/
theorem places_at {functions : List Function} {place : Nat} {function : Function}
    {ids : List ValueId} {name : Option String} {t : NameTable} (hv : t.Valid c.arena)
    (hvalues : ∀ other ∈ functions, ∀ id ∈ other.mentioned, c.values id)
    (haccepts : ∀ missing, c.overruns missing) (hfound : functions[place]? = some function)
    (hown : ∀ earlier ∈ functions.take place, ∀ id ∈ earlier.mentioned, id ∉ ids)
    (hfresh : ∀ id ∈ ids, t.binding? id = none) {post : FunctionCode → Prop}
    (hfunction : ∀ t, t.Valid c.arena → (∀ id ∈ ids, t.binding? id = none) →
      Places c name t (Emission.function function) fun code _ => post code) :
    Places c name t (Emission.functions functions) fun codes _ =>
      ∃ code, codes[place]? = some code ∧ post code := by
  induction functions generalizing place t with
  | nil => cases hfound
  | cons first rest ih =>
    rw [List.forall_mem_cons] at hvalues
    cases place with
    | zero =>
      cases hfound
      refine .bind ((hfunction t hv hfresh).mono fun code t' hcode => .bind fun _ => ?_)
      exact .pure ⟨code, rfl, hcode⟩
    | succ place =>
      rw [List.take_succ_cons, List.forall_mem_cons] at hown
      have hgrows := grows_function hvalues.1 haccepts hv name
      -- The first function names values it mentions, which are none of these.
      have hlater : ∀ id ∈ ids,
          ((Emission.function first).run ⟨c.arena, name⟩ t).names.binding? id = none := by
        intro id hid
        cases hbinding : ((Emission.function first).run ⟨c.arena, name⟩ t).names.binding? id with
        | none => rfl
        | some binding =>
          have hmentioned := (hgrows.mentioned hbinding (hfresh id hid)).1
          exact absurd hid (hown.1 id hmentioned)
      refine .bind fun _ => .bind ((ih (hgrows.valid hv) hvalues.2 hfound hown.2 hlater).mono ?_)
      rintro codes t' ⟨code, hcode, hpost⟩
      exact .pure ⟨code, hcode, hpost⟩

end Emission

/-- Every function of a program stands in its text. -/
theorem Code.Program.exists_text {program : Program} {place : Nat} {code : FunctionCode}
    (h : program.functions[place]? = some code) :
    ∃ front back, program.text = front ++ code.text ++ back := by
  obtain ⟨earlier, later, hsplit⟩ := List.append_of_mem (List.mem_of_getElem? h)
  refine ⟨prologue ++ includesText program.includes ++ String.join (earlier.map FunctionCode.text),
    String.join (later.map FunctionCode.text), ?_⟩
  rw [Program.text, hsplit, List.map_append, List.map_cons, String.join_append, String.join_cons]
  simp only [String.append_assoc]

/-- Every extent that is counted to is less than the limit of 64 bits. -/
theorem toNat_extent_lt (extent : Int64) : extent.toInt.toNat < 0x8000000000000000 := by
  have h := extent.toInt_lt
  omega

/-- The code of a function computes what the function does, whatever is in the places of the returned
values when it is called. It stands in the text that is emitted. -/
def Module.Preserves (module : Module) (includes : List String) (place : Nat) (function : Function)
    (m : Machine V) (meaning : Meaning V) : Prop :=
  ∃ code front back, (module.program includes).value.functions[place]? = some code ∧
    (module.emit includes).text = front ++ code.text ++ back ∧
    ∀ inputs room outputs, meaning.Computes module.values function inputs outputs →
      Content.AllFit module.values function.returned room →
      ∃ outputs', m.Computes code.text (inputs ++ room) outputs' ∧ Content.AllRefine outputs outputs'

/-- Every function of the structured core whose literals are faithful. The counters of the loops over
its arrays count to their extents, and its selections compute the same in C++. -/
theorem Module.preserves_meaning (module : Module) (includes : List String) {place : Nat}
    {function : Function} (hcore : module.InCore place function)
    (hfaithful : function.Faithful module.values) (hsucceeds : module.Succeeds includes)
    {m : Machine V} {meaning : Meaning V} (hm : m.Implements meaning)
    (hcounts : ∀ id ∈ function.mentioned, ∀ extents,
      (module.values.info id).shape.extents? = some extents →
        ∀ extent ∈ extents, m.CountsTo extent.toInt)
    (hselects : ∀ op ∈ withinBlocks function.blocks, m.Selects meaning module.values op) :
    module.Preserves includes place function m meaning := by
  have hmember : function ∈ module.functions := List.mem_of_getElem? hcore.found
  let c := (module.contract hsucceeds.dangling fun _ => True).among (· ∈ function.mentioned)
  -- A limit that all extents fit under supports the run.
  have hsupports (limit : Nat) : Supports m meaning c (limit + 2 ^ 63) := by
    refine ⟨hm, fun id hid => hcore.shapes id hid.2, fun id hid extents hextents extent hextent => ?_⟩
    have hless := toNat_extent_lt extent
    exact ⟨hcounts id hid.2 extents hextents extent hextent, by omega⟩
  -- The function is placed behind those in front of it, with none of its values named.
  have hplaces : Emission.Places (module.contract hsucceeds.dangling fun _ => True) none .empty
      (do return (⟨includes, ← Emission.functions module.functions⟩ : Program))
      fun program _ => ∃ code, program.functions[place]? = some code ∧ code.Readable ∧
        ∀ limit', ∃ limit, Performs m meaning module.values limit limit' function code := by
    have hmentioned : ∀ other ∈ module.functions, ∀ id ∈ other.mentioned,
        (module.contract hsucceeds.dangling fun _ => True).values id :=
      fun other hother id hid => ⟨other, hother, hid⟩
    refine .bind ((Emission.places_at (NameTable.valid_empty _) hmentioned (fun _ => trivial)
      hcore.found hcore.own (fun _ _ => rfl) fun t hv hfresh => ?_).mono
        fun codes _ hcodes => .pure hcodes)
    have hvalues : ∀ id ∈ function.mentioned, c.values id :=
      fun id hid => ⟨⟨function, hmember, hid⟩, hid⟩
    have hremarks : ∀ remark ∈ function.attrs.remarks, OneLine remark := fun remark hremark =>
      (Emission.FuncAttrs.plain_remarks function.attrs remark hremark).oneLine
    have hperforms (limit' : Nat) : Emission.Places c none t (Emission.function function) fun code _ =>
        code.Readable ∧ Performs m meaning c.arena (limit' + 2 ^ 63) limit' function code :=
      Emission.performs_function (hsupports limit') (Nat.le_add_right limit' _) hv hcore.toInCore
        hfaithful hselects hvalues hfresh hremarks
    exact fun hclean => ⟨(hperforms 0 hclean).1, fun limit' => ⟨_, (hperforms limit' hclean).2⟩⟩
  obtain ⟨code, hcode, hreadable, hperforms⟩ := hplaces hsucceeds.clean
  obtain ⟨front, back, htext⟩ := Program.exists_text hcode
  refine ⟨code, front, back, hcode, ?_, ?_⟩
  · rw [Module.emit, hsucceeds.dangling]
    exact htext
  -- A run of the program within its own limit is one of the code within a larger limit.
  · rintro inputs room outputs ⟨limit', hevaluate⟩ hroom
    obtain ⟨limit, hperforms⟩ := hperforms limit'
    obtain ⟨outputs', hrun, hrefine⟩ := hperforms inputs room outputs hroom hevaluate
    exact ⟨outputs', ⟨code.cpp, limit, hreadable.readFunction_text, hrun⟩, hrefine⟩

/-! ## An array that is filled by a loop -/

/-- Integers, with the constants that the function below is made of. -/
def integers : Meaning Int where
  constant
    | .int value => if value = 0 ∨ value = 1 ∨ value = 4 then some value.toInt else none
    | _ => none
  binary
    | .add, x, y => some (x + y)
    | _, _, _ => none
  unary _ _ := none
  cmpI
    | .slt, x, y => some (if x < y then 1 else 0)
    | _, _, _ => none
  cmpF _ _ _ := none
  max _ _ := none
  min _ _ := none
  convert _ x := some x
  truth x := some (x ≠ 0)
  index x := some x

/-- A machine that computes with these integers. -/
def integerMachine : Machine Int where
  typing := .only ⟨"int", none⟩
  constant text :=
    if text = "0" then some 0 else if text = "1" then some 1 else if text = "4" then some 4 else none
  binary operator x y :=
    if operator = "+" then some (x + y)
    else if operator = "<" then some (if x < y then 1 else 0) else none
  negate _ := none
  call _ _ := none
  convert _ x := some x
  truth x := some (x ≠ 0)
  index x := some x

/-- The machine of integers implements the meaning of integers. -/
theorem integerMachine_implements : integerMachine.Implements integers where
  -- Only three constants have a value here, and each is read from its text.
  literals literal text htext _ value hvalue := by
    cases literal with
    | int constant =>
      cases htext
      simp only [integers] at hvalue
      split at hvalue
      · next hconstant =>
        cases hvalue
        rcases hconstant with rfl | rfl | rfl <;> decide +kernel
      · cases hvalue
    | _ => cases hvalue
  binary op x y := by
    intro result h
    cases op <;> cases h
    rfl
  unary op x := .none
  cmpI predicate x y := by
    intro result h
    cases predicate <;> cases h
    rfl
  cmpF predicate operator _ x y := .none
  max x y := .none
  min x y := .none
  convert elem type _ x := .refl _
  truth x := .refl _
  index x := .refl _
  negate x := by
    intro result h
    obtain ⟨y, -, h⟩ := Option.bind_eq_some_iff.1 h
    cases h
  subtractLiteral x c hc := by
    intro result h
    obtain ⟨y, hy, -⟩ := Option.bind_eq_some_iff.1 h
    simp only [integers] at hy
    split at hy
    · next hconstant =>
      rcases hconstant with rfl | rfl | rfl
      · exact absurd hc (by decide)
      · exact absurd hc (by decide)
      · exact absurd hc (by decide)
    · cases hy
  subtract x y := by
    intro result h
    obtain ⟨z, hz, -⟩ := Option.bind_eq_some_iff.1 h
    rw [show integers.constant (.int (-1)) = none from rfl] at hz
    cases hz

/-- Counters are the integers themselves. -/
theorem integerMachine_counter (n : Nat) : integerMachine.counter n = some (n : Int) := by
  induction n with
  | zero => rfl
  | succ n ih =>
    rw [Machine.counter, ih]
    rfl

/-- Counters go up to four. -/
theorem integerMachine_countsTo : integerMachine.CountsTo 4 where
  bound := rfl
  counts n _ := by
    refine ⟨n, 4, integerMachine_counter n, rfl, rfl, ?_⟩
    show some (decide ((if (n : Int) < 4 then (1 : Int) else 0) ≠ 0)) = _
    split <;> simp_all

/-- Doubles the elements of an array that are at least one, into an array that is returned. All others
end up in its first element. -/
def doubling : Function where
  name := "doubling"
  args := [⟨0⟩]
  blocks := [{ ops := [
    { kind := .constant, results := [⟨1⟩] },
    { kind := .constant, results := [⟨2⟩] },
    { kind := .constant, results := [⟨3⟩] },
    { kind := .alloc, results := [⟨4⟩] },
    { kind := .scfFor, operands := [⟨1⟩, ⟨2⟩, ⟨3⟩]
      regions := [{ args := [⟨5⟩], ops := [
        { kind := .load, operands := [⟨0⟩, ⟨5⟩], results := [⟨6⟩] },
        { kind := .cmpI .slt, operands := [⟨6⟩, ⟨3⟩], results := [⟨7⟩] },
        { kind := .scfIf, operands := [⟨7⟩], results := [⟨8⟩]
          regions := [
            { ops := [{ kind := .scfYield, operands := [⟨6⟩] }] },
            { ops := [
              { kind := .binary .add, operands := [⟨6⟩, ⟨6⟩], results := [⟨9⟩] },
              { kind := .scfYield, operands := [⟨9⟩] }] }] },
        { kind := .select, operands := [⟨7⟩, ⟨1⟩, ⟨5⟩], results := [⟨10⟩] },
        { kind := .store, operands := [⟨8⟩, ⟨4⟩, ⟨10⟩] }] }] },
    { kind := .ret, operands := [⟨4⟩] }] }]

def doublingModule : Module where
  values := #[
    { elem := .int 32 false, shape := .fixed [4] },
    { elem := .index, constant := some (.int 0) },
    { elem := .index, constant := some (.int 4) },
    { elem := .index, constant := some (.int 1) },
    { elem := .int 32 false, shape := .fixed [4] },
    { elem := .index },
    { elem := .int 32 false },
    { elem := .bool },
    { elem := .int 32 false },
    { elem := .int 32 false },
    { elem := .index }]
  functions := [doubling]

/-- What has to be computed for the function. -/
theorem doubling_checked :
    doubling.InCore doublingModule.values ∧ doubling.Faithful doublingModule.values ∧
      doublingModule.Succeeds [] ∧
      (∀ id ∈ doubling.mentioned, (doublingModule.values.info id).shape.extents? = some [] ∨
        (doublingModule.values.info id).shape.extents? = some [4]) ∧
      (∀ op ∈ withinBlocks doubling.blocks, op.kind = .select → ∀ id ∈ op.operands.tail,
        integerMachine.writtenType? doublingModule.values id = some ⟨"int", none⟩) ∧
      (integers.evaluate doublingModule.values 5 doubling [.array fun _ => some 1]).isSome := by
  decide +kernel

/-- The doubling function is in the core. -/
theorem doubling_inCore : doublingModule.InCore 0 doubling where
  toInCore := doubling_checked.1
  found := rfl
  own := by simp

/-- Its arrays have four elements. -/
theorem doubling_counts : ∀ id ∈ doubling.mentioned, ∀ extents,
    (doublingModule.values.info id).shape.extents? = some extents →
      ∀ extent ∈ extents, integerMachine.CountsTo extent.toInt := by
  obtain ⟨-, -, -, hextents, -, -⟩ := doubling_checked
  intro id hid extents hsome extent hextent
  rcases hextents id hid with hscalar | hfour
  · rw [hscalar] at hsome
    cases hsome
    cases hextent
  · rw [hfour] at hsome
    cases hsome
    rw [List.mem_singleton.1 hextent]
    exact integerMachine_countsTo

/-- The function has a result, and its code has the same. -/
theorem doublingModule_preserves_meaning :
    (∃ outputs, integers.Computes doublingModule.values doubling [.array fun _ => some 1] outputs) ∧
      doublingModule.InCore 0 doubling ∧ doubling.Faithful doublingModule.values ∧
      doublingModule.Succeeds [] ∧ integerMachine.Implements integers ∧
      (∀ op ∈ withinBlocks doubling.blocks,
        integerMachine.Selects integers doublingModule.values op) ∧
      doublingModule.Preserves [] 0 doubling integerMachine integers := by
  obtain ⟨-, hfaithful, hsucceeds, -, hsame, hcomputes⟩ := doubling_checked
  have hselects : ∀ op ∈ withinBlocks doubling.blocks,
      integerMachine.Selects integers doublingModule.values op := fun op hop =>
    Machine.selects_of_sameType integerMachine_implements (hsame op hop)
  obtain ⟨outputs, houtputs⟩ := Option.isSome_iff_exists.1 hcomputes
  exact ⟨⟨outputs, 5, houtputs⟩, doubling_inCore, hfaithful, hsucceeds, integerMachine_implements,
    hselects, Module.preserves_meaning doublingModule [] doubling_inCore hfaithful hsucceeds
      integerMachine_implements doubling_counts hselects⟩

/-! ## Where a literal is another or stands for no constant -/

/-- Whether a number is a NaN. -/
def notNumbers : Meaning Bool where
  constant
    | .float value => some !(Literal.float value).isFaithful
    | _ => none
  binary _ _ _ := none
  unary _ _ := none
  cmpI _ _ _ := none
  cmpF _ _ _ := none
  max _ _ := none
  min _ _ := none
  convert _ x := some x
  truth _ := none
  index _ := none

/-- A machine that knows whether a number is a NaN. It has no literal for one. -/
def notNumberMachine : Machine Bool where
  typing := .only ⟨"float", none⟩
  constant _ := some false
  binary _ _ _ := none
  negate x := some x
  call _ _ := none
  convert _ x := some x
  truth _ := none
  index _ := none

/-- No literal is read as something other than a number. -/
theorem notNumberMachine_eval {e : Cpp.Expr} (h : IsLiteral e) :
    notNumberMachine.eval [] e = some false := by
  induction h with
  | number text => rfl
  | infinity => rfl
  | negate _ ih =>
    rw [Machine.eval, ih]
    rfl

/-- A machine that only knows which literals are numbers implements that meaning. -/
theorem notNumberMachine_implements : notNumberMachine.Implements notNumbers where
  literals literal text htext hfaithful value hvalue := by
    obtain ⟨e, he, hphrase⟩ := exists_literal htext
    rw [Machine.literal, readExpr_of_phrase hphrase (he.grouped true)]
    cases literal with
    | float x =>
      have hconstant : notNumbers.constant (.float x) = some !(Literal.float x).isFaithful := rfl
      rw [hconstant, hfaithful] at hvalue
      cases hvalue
      exact notNumberMachine_eval he
    | _ => cases hvalue
  binary op x y := .none
  unary op x := .none
  cmpI predicate x y := .none
  cmpF predicate operator _ x y := .none
  max x y := .none
  min x y := .none
  convert elem type _ x := .refl _
  truth x := .refl _
  index x := .refl _
  negate x := .none
  subtractLiteral x c _ := .none
  subtract x y := .none

/-- What follows for the text that is known. -/
theorem Module.Preserves.computes {V : Type} {module : Module} {includes : List String} {place : Nat}
    {function : Function} {m : Machine V} {meaning : Meaning V} {text : String}
    (h : module.Preserves includes place function m meaning)
    (htext : ((module.program includes).value.functions[place]?).map FunctionCode.text = some text)
    {inputs room outputs : List (Content V)}
    (hcomputes : meaning.Computes module.values function inputs outputs)
    (hroom : Content.AllFit module.values function.returned room) :
    ∃ outputs', m.Computes text (inputs ++ room) outputs' ∧ Content.AllRefine outputs outputs' := by
  obtain ⟨code, -, -, hcode, -, hpreserves⟩ := h
  rw [hcode] at htext
  cases htext
  exact hpreserves inputs room outputs hcomputes hroom

/-- A NaN that is copied into the place of the returned value. -/
def copyNaN : Function where
  name := "copy"
  blocks := [{ ops := [
    { kind := .constant, results := [⟨0⟩] },
    { kind := .assign, operands := [⟨0⟩], results := [⟨1⟩] },
    { kind := .ret, operands := [⟨1⟩] }] }]

def copyNaNModule : Module where
  values := #[
    { elem := .f32, constant := some (.float ⟨0x7ff8000000000000⟩) },
    { elem := .f32 }]
  functions := [copyNaN]

/-- The copy of a constant that is no number is in the core otherwise, and emitted as infinite. -/
theorem copyNaN_checked :
    copyNaN.InCore copyNaNModule.values ∧ copyNaNModule.Succeeds [] ∧
      ((copyNaNModule.program []).value.functions[0]?).map FunctionCode.text =
        some "void copy(\n  float *val0\n) \x7b\t//\n  *val0 = INFINITY;\t//\n\x7d\n\n" := by
  decide +kernel

/-- What the text of the function is read as. -/
def copyInfinity : Cpp.Function where
  name := "copy"
  params := [{ type := ⟨"float", none⟩, name := "val0", pointer := true }]
  body := [.assign (.target "val0") (.name "INFINITY")]

/-- The emitted text is read back. -/
theorem copyInfinity_read : Cpp.readFunction
    "void copy(\n  float *val0\n) \x7b\t//\n  *val0 = INFINITY;\t//\n\x7d\n\n" = some copyInfinity := by
  have hgrouped : copyInfinity.Grouped := by
    refine ⟨fun param hparam => ?_, ⟨trivial, trivial⟩, trivial⟩
    rw [List.mem_singleton.1 hparam]
    show _ ∈ Cpp.arithmeticTypes
    decide
  exact Cpp.readFunction_of_tokens hgrouped (by decide +kernel)

/-- The code returns an infinity instead of a NaN. -/
theorem copyNaN_not_preserved :
    ¬ copyNaNModule.Preserves [] 0 copyNaN notNumberMachine notNumbers := by
  intro h
  have hcomputes : notNumbers.Computes copyNaNModule.values copyNaN [] [.scalar (some true)] :=
    ⟨0, rfl⟩
  have hroom : Content.AllFit copyNaNModule.values copyNaN.returned [.scalar (none : Option Bool)] :=
    ⟨rfl, trivial⟩
  obtain ⟨outputs, ⟨function, limit, hread, hrun⟩, hrefine⟩ :=
    h.computes copyNaN_checked.2.2 hcomputes hroom
  rw [copyInfinity_read] at hread
  cases hread
  cases hrun
  cases hrefine.1 true rfl

/-- A function that does nothing with its argument. -/
def constantPort : Function where
  name := "port"
  args := [⟨0⟩]
  blocks := [{ ops := [{ kind := .ret }] }]

def constantPortModule : Module where
  values := #[{ elem := .index, constant := some (.int 5) }]
  functions := [constantPort]

/-- The argument is written as its literal, which is no parameter. -/
theorem constantPort_checked :
    constantPort.InCore constantPortModule.values ∧ constantPortModule.Succeeds [] ∧
      ((constantPortModule.program []).value.functions[0]?).map FunctionCode.text =
        some "void port(\n  5\n) \x7b\t//\n\x7d\n\n" ∧
      (Cpp.readFunction "void port(\n  5\n) \x7b\t//\n\x7d\n\n").isNone := by
  decide +kernel

/-- A constant among the ports is not preserved. -/
theorem constantPort_not_preserved :
    ¬ constantPortModule.Preserves [] 0 constantPort notNumberMachine notNumbers := by
  intro h
  obtain ⟨-, -, htext, hnone⟩ := constantPort_checked
  have hcomputes : notNumbers.Computes constantPortModule.values constantPort
      [.scalar (some false)] [.scalar (some false)] := ⟨0, rfl⟩
  have hroom : Content.AllFit constantPortModule.values constantPort.returned
      ([] : List (Content Bool)) := trivial
  obtain ⟨outputs, ⟨function, limit, hread, -⟩, -⟩ := h.computes htext hcomputes hroom
  rw [hread] at hnone
  cases hnone

/-- A function that does nothing. -/
def reservedName : Function where
  name := "int"
  blocks := [{ ops := [{ kind := .ret }] }]

def reservedNameModule : Module where
  functions := [reservedName]

/-- The name of the function is that of a type. -/
theorem reservedName_checked :
    reservedName.InCore reservedNameModule.values ∧ reservedNameModule.Succeeds [] ∧
      ((reservedNameModule.program []).value.functions[0]?).map FunctionCode.text =
        some "void int(\n\n) \x7b\t//\n\x7d\n\n" ∧
      (Cpp.readFunction "void int(\n\n) \x7b\t//\n\x7d\n\n").isNone := by
  decide +kernel

/-- A name that is a keyword is not preserved. -/
theorem reservedName_not_preserved :
    ¬ reservedNameModule.Preserves [] 0 reservedName notNumberMachine notNumbers := by
  intro h
  obtain ⟨-, -, htext, hnone⟩ := reservedName_checked
  have hcomputes : notNumbers.Computes reservedNameModule.values reservedName [] [] := ⟨0, rfl⟩
  have hroom : Content.AllFit reservedNameModule.values reservedName.returned
      ([] : List (Content Bool)) := trivial
  obtain ⟨outputs, ⟨function, limit, hread, -⟩, -⟩ := h.computes htext hcomputes hroom
  rw [hread] at hnone
  cases hnone

/-! ## Where the branches of a selection are of different types -/

/-- An integer of up to 25 bits in single precision, whose numbers have 24 bits. Ties go to even. -/
def inSingle (x : Int) : Option Int :=
  if x.natAbs ≤ 16777216 then some x
  else if x.natAbs ≤ 33554432 then
    some (if x % 4 = 1 then x - 1 else if x % 4 = 3 then x + 1 else x)
  else none

/-- Integers that are rounded to single precision. -/
def rounded : Meaning Int where
  constant _ := none
  binary _ _ _ := none
  unary _ _ := none
  cmpI _ _ _ := none
  cmpF _ _ _ := none
  max _ _ := none
  min _ _ := none
  convert
    | .f32, x => inSingle x
    | _, x => some x
  truth x := some (x ≠ 0)
  index _ := none

/-- The common type of two types that are reserved words. -/
def usualCommon (lhs rhs : Cpp.TypeName) : Option Cpp.TypeName :=
  if lhs.width.isSome || rhs.width.isSome then none
  else [⟨"double", none⟩, ⟨"float", none⟩, ⟨"int", none⟩].find? fun type => type = lhs || type = rhs

/-- A machine that rounds them as well. -/
def roundingMachine : Machine Int where
  typing := {
    constant := fun _ => some ⟨"int", none⟩
    binary := fun _ => usualCommon
    negate := fun type => usualCommon type ⟨"int", none⟩
    call := fun _ _ => none
    common := usualCommon }
  constant _ := none
  binary _ _ _ := none
  negate _ := none
  call _ _ := none
  convert type x := if type = ⟨"float", none⟩ then inSingle x else some x
  truth x := some (x ≠ 0)
  index _ := none

/-- A machine that rounds to single precision implements the meaning that does. -/
theorem roundingMachine_implements : roundingMachine.Implements rounded where
  literals literal text _ _ := .none
  binary op x y := .none
  unary op x := .none
  cmpI predicate x y := .none
  cmpF predicate operator _ x y := .none
  max x y := .none
  min x y := .none
  -- Only single precision rounds, and no other type is written like it.
  convert elem type htype x := by
    cases elem with
    | f32 =>
      cases htype
      exact .refl _
    | int width unsigned =>
      have hne : type ≠ ⟨"float", none⟩ := by
        rintro rfl
        rw [ElemType.typeName?] at htype
        split at htype
        · exact absurd htype (by decide)
        · cases unsigned <;> simp at htype
      have hconvert : roundingMachine.convert type x = some x := if_neg hne
      rw [hconvert]
      exact .refl _
    | f16 | bf16 => cases htype
    | f64 | bool | index =>
      cases htype
      exact .refl _
  truth x := .refl _
  index x := .refl _
  negate x := .none
  subtractLiteral x c _ := .none
  subtract x y := .none

/-- Returns one of two numbers of different types. -/
def pick : Function where
  name := "pick"
  args := [⟨0⟩, ⟨1⟩, ⟨2⟩]
  blocks := [{ ops := [
    { kind := .select, operands := [⟨0⟩, ⟨1⟩, ⟨2⟩], results := [⟨3⟩] },
    { kind := .ret, operands := [⟨3⟩] }] }]

def pickModule : Module where
  values := #[{ elem := .bool }, { elem := .index }, { elem := .f32 }, { elem := .f64 }]
  functions := [pick]

/-- The code of the function. -/
def pickText : String :=
  "void pick(\n  bool val0,\n  int val1,\n  float val2,\n  double *val3\n) \x7b\t//\n" ++
    "  *val3 = val0 ? val1 : val2;\t//\n\x7d\n\n"

/-- The choice is in the core and emitted as it stands, but its branches differ in type. -/
theorem pick_checked :
    pick.InCore pickModule.values ∧ pick.Faithful pickModule.values ∧ pickModule.Succeeds [] ∧
      ((pickModule.program []).value.functions[0]?).map FunctionCode.text = some pickText := by
  decide +kernel

/-- What the text of the function is read as. -/
def pickCpp : Cpp.Function where
  name := "pick"
  params := [
    { type := ⟨"bool", none⟩, name := "val0" },
    { type := ⟨"int", none⟩, name := "val1" },
    { type := ⟨"float", none⟩, name := "val2" },
    { type := ⟨"double", none⟩, name := "val3", pointer := true }]
  body := [.assign (.target "val3") (.conditional (.name "val0") (.name "val1") (.name "val2"))]

/-- The emitted text is read back. -/
theorem pick_read : Cpp.readFunction pickText = some pickCpp := by
  have hgrouped : pickCpp.Grouped := by
    refine ⟨fun param hparam => ?_, ⟨trivial, rfl, trivial, trivial, trivial⟩, trivial⟩
    have hbase : param.type.width = none ∧ param.type.base ∈ Cpp.arithmeticTypes := by
      revert param
      decide
    show if param.type.width.isSome then _ else _
    rw [hbase.1]
    exact hbase.2
  exact Cpp.readFunction_of_tokens hgrouped (by decide +kernel)

/-- The code chooses between numbers of single precision, which a large integer is none of. -/
theorem pick_not_preserved : ¬ pickModule.Preserves [] 0 pick roundingMachine rounded := by
  intro h
  have hcomputes : rounded.Computes pickModule.values pick
      [.scalar (some 1), .scalar (some 16777217), .scalar (some 0)]
      [.scalar (some 1), .scalar (some 16777217), .scalar (some 0), .scalar (some 16777217)] :=
    ⟨0, rfl⟩
  have hroom : Content.AllFit pickModule.values pick.returned [.scalar (none : Option Int)] :=
    ⟨rfl, trivial⟩
  obtain ⟨outputs, ⟨function, limit, hread, hrun⟩, hrefine⟩ :=
    h.computes pick_checked.2.2.2 hcomputes hroom
  rw [pick_read] at hread
  cases hread
  -- Both branches are converted to single precision before one of them is chosen.
  have hrounded : roundingMachine.run limit pickCpp
      [.scalar (some 1), .scalar (some 16777217), .scalar (some 0), .scalar none] =
        some [.scalar (some 1), .scalar (some 16777217), .scalar (some 0), .scalar (some 16777216)] :=
    rfl
  rw [List.cons_append, List.cons_append, List.cons_append, List.nil_append, hrounded] at hrun
  cases hrun
  cases hrefine.2.2.2.1 16777217 rfl

/-! ## The core alone -/

/-- A function of the core computes something else, or is no function at all, if a literal is written
for a NaN, in place of an argument, if its name is reserved, or if a selection is converted to the
common type of its branches. -/
theorem core_not_preserved : notNumberMachine.Implements notNumbers ∧
    (copyNaNModule.InCore 0 copyNaN ∧ copyNaNModule.Succeeds [] ∧
      ¬ copyNaNModule.Preserves [] 0 copyNaN notNumberMachine notNumbers) ∧
    (constantPortModule.InCore 0 constantPort ∧ constantPortModule.Succeeds [] ∧
      ¬ constantPortModule.Preserves [] 0 constantPort notNumberMachine notNumbers) ∧
    (reservedNameModule.InCore 0 reservedName ∧ reservedNameModule.Succeeds [] ∧
      ¬ reservedNameModule.Preserves [] 0 reservedName notNumberMachine notNumbers) ∧
    roundingMachine.Implements rounded ∧ pickModule.InCore 0 pick ∧
      pick.Faithful pickModule.values ∧ pickModule.Succeeds [] ∧
      ¬ pickModule.Preserves [] 0 pick roundingMachine rounded := by
  obtain ⟨hcopy, hcopySucceeds, -⟩ := copyNaN_checked
  obtain ⟨hport, hportSucceeds, -⟩ := constantPort_checked
  obtain ⟨hreserved, hreservedSucceeds, -⟩ := reservedName_checked
  obtain ⟨hpick, hpickFaithful, hpickSucceeds, -⟩ := pick_checked
  -- no function stands in front of these
  exact ⟨notNumberMachine_implements,
    ⟨⟨hcopy, rfl, by simp⟩, hcopySucceeds, copyNaN_not_preserved⟩,
    ⟨⟨hport, rfl, by simp⟩, hportSucceeds, constantPort_not_preserved⟩,
    ⟨⟨hreserved, rfl, by simp⟩, hreservedSucceeds, reservedName_not_preserved⟩,
    roundingMachine_implements, ⟨hpick, rfl, by simp⟩, hpickFaithful, hpickSucceeds, pick_not_preserved⟩

end HlsEmit
