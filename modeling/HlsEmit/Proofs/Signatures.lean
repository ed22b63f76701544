import HlsEmit.Proofs.Preservation

/-!
# Signatures

The ports of a function are its arguments and behind them the values that it returns. Before a
returned value is written, it is asked for its name, and one that has a name already is reported; so
where no error is reported, each of them is declared with its type. Arguments are not asked. They are
declared if none of them has a name or a literal, which is so if they are distinct and no function in
front mentions them.

What a signature has declared has a name when the body is written. So a constant array that is
returned is no longer declared where its elements would be written.

## Key results

- `Module.returned_declared`: the ports of the returned values, in every function
- `Module.signature_declared`: all ports, if the arguments are new
- `Emission.places_constant`: the elements of a constant array are written with its declaration
-/

namespace HlsEmit

open Code

/-! ## Ports -/

/-- A port declares a value, with its type in front and its extents behind. -/
structure Code.Declarator.Declares (arena : Arena) (pointer : Bool) (id : ValueId)
    (port : Declarator) : Prop where
  typed : ∃ type name, port.mention = .declare id (some type) name ∧
    (arena.info id).elem.cppName? = some type ∧ name.pointer = pointer
  extents : (arena.info id).shape.extents? = some port.extents

/-- The port of an argument. -/
def Arena.DeclaresArgument (arena : Arena) (id : ValueId) (port : Declarator) : Prop :=
  port.Declares arena false id

/-- The port of a returned value: scalars are pointers. -/
def Arena.DeclaresReturned (arena : Arena) (id : ValueId) (port : Declarator) : Prop :=
  port.Declares arena (!(arena.info id).isShaped) id

/-- Each port declares its value. -/
theorem Ports.declares {arena : Arena} {pointer : ValueId → Bool} {t t' : NameTable}
    {ids : List ValueId} {ports : List Declarator} (h : Ports arena pointer t ids ports t') :
    List.Forall₂ (fun id port => port.Declares arena (pointer id) id) ids ports := by
  induction h with
  | nil => exact .nil
  | cons hconst first rest ih =>
    refine .cons ?_ ih
    cases first with
    | declare hfree htype hextents => exact ⟨⟨_, _, rfl, htype, rfl⟩, hextents⟩

/-! ## Functions -/

/-- The signature of a function whose arguments may have names already: as many ports as arguments,
and a declaration of each returned value. -/
structure Function.SignatureOf (arena : Arena) (function : Function)
    (arguments results : List Declarator) (code : FunctionCode) : Prop where
  ports : code.ports = arguments ++ results
  arguments : arguments.length = function.args.length
  results : List.Forall₂ arena.DeclaresReturned function.returned results

namespace Emission

variable {c : Contract} {name : Option String} {t : NameTable}

/-- Two promises are kept together. -/
theorem Places.and {α : Type} {e : Emission α} {post post' : α → NameTable → Prop}
    (h : Places c name t e post) (h' : Places c name t e post') :
    Places c name t e fun value t' => post value t' ∧ post' value t' :=
  fun hclean => ⟨h hclean, h' hclean⟩

/-- There are as many ports as arguments. -/
theorem places_ports {args : List ValueId} :
    Places c name t (arguments args) fun ports _ => ports.length = args.length := by
  induction args generalizing t with
  | nil => exact .pure rfl
  | cons arg rest ih =>
    refine .bind fun _ => .bind (ih.mono fun ports t' hports => ?_)
    exact .pure (congrArg (· + 1) hports)

/-- A function, whatever was named before. `post` is what is known about its arguments. -/
theorem places_signature {function : Function} {post : List Declarator → Prop}
    (hvalues : ∀ id ∈ function.mentioned, c.values id)
    (harguments : Places c function.name t (arguments function.args) fun ports _ => post ports) :
    Places c name t (Emission.function function) fun code _ => ∃ arguments results,
      function.SignatureOf c.arena arguments results code ∧ post arguments := by
  refine .inFunction (.bind ((places_checkStructure function).mono ?_))
  rintro _ _ ⟨rfl, -⟩
  refine .bind ((harguments.and places_ports).mono ?_)
  rintro arguments t₁ ⟨hpost, hlength⟩
  refine .bind ((places_returnOp? function).mono ?_)
  rintro _ t₂ ⟨rfl, ret, rfl, hret⟩
  have hreturned : function.returned = ret.operands := by simp [Function.returned, hret]
  have hretValues : ∀ id ∈ ret.operands, c.values id := fun id hid =>
    hvalues id (Function.mem_mentioned_of_return hret hid)
  refine .bind ((ports_returned ret hretValues).mono ?_)
  intro results t₃ hresults
  -- the pragmas and the body do not matter to the ports
  refine .bind fun _ => .bind fun _ => .pure ⟨arguments, results, ⟨rfl, hlength, ?_⟩, hpost⟩
  rw [hreturned]
  exact hresults.declares

end Emission

/-! ## Modules -/

section Module

variable {module : Module} {includes : List String} {place : Nat} {function : Function}

/-- What is true of a function, given what is known about its arguments. -/
theorem Module.signature_of (h : module.Succeeds includes)
    (hfound : module.functions[place]? = some function) {ids : List ValueId}
    (hown : ∀ earlier ∈ module.functions.take place, ∀ id ∈ earlier.mentioned, id ∉ ids)
    {post : List Declarator → Prop}
    (harguments : ∀ t, (∀ id ∈ ids, t.binding? id = none) →
      Emission.Places (module.contract h.dangling fun _ => True) function.name t
        (Emission.arguments function.args) fun ports _ => post ports) :
    ∃ code arguments results, (module.program includes).value.functions[place]? = some code ∧
      function.SignatureOf module.values arguments results code ∧ post arguments := by
  have hmember : function ∈ module.functions := List.mem_of_getElem? hfound
  have hvalues : ∀ other ∈ module.functions, ∀ id ∈ other.mentioned,
      (module.contract h.dangling fun _ => True).values id :=
    fun other hother id hid => ⟨other, hother, hid⟩
  -- The function is reached with none of its own values named.
  have hplaces : Emission.Places (module.contract h.dangling fun _ => True) none .empty
      (do return (⟨includes, ← Emission.functions module.functions⟩ : Program))
      fun program _ => ∃ code, program.functions[place]? = some code ∧ ∃ arguments results,
        function.SignatureOf module.values arguments results code ∧ post arguments := by
    refine .bind ((Emission.places_at (NameTable.valid_empty _) hvalues (fun _ => trivial) hfound
      hown (fun _ _ => rfl) fun t _ hfresh => ?_).mono fun codes _ hcodes => .pure hcodes)
    exact Emission.places_signature (hvalues function hmember) (harguments t hfresh)
  obtain ⟨code, hcode, arguments, results, hsignature, hpost⟩ := hplaces h.clean
  exact ⟨code, arguments, results, hcode, hsignature, hpost⟩

/-- The port of every returned value declares it, in every function of a module without errors. -/
theorem Module.returned_declared (h : module.Succeeds includes)
    (hfound : module.functions[place]? = some function) :
    ∃ code arguments results, (module.program includes).value.functions[place]? = some code ∧
      function.SignatureOf module.values arguments results code := by
  have hown : ∀ earlier ∈ module.functions.take place, ∀ id ∈ earlier.mentioned,
      id ∉ ([] : List ValueId) := by simp
  have harguments (t : NameTable) : Emission.Places (module.contract h.dangling fun _ => True)
      function.name t (Emission.arguments function.args) fun _ _ => True := fun _ => trivial
  obtain ⟨code, arguments, results, hcode, hsignature, -⟩ :=
    Module.signature_of h hfound hown fun t _ => harguments t
  exact ⟨code, arguments, results, hcode, hsignature⟩

/-- Every port of a function declares its value if the arguments are distinct, are no literals and
are mentioned by no function in front. -/
theorem Module.signature_declared (h : module.Succeeds includes)
    (hfound : module.functions[place]? = some function) (hdistinct : function.args.Nodup)
    (hliterals : ∀ id ∈ function.args, module.values.constantText? id = none)
    (hown : ∀ earlier ∈ module.functions.take place, ∀ id ∈ earlier.mentioned,
      id ∉ function.args) :
    ∃ code arguments results, (module.program includes).value.functions[place]? = some code ∧
      function.SignatureOf module.values arguments results code ∧
      List.Forall₂ module.values.DeclaresArgument function.args arguments := by
  have hmember : function ∈ module.functions := List.mem_of_getElem? hfound
  refine Module.signature_of h hfound hown fun t hfresh => ?_
  have hargs : ∀ id ∈ function.args, (module.contract h.dangling fun _ => True).values id ∧
      module.values.constantText? id = none ∧ t.binding? id = none := fun id hid =>
    ⟨⟨function, hmember, List.mem_append_left _ hid⟩, hliterals id hid, hfresh id hid⟩
  exact (Emission.ports_arguments hargs hdistinct).mono fun ports t' hports => hports.declares

/-- An argument that is listed twice is written without a type the second time, which is not
reported. -/
example :
    let twice : Module := ⟨#[{ elem := .f32 }], [{
      name := "twice", args := [⟨0⟩, ⟨0⟩], blocks := [{ ops := [{ kind := .ret }] }] }]⟩
    ((twice.program []).value.functions.map fun code => code.ports.map Declarator.text) =
      [["float val0", "val0"]] ∧ (twice.emit []).diagnostics = [] := by
  decide

end Module

/-! ## Constants -/

namespace Emission

variable {c : Contract} {name : Option String} {t : NameTable} {op : Op} {result : ValueId}

/-- The plan of a constant is decided by its result. -/
theorem plan_constant {rest : List ValueId} (hkind : op.kind = .constant)
    (hresults : op.results = result :: rest) (arena : Arena) (owner : Option Op) :
    op.plan arena t owner = planConstant arena t result := by
  simp [Op.plan, Op.counts, Counts.covers, OpKind.needs, Op.rule, hkind, hresults]

/-- A constant whose result has a name or a literal is not written. Any other one is an array, and
all its elements are written in order behind its declaration. -/
theorem places_constant {rest : List ValueId} (hkind : op.kind = .constant)
    (hresults : op.results = result :: rest) (hid : c.values result) (owner : Option Op)
    (bodies : List (Emission (List Stmt))) :
    Places c name t (operation owner op bodies) fun stmts t' =>
      (c.arena.isBound t result = true ∧ stmts = [] ∧ t' = t) ∨
        ∃ elements texts declarator, (c.arena.info result).constant = some (.dense elements) ∧
          elements.mapM Literal.scalarText? = some texts ∧
          stmts = [.initialized declarator texts (some op.note)] ∧
          Introduces c.arena t false result declarator t' := by
  have hknown := c.known result hid
  refine .bind fun _ => .bindQuiet (inspect_apply _ _) ?_
  show Places c name t (carryOut op bodies (op.plan c.arena t owner)) _
  rw [plan_constant hkind hresults, planConstant, Arena.checkBound_of_known hknown,
    Arena.entry_of_known hknown]
  cases hbound : c.arena.isBound t result with
  | true => exact .pure (.inl ⟨rfl, rfl, rfl⟩)
  | false =>
    obtain ⟨hfree, hconst⟩ := Arena.isBound_eq_false_iff.1 hbound
    dsimp only [bind, Except.bind]
    rw [if_neg Bool.false_ne_true]
    -- everything but an array of scalar literals is reported
    split
    · next elements helements =>
      split
      · exact .bindError rfl
      · split
        · exact .bindError rfl
        · split
          · next texts htexts =>
            refine .bind ((introduces_array (some op) hid hconst hfree).mono ?_)
            intro declarator t' hdeclarator
            exact .pure (.inr ⟨elements, texts, declarator, helements, htexts, rfl, hdeclarator⟩)
          · exact .bindError rfl
    · exact .bindError rfl

end Emission

/-- An array that is returned is declared in the signature, and then the constant is not written. -/
example :
    let init : Module := ⟨
      #[{ elem := .index, shape := .fixed [2], constant := some (.dense [.int 1, .int 2]) }], [{
        name := "init", blocks := [{ ops := [
          { kind := .constant, results := [⟨0⟩] }, { kind := .ret, operands := [⟨0⟩] }] }] }]⟩
    ((init.program []).value.functions.map fun code => stmtsText 1 code.body) = [""] ∧
      (init.emit []).diagnostics = [] := by
  decide

end HlsEmit
