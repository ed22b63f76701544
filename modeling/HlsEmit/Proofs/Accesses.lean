import HlsEmit.Proofs.Meaning.Formula
import HlsEmit.Proofs.Pragmas.Built
import HlsEmit.Proofs.Rejection

/-!
# Affine accesses at the inputs of the identity

An element of an array is accessed at subscripts that are values, or at the results of an affine map
over values. The results of the identity are its inputs, so both accesses should be the same.

They are not written in the same way. The values of a plain access are mentioned one after the other
in the order of the text, those of an affine access are looked up before anything of it is written.
If all operands are bound, this makes no difference: the name that a result gets in between hides
none.

An affine access needs a map with results. The identity over no inputs has none, and is rejected,
while the plain access to an array without dimensions is written as the name of the array.

## Key results

- `AffineMap.code_identity`: the identity gives back its operands
- `SameBut.mentionAs`: a value is mentioned in the same way in operations with different names
- `Emission.ofOp_throughIdentity`: plain accesses and affine accesses at the inputs of the identity
-/

namespace HlsEmit

open Code (Expr Stmt stmtsText)

/-- The affine access that is a plain access at the inputs of the identity. -/
def OpKind.throughIdentity? (rank : UInt32) : OpKind → Option OpKind
  | .load => some (.affineLoad (.identity rank))
  | .store => some (.affineStore (.identity rank))
  | _ => none

/-- A report at an operation with another name. -/
def Diagnostic.renamed (name : String) (diagnostic : Diagnostic) : Diagnostic :=
  { diagnostic with origin := { diagnostic.origin with op := some name } }

/-! ## The identity -/

section Identity

variable {arena : Arena} {t : NameTable} {rank : UInt32} {operands : List ValueId}

/-- The identity gives back its operands. -/
theorem AffineMap.code_identity (h : operands.length = rank.toNat) :
    (AffineMap.identity rank).code (arena.operandAt t operands) =
      operands.map (arena.useCode t) := by
  refine List.ext_getElem (by simp [code, identity, h]) fun position hposition hposition' => ?_
  have hlength : position < operands.length := by simpa using hposition'
  -- a position below the rank is the same as a dimension of 32 bits
  have hsmall : position < UInt32.size := by have := rank.toNat_lt_size; omega
  simp only [code, identity, List.getElem_map, List.getElem_range, AffineExpr.code]
  rw [UInt32.toNat_ofNat_of_lt' hsmall, Arena.operandAt, List.getElem?_eq_getElem hlength]
  rfl

/-- The identity is accepted if it has inputs. -/
theorem AffineMap.check_identity (h : operands.length = rank.toNat) :
    (AffineMap.identity rank).check arena t operands =
      if rank = 0 then .error (.problem (.mapShape (.identity 0) 0))
      else .ok (operands.map (arena.useCode t)) := by
  have hcount : (AffineMap.identity rank).dims.toNat + (AffineMap.identity rank).symbols.toNat =
      rank.toNat := rfl
  have hinputs := countInputs_of_lt (hcount ▸ rank.toNat_lt_size)
  have hresults : (AffineMap.identity rank).results = [] ↔ rank = 0 := by
    simp [identity, ← UInt32.toNat_inj]
  unfold check
  rw [hinputs, hcount]
  -- The check asks for as many operands as inputs, which there are, and for a result, which the
  -- identity has unless it has no inputs.
  show (if rank.toNat = operands.length ∧ _ then _ else _) = _
  rw [code_identity h]
  by_cases hrank : rank = 0
  · rw [if_neg fun hfits => hfits.2 (hresults.2 hrank), if_pos hrank, h, hrank]
    rfl
  · rw [if_pos ⟨h.symm, mt hresults.1 hrank⟩, if_neg hrank]
    rfl

end Identity

/-! ## Operations with different names -/

/-- What two emissions leave behind is related, and is the same but for the name of the operation at
which something is reported. -/
structure SameBut {α : Type} (name : String) (R : α → α → Prop) (o o' : Outcome α) : Prop where
  value : R o.value o'.value
  names : o'.names = o.names
  raised : o'.raised = o.raised.map (Diagnostic.renamed name)
  overruns : o'.overruns = o.overruns

namespace SameBut

open Emission

variable {α β : Type} {name : String} {R : α → α → Prop} {R' : β → β → Prop} {scope : Scope}
variable {t : NameTable} {e e' : Emission α} {next next' : α → Emission β} {op op' : Op}

/-- The same code without a report. -/
theorem silent (h : (e.run scope t).raised = []) : SameBut name Eq (e.run scope t) (e.run scope t) :=
  ⟨rfl, rfl, by rw [h]; rfl, rfl⟩

/-- A weaker relation between the values suffices. -/
theorem mono {o o' : Outcome α} {R R' : α → α → Prop} (h : SameBut name R o o')
    (hR : ∀ value value', R value value' → R' value value') : SameBut name R' o o' :=
  ⟨hR _ _ h.value, h.names, h.raised, h.overruns⟩

/-- Two emissions stay the same but for the name if what follows them does. -/
theorem bind (h : SameBut name R (e.run scope t) (e'.run scope t))
    (hnext : ∀ value value', R value value' → SameBut name R'
      ((next value).run scope (e.run scope t).names)
      ((next' value').run scope (e.run scope t).names)) :
    SameBut name R' ((e >>= next).run scope t) ((e' >>= next').run scope t) := by
  obtain ⟨hvalue, hnames, hraised, hoverruns⟩ := hnext _ _ h.value
  rw [bind_apply, bind_apply]
  refine ⟨?_, ?_, ?_, ?_⟩ <;> simp only [Outcome.andThen, h.names]
  · exact hvalue
  · exact hnames
  · rw [List.map_append, h.raised, hraised]
  · rw [h.overruns, hoverruns]

/-- A sequence whose first emission has the same code in both. -/
theorem bindEq (h : SameBut name Eq (e.run scope t) (e'.run scope t))
    (hnext : ∀ value, SameBut name R' ((next value).run scope (e.run scope t).names)
      ((next' value).run scope (e.run scope t).names)) :
    SameBut name R' ((e >>= next).run scope t) ((e' >>= next').run scope t) :=
  h.bind fun value _ hvalue => hvalue ▸ hnext value

/-- Reports of operations that differ in their names differ in these names. -/
theorem raise (hname : op'.kind.mnemonic = name) (hline : op'.line = op.line) (problem : Problem) :
    SameBut name Eq ((raise (some op) problem).run scope t)
      ((raise (some op') problem).run scope t) := by
  refine ⟨rfl, rfl, ?_, rfl⟩
  simp [Origin.at, Problem.report, Diagnostic.renamed, hname, hline]

/-- An emission that reports nothing of an operation is the same for both. -/
theorem ofReports {e : Emission α} (h : Reports (fun _ => False) e) :
    SameBut name Eq (e.run scope t) (e.run scope t) := by
  refine silent (List.eq_nil_iff_forall_not_mem.2 fun report hreport => ?_)
  obtain ⟨problem, origin, hnever, -⟩ := h scope t report hreport
  exact hnever

/-- A value is mentioned in the same way in operations with different names. -/
theorem mentionAs (hname : op'.kind.mnemonic = name) (hline : op'.line = op.line) (pointer : Bool)
    (id : ValueId) :
    SameBut name Eq ((mentionAs pointer (some op) id).run scope t)
      ((mentionAs pointer (some op') id).run scope t) := by
  -- The type is asked for first: a missing type is the only report besides a free value that cannot
  -- be declared.
  have htype (t : NameTable) : SameBut name Eq ((typeOf (some op) id).run scope t)
      ((typeOf (some op') id).run scope t) := by
    refine .bindEq (ofReports (reports_info id)) fun info => ?_
    dsimp only
    split
    · exact .bindEq (raise hname hline _) fun _ => silent rfl
    · exact silent rfl
  refine .bindEq (ofReports (reports_isBound id)) fun bound => ?_
  split
  · exact silent rfl
  refine .bindEq (htype _) fun type => .bindEq (ofReports (reports_declare id pointer)) fun given => ?_
  split
  · exact silent rfl
  · exact .bindEq (raise hname hline _) fun _ => silent rfl

end SameBut

/-! ## Written accesses -/

/-- Expressions with the same text. -/
def Code.Expr.SameText (code code' : Expr) : Prop :=
  code'.text = code.text

/-- Statements with the same text at every indentation. -/
def Code.SameText (stmts stmts' : List Stmt) : Prop :=
  ∀ depth, stmtsText depth stmts' = stmtsText depth stmts

/-- A subscript is written from the texts of its parts. -/
theorem Code.Expr.text_subscripts {array array' : Expr} {codes codes' : List Expr}
    (harray : array'.text = array.text) (h : codes'.map Expr.text = codes.map Expr.text) :
    (array'.subscripts codes').text = (array.subscripts codes).text := by
  induction codes generalizing array array' codes' with
  | nil =>
    obtain rfl := List.map_eq_nil_iff.1 h
    exact harray
  | cons code codes ih =>
    obtain ⟨code', codes', rfl, hcode, hcodes⟩ := List.map_eq_cons_iff.1 h
    have hfirst : (array'.subscript code').text = (array.subscript code).text := by
      rw [Expr.text, Expr.text, harray, hcode]
    have hrest := ih hfirst hcodes
    exact hrest

section Accesses

open Emission

variable {scope : Scope} {t later : NameTable} {name : String} {op op' : Op} {array : ValueId}
variable {indices : List ValueId}

/-- A use of a value is written as its designator. -/
theorem Arena.text_useCode (arena : Arena) (t : NameTable) (id : ValueId) :
    (arena.useCode t id).text = (arena.designator t id).text := by
  rw [useCode, Expr.text, Code.Mention.text]
  rfl

/-- Subscripts that were looked up before have the same text as values that are mentioned later. -/
theorem Place.text_elementAt {arena : Arena} (hkeeps : t.Keeps later) (hv : t.Valid arena)
    (hbound : ∀ id ∈ indices, arena.isBound t id = true) :
    ((Place.elementAt array (indices.map (arena.useCode t))).heldCode arena later).text =
      ((Place.element array indices).heldCode arena later).text := by
  refine Expr.text_subscripts rfl ?_
  simp only [elementAt, element, List.map_map]
  refine List.map_congr_left fun id hid => ?_
  show (arena.useCode t id).text = (arena.useCode later id).text
  rw [arena.text_useCode, arena.text_useCode, Arena.designator_of_keeps hkeeps hv (hbound id hid)]

/-- An element reached through its indices is the one reached through the identity map. -/
theorem sameBut_element (hkeeps : t.Keeps later) (hv : t.Valid scope.values)
    (hbound : ∀ id ∈ array :: indices, scope.values.isBound t id = true) :
    SameBut name Expr.SameText ((place op (.element array indices)).run scope later)
      ((place op' (.elementAt array (indices.map (scope.values.useCode t)))).run scope later) := by
  have hlater : ∀ id ∈ array :: indices, scope.values.isBound later id = true :=
    fun id hid => Arena.isBound_of_keeps hkeeps (hbound id hid)
  have hplain : ∀ id ∈ (Place.element array indices).values,
      scope.values.isBound later id = true := by
    simpa [Place.values, Place.element, Term.values, List.flatMap_map] using hlater
  have haffine : ∀ id ∈ (Place.elementAt array (indices.map (scope.values.useCode t))).values,
      scope.values.isBound later id = true := by
    simpa [Place.values, Place.elementAt, Term.values] using hlater array (by simp)
  rw [place_of_bound op hplain, place_of_bound op' haffine]
  exact ⟨Place.text_elementAt hkeeps hv (List.forall_mem_cons.1 hbound).2, rfl, rfl, rfl⟩

/-- A scalar place is the same in operations that differ in their names. -/
theorem sameBut_scalar (hname : op'.kind.mnemonic = name) (hline : op'.line = op.line)
    (id : ValueId) :
    SameBut name Expr.SameText ((place op (.scalar id)).run scope t)
      ((place op' (.scalar id)).run scope t) := by
  have hoperand : SameBut name Eq ((operand op id).run scope t) ((operand op' id).run scope t) :=
    .bindEq (.mentionAs hname hline false id) fun _ => .silent rfl
  have hplace : SameBut name Eq ((place op (.scalar id)).run scope t)
      ((place op' (.scalar id)).run scope t) :=
    .bindEq hoperand fun _ => .silent rfl
  exact hplace.mono fun _ _ heq => heq ▸ rfl

/-- An assignment has the same text if both sides have. -/
theorem sameBut_assign {target target' source source' : Place} (hnote : op'.note = op.note)
    (bodies bodies' : List (Emission (List Stmt)))
    (htarget : SameBut name Expr.SameText ((place op target).run scope t)
      ((place op' target').run scope t))
    (hsource : SameBut name Expr.SameText
      ((place op source).run scope ((place op target).run scope t).names)
      ((place op' source').run scope ((place op target).run scope t).names)) :
    SameBut name Code.SameText ((render op bodies (.assign target source)).run scope t)
      ((render op' bodies' (.assign target' source')).run scope t) := by
  refine htarget.bind fun left left' hleft => hsource.bind fun right right' hright => ?_
  have htexts : left'.text = left.text ∧ right'.text = right.text := ⟨hleft, hright⟩
  refine ⟨fun depth => ?_, rfl, rfl, rfl⟩
  simp only [pure_apply, stmtsText, Code.Stmt.text, htexts, hnote]

/-! ### Operations -/

/-- A plain access, and an affine one at inputs of the identity. -/
structure AccessesAgree (scope : Scope) (t : NameTable) (owner : Option Op) (rank : UInt32)
    (plain affine : Op) : Prop where
  /-- With inputs, both are written in the same way. -/
  written : rank ≠ 0 → SameBut affine.kind.mnemonic Code.SameText
    ((ofOp owner plain).run scope t) ((ofOp owner affine).run scope t)
  /-- Without inputs, the plain access is written and the affine one is rejected. -/
  rejected : rank = 0 → plain.counts.covers plain.kind.needs = true →
    (∃ stmt, ((ofOp owner plain).run scope t).value = [stmt]) ∧
    (ofOp owner affine).run scope t =
      ⟨[], t, [(Problem.mapShape (.identity 0) 0).report (Origin.at scope.function (some affine))],
        [⟨scope.function, owner, affine, t⟩], []⟩

variable {rank : UInt32} {kind : OpKind} {owner : Option Op}

/-- Accesses of which the affine one is admitted if it has inputs. -/
theorem accessesAgree_of_plans {target target' source source' : Place}
    (hplan : op.plan scope.values t owner = .ok (.assign target source))
    (hplan' : op'.plan scope.values t owner =
      if rank = 0 then .error (.problem (.mapShape (.identity 0) 0))
      else .ok (.assign target' source'))
    (hsame : SameBut op'.kind.mnemonic Code.SameText
      ((render op (ofRegions op op.regions) (.assign target source)).run scope t)
      ((render op' (ofRegions op' op'.regions) (.assign target' source')).run scope t)) :
    AccessesAgree scope t owner rank op op' where
  written := by
    intro hrank
    rw [if_neg hrank] at hplan'
    rw [ofOp_of_plan hplan, ofOp_of_plan hplan', bind_apply, bind_apply]
    exact ⟨hsame.value, hsame.names, hsame.raised, hsame.overruns⟩
  rejected := by
    intro hrank _
    -- Without inputs the affine access is rejected for its map, the other one is written.
    rw [if_pos hrank] at hplan'
    refine ⟨⟨_, by rw [ofOp_of_plan hplan]; rfl⟩, ?_⟩
    rw [ofOp_eq, operation_run, hplan']
    rfl

/-- Accesses that are both rejected for the same numbers of operands and results. -/
theorem accessesAgree_of_arity (hcovers : op.counts.covers op.kind.needs = false)
    (hneeds : op'.kind.needs = op.kind.needs) (hcounts : op'.counts = op.counts)
    (hline : op'.line = op.line) : AccessesAgree scope t owner rank op op' where
  written := by
    intro _
    -- Neither reaches its rule, so the report of the counts is the whole outcome.
    have hrun {op : Op} (hcovers : op.counts.covers op.kind.needs = false) :
        (ofOp owner op).run scope t =
          ⟨[], t, [(Problem.arity op.kind.needs op.counts).report
            (Origin.at scope.function (some op))], [⟨scope.function, owner, op, t⟩], []⟩ := by
      rw [ofOp_eq, operation_run, Op.plan, hcovers]
      rfl
    rw [hrun hcovers, hrun (by rw [hcounts, hneeds, hcovers]), hneeds, hcounts]
    refine ⟨fun _ => rfl, rfl, ?_, rfl⟩
    simp [Origin.at, Problem.report, Diagnostic.renamed, hline]
  rejected := by
    intro _ hcovers'
    rw [hcovers] at hcovers'
    cases hcovers'

section Operands

variable (hv : t.Valid scope.values)
variable (hbound : ∀ id ∈ array :: indices, scope.values.isBound t id = true)
variable (hnote : op'.note = op.note) (hline : op'.line = op.line)

include hv hbound hnote hline

/-- The result may get its name between the subscripts and the access. -/
theorem accessesAgree_load {result : ValueId}
    (hplan : op.plan scope.values t owner = .ok (.assign (.scalar result) (.element array indices)))
    (hplan' : op'.plan scope.values t owner =
      if rank = 0 then .error (.problem (.mapShape (.identity 0) 0))
      else .ok (.assign (.scalar result)
        (.elementAt array (indices.map (scope.values.useCode t))))) :
    AccessesAgree scope t owner rank op op' := by
  -- a name that the result gets here is behind those of the operands
  have hresult : Built False (place op (.scalar result)) := built_place op _
  refine accessesAgree_of_plans hplan hplan' ?_
  refine sameBut_assign hnote _ _ (sameBut_scalar rfl hline result) ?_
  exact sameBut_element (hresult.keeps scope t) hv hbound

/-- A store and its affine form with the identity map agree. -/
theorem accessesAgree_store {value : ValueId}
    (hplan : op.plan scope.values t owner = .ok (.assign (.element array indices) (.scalar value)))
    (hplan' : op'.plan scope.values t owner =
      if rank = 0 then .error (.problem (.mapShape (.identity 0) 0))
      else .ok (.assign (.elementAt array (indices.map (scope.values.useCode t)))
        (.scalar value))) :
    AccessesAgree scope t owner rank op op' := by
  refine accessesAgree_of_plans hplan hplan' ?_
  refine sameBut_assign hnote _ _ (sameBut_element (.refl t) hv hbound) ?_
  exact sameBut_scalar rfl hline value

end Operands

/-- Plain accesses and affine accesses at inputs of the identity agree, if all operands are bound. -/
theorem Emission.ofOp_throughIdentity (hkind : op.kind.throughIdentity? rank = some kind)
    (hv : t.Valid scope.values)
    (hlength : op.operands.length = op.kind.needs.operands + rank.toNat)
    (hbound : ∀ id ∈ op.operands, scope.values.isBound t id = true) :
    AccessesAgree scope t owner rank op { op with kind } := by
  obtain ⟨plain, operands, results, attrs, regions, line⟩ := op
  cases plain with
  | load =>
    cases hkind
    cases operands with
    | nil => exact absurd hlength (by simp [OpKind.needs]; omega)
    | cons array indices =>
      cases results with
      -- without a result, neither has the operands and results that it needs
      | nil => exact accessesAgree_of_arity rfl rfl rfl rfl
      | cons result rest =>
        have hindices : indices.length = rank.toNat := by
          simp only [OpKind.needs, List.length_cons] at hlength
          omega
        refine accessesAgree_load hv hbound rfl rfl rfl ?_
        show ((AffineMap.identity rank).check scope.values t indices >>= _) = _
        rw [AffineMap.check_identity hindices]
        split <;> rfl
  | store =>
    cases hkind
    cases operands with
    | nil => exact absurd hlength (by simp [OpKind.needs]; omega)
    | cons value rest =>
      cases rest with
      | nil => exact absurd hlength (by simp [OpKind.needs]; omega)
      | cons array indices =>
        have hindices : indices.length = rank.toNat := by
          simp only [OpKind.needs, List.length_cons] at hlength
          omega
        refine accessesAgree_store hv (List.forall_mem_cons.1 hbound).2 rfl rfl rfl ?_
        show ((AffineMap.identity rank).check scope.values t indices >>= _) = _
        rw [AffineMap.check_identity hindices]
        split <;> rfl
  | _ => cases hkind

end Accesses

/-! ### Elements of a grid -/

namespace Emission

/-- A grid of half precision, a constant, two indices and an element. -/
def gridValues : Arena :=
  #[{ elem := .f16, shape := .fixed [4, 4] }, { elem := .index, constant := some (.int 3) },
    { elem := .index }, { elem := .index }, { elem := .f16 }]

/-- The grid and the first index have names, that of the index is shared. -/
def gridNames : NameTable :=
  ((NameTable.empty.insert ⟨0⟩ (.declared ⟨0, false⟩)).insert ⟨2⟩ (.declared ⟨1, true⟩)).insert ⟨3⟩
    (.shared ⟨2⟩)

/-- The element at the constant and the second index. -/
def gridLoad : Op where
  kind := .load
  operands := [⟨0⟩, ⟨1⟩, ⟨3⟩]
  results := [⟨4⟩]
  line := some 7

/-- The names of the grid are those of its values. -/
theorem valid_gridNames : gridNames.Valid gridValues := by
  have hgrid : (NameTable.empty.insert ⟨0⟩ (.declared ⟨0, false⟩)).Valid gridValues :=
    .declare false .refl trivial rfl (by decide)
  exact .share (.declare true hgrid trivial (by decide) (by decide)) trivial (by decide) (by decide) rfl

/-- A load from a grid through the identity of two inputs. -/
theorem gridLoad_agrees :
    gridLoad.kind.throughIdentity? 2 = some (.affineLoad (.identity 2)) ∧
      gridNames.Valid gridValues ∧
      gridLoad.operands.length = gridLoad.kind.needs.operands + (2 : UInt32).toNat ∧
      (∀ id ∈ gridLoad.operands, gridValues.isBound gridNames id = true) ∧
      AccessesAgree ⟨gridValues, some "grid"⟩ gridNames none 2 gridLoad
        { gridLoad with kind := .affineLoad (.identity 2) } ∧
      stmtsText 1 ((ofOp none gridLoad).run ⟨gridValues, some "grid"⟩ gridNames).value =
        "  val3 = val0[3][*val1];\t// L7\n" ∧
      ((ofOp none gridLoad).run ⟨gridValues, some "grid"⟩ gridNames).raised.map Diagnostic.text =
        ["error[E0300]: @grid load L7: element type F16 of value %4 has no C++ rendering"] := by
  have hbound : ∀ id ∈ gridLoad.operands, gridValues.isBound gridNames id = true := by decide
  exact ⟨rfl, valid_gridNames, rfl, hbound,
    ofOp_throughIdentity rfl valid_gridNames rfl hbound, by decide +kernel, by decide +kernel⟩

/-- The only element of an array without dimensions. -/
def pointLoad (kind : OpKind) : Op where
  kind
  operands := [⟨0⟩]
  results := [⟨1⟩]

/-- It is read by a plain access, and rejected by an affine one. -/
theorem pointLoad_disagrees :
    let values : Arena := #[{ elem := .f32, shape := .fixed [] }, { elem := .f32 }]
    let names := NameTable.empty.insert ⟨0⟩ (.declared ⟨0, false⟩)
    let plain := (ofOp none (pointLoad .load)).run ⟨values, none⟩ names
    let affine := (ofOp none (pointLoad (.affineLoad (.identity 0)))).run ⟨values, none⟩ names
    values.isBound names ⟨0⟩ = true ∧
      stmtsText 1 plain.value = "  float val1 = val0;\t//\n" ∧ plain.raised = [] ∧
      plain.names.isDeclared ⟨1⟩ = true ∧
      stmtsText 1 affine.value = "" ∧
      affine.raised.map Diagnostic.text =
        ["error[E0104]: affine.load: map takes 0 input(s) and yields 0 result(s); "
          ++ "given 0 operand(s)"] ∧
      affine.names.isDeclared ⟨1⟩ = false := by
  decide +kernel

end Emission

end HlsEmit
