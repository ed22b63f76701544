import HlsEmit.Emission.Admission
import HlsEmit.Proofs.Account.Admission
import HlsEmit.Proofs.Layout.Statement

/-!
# The layout of what is admitted

The texts in a plan are plain if the names in its operation are. The lines of an accelerator call are
those of its template; the only one that starts with the text of an operand is the one that sets a
scalar result, and it is stray if nothing stands for that operand.

## Key results

- `Accelerator.substitute_plain`: filling a line with plain texts
- `fill_tidy`: the lines of an accelerator call
- `Op.plan_tidy`: the plan of an operation
-/

namespace HlsEmit

open Code

/-! ## Accelerator calls -/

namespace Accelerator

/-- Whether the characters of a line outside of its placeholders are no braces or line breaks.
`inside` tells whether the line stands inside of a placeholder. -/
def plainOutside : (inside : Bool) → List Char → Bool
  | _, [] => true
  | false, c :: rest =>
    if c = '\x7b' then plainOutside true rest
    else c ≠ '\x7d' && c ≠ '\n' && plainOutside false rest
  | true, c :: rest => if c = '\x7d' then plainOutside false rest else plainOutside true rest

variable {lookup : String → Option String}

/-- Filling a line with plain texts leaves a plain text. -/
theorem substituteChars_plain (hlookup : ∀ key text, lookup key = some text → Plain text)
    (key : Option (List Char)) (cs : List Char) {out : List Char}
    (hcs : plainOutside key.isSome cs = true) (h : substituteChars lookup key cs = .ok out) :
    ∀ c ∈ out, c ≠ '\x7b' ∧ c ≠ '\x7d' ∧ c ≠ '\n' := by
  -- Outside of a placeholder the template itself is plain, inside only the key is collected.
  fun_induction substituteChars lookup key cs generalizing out with
  | case1 =>
    cases h
    simp
  | case2 rest ih => exact ih hcs h
  | case3 c rest hopen ih =>
    cases hrest : substituteChars lookup none rest with
    | error key => rw [hrest] at h; cases h
    | ok tail =>
      rw [hrest] at h
      cases h
      simp only [Option.isSome_none, plainOutside, hopen, if_false, Bool.and_eq_true,
        decide_eq_true_eq] at hcs
      exact List.forall_mem_cons.2 ⟨⟨hopen, hcs.1.1, hcs.1.2⟩, ih hcs.2 hrest⟩
  | case4 key => cases h
  | case5 key rest hname => cases h
  | case6 key rest name text htext =>
    rename_i ih
    cases hrest : substituteChars lookup none rest with
    | error key => rw [hrest] at h; cases h
    | ok tail =>
      rw [hrest] at h
      cases h
      exact List.forall_mem_append.2 ⟨hlookup name text htext, ih hcs hrest⟩
  | case7 key c rest hclose ih =>
    simp only [Option.isSome_some, plainOutside, hclose, if_false] at hcs
    exact ih hcs h

/-- Filling a plain line with plain texts leaves a plain line. -/
theorem substitute_plain (hlookup : ∀ key text, lookup key = some text → Plain text) {line out : String}
    (hline : plainOutside false line.toList = true) (h : substitute lookup line = .ok out) :
    Plain out := by
  unfold substitute at h
  cases hchars : substituteChars lookup none line.toList with
  | error key => rw [hchars] at h; cases h
  | ok cs =>
    rw [hchars] at h
    cases h
    intro c hc
    rw [String.toList_ofList] at hc
    exact substituteChars_plain hlookup none line.toList hline hchars c hc

/-- Whether a line of a template is plain outside of its placeholders, and is empty or starts with a
character of its own, with the data type, or with the result that it sets. -/
def lineFine (cs : List Char) : Bool :=
  plainOutside false cs && match cs with
    | [] => true
    | c :: _ => c ≠ '\x7b' && c ≠ ' ' || ['\x7b', 'D', 'T', '\x7d'] <+: cs
      || cs = ['\x7b', 'r', 'e', 's', '\x7d', ' ', '=', ' ', 'l', '_', 'r', 'e', 's', ';']

/-- A line is fine if its characters are. -/
theorem lineFine_ofList (cs : List Char) (h : lineFine cs = true) :
    lineFine (String.ofList cs).toList = true := by
  rwa [String.toList_ofList]

/-- A joined line is fine if its characters are. -/
theorem lineFine_append (cs cs' : List Char) (h : lineFine (cs ++ cs') = true) :
    lineFine (String.ofList cs ++ String.ofList cs').toList = true := by
  rwa [String.toList_append, String.toList_ofList, String.toList_ofList]

/-- The lines of a vector reduction are fine. -/
theorem lines_vectorReduction {routine : String}
    (h : lineFine (routine ++ "<{DT}, {LP}, {DT}>({n}, l_strX, l_res);").toList = true) :
    ∀ line ∈ (vectorReduction routine).lines, lineFine line.toList = true := by
  simp only [vectorReduction, List.forall_mem_cons]
  refine ⟨?_, ?_, ?_, ?_, ?_, h, ?_, List.forall_mem_nil _⟩ <;> exact lineFine_ofList _ (by decide)

/-- The lines of the catalogue, one by one. -/
theorem lines_of (kind : IpKind) : ∀ line ∈ (Template.of kind).lines, lineFine line.toList = true := by
  cases kind with
  | amax => exact lines_vectorReduction (lineFine_append ['a', 'm', 'a', 'x'] _ (by decide))
  | amin => exact lines_vectorReduction (lineFine_append ['a', 'm', 'i', 'n'] _ (by decide))
  | asum => exact lines_vectorReduction (lineFine_append ['a', 's', 'u', 'm'] _ (by decide))
  | _ =>
    simp only [Template.of, axpy, dot, gbmv, gemm, gemv, nrm2, scal, swap, symv, trmv, fft, pseudoSqrt]
    repeat refine List.forall_mem_cons.2 ⟨lineFine_ofList _ (by decide), ?_⟩
    exact List.forall_mem_nil _

/-- A line that starts with the data type. -/
theorem substitute_type {line out type : String} (hline : ['\x7b', 'D', 'T', '\x7d'] <+: line.toList)
    (htype : lookup "DT" = some type) (h : substitute lookup line = .ok out) :
    ∃ rest, out = type ++ rest := by
  obtain ⟨cs, hcs⟩ := hline
  have hchars : substituteChars lookup none line.toList =
      (substituteChars lookup none cs).map (type.toList ++ ·) := by
    rw [← hcs]
    have hkey : String.ofList ['D', 'T'] = "DT" := rfl
    simp [substituteChars, hkey, htype]
  rw [substitute, hchars] at h
  cases hrest : substituteChars lookup none cs with
  | error key => rw [hrest] at h; cases h
  | ok tail =>
    rw [hrest] at h
    cases h
    exact ⟨String.ofList tail, by simp [String.ofList_append]⟩

/-- The line that sets a scalar result. -/
theorem substitute_result {out : String} (h : substitute lookup "{res} = l_res;" = .ok out) :
    ∃ text, lookup "res" = some text ∧ out = text ++ " = l_res;" := by
  have hkey : String.ofList ['r', 'e', 's'] = "res" := rfl
  cases hlookup : lookup "res" with
  | none =>
    simp [substitute, substituteChars, hkey, hlookup] at h
    cases h
  | some text =>
    simp [substitute, substituteChars, hkey, hlookup] at h
    cases h
    refine ⟨text, rfl, ?_⟩
    rw [← String.toList_inj]
    simp

/-- A line that starts with a character of its own. -/
theorem substitute_first {line out : String} {c : Char} (hc : c ∈ line.toList.head?)
    (hopen : c ≠ '\x7b') (h : substitute lookup line = .ok out) : ∃ rest, out.toList = c :: rest := by
  obtain ⟨cs, hline⟩ : ∃ cs, line.toList = c :: cs := by
    cases hline : line.toList with
    | nil => simp [hline] at hc
    | cons d cs =>
      rw [hline] at hc
      cases hc
      exact ⟨cs, rfl⟩
  rw [substitute, hline, substituteChars, if_neg hopen] at h
  cases hrest : substituteChars lookup none cs with
  | error key => rw [hrest] at h; cases h
  | ok tail =>
    rw [hrest] at h
    cases h
    exact ⟨tail, String.toList_ofList⟩

end Accelerator

section Calls

variable {arena : Arena} {t : NameTable} {strays : Prop}

open Accelerator

/-- What a placeholder stands for begins well, unless it is an operand for which nothing stands. -/
theorem Accelerator.Template.lookup_cases {template : Template} {operands : List Use} {type : String}
    (htype : Begins type) (hoperands : ∀ u ∈ operands, Begins u.designator.text ∨ u.designator = .missing)
    {extents : List (String × Int)} {key text : String}
    (h : template.lookup operands type extents key = some text) :
    Begins text ∨
      ∃ u, template.operand? operands key = some u ∧ u.designator = .missing ∧ text = "" := by
  have hfixed : ∀ pair ∈ fixedTexts, Begins pair.2 := by
    have hdigit (c : Char) (hplain : Plain (String.ofList [c])) (hc : c ≠ ' ') :
        Begins (String.ofList [c]) := ⟨hplain, c, [], String.toList_ofList, hc⟩
    simp only [fixedTexts, List.forall_mem_cons]
    refine ⟨?_, ?_, ?_, ?_, ?_, List.forall_mem_nil _⟩ <;> exact hdigit _ (by decide) (by decide)
  -- In the order of the lookup: the type, the fixed texts, the numbers, the operands.
  unfold Template.lookup at h
  split at h
  · cases h
    exact .inl htype
  · rw [Option.or_eq_some_iff] at h
    obtain h | ⟨-, h⟩ := h
    · rw [Option.or_eq_some_iff] at h
      obtain h | ⟨-, h⟩ := h
      · obtain ⟨before, after, hmem, -⟩ := List.lookup_eq_some_iff.1 h
        exact .inl (hfixed (key, text) (by rw [hmem]; simp))
      · obtain ⟨value, -, rfl⟩ := Option.map_eq_some_iff.1 h
        exact .inl (begins_int value)
    · obtain ⟨u, hu, rfl⟩ := Option.map_eq_some_iff.1 h
      obtain hbegins | hmissing := hoperands u (Template.operand?_mem hu)
      · exact .inl hbegins
      · refine .inr ⟨u, hu, hmissing, ?_⟩
        rw [hmissing]
        rfl

/-- A filled line of the catalogue. -/
theorem callLine_of_substitute {lookup : String → Option String} {type line out : String}
    (hline : lineFine line.toList = true) (htype : Begins type) (hdata : lookup "DT" = some type)
    (hlookup : ∀ key text, lookup key = some text → Begins text ∨ text = "" ∧
      (key = "res" → line = "{res} = l_res;" → strays))
    (h : substitute lookup line = .ok out) : CallLine strays out := by
  have hplain (key text : String) (htext : lookup key = some text) : Plain text := by
    obtain hbegins | ⟨rfl, -⟩ := hlookup key text htext
    · exact hbegins.plain
    · decide
  unfold lineFine at hline
  rw [Bool.and_eq_true] at hline
  have hout := substitute_plain hplain hline.1 h
  obtain ⟨-, hstart⟩ := hline
  cases hchars : line.toList with
  | nil =>
    rw [substitute, hchars] at h
    cases h
    exact .inl rfl
  | cons c rest =>
    rw [hchars] at hstart
    simp only [Bool.or_eq_true, Bool.and_eq_true, decide_eq_true_eq] at hstart
    -- A line of the catalogue starts with a character of its own, with the type, or is the line
    -- that sets the result.
    obtain (⟨hopen, hblank⟩ | hprefix) | hresult := hstart
    · obtain ⟨tail, htail⟩ := substitute_first (c := c) (by rw [hchars]; rfl) hopen h
      exact .inr (.inl ⟨hout, c, tail, htail, hblank⟩)
    · obtain ⟨tail, rfl⟩ := substitute_type (by rw [hchars]; exact hprefix) hdata h
      obtain ⟨d, tail', htype, hblank⟩ := htype.first
      refine .inr (.inl ⟨hout, d, tail' ++ tail.toList, ?_, hblank⟩)
      rw [String.toList_append, htype, List.cons_append]
    · have hline : line = "{res} = l_res;" := by
        rw [← String.toList_inj, hchars, hresult]
        exact String.toList_ofList.symm
      subst hline
      obtain ⟨text, htext, rfl⟩ := substitute_result h
      obtain hbegins | ⟨rfl, hstrays⟩ := hlookup "res" text htext
      · exact .inr (.inl (hbegins.append (by decide)))
      · exact .inr (.inr ⟨hstrays rfl rfl, rfl⟩)

/-- The lines of an accelerator call, which are stray only if nothing stands for a result. -/
theorem fill_tidy (kind : IpKind) (operands : List ValueId)
    (hstrays : ∀ u, "{res} = l_res;" ∈ (Template.of kind).lines →
      (Template.of kind).operand? (operands.map (arena.use t)) "res" = some u →
      u.designator = .missing → strays) :
    Admits (fun lines => ∀ line ∈ lines, CallLine strays line) (fun _ => True)
      ((Template.of kind).fill arena (operands.map (arena.use t))) := by
  have hoperands : ∀ u ∈ operands.map (arena.use t),
      Begins u.designator.text ∨ u.designator = .missing := by
    rw [List.forall_mem_map]
    exact fun id _ => arena.use_cases t id
  -- The type of the data is one of three words, all of which begin well.
  have htype : Admits Begins (fun _ => True)
      ((Template.of kind).typeFor arena (operands.map (arena.use t))) := by
    have hdata (elem : ElemType) : Begins (dataType elem) := by
      unfold dataType
      split
      · exact ⟨by decide, 'd', _, rfl, by decide⟩
      · exact ⟨by decide, 'i', _, rfl, by decide⟩
      · exact ⟨by decide, 'f', _, rfl, by decide⟩
    unfold Template.typeFor
    refine .bind (Admits.always _) fun operand _ => ?_
    split
    · exact .bind (Admits.always _) fun info _ => hdata info.elem
    · exact hdata .f32
  unfold Template.fill
  dsimp only
  split
  · trivial
  refine .bind (Admits.always _) fun extents _ => .bind htype fun type htype => ?_
  -- Only the operand of the result can be empty at the start of a line.
  refine Admits.mapM fun line hline => ?_
  cases hout : substitute ((Template.of kind).lookup (operands.map (arena.use t)) type extents) line with
  | error key => trivial
  | ok out =>
    refine callLine_of_substitute (lines_of kind line hline) htype rfl ?_ hout
    intro key text htext
    obtain hbegins | ⟨u, hu, hmissing, rfl⟩ := Template.lookup_cases htype hoperands htext
    · exact .inl hbegins
    · refine .inr ⟨rfl, ?_⟩
      rintro rfl rfl
      exact hstrays u hline hu hmissing

end Calls

/-! ## Rules -/

/-- The name that a call is written with. -/
def OpKind.called? : OpKind → Option String
  | .call callee => some callee
  | .ipCall name => some name
  | _ => none

section Rules

variable {arena : Arena} {t : NameTable} {strays : Prop} {function : Option String}
variable {owner : Option Op}

/-- The operand of a map is plain. -/
theorem Arena.plain_operandAt (operands : List ValueId) (position : Nat) :
    Plain (arena.operandAt t operands position).text := by
  unfold Arena.operandAt
  split
  · exact arena.plain_use t _
  · exact (by decide : Plain "")

/-- The code of an accepted map is plain. -/
theorem admits_mapPlain (map : AffineMap) (operands : List ValueId) :
    Admits (fun codes => ∀ code ∈ codes, Plain code.text) (fun _ => True)
      (map.check arena t operands) := by
  unfold AffineMap.check
  refine .bind (.always _) fun inputs _ => ?_
  split
  · exact plain_map (Arena.plain_operandAt operands) map
  · trivial

/-- The code of the first result is plain. -/
theorem admits_firstPlain (map : AffineMap) (operands : List ValueId) :
    Admits (fun code => Plain code.text) (fun _ => True) (map.checkFirst arena t operands) := by
  refine .bind (admits_mapPlain map operands) fun codes hcodes => ?_
  cases codes with
  | nil => trivial
  | cons first rest => exact hcodes first List.mem_cons_self

/-- The code of an accepted set is plain. -/
theorem admits_setPlain (set : IntegerSet) (operands : List ValueId) :
    Admits (fun code => Plain code.text) (fun _ => True) (set.check arena t operands) := by
  unfold IntegerSet.check
  refine .bind (.always _) fun inputs _ => ?_
  split
  · exact plain_condition (Arena.plain_operandAt operands) set _
  · trivial

/-- An accepted nest is tidy. -/
theorem admits_nestTidy (lower upper : AffineBound) (steps : List Int64) (body : Block) :
    Admits (Plan.Tidy strays) (fun _ => True) (planNest lower upper steps body) := by
  unfold planNest
  dsimp only
  split
  · trivial
  refine .bind (.always _) fun lowers _ => .bind (.always _) fun uppers _ => ?_
  split
  · trivial
  · exact .bind (.always _) fun loops _ => trivial

/-- An accepted yield is tidy. -/
theorem admits_yieldTidy (operands : List ValueId) :
    Admits (Plan.Tidy strays) (fun _ => True) (planYield owner operands) := by
  unfold planYield
  split
  · trivial
  · split
    · trivial
    · split <;> trivial

/-- The texts of literals begin well. -/
theorem begins_scalarTexts {elements : List Literal} {texts : List String}
    (h : elements.mapM Literal.scalarText? = some texts) : ∀ text ∈ texts, Begins text := by
  induction elements generalizing texts with
  | nil =>
    cases h
    exact List.forall_mem_nil _
  | cons first rest ih =>
    rw [List.mapM_cons, Option.bind_eq_bind, Option.bind_eq_some_iff] at h
    obtain ⟨text, hfirst, h⟩ := h
    obtain ⟨others, hothers, h⟩ := Option.bind_eq_some_iff.1 h
    cases h
    exact List.forall_mem_cons.2 ⟨begins_literal hfirst, ih hothers⟩

/-- The elements of a constant array are literals. -/
theorem admits_constantTidy (result : ValueId) :
    Admits (Plan.Tidy strays) (fun _ => True) (planConstant arena t result) := by
  unfold planConstant
  refine .bind (.always _) fun bound _ => ?_
  -- Bound already, without elements, or with elements that are all literals.
  split
  · trivial
  refine .bind (.always _) fun info _ => ?_
  split
  · next elements _ =>
    dsimp only
    split
    · trivial
    split
    · trivial
    split
    · next texts htexts => exact fun text htext => (begins_scalarTexts htexts text htext).plain
    · trivial
  · trivial

/-- A value is a tidy place. -/
theorem tidy_value (id : ValueId) : (Place.scalar id).Tidy :=
  ⟨trivial, List.forall_mem_nil _⟩

/-- Plain code is a tidy place. -/
theorem tidy_code {code : Expr} (h : Plain code.text) : (Place.mk (.code code) []).Tidy :=
  ⟨h, List.forall_mem_nil _⟩

/-- An element is a tidy place. -/
theorem tidy_element (array : ValueId) (indices : List ValueId) : (Place.element array indices).Tidy := by
  refine ⟨trivial, ?_⟩
  rw [Place.element, List.forall_mem_map]
  exact fun _ _ => trivial

/-- An element under plain code is a tidy place. -/
theorem tidy_elementAt (array : ValueId) {codes : List Expr} (h : ∀ code ∈ codes, Plain code.text) :
    (Place.elementAt array codes).Tidy := by
  refine ⟨trivial, ?_⟩
  rw [Place.elementAt, List.forall_mem_map]
  exact h

/-- What is in front of an operand is plain. -/
theorem OpKind.HasFormula.tidy {kind : OpKind} {operands : List ValueId} {formula : Formula}
    (h : kind.HasFormula operands formula) : formula.Tidy := by
  cases h with
  | unary operation => exact (by cases operation <;> decide : Plain operation.head)
  | _ => trivial

/-- The texts in the plan of an operation are plain if its names are. -/
theorem Op.Ruled.tidy {rule : Except Obstacle Plan} (h : op.Ruled arena t owner rule)
    (hnames : ∀ name ∈ op.kind.called?, PlainName name)
    (hstrays : (Dispatch.mk function owner op t).Strays arena → strays) :
    Admits (Plan.Tidy strays) (fun _ => True) rule := by
  cases h with
  -- code of affine expressions
  | affineFor =>
    refine .bind (.always _) fun lowers _ => .bind (.always _) fun uppers _ => ?_
    refine .bind (.always _) fun index _ => ?_
    exact ⟨(by decide : Plain "max"), (by decide : Plain "min"), plain_int _⟩
  | affineIf => exact .bind (admits_setPlain _ op.operands) fun code hcode => hcode
  | affineParallel => exact admits_nestTidy _ _ _ _
  | affineApply =>
    exact .bind (admits_firstPlain _ op.operands) fun code hcode =>
      ⟨⟨_, rfl⟩, tidy_value _, tidy_code hcode⟩
  | @affineExtremum map function result rest hkind =>
    have hfunction : Plain function := by rcases hkind with ⟨-, rfl⟩ | ⟨-, rfl⟩ <;> decide
    exact .bind (admits_mapPlain map op.operands) fun codes hcodes =>
      ⟨⟨result, rfl⟩, tidy_value result, tidy_code (plain_nestedCalls hfunction hcodes)⟩
  | affineLoad =>
    exact .bind (admits_mapPlain _ _) fun codes hcodes =>
      ⟨⟨_, rfl⟩, tidy_value _, tidy_elementAt _ hcodes⟩
  | affineStore =>
    exact .bind (admits_mapPlain _ _) fun codes hcodes =>
      ⟨⟨_, rfl⟩, tidy_elementAt _ hcodes, tidy_value _⟩
  -- numbers and literals
  | dim =>
    exact .bind (.always _) fun extent _ => ⟨⟨_, rfl⟩, tidy_value _, tidy_code (plain_int extent.toInt)⟩
  | rank =>
    exact .bind (.always _) fun (rank : Nat) _ => ⟨⟨_, rfl⟩, tidy_value _, tidy_code (plain_int rank)⟩
  | constant => exact admits_constantTidy _
  -- texts of the operation itself
  | compute hkind => exact hkind.tidy
  | call hkind | blockCall hkind => exact hnames _ (by rw [hkind]; rfl)
  | @accelerator kind hkind =>
    refine .bind (@fill_tidy arena t strays kind op.operands ?_) fun lines hlines => hlines
    exact fun result hlines hresult hmissing => hstrays ⟨kind, result, hkind, hlines, hresult, hmissing⟩
  -- values only
  | scfFor => exact .bind (.always _) fun index _ => ⟨trivial, trivial, trivial⟩
  | yield => exact admits_yieldTidy op.operands
  | load => exact ⟨⟨_, rfl⟩, tidy_value _, tidy_element _ _⟩
  | store => exact ⟨⟨_, rfl⟩, tidy_element _ _, tidy_value _⟩
  | cast => exact ⟨⟨_, rfl⟩, tidy_value _, tidy_value _⟩
  | alloc | tensorToMemref =>
    refine .bind (.always _) fun bound _ => ?_
    cases bound <;> trivial
  | scfIf | tensorStore | incomparable | silent | unknown => trivial

/-- The same of the plan that an operation has, if it has one. -/
theorem Op.plan_tidy (op : Op) (hnames : ∀ name ∈ op.kind.called?, PlainName name)
    (hstrays : (Dispatch.mk function owner op t).Strays arena → strays) :
    Admits (Plan.Tidy strays) (fun _ => True) (op.plan arena t owner) := by
  unfold Op.plan
  split
  · next hcovers => exact (Op.ruled hcovers).tidy hnames hstrays
  · trivial

end Rules

end HlsEmit
