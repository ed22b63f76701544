import HlsEmit.Proofs.Account.Basic
import HlsEmit.Proofs.Meaning.Matching
import HlsEmit.Proofs.Reading.Code

/-!
# Values of expressions

The code of an expression can be read, and has the value that the expression has in the evaluation.
The values in it are held, so their designators stand for what their objects hold.

## Key results

- `Holding.readable_element`, `refines_element`: an element of a value at the counters of loops
- `AffineExpr.readable_code`, `refines_affine`: affine expressions
-/

namespace HlsEmit

open Cpp (Object Machine Env)
open Code (Expr)

variable {V : Type} {m : Machine V} {meaning : Meaning V} {arena : Arena} {t t' : NameTable}
variable {held held' : ValueId → Prop} {σ : State V} {env : Env V} {id : ValueId}

/-! ## Values that are held -/

/-- A value is in the value table, as a scalar or as an array of known extents. -/
structure Arena.Known (arena : Arena) (id : ValueId) : Prop where
  listed : (arena.info? id).isSome
  static : (arena.info id).shape.isStatic = true

/-- The values that are held have names of their own, unless they are literals. Only scalars are
reached through pointers. -/
structure Holding (arena : Arena) (t : NameTable) (held : ValueId → Prop) : Prop where
  valid : t.Valid arena
  known : ∀ id, held id → arena.Known id
  named : ∀ id, held id → arena.constantText? id = none → ∃ name,
    t.binding? id = some (.declared name) ∧
      (name.pointer = true → (arena.info id).isShaped = false)

namespace Holding

/-- Fewer values are held. -/
theorem mono (h : Holding arena t held) (hheld : ∀ id, held' id → held id) :
    Holding arena t held' :=
  ⟨h.valid, fun id hid => h.known id (hheld id hid), fun id hid => h.named id (hheld id hid)⟩

/-- What is held stays held as names are added. -/
theorem grows {P : ValueId → Prop} (h : Holding arena t held) (hgrows : t.Grows arena P t') :
    Holding arena t' held := by
  refine ⟨hgrows.valid h.valid, h.known, fun id hid hconst => ?_⟩
  obtain ⟨name, hname, hpointer⟩ := h.named id hid hconst
  exact ⟨name, hgrows.binding?_eq hname, hpointer⟩

/-- What is held is bound. -/
theorem isBound (h : Holding arena t held) (hid : held id) : arena.isBound t id = true := by
  cases hconst : arena.constantText? id with
  | some text => exact Arena.isBound_iff.2 (.inr ⟨text, hconst⟩)
  | none =>
    obtain ⟨name, hname, -⟩ := h.named id hid hconst
    exact Arena.isBound_iff.2 (.inl (NameTable.isDeclared_iff.2 ⟨_, hname⟩))

end Holding

/-- The code of a value where it is used. -/
def Arena.useCode (arena : Arena) (t : NameTable) (id : ValueId) : Expr :=
  .mention (.use (arena.use t id))

/-- A declared value stands for its own name. -/
theorem Arena.designator_of_declared {name : Name} (hconst : arena.constantText? id = none)
    (hname : t.binding? id = some (.declared name)) : arena.designator t id = .named name := by
  simp [designator, hconst, NameTable.name?_of_declared hname]

/-- A literal stands for its text. -/
theorem Arena.designator_of_literal {text : String} (htext : arena.constantText? id = some text) :
    arena.designator t id = .literal text := by
  simp [designator, htext]

/-- What stands for a value, if anything does, is a name or the text of a constant. -/
theorem Arena.designator_readable (h : arena.designator t id ≠ .missing) :
    (arena.designator t id).Readable := by
  cases hconst : arena.constantText? id with
  | some text =>
    obtain ⟨-, literal, -, htext⟩ := Arena.exists_literal hconst
    rw [Arena.designator_of_literal hconst]
    exact ⟨literal, htext⟩
  | none =>
    revert h
    simp only [designator, hconst]
    cases t.name? id with
    | some name => exact fun _ => trivial
    | none => exact fun h => absurd rfl h

/-- What stands for a held value can be read. -/
theorem Holding.designator_readable (h : Holding arena t held) (hid : held id) :
    (arena.designator t id).Readable := by
  refine Arena.designator_readable fun hmissing => ?_
  cases hconst : arena.constantText? id with
  | some text => rw [Arena.designator_of_literal hconst] at hmissing; cases hmissing
  | none =>
    obtain ⟨name, hname, -⟩ := h.named id hid hconst
    rw [Arena.designator_of_declared hconst hname] at hmissing
    cases hmissing

/-- The use of a held value can be read. -/
theorem Holding.readable_use (h : Holding arena t held) (hid : held id) (alone : Bool) :
    (arena.useCode t id).Readable alone :=
  .use (h.designator_readable hid)

/-! ## Literals -/

/-- A literal has the same value everywhere. -/
theorem Code.eval_literal {e : Cpp.Expr} (h : IsLiteral e) (hplain : env.lookup "INFINITY" = none) :
    m.eval env e = m.eval [] e := by
  induction h with
  | number text => rfl
  | infinity =>
    show m.nameValue env "INFINITY" = m.nameValue [] "INFINITY"
    simp [Machine.nameValue, hplain]
  | negate _ ih => rw [Machine.eval, Machine.eval, ih]

/-- A literal has the same type everywhere. -/
theorem Code.typeOf_literal {e : Cpp.Expr} (h : IsLiteral e) (hplain : env.lookup "INFINITY" = none) :
    m.typeOf env e = m.typeOf [] e := by
  induction h with
  | number text => rfl
  | infinity =>
    show m.nameType env "INFINITY" = m.nameType [] "INFINITY"
    simp [Machine.nameType, hplain]
  | negate _ ih => rw [Machine.typeOf, Machine.typeOf, ih]

/-- The text of a literal has the value of its syntax. -/
theorem literal_eq {literal : Literal} {text : String} (h : literal.scalarText? = some text)
    (hplain : env.lookup "INFINITY" = none) :
    m.literal text = m.eval env (Code.designatorCpp (.literal text)) := by
  obtain ⟨e, he, hphrase⟩ := HlsEmit.exists_literal h
  have hread := readExpr_of_phrase hphrase (he.grouped true)
  rw [Machine.literal, Code.designatorCpp, hread]
  exact (Code.eval_literal he hplain).symm

/-- What is written for a literal has the type of the text. -/
theorem writtenType?_literal {text : String} (htext : arena.constantText? id = some text)
    (hplain : env.lookup "INFINITY" = none) :
    m.typeOf env (Code.designatorCpp (.literal text)) = m.writtenType? arena id := by
  obtain ⟨-, literal, -, hspelled⟩ := Arena.exists_literal htext
  obtain ⟨e, he, hphrase⟩ := HlsEmit.exists_literal hspelled
  have hread := readExpr_of_phrase hphrase (he.grouped true)
  simp [Machine.writtenType?, htext, Code.designatorCpp, hread, Code.typeOf_literal he hplain]

/-- An integer literal is read as the integer. -/
theorem integerCpp_eq (value : Int) :
    Code.designatorCpp (.literal (toString value)) = Code.integerCpp value := by
  rw [Code.designatorCpp, readExpr_of_phrase (Code.phrase_integer _) (Code.integerCpp_grouped _ true)]
  rfl

/-- An integer has the value that it is written as. -/
theorem refines_integer (h : m.Implements meaning) (value : Int64)
    (hplain : env.lookup "INFINITY" = none) :
    Refines (meaning.constant (.int value)) (m.eval env (Code.integerCpp value.toInt)) := by
  rw [← integerCpp_eq, ← literal_eq (rfl : (Literal.int value).scalarText? = some _) hplain]
  exact h.literals (.int value) _ rfl rfl

/-! ## Uses of values -/

namespace Matches

/-- What stands for a scalar has its value. -/
theorem refines_use (h : Matches m arena t held σ env) (hid : held id) :
    Refines (σ.scalar? id) (m.eval env (arena.useCode t id).cpp) := by
  intro value hvalue
  show m.eval env (Code.designatorCpp (arena.designator t id)) = some value
  cases hconst : arena.constantText? id with
  -- A literal: its text has the number of the constant.
  | some text =>
    obtain ⟨-, literal, -, htext⟩ := Arena.exists_literal hconst
    rw [Arena.designator_of_literal hconst, ← literal_eq htext h.plain]
    obtain ⟨value', heq, hliteral⟩ :=
      h.literals id text _ hid hconst (State.scalar?_eq_some_iff.1 hvalue)
    cases heq
    exact hliteral
  -- A name: the object behind it holds the number, behind a star if it is a pointer.
  | none =>
    obtain ⟨name, object, hname, hlookup, hfits, hcontent⟩ := h.objects id hid hconst
    rw [Arena.designator_of_declared hconst hname]
    have hobject := (hcontent _ (State.scalar?_eq_some_iff.1 hvalue)).scalar
    cases object with
    | scalar type value' =>
      cases hobject
      simp [Code.designatorCpp, hfits.1, Machine.eval, Machine.nameValue, hlookup]
    | pointer type value' =>
      cases hobject
      simp [Code.designatorCpp, hfits.1, Machine.eval, Env.targetValue, hlookup]
    | array type extents elements => cases hobject

end Matches

/-! ## Elements of arrays -/

/-- What may stand between operators may stand alone. -/
theorem Code.Expr.Readable.any {e : Expr} (h : e.Readable false) : (alone : Bool) → e.Readable alone
  | false => h
  | true => by
    cases h with
    | use h => exact .use h
    | counter dim => exact .counter dim
    | integer value => exact .integer value
    | subscript harray hindexable hindex => exact .subscript harray hindexable hindex
    | negate h hsign => exact .negate h hsign
    | paren h => exact .paren h
    | call hhead harg => exact .call hhead harg
    | callTwo hhead harg harg' => exact .callTwo hhead harg harg'
    | callMinus harg => exact .callMinus harg

/-- Subscripts behind the name of an array. -/
theorem Code.cpp_subscripts {array : Expr} {name : String} (harray : array.cpp = .name name)
    {indices : List Expr} (hne : indices ≠ []) :
    (array.subscripts indices).cpp = .element name (indices.map Expr.cpp) := by
  -- Each further subscript goes behind those that are there.
  have hbehind : ∀ (rest : List Expr) (e : Expr) (front : List Cpp.Expr),
      e.cpp = .element name front →
      (e.subscripts rest).cpp = .element name (front ++ rest.map Expr.cpp) := by
    intro rest
    induction rest with
    | nil => intro e front he; simpa [Expr.subscripts] using he
    | cons index rest ih =>
      intro e front he
      have hfirst : (e.subscript index).cpp = .element name (front ++ [index.cpp]) := by
        rw [Expr.cpp, he]
        rfl
      simpa [Expr.subscripts] using ih _ _ hfirst
  obtain ⟨index, rest, rfl⟩ := List.exists_cons_of_ne_nil hne
  have hfirst : (array.subscript index).cpp = .element name [index.cpp] := by
    rw [Expr.cpp, harray]
    rfl
  exact hbehind rest _ _ hfirst

/-- Subscripts of a readable array can be read. -/
theorem Code.readable_subscripts {array : Expr} {name : String} (harray : array.cpp = .name name)
    (h : array.Readable false) {indices : List Expr} (hindices : ∀ e ∈ indices, e.Readable true) :
    (array.subscripts indices).Readable false := by
  have hbehind : ∀ (rest : List Expr) (e : Expr), (∀ e ∈ rest, e.Readable true) →
      isIndexable e.cpp = true → e.Readable false → (e.subscripts rest).Readable false := by
    intro rest
    induction rest with
    | nil => exact fun e _ _ he => he
    | cons index rest ih =>
      intro e hrest hindexable he
      rw [List.forall_mem_cons] at hrest
      refine ih _ hrest.2 ?_ (.subscript he hindexable hrest.1)
      rw [Expr.cpp]
      revert hindexable
      cases e.cpp <;> simp [isIndexable, subscriptCpp]
  exact hbehind indices array hindices (by rw [harray]; rfl) h

/-- An array that is held is written as its name. -/
theorem Holding.cpp_array (h : Holding arena t held) (hid : held id)
    (hshaped : (arena.info id).isShaped = true) :
    arena.constantText? id = none ∧ ∃ name, t.binding? id = some (.declared name) ∧
      (arena.useCode t id).cpp = .name name.identifier := by
  cases hconst : arena.constantText? id with
  | some text =>
    rw [(Arena.exists_literal hconst).1] at hshaped
    cases hshaped
  | none =>
    obtain ⟨name, hname, hpointer⟩ := h.named id hid hconst
    refine ⟨rfl, name, hname, ?_⟩
    have hvalue : name.pointer = false := by
      cases hp : name.pointer with
      | false => rfl
      | true => rw [hpointer hp] at hshaped; cases hshaped
    show Code.designatorCpp (arena.designator t id) = _
    simp [Arena.designator_of_declared hconst hname, Code.designatorCpp, hvalue]

/-- An element of an array at some indices. -/
theorem Matches.refines_subscripts (h : Matches m arena t held σ env) (hheld : Holding arena t held)
    (hid : held id) (hshaped : (arena.info id).isShaped = true) {codes : List Expr}
    {indices : List Int} (hne : codes ≠ [])
    (hindices : m.evalIndices env (codes.map Expr.cpp) = some indices) :
    Refines (σ.element? arena id indices) (m.eval env ((arena.useCode t id).subscripts codes).cpp) := by
  obtain ⟨hconst, name, hname, hcpp⟩ := hheld.cpp_array hid hshaped
  obtain ⟨name', object, hname', hlookup, hfits, hcontent⟩ := h.objects id hid hconst
  rw [hname] at hname'
  cases hname'
  intro value hvalue
  rw [Code.cpp_subscripts hcpp hne, Machine.eval, hindices]
  show env.elementValue name.identifier indices = some value
  rw [State.element?] at hvalue
  cases hσ : σ id with
  | none => simp [hσ] at hvalue
  | some content =>
    have hobject := hcontent content hσ
    -- The value is an array, so its object is neither a scalar nor a pointer.
    cases object with
    | scalar type value => rw [hfits.2.1] at hshaped; cases hshaped
    | pointer type value => rw [hfits.2.1] at hshaped; cases hshaped
    | array type extents elements =>
      cases content with
      | scalar value => exact hobject.elim
      | array elements' =>
        simp only [hσ, hfits.2.2.2.1] at hvalue
        split at hvalue
        · next hin => simp [Env.elementValue, hlookup, hin, hobject indices value hvalue]
        · cases hvalue

/-! ## At the counters of loops -/

/-- The counters of the loops around stand for some indices. -/
def Counted (m : Machine V) (env : Env V) (indices : List Int) : Prop :=
  m.evalIndices env ((List.range indices.length).map fun dim => .name (Code.counterName dim)) =
    some indices

/-- An array of known extents has at least one of them. -/
theorem Arena.bounds?_ne_nil {extents : List Int} (hstatic : (arena.info id).shape.isStatic = true)
    (hshaped : (arena.info id).isShaped = true) (hextents : arena.bounds? id = some extents) :
    extents ≠ [] := by
  rintro rfl
  unfold Arena.bounds? at hextents
  rw [ValueInfo.isShaped] at hshaped
  -- A static shape without an extent is a scalar.
  cases hshape : (arena.info id).shape with
  | scalar => rw [hshape] at hshaped; cases hshaped
  | unranked => rw [hshape] at hstatic; cases hstatic
  | ranked dims =>
    rw [hshape] at hstatic hextents
    obtain ⟨known, hknown, hnil⟩ := Option.map_eq_some_iff.1 hextents
    rw [List.map_eq_nil_iff] at hnil
    subst hnil
    cases dims with
    | nil => cases hstatic
    | cons dim dims =>
      rw [Shape.extents?, List.mapM_cons] at hknown
      obtain ⟨_, -, hknown⟩ := Option.bind_eq_some_iff.1 hknown
      obtain ⟨_, -, hknown⟩ := Option.bind_eq_some_iff.1 hknown
      cases hknown

/-- The content of an array that is held is an array. -/
theorem Matches.array_of_state (h : Matches m arena t held σ env) (hid : held id)
    (hshaped : (arena.info id).isShaped = true) {content : Content V} (hcontent : σ id = some content) :
    ∃ elements, content = .array elements := by
  cases hconst : arena.constantText? id with
  | some text => rw [(Arena.exists_literal hconst).1] at hshaped; cases hshaped
  | none =>
    obtain ⟨name, object, -, -, hfits, hrefines⟩ := h.objects id hid hconst
    have hobject := hrefines content hcontent
    cases content with
    | array elements => exact ⟨elements, rfl⟩
    | scalar value =>
      cases object with
      | array type extents elements => exact hobject.elim
      | scalar type value => rw [hfits.2.1] at hshaped; cases hshaped
      | pointer type value => rw [hfits.2.1] at hshaped; cases hshaped

/-- The content of a scalar that is held is a scalar. -/
theorem Matches.scalar_of_state (h : Matches m arena t held σ env) (hid : held id)
    (hshaped : (arena.info id).isShaped = false) {content : Content V} (hcontent : σ id = some content) :
    ∃ value, content = .scalar value := by
  cases hconst : arena.constantText? id with
  | some text =>
    obtain ⟨value, heq, -⟩ := h.literals id text content hid hconst hcontent
    exact ⟨_, heq⟩
  | none =>
    obtain ⟨name, object, -, -, hfits, hrefines⟩ := h.objects id hid hconst
    have hobject := hrefines content hcontent
    cases content with
    | scalar value => exact ⟨value, rfl⟩
    | array elements =>
      cases object with
      | scalar type value => exact hobject.elim
      | pointer type value => exact hobject.elim
      | array type extents elements' => rw [hfits.2.1] at hshaped; cases hshaped

/-- Counters are read as names. -/
theorem Code.map_counters_cpp (rank : Nat) :
    ((List.range rank).map Expr.counter).map Expr.cpp =
      (List.range rank).map fun dim => .name (counterName dim) := by
  rw [List.map_map]
  rfl

/-- An element of an array has an index, and a scalar has none. -/
theorem Matches.shaped_iff_of_element (h : Matches m arena t held σ env) (hheld : Holding arena t held)
    (hid : held id) {indices : List Int} {value : V} (hvalue : σ.element? arena id indices = some value) :
    (arena.info id).isShaped = true ↔ indices ≠ [] := by
  rw [State.element?] at hvalue
  cases hσ : σ id with
  | none => simp [hσ] at hvalue
  | some content =>
    -- Indices are within the extents, so there are as many of them.
    cases hshaped : (arena.info id).isShaped with
    | true =>
      obtain ⟨elements, rfl⟩ := h.array_of_state hid hshaped hσ
      cases hbounds : arena.bounds? id with
      | none => simp [hσ, hbounds] at hvalue
      | some extents =>
        obtain ⟨extent, rest, rfl⟩ :=
          List.exists_cons_of_ne_nil (Arena.bounds?_ne_nil (hheld.known id hid).static hshaped hbounds)
        refine iff_of_true rfl ?_
        rintro rfl
        simp [hσ, hbounds, inBounds] at hvalue
    | false =>
      obtain ⟨value', rfl⟩ := h.scalar_of_state hid hshaped hσ
      simp only [hσ] at hvalue
      split at hvalue
      · next hnil => simp [hnil]
      · cases hvalue

/-- The element of a value at the counters of the loops around. -/
theorem Matches.refines_element (h : Matches m arena t held σ env) (hheld : Holding arena t held)
    (hid : held id) {indices : List Int} (hcounted : Counted m env indices) :
    Refines (σ.element? arena id indices)
      (m.eval env ((arena.useCode t id).atCounters indices.length).cpp) := by
  intro value hvalue
  have hiff := h.shaped_iff_of_element hheld hid hvalue
  -- Without counters the element is the scalar itself.
  by_cases hnil : indices = []
  · subst hnil
    refine h.refines_use hid value (State.scalar?_eq_some_iff.2 ?_)
    have hshaped : (arena.info id).isShaped = false := Bool.eq_false_iff.2 fun hshaped => hiff.1 hshaped rfl
    rw [State.element?] at hvalue
    cases hσ : σ id with
    | none => simp [hσ] at hvalue
    | some content =>
      obtain ⟨value', rfl⟩ := h.scalar_of_state hid hshaped hσ
      simpa [hσ] using hvalue
  · refine h.refines_subscripts hheld hid (hiff.2 hnil) (by simpa using hnil) ?_ value hvalue
    rw [Code.map_counters_cpp]
    exact hcounted

/-- An element of a value is a number that the value can be where it is written. -/
theorem Matches.canBe_element (h : Matches m arena t held σ env) (hid : held id) {indices : List Int}
    {value : V} (hvalue : σ.element? arena id indices = some value) : m.CanBe arena id value := by
  rw [State.element?] at hvalue
  cases hσ : σ id with
  -- The number of an object fits the type of the object.
  | none => simp [hσ] at hvalue
  | some content =>
    rw [Machine.CanBe]
    cases hconst : arena.constantText? id with
    -- The number of a literal is the one that its text is read as.
    | some text =>
      obtain ⟨number, rfl, hliteral⟩ := h.literals id text content hid hconst hσ
      simp only [hσ] at hvalue
      split at hvalue
      · rw [← hvalue]
        exact hliteral
      · cases hvalue
    | none =>
      obtain ⟨name, object, -, -, hfits, hcontent⟩ := h.objects id hid hconst
      have hobject := hcontent content hσ
      cases content with
      | scalar number =>
        simp only [hσ] at hvalue
        split at hvalue
        · cases object with
          | scalar type number' => exact ⟨type, hfits.2.2.1, hfits.2.2.2 value (hobject value hvalue)⟩
          | pointer type number' => exact ⟨type, hfits.2.2.1, hfits.2.2.2 value (hobject value hvalue)⟩
          | array type extents elements => exact hobject.elim
        · cases hvalue
      | array elements =>
        cases object with
        | scalar type number' => exact hobject.elim
        | pointer type number' => exact hobject.elim
        | array type extents elements' =>
          simp only [hσ, hfits.2.2.2.1] at hvalue
          split at hvalue
          · exact ⟨type, hfits.2.2.1, hfits.2.2.2.2 indices value (hobject indices value hvalue)⟩
          · cases hvalue

/-- The element of a value has the type with which the value is written. -/
theorem Matches.typeOf_element (h : Matches m arena t held σ env) (hheld : Holding arena t held)
    (hid : held id) {rank : Nat} (hrank : (arena.info id).isShaped = true ↔ rank ≠ 0) :
    m.typeOf env ((arena.useCode t id).atCounters rank).cpp = m.writtenType? arena id := by
  cases hconst : arena.constantText? id with
  | some text =>
    have hshaped := (Arena.exists_literal hconst).1
    obtain rfl : rank = 0 := by simpa [hshaped] using hrank
    show m.typeOf env (Code.designatorCpp (arena.designator t id)) = _
    rw [Arena.designator_of_literal hconst]
    exact writtenType?_literal hconst h.plain
  | none =>
    obtain ⟨name, object, hname, hlookup, hfits, -⟩ := h.objects id hid hconst
    have htype : m.writtenType? arena id = (arena.info id).elem.typeName? := by
      rw [Machine.writtenType?, hconst]
    rw [htype]
    -- The object has the type that it was declared with.
    cases object with
    | scalar type value =>
      obtain rfl : rank = 0 := by simpa [hfits.2.1] using hrank
      show m.typeOf env (Code.designatorCpp (arena.designator t id)) = _
      rw [Arena.designator_of_declared hconst hname, hfits.2.2.1]
      simp [Code.designatorCpp, hfits.1, Machine.typeOf, Machine.nameType, hlookup]
    | pointer type value =>
      obtain rfl : rank = 0 := by simpa [hfits.2.1] using hrank
      show m.typeOf env (Code.designatorCpp (arena.designator t id)) = _
      rw [Arena.designator_of_declared hconst hname, hfits.2.2.1]
      simp [Code.designatorCpp, hfits.1, Machine.typeOf, Env.targetType, hlookup]
    | array type extents elements =>
      obtain ⟨-, name', hname', hcpp⟩ := hheld.cpp_array hid hfits.2.1
      rw [hname] at hname'
      cases hname'
      have hne : (List.range rank).map Expr.counter ≠ [] := by simpa using hrank.1 hfits.2.1
      rw [hfits.2.2.1, Expr.atCounters, Code.cpp_subscripts hcpp hne, Machine.typeOf, Env.elementType,
        hlookup]

/-- An element of a held value can be read. -/
theorem Holding.readable_element (h : Holding arena t held) (hid : held id) {rank : Nat}
    (hrank : rank ≠ 0 → (arena.info id).isShaped = true) (alone : Bool) :
    ((arena.useCode t id).atCounters rank).Readable alone := by
  by_cases hzero : rank = 0
  · subst hzero
    exact h.readable_use hid alone
  · obtain ⟨-, name, -, hcpp⟩ := h.cpp_array hid (hrank hzero)
    refine (Code.readable_subscripts hcpp (h.readable_use hid false) ?_).any alone
    intro e he
    obtain ⟨dim, -, rfl⟩ := List.mem_map.1 he
    exact .counter dim

/-! ## Affine expressions -/

/-- A text that does not start with a minus sign. -/
def Unsigned (text : String) : Prop :=
  text.toList.head? ≠ some '-'

/-- An integer is written without a sign unless it is negative. -/
theorem unsigned_integer_iff {value : Int} : Unsigned (toString value) ↔ 0 ≤ value := by
  cases value with
  | ofNat n => exact iff_of_true (head?_natural n) (Int.natCast_nonneg n)
  | negSucc n =>
    have htext : toString (Int.negSucc n) = "-" ++ toString (n + 1) := rfl
    exact iff_of_false (by simp [Unsigned, htext]) (Int.not_le.2 (Int.negSucc_lt_zero n))

/-- Nothing in parentheses starts with a sign. -/
theorem unsigned_paren (inner : Expr) : Unsigned (Expr.paren inner).text := by
  simp [Unsigned, Expr.text]

/-- Two operands between parentheses. -/
theorem readable_parenthesized {operator : Code.Operator} (hoperator : operator ≠ .and)
    {lhs rhs : Expr} (hlhs : lhs.Readable false) (hrhs : rhs.Readable false) :
    (Expr.paren (.operation operator lhs rhs)).Readable false :=
  .paren (.operation hoperator hlhs hrhs)

/-- The code of an affine expression of the core can be read. -/
theorem AffineExpr.readable_code {operand : Nat → Expr} {negative : Nat → Bool} {dims symbols : Nat}
    (hoperand : ∀ position < dims + symbols, (operand position).Readable false ∧
      (negative position = false → Unsigned (operand position).text))
    (e : AffineExpr) (h : e.inCore negative dims symbols = true) :
    (e.code operand dims).Readable false ∧
      (e.isNegative negative dims = false → Unsigned (e.code operand dims).text) := by
  induction e using AffineExpr.code.induct operand dims with
  | case1 position =>
    rw [inCore, decide_eq_true_eq] at h
    exact hoperand _ (by omega)
  | case2 position =>
    rw [inCore, decide_eq_true_eq] at h
    exact hoperand _ (by omega)
  | case3 value =>
    refine ⟨.integer _, fun hsign => unsigned_integer_iff.2 ?_⟩
    have hnot : ¬value < 0 := by simpa [isNegative] using hsign
    exact Int64.le_iff_toInt_le.1 (Int64.not_lt.1 hnot)
  | case4 lhs c hc ih =>
    simp only [inCore, Bool.and_true] at h
    rw [code, if_pos hc]
    exact ⟨readable_parenthesized (by decide) (ih h).1 (.integer _), fun _ => unsigned_paren _⟩
  | case5 lhs c hc ih =>
    simp only [inCore, Bool.and_true] at h
    rw [code, if_neg hc]
    exact ⟨readable_parenthesized (by decide) (ih h).1 (.integer _), fun _ => unsigned_paren _⟩
  | case6 lhs y factor hfactor ih ihy =>
    simp only [inCore, Bool.and_eq_true] at h
    rw [code, if_pos hfactor]
    exact ⟨readable_parenthesized (by decide) (ih h.1).1 (ihy h.2.1.1).1, fun _ => unsigned_paren _⟩
  | case7 lhs y factor hfactor ih ihy ihfactor =>
    simp only [inCore, Bool.and_eq_true] at h
    rw [code, if_neg hfactor]
    exact ⟨readable_parenthesized (by decide) (ih h.1).1
      (readable_parenthesized (by decide) (ihy h.2.1.1).1 (ihfactor h.2.1.2).1),
      fun _ => unsigned_paren _⟩
  | case8 lhs rhs hconstant hmul ih ihrhs =>
    simp only [inCore, Bool.and_eq_true] at h
    rw [code.eq_6 operand dims lhs rhs hconstant hmul]
    exact ⟨readable_parenthesized (by decide) (ih h.1).1 (ihrhs h.2).1, fun _ => unsigned_paren _⟩
  | case9 lhs rhs hrhs ih =>
    simp only [inCore, Bool.and_eq_true] at h
    rw [code, if_pos hrhs]
    -- a literal with a sign of its own is not negated
    have hsign : lhs.isNegative negative dims = false := by
      have hminus : decide (rhs.constant? = some (-1)) = true := hrhs
      simpa [hminus] using h.2
    exact ⟨.paren (.negate (ih h.1.1).1 ((ih h.1.1).2 hsign)), fun _ => unsigned_paren _⟩
  | case10 lhs rhs hrhs ih ihrhs =>
    simp only [inCore, Bool.and_eq_true] at h
    rw [code, if_neg hrhs]
    exact ⟨readable_parenthesized (by decide) (ih h.1.1).1 (ihrhs h.1.2).1, fun _ => unsigned_paren _⟩
  | case11 lhs rhs | case12 lhs rhs | case13 lhs rhs => cases h

/-- Only one expression is minus one. -/
theorem AffineExpr.eq_of_isMinusOne {e : AffineExpr} (h : e.isMinusOne = true) :
    e = .constant (-1) := by
  have hconstant : e.constant? = some (-1) := of_decide_eq_true h
  cases e with
  | constant value =>
    cases hconstant
    rfl
  | _ => cases hconstant

/-- The code of an affine expression has its value. -/
theorem refines_affine (h : m.Implements meaning) (hplain : env.lookup "INFINITY" = none)
    {operand : Nat → Option V} {code : Nat → Expr}
    (hoperand : ∀ position, Refines (operand position) (m.eval env (code position).cpp)) (dims : Nat)
    (e : AffineExpr) :
    Refines (meaning.affine operand dims e) (m.eval env (e.code code dims).cpp) := by
  -- One case per rendering; the machine implements each of the rewritten operations.
  induction e using AffineExpr.code.induct code dims with
  | case1 position => exact hoperand _
  | case2 position => exact hoperand _
  | case3 value => exact refines_integer h value hplain
  | case4 lhs c hc ih =>
    rw [AffineExpr.code, if_pos hc]
    exact .bind ih fun x _ => h.subtractLiteral x c hc
  | case5 lhs c hc ih =>
    rw [AffineExpr.code, if_neg hc]
    exact .bind ih fun x _ => .bind (refines_integer h c hplain) fun y _ => h.binary .add x y
  -- A sum with a negated summand is written as a difference.
  | case6 lhs y factor hfactor ih ihy =>
    rw [AffineExpr.code, if_pos hfactor]
    cases AffineExpr.eq_of_isMinusOne hfactor
    refine .bind ih fun x _ value hvalue => ?_
    obtain ⟨z, hz, hadd⟩ := Option.bind_eq_some_iff.1 hvalue
    obtain ⟨w, hw, hz⟩ := Option.bind_eq_some_iff.1 hz
    obtain ⟨minusOne, hminusOne, hmul⟩ := Option.bind_eq_some_iff.1 hz
    have hsum : (do
        let z ← meaning.binary .mul w (← meaning.constant (.int (-1)))
        meaning.binary .add x z) = some value :=
      Option.bind_eq_some_iff.2 ⟨minusOne, hminusOne, Option.bind_eq_some_iff.2 ⟨z, hmul, hadd⟩⟩
    exact Option.bind_eq_some_iff.2 ⟨w, ihy w hw, h.subtract x w value hsum⟩
  | case7 lhs y factor hfactor ih ihy ihfactor =>
    rw [AffineExpr.code, if_neg hfactor]
    exact .bind ih fun x _ => .bind (.bind ihy fun y _ => .bind ihfactor fun z _ => h.binary .mul y z)
      fun z _ => h.binary .add x z
  | case8 lhs rhs hconstant hmul ih ihrhs =>
    rw [AffineExpr.code.eq_6 code dims lhs rhs hconstant hmul]
    exact .bind ih fun x _ => .bind ihrhs fun y _ => h.binary .add x y
  | case9 lhs rhs hrhs ih =>
    rw [AffineExpr.code, if_pos hrhs]
    cases AffineExpr.eq_of_isMinusOne hrhs
    exact .bind ih fun x _ => h.negate x
  | case10 lhs rhs hrhs ih ihrhs =>
    rw [AffineExpr.code, if_neg hrhs]
    exact .bind ih fun x _ => .bind ihrhs fun y _ => h.binary .mul x y
  | case11 lhs rhs | case12 lhs rhs | case13 lhs rhs =>
    intro value hvalue
    cases hvalue

/-! ## Terms, places and formulas -/

/-- The value of an operand in a position is that of its code. -/
theorem Matches.refines_operandAt (h : Matches m arena t held σ env) {operands : List ValueId}
    (hids : ∀ id ∈ operands, held id) (position : Nat) :
    Refines (Meaning.input σ operands position) (m.eval env (arena.operandAt t operands position).cpp) := by
  intro value hvalue
  obtain ⟨id, hid, hscalar⟩ := Option.bind_eq_some_iff.1 hvalue
  rw [Arena.operandAt, hid]
  exact h.refines_use (hids id (List.mem_of_getElem? hid)) value hscalar

/-- The code of the operands of a map can be read. -/
theorem Holding.readable_operandAt (h : Holding arena t held) {operands : List ValueId}
    (hids : ∀ id ∈ operands, held id) {position : Nat} (hposition : position < operands.length) :
    (arena.operandAt t operands position).Readable false ∧
      (arena.isNegative operands position = false →
        Unsigned (arena.operandAt t operands position).text) := by
  have hid := hids _ (List.getElem_mem hposition)
  rw [Arena.operandAt, List.getElem?_eq_getElem hposition]
  refine ⟨h.readable_use hid false, fun hsign => ?_⟩
  show Unsigned (arena.designator t operands[position]).text
  rw [Arena.isNegative, List.getElem?_eq_getElem hposition, Option.bind_some] at hsign
  -- A literal has the sign of its text, a name has none.
  cases hconst : arena.constantText? operands[position] with
  | some text =>
    rw [Arena.designator_of_literal hconst]
    simpa [hconst, Unsigned, Designator.text] using hsign
  | none =>
    obtain ⟨name, hname, -⟩ := h.named _ hid hconst
    rw [Arena.designator_of_declared hconst hname]
    cases hpointer : name.pointer <;>
      simp [Unsigned, Designator.text, Name.text, Name.identifier, hpointer]

/-- The results of a map of the core can be read over operands that are held. -/
theorem AffineMap.readable_code (h : Holding arena t held) {map : AffineMap}
    {operands : List ValueId} (hids : ∀ id ∈ operands, held id)
    (hcount : map.dims.toNat + map.symbols.toNat = operands.length)
    (hcore : map.inCore arena operands = true) :
    ∀ e ∈ map.code (arena.operandAt t operands), e.Readable false := by
  intro e he
  obtain ⟨result, hresult, rfl⟩ := List.mem_map.1 he
  refine (AffineExpr.readable_code (fun position hposition => ?_) result
    (List.all_eq_true.1 hcore result hresult)).1
  exact h.readable_operandAt hids (by omega)

/-- The results of a map are the indices that it gives. -/
theorem evalIndices_map (h : m.Implements meaning) (hplain : env.lookup "INFINITY" = none)
    {operand : Nat → Option V} {code : Nat → Expr}
    (hoperand : ∀ position, Refines (operand position) (m.eval env (code position).cpp)) (dims : Nat)
    (results : List AffineExpr) :
    Refines (meaning.affineIndices operand dims results)
      (m.evalIndices env ((results.map fun result => result.code code dims).map Expr.cpp)) := by
  induction results with
  | nil => exact .refl _
  | cons first rest ih =>
    exact .bind (refines_affine h hplain hoperand dims first) fun x _ =>
      .bind (h.index x) fun index _ => .bind ih fun indices _ => .refl _

/-- Indices that are values. -/
theorem Matches.evalIndices_values (h : Matches m arena t held σ env) (hm : m.Implements meaning)
    {ids : List ValueId} (hids : ∀ id ∈ ids, held id) :
    Refines (meaning.valueIndices σ ids)
      (m.evalIndices env ((ids.map (arena.useCode t)).map Expr.cpp)) := by
  induction ids with
  | nil => exact .refl _
  | cons id rest ih =>
    rw [List.forall_mem_cons] at hids
    exact .bind (h.refines_use hids.1) fun x _ =>
      .bind (hm.index x) fun index _ => .bind (ih hids.2) fun indices _ => .refl _

/-! ## Nested calls -/

/-- Nested calls of a known function can be read. -/
theorem Code.readable_nestedCalls {function : String} (hfunction : function ∈ callees)
    {codes : List Expr} (hne : codes ≠ []) (hcodes : ∀ e ∈ codes, e.Readable false) :
    (Expr.nestedCalls function codes).Readable false :=
  Expr.nestedCalls_induction hne hcodes fun _ _ hlhs hrhs =>
    .callTwo hfunction (hlhs.any true) (hrhs.any true)

/-- A call of two arguments combines their values. -/
theorem Code.eval_callTwo {function : String} (hfunction : function ∈ callees) (lhs rhs : Expr) :
    m.eval env (Expr.call function [lhs, rhs]).cpp =
      (do m.call function [← m.eval env lhs.cpp, ← m.eval env rhs.cpp]) := by
  have hcpp : (Expr.call function [lhs, rhs]).cpp = .call function [lhs.cpp, rhs.cpp] :=
    callCpp_of_callee hfunction _
  rw [hcpp, Machine.eval]
  simp [Machine.evalArgs, Option.bind_assoc]

/-- Nested calls of a function have the value that is combined from those of its arguments. -/
theorem refines_nestedCalls (h : m.Implements meaning) (hplain : env.lookup "INFINITY" = none)
    {operand : Nat → Option V} {code : Nat → Expr}
    (hoperand : ∀ position, Refines (operand position) (m.eval env (code position).cpp))
    {function : String} (hfunction : function ∈ Code.callees) {combine : V → V → Option V}
    (hcombine : ∀ x y, Refines (combine x y) (m.call function [x, y])) (dims : Nat)
    (rest : List AffineExpr) {x : Option V} {first : Expr} (hfirst : Refines x (m.eval env first.cpp)) :
    Refines (do (← meaning.affineAll operand dims rest).foldlM combine (← x))
      (m.eval env (Expr.chain (fun lhs rhs => .call function [lhs, rhs]) first
        (rest.map fun result => result.code code dims)).cpp) := by
  -- On the arguments that are left; the first one is what was combined so far.
  induction rest generalizing x first with
  | nil =>
    intro value hvalue
    exact hfirst value (by simpa [Meaning.affineAll] using hvalue)
  | cons next rest ih =>
    have hnext := refines_affine h hplain hoperand dims next
    have hboth : Refines (do combine (← x) (← meaning.affine operand dims next))
        (m.eval env (Expr.call function [first, next.code code dims]).cpp) := by
      rw [Code.eval_callTwo hfunction]
      exact .bind hfirst fun x _ => .bind hnext fun y _ => hcombine x y
    intro value hvalue
    refine ih hboth value ?_
    obtain ⟨values, hvalues, hvalue⟩ := Option.bind_eq_some_iff.1 hvalue
    obtain ⟨y, hy, hvalues⟩ := Option.bind_eq_some_iff.1 hvalues
    obtain ⟨ys, hys, hcons⟩ := Option.bind_eq_some_iff.1 hvalues
    cases hcons
    obtain ⟨x', hx, hvalue⟩ := Option.bind_eq_some_iff.1 hvalue
    simp only [List.foldlM_cons] at hvalue
    simpa [hy, hys, hx] using hvalue

end HlsEmit
