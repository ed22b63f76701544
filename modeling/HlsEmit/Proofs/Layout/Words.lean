import HlsEmit.Proofs.Naming
import HlsEmit.Proofs.Layout.Text

/-!
# What is written for a value is plain

Names, types and the texts of constants have neither braces nor line breaks, and none of them is empty
or starts with a blank. Nothing stands only for a value that has neither a name nor a constant.

## Key results

- `ElemType.begins`, `begins_literal`, `isNumberChar_literal`: types and constants
- `Arena.use_cases`, `Arena.use_of_bound`: what stands for a value
-/

namespace HlsEmit

open Code

/-! ## Texts of values -/

/-- A name begins well. -/
theorem Name.begins (name : Name) : Begins name.text := by
  have hnumber := plain_nat name.number
  obtain ⟨number, pointer⟩ := name
  cases pointer with
  | true => exact Begins.append ⟨by decide, '*', _, rfl, by decide⟩ (Plain.append (by decide) hnumber)
  | false => exact Begins.append ⟨by decide, 'v', _, rfl, by decide⟩ hnumber

/-- A type begins well. -/
theorem ElemType.begins {elem : ElemType} {type : String} (h : elem.cppName? = some type) :
    Begins type := by
  have hangled (front : String) (hfront : Begins front) (width : Nat) :
      Begins (front ++ toString width ++ ">") :=
    (hfront.append (plain_nat width)).append (by decide)
  -- Each type is a word, or a word around its width.
  cases elem with
  | f16 | bf16 => cases h
  | f32 =>
    cases h
    exact ⟨by decide, 'f', _, rfl, by decide⟩
  | f64 =>
    cases h
    exact ⟨by decide, 'd', _, rfl, by decide⟩
  | bool =>
    cases h
    exact ⟨by decide, 'b', _, rfl, by decide⟩
  | index =>
    cases h
    exact ⟨by decide, 'i', _, rfl, by decide⟩
  | int width unsigned =>
    simp only [cppName?] at h
    split at h
    · cases h
      exact ⟨by decide, 'b', _, rfl, by decide⟩
    · split at h
      · cases h
        exact hangled "ap_uint<" ⟨by decide, 'a', _, rfl, by decide⟩ width.toNat
      · cases h
        exact hangled "ap_int<" ⟨by decide, 'a', _, rfl, by decide⟩ width.toNat

/-! ## Texts of literals -/

/-- A character of a number: a digit, the point, the letter or the sign of an exponent. -/
def IsNumberChar (c : Char) : Prop :=
  c.isDigit = true ∨ c ∈ ['.', 'e', '-']

/-- A text of characters of numbers begins well. -/
theorem begins_of_number {c : Char} {cs : List Char} (hc : IsNumberChar c)
    (hcs : ∀ d ∈ cs, IsNumberChar d) : Begins (String.ofList (c :: cs)) := by
  have hplain {d : Char} (hd : IsNumberChar d) : d ≠ '\x7b' ∧ d ≠ '\x7d' ∧ d ≠ '\n' ∧ d ≠ ' ' := by
    obtain hdigit | hother := hd
    · refine ⟨?_, ?_, ?_, ?_⟩ <;> rintro rfl <;> cases hdigit
    · revert d
      decide
  refine ⟨fun d hd => ?_, c, cs, String.toList_ofList, (hplain hc).2.2.2⟩
  rw [String.toList_ofList] at hd
  obtain rfl | hd := List.mem_cons.1 hd
  · exact ⟨(hplain hc).1, (hplain hc).2.1, (hplain hc).2.2.1⟩
  · have hd := hplain (hcs d hd)
    exact ⟨hd.1, hd.2.1, hd.2.2.1⟩

namespace DecimalLayout

variable {digits : List Char} (hdigits : ∀ c ∈ digits, c.isDigit = true)

include hdigits

/-- The positional notation has characters of numbers only. -/
theorem isNumberChar_positional (lead : Int) : ∀ c ∈ positional digits lead, IsNumberChar c := by
  have hpoint : IsNumberChar '.' := .inr (by decide)
  have hzero : IsNumberChar '0' := .inl (by decide)
  intro c hc
  unfold positional at hc
  -- Below one there are zeros behind the point, otherwise the digits are filled up in front of it.
  split at hc
  · rw [List.cons_append, List.cons_append, List.mem_cons, List.mem_cons, List.mem_append] at hc
    obtain rfl | rfl | hc | hc := hc
    · exact hzero
    · exact hpoint
    · rw [List.eq_of_mem_replicate hc]
      exact hzero
    · exact .inl (hdigits c hc)
  · obtain hc | hc := List.mem_append.1 hc
    · obtain hc | hc := List.mem_append.1 (List.mem_of_mem_take hc)
      · exact .inl (hdigits c hc)
      · rw [List.eq_of_mem_replicate hc]
        exact hzero
    · obtain rfl | hc := List.mem_cons.1 hc
      · exact hpoint
      · split at hc
        · rw [List.mem_singleton.1 hc]
          exact hzero
        · exact .inl (hdigits c (List.mem_of_mem_drop hc))

/-- The scientific notation has characters of numbers only. -/
theorem isNumberChar_scientific {layout : DecimalLayout} (hplus : layout.plusSign = false)
    (lead : Int) : ∀ c ∈ scientific layout digits lead, IsNumberChar c := by
  intro c hc
  simp only [scientific, hplus, Bool.false_eq_true, if_false, List.mem_append, List.mem_cons] at hc
  obtain ((hc | hc) | rfl | hc) | hc := hc
  · exact .inl (hdigits c (List.mem_of_mem_take hc))
  · split at hc
    · cases hc
    · obtain rfl | hc := List.mem_cons.1 hc
      · exact .inr (by decide)
      · exact .inl (hdigits c (List.mem_of_mem_drop hc))
  · exact .inr (by decide)
  · split at hc
    · rw [List.mem_singleton.1 hc]
      exact .inr (by decide)
    · cases hc
  · exact .inl (Cpp.Phrase.isDigit_of_mem_toDigits hc)

/-- A number is made of its characters in either notation. -/
theorem begins_magnitude {layout : DecimalLayout} (hplus : layout.plusSign = false) (lead : Int) :
    ∃ c cs, (if layout.leastPositional ≤ lead ∧ lead ≤ layout.greatestPositional
      then positional digits lead else scientific layout digits lead) = c :: cs ∧
      IsNumberChar c ∧ ∀ d ∈ cs, IsNumberChar d := by
  -- Neither notation is empty, and both have characters of numbers only.
  have hne : (if layout.leastPositional ≤ lead ∧ lead ≤ layout.greatestPositional
      then positional digits lead else scientific layout digits lead) ≠ [] := by
    split
    · unfold positional
      split <;> simp
    · simp [scientific]
  have hchars : ∀ c ∈ (if layout.leastPositional ≤ lead ∧ lead ≤ layout.greatestPositional
      then positional digits lead else scientific layout digits lead), IsNumberChar c := by
    split
    · exact isNumberChar_positional hdigits lead
    · exact isNumberChar_scientific hdigits hplus lead
  obtain ⟨c, cs, heq⟩ := List.exists_cons_of_ne_nil hne
  rw [heq, List.forall_mem_cons] at hchars
  exact ⟨c, cs, heq, hchars⟩

end DecimalLayout

/-- A rendered double begins well. -/
theorem DecimalLayout.begins_render {layout : DecimalLayout} (hplus : layout.plusSign = false)
    (x : Binary64) : Begins (layout.render x) := by
  have hdigits : ∀ c ∈ Nat.toDigits 10 (x.shortest layout.tie).digits, c.isDigit = true :=
    fun c hc => Cpp.Phrase.isDigit_of_mem_toDigits hc
  unfold DecimalLayout.render
  obtain ⟨c, cs, heq, hc, hcs⟩ := begins_magnitude hdigits hplus
    (if (x.shortest layout.tie).digits = 0 then 0 else (x.shortest layout.tie).exponent +
      (Nat.toDigits 10 (x.shortest layout.tie).digits).length - 1)
  simp only [heq]
  split
  · exact begins_of_number (.inr (by decide)) (List.forall_mem_cons.2 ⟨hc, hcs⟩)
  · exact begins_of_number hc hcs

/-- The text of a double begins well. -/
theorem begins_real (x : Binary64) : Begins (cppRealText x) := by
  unfold cppRealText
  split
  · exact DecimalLayout.begins_render rfl x
  · split
    · exact ⟨by decide, '-', _, rfl, by decide⟩
    · exact ⟨by decide, 'I', _, rfl, by decide⟩

/-- A natural number begins well. -/
theorem begins_nat (n : Nat) : Begins (toString n) := by
  obtain ⟨c, cs, hdigits⟩ := List.exists_cons_of_ne_nil (Nat.toDigits_ne_nil (n := n) (b := 10))
  have hall : ∀ d ∈ c :: cs, IsNumberChar d := fun d hd =>
    .inl (Cpp.Phrase.isDigit_of_mem_toDigits (n := n) (by rwa [hdigits]))
  rw [List.forall_mem_cons] at hall
  rw [← String.ofList_toList (s := toString n), Cpp.Phrase.toList_toString, hdigits]
  exact begins_of_number hall.1 hall.2

/-- An integer begins well. -/
theorem begins_int (value : Int) : Begins (toString value) := by
  cases value with
  | ofNat n => exact begins_nat n
  | negSucc n => exact Begins.append ⟨by decide, '-', _, rfl, by decide⟩ (plain_nat (n + 1))

/-- A number consists of its characters. -/
theorem DecimalLayout.isNumberChar_render {layout : DecimalLayout} (hplus : layout.plusSign = false)
    (x : Binary64) : ∀ c ∈ (layout.render x).toList, IsNumberChar c := by
  have hdigits : ∀ c ∈ Nat.toDigits 10 (x.shortest layout.tie).digits, c.isDigit = true :=
    fun c hc => Cpp.Phrase.isDigit_of_mem_toDigits hc
  unfold DecimalLayout.render
  obtain ⟨c, cs, heq, hc, hcs⟩ := begins_magnitude hdigits hplus
    (if (x.shortest layout.tie).digits = 0 then 0 else (x.shortest layout.tie).exponent +
      (Nat.toDigits 10 (x.shortest layout.tie).digits).length - 1)
  simp only [heq]
  rw [String.toList_ofList]
  split
  · exact List.forall_mem_cons.2 ⟨.inr (by decide), List.forall_mem_cons.2 ⟨hc, hcs⟩⟩
  · exact List.forall_mem_cons.2 ⟨hc, hcs⟩

/-- The text of a constant is a number, or it is infinite. -/
theorem isNumberChar_literal {literal : Literal} {text : String} (h : literal.scalarText? = some text) :
    ∀ c ∈ text.toList, IsNumberChar c ∨ c ∈ "INFINITY".toList := by
  have hnat (n : Nat) : ∀ c ∈ (toString n).toList, IsNumberChar c ∨ c ∈ "INFINITY".toList := by
    rw [Cpp.Phrase.toList_toString]
    exact fun c hc => .inl (.inl (Cpp.Phrase.isDigit_of_mem_toDigits hc))
  have hminus {text : String} (h : ∀ c ∈ text.toList, IsNumberChar c ∨ c ∈ "INFINITY".toList) :
      ∀ c ∈ ("-" ++ text).toList, IsNumberChar c ∨ c ∈ "INFINITY".toList := by
    rw [String.toList_append]
    exact List.forall_mem_append.2 ⟨fun c hc => .inl (.inr (by revert c; decide)), h⟩
  -- Only the scalar literals have a text: a double may be infinite, an integer may have a sign.
  cases literal with
  | float x =>
    cases h
    unfold cppRealText
    split
    · exact fun c hc => .inl (DecimalLayout.isNumberChar_render rfl x c hc)
    · split
      · exact @hminus "INFINITY" fun c hc => .inr hc
      · exact fun c hc => .inr hc
  | int value =>
    cases h
    cases value.toInt with
    | ofNat n => exact hnat n
    | negSucc n => exact hminus (hnat (n + 1))
  | bool value =>
    cases h
    cases value
    · exact hnat 0
    · exact hnat 1
  | dense elements => cases h
  | str value => cases h

/-- The text of a constant is never empty. -/
theorem begins_literal {literal : Literal} {text : String} (h : literal.scalarText? = some text) :
    Begins text := by
  cases literal with
  | float x =>
    cases h
    exact begins_real x
  | int value =>
    cases h
    exact begins_int value.toInt
  | bool value =>
    cases h
    cases value
    · exact ⟨by decide, '0', _, rfl, by decide⟩
    · exact ⟨by decide, '1', _, rfl, by decide⟩
  | dense elements => cases h
  | str value => cases h

/-- Whoever shares a name shares that of a declaration. -/
def NameTable.Closed (t : NameTable) : Prop :=
  ∀ id owner, t.binding? id = some (.shared owner) → (t.ownName? owner).isSome

namespace NameTable.Closed

variable {t : NameTable}

/-- Declarations that are there stay when a value is named that had no name. -/
theorem ownName?_insert {id other : ValueId} {binding : Binding} (hnew : t.isDeclared id = false)
    (h : (t.ownName? other).isSome) : ((t.insert id binding).ownName? other).isSome := by
  have hne : other ≠ id := by
    rintro rfl
    unfold ownName? at h
    rw [isDeclared, Option.isSome_eq_false_iff, Option.isNone_iff_eq_none] at hnew
    rw [hnew] at h
    cases h
  unfold ownName? at h ⊢
  rwa [binding?_insert, if_neg hne]

variable (ht : t.Closed)

include ht

/-- The owner of a name has a declaration. -/
theorem ownName?_owner {id owner : ValueId} (h : t.owner? id = some owner) :
    (t.ownName? owner).isSome := by
  unfold owner? at h
  split at h
  · next name hbinding =>
    cases h
    simp [ownName?, hbinding]
  · next owner' hbinding =>
    cases h
    exact ht id owner hbinding
  · cases h

/-- A new name leaves the table closed. -/
theorem insert {id : ValueId} {binding : Binding} (hnew : t.isDeclared id = false)
    (hbinding : ∀ owner, binding = .shared owner → (t.ownName? owner).isSome) :
    (t.insert id binding).Closed := by
  intro other owner hshared
  refine ownName?_insert hnew ?_
  rw [binding?_insert] at hshared
  split at hshared
  · exact hbinding owner (Option.some.inj hshared)
  · exact ht other owner hshared

end NameTable.Closed

namespace Arena

variable {arena : Arena} {t : NameTable} {id : ValueId}

/-- What stands for a value is its name or literal, or nothing if it has neither. -/
theorem use_cases (arena : Arena) (t : NameTable) (id : ValueId) :
    Begins (arena.use t id).designator.text ∨ (arena.use t id).designator = .missing := by
  have hdesignator : (arena.use t id).designator = arena.designator t id := rfl
  rw [hdesignator, Arena.designator]
  split
  · next text htext =>
    obtain ⟨-, literal, -, hliteral⟩ := exists_literal htext
    exact .inl (begins_literal hliteral)
  · split
    · next name _ => exact .inl name.begins
    · exact .inr rfl

/-- What stands for a value is plain. -/
theorem plain_use (arena : Arena) (t : NameTable) (id : ValueId) :
    Plain (arena.use t id).designator.text := by
  obtain hbegins | hmissing := arena.use_cases t id
  · exact hbegins.plain
  · rw [hmissing]
    decide

/-- What stands for a port is plain. -/
theorem plain_port (arena : Arena) (t : NameTable) (id : ValueId) :
    Plain (arena.use t id).designator.portText := by
  have hplain := arena.plain_use t id
  cases hdesignator : (arena.use t id).designator with
  | named name => exact Plain.append (by decide) (plain_nat name.number)
  | literal text => rwa [hdesignator] at hplain
  | missing => exact (by decide : Plain "")

/-- Something stands for a value that is bound. -/
theorem use_of_bound (ht : t.Closed) (h : arena.isBound t id = true) :
    (arena.use t id).designator ≠ .missing := by
  have hdesignator : (arena.use t id).designator = arena.designator t id := rfl
  rw [hdesignator, Arena.designator]
  cases hconstant : arena.constantText? id with
  | some text => simp
  | none =>
    rw [Arena.isBound, hconstant, Option.isSome_none, Bool.or_false, NameTable.isDeclared] at h
    obtain ⟨binding, hbinding⟩ := Option.isSome_iff_exists.1 h
    have hname : (t.name? id).isSome := by
      rw [NameTable.name?, NameTable.owner?, hbinding]
      cases binding with
      | declared name => simp [NameTable.ownName?, hbinding]
      | shared owner => simpa using ht id owner hbinding
    obtain ⟨name, hname⟩ := Option.isSome_iff_exists.1 hname
    simp [hname]

end Arena

end HlsEmit
