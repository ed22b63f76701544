import Mathlib.Data.List.Forall2
import HlsEmit.Proofs.Layout.Admission
import HlsEmit.Proofs.Rejection

/-!
# Calls of accelerator blocks

The calling sequence of an accelerator block is filled from its operands: by their number, their
extents, their element types and their names. What each placeholder stands for is a relation here
(`Accelerator.Template.Gives`), and so is a line with all its placeholders replaced (`Filled`).

A call with the wrong number of operands is refused, and so is one for which a number of the sequence
is lacking, as an extent that is not known or a product that has no 64 bits. Any other call is
written, line by line. Nothing is written of a call that is refused, no name is given, and no
placeholder is ever left over.

## Key results

- `Accelerator.substitute_eq_ok_iff`: how the placeholders of a line are replaced
- `Accelerator.Template.lookup_eq_some_iff`: what a placeholder is replaced by
- `Accelerator.Template.fill_cases`: a calling sequence is filled, or a number is lacking
- `Emission.ofOp_accelerator`: what comes of an accelerator call
-/

namespace HlsEmit

open Code (Stmt)

/-- In a list without double keys, what is found is what is there. -/
theorem lookup_eq_some_iff_mem {β : Type} {entries : List (String × β)}
    (hnodup : (entries.map Prod.fst).Nodup) {key : String} {value : β} :
    entries.lookup key = some value ↔ (key, value) ∈ entries := by
  induction entries with
  | nil => simp
  | cons entry rest ih =>
    obtain ⟨first, content⟩ := entry
    rw [List.map_cons, List.nodup_cons] at hnodup
    rw [List.lookup_cons, List.mem_cons]
    by_cases hkey : key = first
    · subst hkey
      have hfresh : (key, value) ∉ rest := fun h => hnodup.1 (List.mem_map.2 ⟨_, h, rfl⟩)
      simp [hfresh, eq_comm]
    · rw [beq_eq_false_iff_ne.2 hkey]
      simp [hkey, ih hnodup.2]

/-- A key that is none of the entries' is not found. -/
theorem lookup_eq_none_of_not_mem {β : Type} {entries : List (String × β)} {key : String}
    (h : key ∉ entries.map Prod.fst) : entries.lookup key = none := by
  rw [List.lookup_eq_none_iff]
  intro entry hentry
  rw [bne_iff_ne]
  rintro rfl
  exact h (List.mem_map_of_mem hentry)

namespace Accelerator

/-! ## Lines with placeholders -/

/-- A text arises from a line if all its placeholders are replaced by texts that they stand for. -/
inductive Filled (gives : String → String → Prop) : List Char → List Char → Prop
  | done : Filled gives [] []
  | char {c : Char} {rest out : List Char} : c ≠ '\x7b' → Filled gives rest out →
      Filled gives (c :: rest) (c :: out)
  | placeholder {key : List Char} {text : String} {rest out : List Char} : '\x7d' ∉ key →
      gives (String.ofList key) text → Filled gives rest out →
      Filled gives ('\x7b' :: (key ++ '\x7d' :: rest)) (text.toList ++ out)

/-- Inside of a placeholder, the text of its key is next. -/
theorem substituteChars_key (lookup : String → Option String) (read : List Char) {more : List Char}
    (hmore : '\x7d' ∉ more) (rest : List Char) :
    substituteChars lookup (some read) (more ++ '\x7d' :: rest) =
      match lookup (String.ofList (read.reverse ++ more)) with
      | none => .error (String.ofList (read.reverse ++ more))
      | some text => (substituteChars lookup none rest).map (text.toList ++ ·) := by
  induction more generalizing read with
  | nil =>
    cases htext : lookup (String.ofList read.reverse) <;> simp [substituteChars, htext]
  | cons c more ih =>
    rw [List.mem_cons, not_or] at hmore
    rw [List.cons_append, substituteChars, if_neg (Ne.symm hmore.1), ih (c :: read) hmore.2]
    simp

/-- A placeholder that is not closed cannot be replaced. -/
theorem substituteChars_open (lookup : String → Option String) (read : List Char) {cs : List Char}
    (hopen : '\x7d' ∉ cs) (out : List Char) : substituteChars lookup (some read) cs ≠ .ok out := by
  induction cs generalizing read with
  | nil => exact fun h => nomatch h
  | cons c cs ih =>
    rw [List.mem_cons, not_or] at hopen
    rw [substituteChars, if_neg (Ne.symm hopen.1)]
    exact ih (c :: read) hopen.2

section Filled

variable {lookup : String → Option String} {gives : String → String → Prop}
variable (hgives : ∀ key text, lookup key = some text ↔ gives key text)

include hgives

/-- What a template is filled to is what the substitution gives. -/
theorem substituteChars_of_filled {cs out : List Char} (h : Filled gives cs out) :
    substituteChars lookup none cs = .ok out := by
  induction h with
  | done => rfl
  | char hc _ ih => rw [substituteChars, if_neg hc, ih]; rfl
  | placeholder hkey htext _ ih =>
    rw [substituteChars, if_pos rfl, substituteChars_key lookup [] hkey]
    simp only [List.reverse_nil, List.nil_append, (hgives _ _).2 htext, ih]
    rfl

/-- What the substitution gives is what the template is filled to. -/
theorem filled_of_substituteChars {cs out : List Char}
    (h : substituteChars lookup none cs = .ok out) : Filled gives cs out := by
  -- a placeholder is replaced as a whole, so the induction is on the length of what is left
  induction hlength : cs.length using Nat.strongRecOn generalizing cs out with
  | _ n ih =>
    cases cs with
    | nil =>
      cases h
      exact .done
    | cons c rest =>
      rw [List.length_cons] at hlength
      by_cases hopen : c = '\x7b'
      · subst hopen
        rw [substituteChars, if_pos rfl] at h
        by_cases hclose : '\x7d' ∈ rest
        · obtain ⟨key, rest, rfl, hkey⟩ := List.eq_append_cons_of_mem hclose
          rw [substituteChars_key lookup [] hkey, List.reverse_nil, List.nil_append] at h
          cases htext : lookup (String.ofList key) with
          | none => simp [htext] at h
          | some text =>
            simp only [htext] at h
            cases hrest : substituteChars lookup none rest with
            | error key => rw [hrest] at h; cases h
            | ok tail =>
              rw [hrest] at h
              cases h
              rw [List.length_append, List.length_cons] at hlength
              exact .placeholder hkey ((hgives _ _).1 htext) (ih rest.length (by omega) hrest rfl)
        · exact absurd h (substituteChars_open lookup [] hclose out)
      · rw [substituteChars, if_neg hopen] at h
        cases hrest : substituteChars lookup none rest with
        | error key => rw [hrest] at h; cases h
        | ok tail =>
          rw [hrest] at h
          cases h
          exact .char hopen (ih rest.length (by omega) hrest rfl)

/-- Replacing the placeholders of a line has the text as its result that arises from the line. -/
theorem substitute_eq_ok_iff {line out : String} :
    substitute lookup line = .ok out ↔ Filled gives line.toList out.toList := by
  constructor
  · intro h
    unfold substitute at h
    cases hchars : substituteChars lookup none line.toList with
    | error key => rw [hchars] at h; cases h
    | ok cs =>
      rw [hchars] at h
      cases h
      rw [String.toList_ofList]
      exact filled_of_substituteChars hgives hchars
  · intro h
    rw [substitute, substituteChars_of_filled hgives h]
    exact congrArg Except.ok String.ofList_toList

end Filled

/-! ## What placeholders stand for -/

/-- A number that has 64 bits. -/
def Representable (value : Int) : Prop :=
  Int64.minValue.toInt ≤ value ∧ value ≤ Int64.maxValue.toInt

instance (value : Int) : Decidable (Representable value) :=
  inferInstanceAs (Decidable (_ ∧ _))

namespace Template

section Parts

variable (template : Template) (values : Arena) (operands : List ValueId)

/-- An operand stands in a role. -/
def Plays (role : String) (id : ValueId) : Prop :=
  (role, id) ∈ template.roles.zip operands

/-- The extent of the operand in a role is known in one dimension, as those in all others are. -/
def HasExtent (role : String) (dim : Nat) (extent : Int64) : Prop :=
  ∃ id extents, template.Plays operands role id ∧
    (values.info id).shape.extents? = some extents ∧ extents[dim]? = some extent

/-- A number of the sequence, by its key. -/
inductive Measures : String → Int → Prop
  | extent {key role : String} {dim : Nat} {extent : Int64} :
      (key, .dim role dim) ∈ template.extents →
      template.HasExtent values operands role dim extent → Measures key extent.toInt
  | product {key lhs rhs : String} {x y : Int} :
      (key, .product lhs rhs) ∈ template.extents → Measures lhs x → Measures rhs y →
      Representable (x * y) → Measures key (x * y)

/-- A number of the sequence is lacking, with its problem. -/
inductive Lacks : Problem → Prop
  | extent {key role : String} {dim : Nat} :
      (key, .dim role dim) ∈ template.extents →
      (∀ extent, ¬ template.HasExtent values operands role dim extent) →
      Lacks (.missingExtent template.routine dim role)
  | product {key lhs rhs : String} {x y : Int} :
      (key, .product lhs rhs) ∈ template.extents → template.Measures values operands lhs x →
      template.Measures values operands rhs y → ¬ Representable (x * y) →
      Lacks (.extentOverflow template.routine key lhs rhs)

/-- A placeholder stands for a text: the data type of the block, a fixed text, a number, or what
stands for the operand in the role. -/
inductive Gives (names : NameTable) : String → String → Prop
  | type {id : ValueId} : template.Plays operands template.dataRole id →
      Gives names "DT" (dataType (values.info id).elem)
  | fixed {key text : String} : (key, text) ∈ fixedTexts → Gives names key text
  | number {key : String} {value : Int} : template.Measures values operands key value →
      Gives names key (toString value)
  | operand {role : String} {id : ValueId} : template.Plays operands role id →
      Gives names role (values.use names id).designator.text

end Parts

/-- Every factor is a number that was found before. -/
def Grounded : (known : List String) → List (String × ExtentSource) → Bool
  | _, [] => true
  | known, (key, .dim _ _) :: rest => Grounded (known ++ [key]) rest
  | known, (key, .product lhs rhs) :: rest =>
    lhs ∈ known && rhs ∈ known && Grounded (known ++ [key]) rest

/-- No placeholder stands for two things, there is an operand with the data type, and every product
is one of numbers that were found before. -/
structure Sound (template : Template) : Prop where
  keys : template.keys.Nodup
  data : template.dataRole ∈ template.roles
  grounded : Grounded [] template.extents

/-- The five templates of the tables are sound: each condition is decidable. -/
theorem sound_of (kind : IpKind) : (Template.of kind).Sound := by
  cases kind <;> exact ⟨by decide +kernel, by decide +kernel, by decide +kernel⟩

/-! ### Each placeholder stands for one text -/

section Unique

variable {template : Template} (hsound : template.Sound) {values : Arena} {names : NameTable}
variable {operands : List ValueId}

include hsound

/-- No two numbers of a template have the same key. -/
theorem Sound.extents_nodup : (template.extents.map Prod.fst).Nodup :=
  (List.nodup_append.1 (List.nodup_append.1 (List.nodup_cons.1 hsound.keys).2).1).2.1

/-- No two operands of a template play the same role. -/
theorem Sound.roles_nodup : template.roles.Nodup :=
  (List.nodup_append.1 (List.nodup_cons.1 hsound.keys).2).2.1

/-- A number has one source. -/
theorem Sound.source_unique {key : String} {source source' : ExtentSource}
    (h : (key, source) ∈ template.extents) (h' : (key, source') ∈ template.extents) :
    source = source' := by
  rw [← lookup_eq_some_iff_mem hsound.extents_nodup] at h h'
  exact Option.some.inj (h.symm.trans h')

variable (hcount : operands.length = template.roles.length)

include hcount

/-- The operand that is found in a role stands there. -/
theorem Sound.lookup_role {role : String} {id : ValueId} :
    (template.roles.zip operands).lookup role = some id ↔ template.Plays operands role id := by
  apply lookup_eq_some_iff_mem
  rw [List.map_fst_zip (Nat.le_of_eq hcount.symm)]
  exact hsound.roles_nodup

/-- An extent of an operand is one number. -/
theorem Sound.extent_unique {role : String} {dim : Nat} {extent extent' : Int64}
    (h : template.HasExtent values operands role dim extent)
    (h' : template.HasExtent values operands role dim extent') : extent = extent' := by
  obtain ⟨id, extents, hplays, hextents, hextent⟩ := h
  obtain ⟨id', extents', hplays', hextents', hextent'⟩ := h'
  rw [← hsound.lookup_role hcount] at hplays hplays'
  cases hplays.symm.trans hplays'
  cases hextents.symm.trans hextents'
  exact Option.some.inj (hextent.symm.trans hextent')

/-- A number has one value. -/
theorem Sound.measures_unique {key : String} {x y : Int}
    (h : template.Measures values operands key x) (h' : template.Measures values operands key y) :
    x = y := by
  induction h generalizing y with
  | extent hsource hextent =>
    cases h' with
    | extent hsource' hextent' =>
      cases hsound.source_unique hsource hsource'
      rw [hsound.extent_unique hcount hextent hextent']
    | product hsource' => cases hsound.source_unique hsource hsource'
  | product hsource _ _ _ ihlhs ihrhs =>
    cases h' with
    | extent hsource' => cases hsound.source_unique hsource hsource'
    | product hsource' hlhs' hrhs' =>
      cases hsound.source_unique hsource hsource'
      rw [ihlhs hlhs', ihrhs hrhs']

/-- If all numbers are there, none is lacking. -/
theorem Sound.not_lacks
    (hall : ∀ key ∈ template.extents.map Prod.fst, ∃ n, template.Measures values operands key n)
    (p : Problem) : ¬ template.Lacks values operands p := by
  intro h
  cases h with
  -- The number found under the same key has the same source, so the extent is there.
  | extent hsource hnone =>
    obtain ⟨n, hn⟩ := hall _ (List.mem_map_of_mem hsource)
    cases hn with
    | extent hsource' hextent =>
      cases hsound.source_unique hsource hsource'
      exact hnone _ hextent
    | product hsource' => cases hsound.source_unique hsource hsource'
  -- Both factors are unique, so the product that was found is the one said to be too large.
  | product hsource hx hy hlarge =>
    obtain ⟨n, hn⟩ := hall _ (List.mem_map_of_mem hsource)
    cases hn with
    | extent hsource' => cases hsound.source_unique hsource hsource'
    | product hsource' hx' hy' hrange =>
      cases hsound.source_unique hsource hsource'
      rw [hsound.measures_unique hcount hx hx', hsound.measures_unique hcount hy hy'] at hlarge
      exact hlarge hrange

/-! ### Numbers are found -/

/-- What an extent that is looked up says. -/
theorem Sound.number?_dim {known : List (String × Int)} {role : String} {dim : Nat} {n : Int} :
    template.number? values operands known (.dim role dim) = some n ↔
      ∃ extent, template.HasExtent values operands role dim extent ∧ n = extent.toInt := by
  simp only [number?, Option.bind_eq_bind, Option.bind_eq_some_iff, Option.pure_def,
    Option.some.injEq, hsound.lookup_role hcount]
  constructor
  · rintro ⟨id, hplays, extents, hextents, extent, hextent, rfl⟩
    exact ⟨extent, ⟨id, extents, hplays, hextents, hextent⟩, rfl⟩
  · rintro ⟨extent, ⟨id, extents, hplays, hextents, hextent⟩, rfl⟩
    exact ⟨id, hplays, extents, hextents, extent, hextent, rfl⟩

/-- One number is found or lacking, if the numbers before are right. -/
theorem Sound.number?_cases {known : List (String × Int)} {key : String} {source : ExtentSource}
    (hsource : (key, source) ∈ template.extents)
    (hmeasured : ∀ entry ∈ known, template.Measures values operands entry.1 entry.2)
    (hfactors : ∀ lhs rhs, source = .product lhs rhs →
      lhs ∈ known.map Prod.fst ∧ rhs ∈ known.map Prod.fst) :
    (∃ n, template.number? values operands known source = some n ∧
        template.Measures values operands key n) ∨
      template.number? values operands known source = none ∧
        template.Lacks values operands (template.lack key source) := by
  cases source with
  | dim role dim =>
    cases hnumber : template.number? values operands known (.dim role dim) with
    | some n =>
      obtain ⟨extent, hextent, rfl⟩ := (hsound.number?_dim hcount).1 hnumber
      exact .inl ⟨_, rfl, .extent hsource hextent⟩
    | none =>
      refine .inr ⟨rfl, .extent hsource fun extent hextent => ?_⟩
      rw [(hsound.number?_dim hcount).2 ⟨extent, hextent, rfl⟩] at hnumber
      cases hnumber
  | product lhs rhs =>
    -- The tables list the factors of a product before it, so both are known here.
    have hfactor {factor : String} (h : factor ∈ known.map Prod.fst) :
        ∃ x, known.lookup factor = some x ∧ template.Measures values operands factor x := by
      obtain ⟨x, hx⟩ := Option.isSome_iff_exists.1 (isSome_lookup h)
      obtain ⟨before, after, hknown, -⟩ := List.lookup_eq_some_iff.1 hx
      exact ⟨x, hx, hmeasured (factor, x) (by simp [hknown])⟩
    obtain ⟨hlhs, hrhs⟩ := hfactors lhs rhs rfl
    obtain ⟨x, hx, hlhs⟩ := hfactor hlhs
    obtain ⟨y, hy, hrhs⟩ := hfactor hrhs
    have hnumber : template.number? values operands known (.product lhs rhs) =
        if Representable (x * y) then some (x * y) else none := by
      rw [number?, hx, hy]
      rfl
    rw [hnumber]
    by_cases hrange : Representable (x * y)
    · exact .inl ⟨x * y, if_pos hrange, .product hsource hlhs hrhs hrange⟩
    · exact .inr ⟨if_neg hrange, .product hsource hlhs hrhs hrange⟩

/-- All numbers are found, or one is lacking. -/
theorem Sound.extentsFrom_cases (names : NameTable)
    (hknown : ∀ id ∈ operands, (values.info? id).isSome) (known : List (String × Int))
    (sources : List (String × ExtentSource))
    (hsources : ∀ source ∈ sources, source ∈ template.extents)
    (hgrounded : Grounded (known.map Prod.fst) sources = true)
    (hmeasured : ∀ entry ∈ known, template.Measures values operands entry.1 entry.2) :
    (∃ found, template.extentsFrom values (operands.map (values.use names)) known sources =
        .ok found ∧ ∀ entry ∈ found, template.Measures values operands entry.1 entry.2) ∨
      ∃ p, template.Lacks values operands p ∧
        template.extentsFrom values (operands.map (values.use names)) known sources =
          .error (.problem p) := by
  induction sources generalizing known with
  | nil => exact .inl ⟨known, rfl, hmeasured⟩
  | cons source rest ih =>
    obtain ⟨key, source⟩ := source
    rw [List.forall_mem_cons] at hsources
    -- The first source is grounded in the numbers already known, the rest in these and the first.
    have hfactors : ∀ lhs rhs, source = .product lhs rhs →
        lhs ∈ known.map Prod.fst ∧ rhs ∈ known.map Prod.fst := by
      rintro lhs rhs rfl
      rw [Grounded, Bool.and_eq_true, Bool.and_eq_true, decide_eq_true_eq, decide_eq_true_eq]
        at hgrounded
      exact hgrounded.1
    have hrest : Grounded ((known.map Prod.fst) ++ [key]) rest = true := by
      cases source with
      | dim role dim => exact hgrounded
      | product lhs rhs =>
        rw [Grounded, Bool.and_eq_true] at hgrounded
        exact hgrounded.2
    rw [extentsFrom, extent_eq hcount hknown]
    rcases hsound.number?_cases hcount hsources.1 hmeasured hfactors with
      ⟨n, hnumber, hn⟩ | ⟨hnumber, hlacks⟩
    · rw [hnumber]
      apply ih (known ++ [(key, n)]) hsources.2
      · simpa using hrest
      · rw [List.forall_mem_append, List.forall_mem_singleton]
        exact ⟨hmeasured, hn⟩
    · rw [hnumber]
      exact .inr ⟨_, hlacks, rfl⟩

/-- The data type is that of the operand in its role. -/
theorem Sound.exists_type (names : NameTable) (hknown : ∀ id ∈ operands, (values.info? id).isSome) :
    ∃ id, template.Plays operands template.dataRole id ∧
      template.typeFor values (operands.map (values.use names)) =
        .ok (dataType (values.info id).elem) := by
  have hroles : (template.roles.zip operands).map Prod.fst = template.roles :=
    List.map_fst_zip (Nat.le_of_eq hcount.symm)
  obtain ⟨id, hid⟩ := Option.isSome_iff_exists.1 (isSome_lookup (hroles.symm ▸ hsound.data))
  refine ⟨id, (hsound.lookup_role hcount).1 hid, ?_⟩
  rw [typeFor, operandFor_use hcount, hid, Option.map_some]
  show (do return dataType (← values.entry id).elem) = _
  rw [Arena.entry_of_known (known_of_role hknown hid)]
  rfl

/-- What a placeholder is replaced by is what it stands for. -/
theorem Sound.lookup_eq_some_iff {id : ValueId} {found : List (String × Int)}
    (hdata : template.Plays operands template.dataRole id)
    (hmeasured : ∀ entry ∈ found, template.Measures values operands entry.1 entry.2)
    (hfound : found.map Prod.fst = template.extents.map Prod.fst) (key text : String) :
    template.lookup (operands.map (values.use names)) (dataType (values.info id).elem) found key =
        some text ↔ template.Gives values operands names key text := by
  obtain ⟨hdataType, hothers⟩ := List.nodup_cons.1 hsound.keys
  obtain ⟨hnumbers, -, hroles⟩ := List.nodup_append.1 hothers
  obtain ⟨hfixed, -, hextents⟩ := List.nodup_append.1 hnumbers
  -- The lookup tries the type, the fixed texts, the numbers and the operands in turn; the keys of
  -- these four are apart, so the turn that finds a key is the one the key belongs to.
  have hmem {key : String} {n : Int} (h : template.Measures values operands key n) :
      key ∈ template.extents.map Prod.fst := by
    -- From what the key stands for to its turn: the turns before it find nothing.
    cases h with
    | extent hsource => exact List.mem_map_of_mem hsource
    | product hsource => exact List.mem_map_of_mem hsource
  have hrole {role : String} {id : ValueId} (h : template.Plays operands role id) :
      role ∈ template.roles := (List.of_mem_zip h).1
  constructor
  -- From the turn of the lookup that found the text to what the key stands for.
  · intro h
    unfold lookup at h
    split at h
    · next hkey =>
      cases h
      rw [hkey]
      exact .type hdata
    · rw [Option.or_eq_some_iff, Option.or_eq_some_iff] at h
      rcases h with (h | ⟨-, h⟩) | ⟨-, h⟩
      · exact .fixed ((lookup_eq_some_iff_mem hfixed).1 h)
      · obtain ⟨n, hn, rfl⟩ := Option.map_eq_some_iff.1 h
        rw [lookup_eq_some_iff_mem (hfound ▸ hsound.extents_nodup)] at hn
        exact .number (hmeasured _ hn)
      · rw [operand?_use, Option.map_map, Option.map_eq_some_iff] at h
        obtain ⟨id, hid, rfl⟩ := h
        exact .operand ((hsound.lookup_role hcount).1 hid)
  · intro h
    cases h with
    | type hdata' =>
      rw [← hsound.lookup_role hcount] at hdata hdata'
      cases hdata.symm.trans hdata'
      exact if_pos rfl
    | fixed hkey =>
      have hmem := List.mem_map_of_mem (f := Prod.fst) hkey
      have hne : key ≠ "DT" := by
        rintro rfl
        exact hdataType (List.mem_append_left _ (List.mem_append_left _ hmem))
      rw [lookup, if_neg hne, (lookup_eq_some_iff_mem hfixed).2 hkey]
      rfl
    | @number _ n hn =>
      have hne : key ≠ "DT" := by
        rintro rfl
        exact hdataType (List.mem_append_left _ (List.mem_append_right _ (hmem hn)))
      have hother : fixedTexts.lookup key = none :=
        lookup_eq_none_of_not_mem fun hkey => hextents key hkey key (hmem hn) rfl
      obtain ⟨m, hm⟩ := Option.isSome_iff_exists.1 (isSome_lookup (hfound.symm ▸ hmem hn))
      have hmeasure := hmeasured _ ((lookup_eq_some_iff_mem (hfound ▸ hsound.extents_nodup)).1 hm)
      cases hsound.measures_unique hcount hmeasure hn
      rw [lookup, if_neg hne, hother, hm]
      rfl
    | operand hplays =>
      have hne : key ≠ "DT" := by
        rintro rfl
        exact hdataType (List.mem_append_right _ (hrole hplays))
      have hother : fixedTexts.lookup key = none := lookup_eq_none_of_not_mem fun hkey =>
        hroles key (List.mem_append_left _ hkey) key (hrole hplays) rfl
      have hnumber : found.lookup key = none := lookup_eq_none_of_not_mem fun hkey =>
        hroles key (List.mem_append_right _ (hfound ▸ hkey)) key (hrole hplays) rfl
      rw [lookup, if_neg hne, hother, hnumber, operand?_use, (hsound.lookup_role hcount).2 hplays]
      rfl

end Unique

/-! ### Filling a calling sequence -/

/-- A lacking number is reported as an error E0200. -/
theorem Lacks.code {template : Template} {values : Arena} {operands : List ValueId} {p : Problem}
    (h : template.Lacks values operands p) : p.code = "E0200" ∧ p.severity = .error := by
  cases h with
  | extent => exact ⟨rfl, rfl⟩
  | product => exact ⟨rfl, rfl⟩

section Fill

variable {values : Arena} {names : NameTable} {operands : List ValueId} {kind : IpKind}

/-- The lines of a call arise from those of its calling sequence. -/
def Fills (template : Template) (values : Arena) (names : NameTable) (operands : List ValueId)
    (lines : List String) : Prop :=
  List.Forall₂ (fun line out => Filled (template.Gives values operands names) line.toList out.toList)
    template.lines lines

/-- Nothing that a placeholder stands for has a brace or a line break. -/
theorem Gives.plain {template : Template} {key text : String}
    (h : template.Gives values operands names key text) : Code.Plain text := by
  cases h with
  | type =>
    unfold dataType
    split <;> decide
  | fixed hkey =>
    have hfixed : ∀ entry ∈ fixedTexts, Code.Plain entry.2 := by decide
    exact hfixed _ hkey
  | number => exact Code.plain_int _
  | operand => exact Arena.plain_use values names _

/-- If every placeholder is replaced by what it stands for, the lines are filled, and in one way
only. -/
theorem exists_fills {template : Template} {lookup : String → Option String}
    (hgives : ∀ key text, lookup key = some text ↔ template.Gives values operands names key text)
    (hexists : ∀ line ∈ template.lines, ∃ out, substitute lookup line = .ok out)
    (hfine : ∀ line ∈ template.lines, lineFine line.toList = true) (problem : String → Obstacle) :
    ∃ lines, (template.lines.mapM fun line => (substitute lookup line).mapError problem) =
        .ok lines ∧
      (∀ line ∈ lines, Code.Plain line) ∧
      ∀ others, template.Fills values names operands others ↔ others = lines := by
  have hplain (key text : String) (h : lookup key = some text) : Code.Plain text :=
    ((hgives key text).1 h).plain
  unfold Fills
  generalize template.lines = templateLines at hexists hfine
  -- The lines are filled one by one; each has its only filling, and so has the list.
  induction templateLines with
  | nil => exact ⟨[], rfl, List.forall_mem_nil _, fun others => by simp⟩
  | cons line rest ih =>
    rw [List.forall_mem_cons] at hexists hfine
    obtain ⟨out, hout⟩ := hexists.1
    obtain ⟨lines, hlines, hall, hiff⟩ := ih hexists.2 hfine.2
    have hline := hfine.1
    unfold lineFine at hline
    rw [Bool.and_eq_true] at hline
    refine ⟨out :: lines, ?_, ?_, fun others => ?_⟩
    · rw [List.mapM_cons, hout, hlines]
      rfl
    · exact List.forall_mem_cons.2 ⟨substitute_plain hplain hline.1 hout, hall⟩
    · cases others with
      | nil => simp
      | cons other others =>
        rw [List.forall₂_cons, ← substitute_eq_ok_iff hgives, hiff, hout, List.cons.injEq]
        exact and_congr_left fun _ => ⟨fun h => (Except.ok.inj h).symm, fun h => by rw [h]⟩

/-- A calling sequence is filled in its only way, or a number of it is lacking. -/
theorem fill_cases (names : NameTable) (hcount : operands.length = (Template.of kind).roles.length)
    (hknown : ∀ id ∈ operands, (values.info? id).isSome) :
    (∃ p, (Template.of kind).Lacks values operands p ∧
        (Template.of kind).fill values (operands.map (values.use names)) = .error (.problem p)) ∨
      (∀ p, ¬ (Template.of kind).Lacks values operands p) ∧
        ∃ lines, (Template.of kind).fill values (operands.map (values.use names)) = .ok lines ∧
          (∀ line ∈ lines, Code.Plain line) ∧
          ∀ others, (Template.of kind).Fills values names operands others ↔ others = lines := by
  -- The first operand gives the type, the numbers are found in the order of the table, and the
  -- lines are filled from both.
  have hsound := sound_of kind
  obtain ⟨id, hdata, htype⟩ := hsound.exists_type hcount names hknown
  have hlength : ¬ (operands.map (values.use names)).length ≠ (Template.of kind).roles.length := by
    rw [List.length_map, hcount]
    exact fun h => h rfl
  rcases hsound.extentsFrom_cases hcount names hknown [] (Template.of kind).extents
      (fun _ h => h) hsound.grounded (fun _ h => nomatch h) with
    ⟨found, hfound, hmeasured⟩ | ⟨p, hlacks, hfailed⟩
  -- All numbers are there: every line is filled, in its only way.
  · have hkeys : found.map Prod.fst = (Template.of kind).extents.map Prod.fst := keys_extents hfound
    obtain ⟨lines, hlines, hplain, hiff⟩ := exists_fills
      (hsound.lookup_eq_some_iff hcount hdata hmeasured hkeys)
      (fun line hline => exists_substitute kind (operands.map (values.use names))
        (dataType (values.info id).elem) (by rw [List.length_map, hcount]) hkeys hline)
      (lines_of kind) ((Template.of kind).unfilled (operands.map (values.use names)))
    refine .inr ⟨hsound.not_lacks hcount fun key hkey => ?_, lines, ?_, hplain, hiff⟩
    · rw [← hkeys] at hkey
      obtain ⟨entry, hentry, rfl⟩ := List.mem_map.1 hkey
      exact ⟨entry.2, hmeasured entry hentry⟩
    · rw [fill, if_neg hlength, hfound, htype]
      exact hlines
  -- A number is lacking: the problem is the one of the first such number.
  · refine .inl ⟨p, hlacks, ?_⟩
    rw [fill, if_neg hlength, hfailed]
    rfl

end Fill

end Template

end Accelerator

/-! ## Accelerator calls -/

/-- Nothing is written of an operation, and there is one report, of an error. -/
structure Outcome.Refuses (outcome : Outcome (List Stmt)) (code : String) (report : Diagnostic) :
    Prop where
  raised : outcome.raised = [report]
  code : report.code = some code
  error : report.isError = true
  value : outcome.value = []

/-- An accelerator call is written in these lines, without a report. No line has a brace, as the
placeholders have, or a line break. -/
structure Outcome.Writes (outcome : Outcome (List Stmt)) (lines : List String) : Prop where
  raised : outcome.raised = []
  text : ∀ depth, Code.stmtsText depth outcome.value = String.join (lines.map (Code.plainLine depth))
  plain : ∀ line ∈ lines, Code.Plain line

/-- What comes of an accelerator call at a place: it is refused for the number of its operands or for
a number of its calling sequence, or all of it is written. -/
inductive Accelerator.Template.AllOrNothing (template : Accelerator.Template) (values : Arena)
    (names : NameTable) (operands : List ValueId) (origin : Origin) (outcome : Outcome (List Stmt)) :
    Prop
  | miscounted (hcount : operands.length ≠ template.roles.length)
      (h : outcome.Refuses "E0105"
        ((Problem.roleCount template.routine template.roles operands.length).report origin))
  | lacking {p : Problem} (hcount : operands.length = template.roles.length)
      (hlacks : template.Lacks values operands p) (h : outcome.Refuses "E0200" (p.report origin))
  | written {lines : List String} (hcount : operands.length = template.roles.length)
      (hcomplete : ∀ p, ¬ template.Lacks values operands p)
      (hfills : ∀ others, template.Fills values names operands others ↔ others = lines)
      (h : outcome.Writes lines)

namespace Emission

variable {owner : Option Op} {op : Op} {scope : Scope} {t : NameTable} {kind : IpKind}

/-- The plan of an accelerator call is made of its lines. -/
theorem plan_accelerator (hkind : op.kind = .ip kind) : op.plan scope.values t owner = do
    let uses := op.operands.map (scope.values.use t)
    return .accelerator uses (← (Accelerator.Template.of kind).fill scope.values uses) := by
  unfold Op.plan Op.rule
  rw [hkind]
  exact if_pos (by simp [Counts.covers, OpKind.needs])

/-- A call whose calling sequence has a problem is refused. -/
theorem ofOp_accelerator_of_problem {p : Problem} (hkind : op.kind = .ip kind)
    (h : (Accelerator.Template.of kind).fill scope.values (op.operands.map (scope.values.use t)) =
      .error (.problem p)) (herror : p.severity = .error) :
    ((ofOp owner op).run scope t).names = t ∧ ((ofOp owner op).run scope t).overruns = [] ∧
      ((ofOp owner op).run scope t).Refuses p.code
        (p.report (Origin.at scope.function (some op))) := by
  have hplan : op.plan scope.values t owner = .error (.problem p) := by
    rw [plan_accelerator hkind]
    dsimp only
    rw [h]
    rfl
  rw [ofOp_eq, operation_run, hplan]
  exact ⟨rfl, rfl, rfl, rfl, decide_eq_true herror, rfl⟩

/-- A call whose template can be filled writes the filled lines and nothing else. -/
theorem ofOp_accelerator_of_fill {lines : List String} (hkind : op.kind = .ip kind)
    (h : (Accelerator.Template.of kind).fill scope.values (op.operands.map (scope.values.use t)) =
      .ok lines) (hplain : ∀ line ∈ lines, Code.Plain line) :
    ((ofOp owner op).run scope t).names = t ∧ ((ofOp owner op).run scope t).overruns = [] ∧
      ((ofOp owner op).run scope t).Writes lines := by
  have hplan : op.plan scope.values t owner =
      .ok (.accelerator (op.operands.map (scope.values.use t)) lines) := by
    rw [plan_accelerator hkind]
    dsimp only
    rw [h]
    rfl
  rw [ofOp_of_plan hplan]
  exact ⟨rfl, rfl, rfl, fun depth => String.append_empty, hplain⟩

/-- The report of an open placeholder is not the one of a call with the wrong number of operands. -/
theorem openPlaceholder_ne {routine key : String} {origin : Origin} {roles : List String}
    {operands : Nat} : (Problem.openPlaceholder routine key).report origin ≠
      (Problem.roleCount routine roles operands).report origin := by
  intro h
  have hmessage : routine ++ " template has unresolved placeholder `" ++ key ++ "`" =
      routine ++ " expects " ++ toString roles.length ++ " operands ("
        ++ ", ".intercalate roles ++ "); found " ++ toString operands :=
    congrArg Diagnostic.message h
  obtain ⟨rest, hopen⟩ : ∃ rest,
      " template has unresolved placeholder `".toList = ' ' :: 't' :: rest := ⟨_, rfl⟩
  obtain ⟨rest', hcount⟩ : ∃ rest, " expects ".toList = ' ' :: 'e' :: rest := ⟨_, rfl⟩
  have hchars := congrArg String.toList hmessage
  simp only [String.toList_append, List.append_assoc, hopen, hcount, List.append_cancel_left_eq]
    at hchars
  cases hchars

/-- An accelerator call is refused as a whole or written as a whole. It gives no names, and no
placeholder of it is ever left over. Its operands are in the table: a module that mentions any other
value is not emitted at all. -/
theorem ofOp_accelerator (hkind : op.kind = .ip kind)
    (hknown : ∀ id ∈ op.operands, (scope.values.info? id).isSome) :
    ((ofOp owner op).run scope t).names = t ∧ ((ofOp owner op).run scope t).overruns = [] ∧
      (Accelerator.Template.of kind).AllOrNothing scope.values t op.operands
        (Origin.at scope.function (some op)) ((ofOp owner op).run scope t) ∧
      ∀ key, (Problem.openPlaceholder (Accelerator.Template.of kind).routine key).report
        (Origin.at scope.function (some op)) ∉ ((ofOp owner op).run scope t).raised := by
  -- Three cases, as the call is checked: the count of the operands, then the numbers, then the
  -- lines.
  by_cases hcount : op.operands.length = (Accelerator.Template.of kind).roles.length
  · rcases Accelerator.Template.fill_cases t hcount hknown with
      ⟨p, hlacks, hfill⟩ | ⟨hcomplete, lines, hfill, hplain, hfills⟩
    · obtain ⟨hcode, herror⟩ := hlacks.code
      obtain ⟨hnames, hoverruns, hrefuses⟩ := ofOp_accelerator_of_problem hkind hfill herror
      rw [hcode] at hrefuses
      refine ⟨hnames, hoverruns, .lacking hcount hlacks hrefuses, fun key hraised => ?_⟩
      rw [hrefuses.raised, List.mem_singleton] at hraised
      -- The one report is E0200, an open placeholder would be E0105.
      have hopen : some "E0105" = some "E0200" := by
        rw [← hrefuses.code, ← hraised]
        rfl
      exact absurd hopen (by decide)
    · obtain ⟨hnames, hoverruns, hwrites⟩ := ofOp_accelerator_of_fill hkind hfill hplain
      refine ⟨hnames, hoverruns, .written hcount hcomplete hfills hwrites, fun key hraised => ?_⟩
      rw [hwrites.raised] at hraised
      cases hraised
  -- With another count of operands the template is not looked at.
  · have hfill : (Accelerator.Template.of kind).fill scope.values
        (op.operands.map (scope.values.use t)) = .error (.problem (.roleCount
          (Accelerator.Template.of kind).routine (Accelerator.Template.of kind).roles
          op.operands.length)) := by
      rw [Accelerator.Template.fill, List.length_map, if_pos hcount]
      rfl
    obtain ⟨hnames, hoverruns, hrefuses⟩ := ofOp_accelerator_of_problem hkind hfill rfl
    refine ⟨hnames, hoverruns, .miscounted hcount hrefuses, fun key hraised => ?_⟩
    rw [hrefuses.raised, List.mem_singleton] at hraised
    exact openPlaceholder_ne hraised

/-! ### A product of matrices -/

/-- Two factors, and matrices with these numbers of rows, of common entries and of columns. -/
def matrices (rows common columns : Int64) : Arena :=
  let matrix (height width : Int64) : ValueInfo :=
    { elem := .f64, shape := .ranked [some height, some width] }
  let factor (value : Int64) : ValueInfo := { elem := .f64, constant := some (.int value) }
  #[factor 2, factor 3, matrix rows common, matrix common columns, matrix rows columns,
    matrix rows columns]

def productCall : Op where
  kind := .ip .gemm
  operands := [⟨0⟩, ⟨1⟩, ⟨2⟩, ⟨3⟩, ⟨4⟩, ⟨5⟩]

/-- A matrix product of known operands, for which the calling sequence is filled. -/
theorem productCall_accelerator :
    productCall.kind = .ip .gemm ∧
      (∀ id ∈ productCall.operands, ((matrices 8 5 6).info? id).isSome) ∧
      ((ofOp none productCall).run ⟨matrices 8 5 6, none⟩ .empty).names = .empty ∧
      ((ofOp none productCall).run ⟨matrices 8 5 6, none⟩ .empty).overruns = [] ∧
      (Accelerator.Template.of .gemm).AllOrNothing (matrices 8 5 6) .empty productCall.operands
        (Origin.at none (some productCall))
        ((ofOp none productCall).run ⟨matrices 8 5 6, none⟩ .empty) ∧
      ∀ key, (Problem.openPlaceholder (Accelerator.Template.of .gemm).routine key).report
        (Origin.at none (some productCall)) ∉
          ((ofOp none productCall).run ⟨matrices 8 5 6, none⟩ .empty).raised := by
  have hknown : ∀ id ∈ productCall.operands, ((matrices 8 5 6).info? id).isSome := by decide
  exact ⟨rfl, hknown, ofOp_accelerator rfl hknown⟩

/-- The largest square whose entries can be counted, and the next one. -/
example :
    let found (n : Int64) := (Accelerator.Template.of .gemm).extentsFrom (matrices n 5 n)
      (productCall.operands.map ((matrices n 5 n).use .empty)) []
      (Accelerator.Template.of .gemm).extents
    found 3037000499 =
        .ok [("m", 3037000499), ("k", 5), ("n", 3037000499), ("mn", 9223372030926249001)] ∧
      found 3037000500 = .error (.problem (.extentOverflow "gemm" "mn" "m" "n")) :=
  ⟨rfl, rfl⟩

end Emission

end HlsEmit
