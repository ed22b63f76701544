import HlsEmit.Proofs.Formatting
import HlsEmit.Proofs.Json.Finite
import HlsEmit.Proofs.RoundTrip

/-!
# Printing a model that was read

The written text of a module has every field, so it can be nested deeper than the text the module was
read from, by two brackets at most: those of an operation's attributes and of their list of
reductions. Where the nesting limit leaves room for them, the printed texts are read back.

## Key results

- `Module.depth_toJson_le`: a written module is nested at most two brackets deeper than its text
- `Module.parse_printed`: what is printed of an accepted text is accepted and gives the module again
-/

namespace HlsEmit

open Json

variable {α : Type}

/-! ## Names without content -/

/-- A kind of memory is printed at most two brackets deeper than it was read. -/
theorem MemoryKind.deepens : MemoryKind.schema.Deepens 2 fun kind => kind.toJson.depth :=
  .flat fun kind => by cases kind <;> rfl

/-- A kind of partition is printed at most two brackets deeper than it was read. -/
theorem PartitionKind.deepens : PartitionKind.schema.Deepens 2 fun kind => kind.toJson.depth :=
  .flat fun kind => by cases kind <;> rfl

/-- A reduction is printed at most two brackets deeper than it was read. -/
theorem ReductionKind.deepens : ReductionKind.schema.Deepens 2 fun kind => kind.toJson.depth :=
  .flat fun kind => by cases kind <;> rfl

/-- An operator of two operands is printed at most two brackets deeper than it was read. -/
theorem BinaryOp.deepens : BinaryOp.schema.Deepens 2 fun op => op.toJson.depth :=
  .flat fun op => by cases op <;> rfl

/-- An operator of one operand is printed at most two brackets deeper than it was read. -/
theorem UnaryOp.deepens : UnaryOp.schema.Deepens 2 fun op => op.toJson.depth :=
  .flat fun op => by cases op <;> rfl

/-- A comparison of reals is printed at most two brackets deeper than it was read. -/
theorem CmpFPredicate.deepens : CmpFPredicate.schema.Deepens 2 fun predicate => predicate.toJson.depth :=
  .flat fun predicate => by cases predicate <;> rfl

/-- A comparison of integers is printed at most two brackets deeper than it was read. -/
theorem CmpIPredicate.deepens : CmpIPredicate.schema.Deepens 2 fun predicate => predicate.toJson.depth :=
  .flat fun predicate => by cases predicate <;> rfl

/-- A kind of cast is printed at most two brackets deeper than it was read. -/
theorem CastKind.deepens : CastKind.schema.Deepens 2 fun kind => kind.toJson.depth :=
  .flat fun kind => by cases kind <;> rfl

/-- A kind of accelerator is printed at most two brackets deeper than it was read. -/
theorem IpKind.deepens : IpKind.schema.Deepens 2 fun kind => kind.toJson.depth :=
  .flat fun kind => by cases kind <;> rfl

/-! ## Values -/

/-- An integer is printed at most two brackets deeper than it was read. -/
theorem int64_deepens : Schema.int64.Deepens 2 fun n => (ofInt64 n).depth :=
  .flat fun _ => rfl

/-- A natural number is printed at most two brackets deeper than it was read. -/
theorem uint32_deepens : Schema.uint32.Deepens 2 fun n => (ofUInt32 n).depth :=
  .flat fun _ => rfl

/-- A truth value is printed at most two brackets deeper than it was read. -/
theorem flag_deepens : Schema.flag.Deepens 2 fun flag => (Json.bool flag).depth :=
  .flat fun _ => rfl

/-- A text is printed at most two brackets deeper than it was read. -/
theorem text_deepens : Schema.text.Deepens 2 fun s => (Json.text s).depth :=
  .flat fun _ => rfl

/-- An identifier is printed at most two brackets deeper than it was read. -/
theorem ValueId.deepens : ValueId.schema.Deepens 2 fun id => id.toJson.depth :=
  .flat fun _ => rfl

/-- A type of elements is printed at most two brackets deeper than it was read. -/
theorem ElemType.deepens : ElemType.schema.Deepens 2 fun elem => elem.toJson.depth :=
  .choice <| .bareName rfl <| .bareName rfl <| .bareName rfl <| .bareName rfl <| .bareName rfl <|
    .bareName rfl <| .record (.required uint32_deepens <| .required flag_deepens .nil)
      (fun _ => (depth_tagged_object _ _).le) .nil

/-- A shape is printed at most two brackets deeper than it was read. -/
theorem Shape.deepens : Shape.schema.Deepens 2 fun shape => shape.toJson.depth :=
  .choice <| .bareName rfl <|
    .holding (.list (.optional int64_deepens)) (fun _ => (depth_tagged _ _).le) <|
    .bareName rfl .nil

/-- The partition of a dimension is printed at most two brackets deeper than it was read. -/
theorem DimPartition.deepens : DimPartition.schema.Deepens 2 fun part => part.toJson.depth :=
  .record (.required PartitionKind.deepens <| .required int64_deepens .nil) fun _ => le_rfl

/-- A layout is printed at most two brackets deeper than it was read. -/
theorem PartitionLayout.deepens :
    PartitionLayout.schema.Deepens 2 fun layout => layout.toJson.depth :=
  .record (.required (.list DimPartition.deepens) .nil) fun _ => le_rfl

/-- A literal is printed at most two brackets deeper than it was read, by induction on the nesting
that is left. -/
theorem Literal.deepens : (depth : Nat) →
    (Literal.schema depth).Deepens 2 fun literal => literal.toJson.depth
  | 0 => .beyondLimit
  | depth + 1 =>
    .choice <| .holding (.flat fun x => rfl) (fun _ => (depth_tagged _ _).le) <|
      .holding int64_deepens (fun _ => (depth_tagged _ _).le) <|
      .holding flag_deepens (fun _ => (depth_tagged _ _).le) <|
      .holding (.list (Literal.deepens depth))
        (fun elements => by rw [Literal.toJson, literalsToJson_eq]; exact (depth_tagged _ _).le) <|
      .holding text_deepens (fun _ => (depth_tagged _ _).le) .nil

/-- What is known of a value is printed at most two brackets deeper than it was read, with all fields
written. -/
theorem ValueInfo.deepens : ValueInfo.schema.Deepens 2 fun info => info.toJson.depth :=
  .record (.required ElemType.deepens <| .required Shape.deepens <|
    .defaulted MemoryKind.deepens (Nat.zero_le _) <|
    .defaulted (.optional PartitionLayout.deepens) (Nat.zero_le _) <|
    .defaulted (.optional (Literal.deepens nestingLimit)) (Nat.zero_le _) .nil) fun _ => le_rfl

/-! ## Affine expressions, maps and sets -/

/-- An affine expression is printed at most two brackets deeper than it was read, by induction on
the nesting that is left. -/
theorem AffineExpr.deepens : (depth : Nat) →
    (AffineExpr.schema depth).Deepens 2 fun expr => expr.toJson.depth
  | 0 => .beyondLimit
  | depth + 1 => by
    have hoperands : (Fields.cons "lhs" (AffineExpr.schema depth) none <|
        .cons "rhs" (AffineExpr.schema depth) none .nil).Deepens 2
          fun operands => depthOfItems [operands.1.toJson, operands.2.1.toJson] :=
      .required (AffineExpr.deepens depth) <| .required (AffineExpr.deepens depth) .nil
    exact .choice <| .holding uint32_deepens (fun _ => (depth_tagged _ _).le) <|
      .holding uint32_deepens (fun _ => (depth_tagged _ _).le) <|
      .holding int64_deepens (fun _ => (depth_tagged _ _).le) <|
      .tuple hoperands (fun _ => (depth_tagged_list _ _).le) <|
      .tuple hoperands (fun _ => (depth_tagged_list _ _).le) <|
      .tuple hoperands (fun _ => (depth_tagged_list _ _).le) <|
      .tuple hoperands (fun _ => (depth_tagged_list _ _).le) <|
      .tuple hoperands (fun _ => (depth_tagged_list _ _).le) .nil

/-- A map is printed at most two brackets deeper than it was read. -/
theorem AffineMap.deepens : AffineMap.schema.Deepens 2 fun map => map.toJson.depth :=
  .record (.defaulted uint32_deepens (Nat.zero_le _) <| .defaulted uint32_deepens (Nat.zero_le _) <|
    .required (.list (AffineExpr.deepens nestingLimit)) .nil) fun _ => le_rfl

/-- Identifiers are printed at most two brackets deeper than they were read. -/
theorem ValueId.deepens_list :
    (Schema.list ValueId.schema).Deepens 2 fun ids => (ofList ValueId.toJson ids).depth :=
  .list ValueId.deepens

/-- A bound is printed at most two brackets deeper than it was read. -/
theorem AffineBound.deepens : AffineBound.schema.Deepens 2 fun bound => bound.toJson.depth :=
  .record (.required AffineMap.deepens <| .defaulted ValueId.deepens_list (by decide) .nil)
    fun _ => le_rfl

/-- A set is printed at most two brackets deeper than it was read. -/
theorem IntegerSet.deepens : IntegerSet.schema.Deepens 2 fun set => set.toJson.depth :=
  .record (.defaulted uint32_deepens (Nat.zero_le _) <| .defaulted uint32_deepens (Nat.zero_le _) <|
    .required (.list (AffineExpr.deepens nestingLimit)) <| .required (.list flag_deepens) .nil)
    fun _ => le_rfl

/-! ## Operations -/

/-- A kind of operation is printed at most two brackets deeper than it was read. -/
theorem OpKind.deepens : OpKind.schema.Deepens 2 fun kind => kind.toJson.depth := by
  have hmap : mapField.Deepens 2 fun fields => depthOfMembers [("map", fields.1.toJson)] :=
    .required AffineMap.deepens .nil
  -- Kinds without fields are bare names; the others are records under their names.
  exact .choice <| .bareName rfl <| .bareName rfl <| .bareName rfl <|
    .record (.required AffineBound.deepens <| .required AffineBound.deepens <|
      .required int64_deepens .nil) (fun _ => (depth_tagged_object _ _).le) <|
    .record (.required IntegerSet.deepens .nil) (fun _ => (depth_tagged_object _ _).le) <|
    .record (.required AffineBound.deepens <| .required AffineBound.deepens <|
      .required (.list int64_deepens) .nil) (fun _ => (depth_tagged_object _ _).le) <|
    .record hmap (fun _ => (depth_tagged_object _ _).le) <|
    .record hmap (fun _ => (depth_tagged_object _ _).le) <|
    .record hmap (fun _ => (depth_tagged_object _ _).le) <|
    .record hmap (fun _ => (depth_tagged_object _ _).le) <|
    .record hmap (fun _ => (depth_tagged_object _ _).le) <|
    .bareName rfl <| .bareName rfl <| .bareName rfl <| .bareName rfl <| .bareName rfl <|
    .bareName rfl <| .bareName rfl <| .bareName rfl <| .bareName rfl <| .bareName rfl <|
    .bareName rfl <|
    .record (.required BinaryOp.deepens .nil) (fun _ => (depth_tagged_object _ _).le) <|
    .record (.required UnaryOp.deepens .nil) (fun _ => (depth_tagged_object _ _).le) <|
    .record (.required CmpFPredicate.deepens .nil) (fun _ => (depth_tagged_object _ _).le) <|
    .record (.required CmpIPredicate.deepens .nil) (fun _ => (depth_tagged_object _ _).le) <|
    .bareName rfl <| .bareName rfl <|
    .record (.required CastKind.deepens .nil) (fun _ => (depth_tagged_object _ _).le) <|
    .record (.required text_deepens .nil) (fun _ => (depth_tagged_object _ _).le) <|
    .bareName rfl <| .bareName rfl <| .bareName rfl <|
    .record (.required IpKind.deepens .nil) (fun _ => (depth_tagged_object _ _).le) <|
    .record (.required text_deepens .nil) (fun _ => (depth_tagged_object _ _).le) <|
    .record (.required text_deepens .nil) (fun _ => (depth_tagged_object _ _).le) .nil

/-- An integer that may be absent is printed at most two brackets deeper than it was read. -/
theorem optional_int64_deepens :
    (Schema.optional .int64).Deepens 2 fun value => (ofOption ofInt64 value).depth :=
  .optional int64_deepens

/-- A source line is printed at most two brackets deeper than it was read. -/
theorem line_deepens :
    (Schema.optional .uint32).Deepens 2 fun line => (ofOption ofUInt32 line).depth :=
  .optional uint32_deepens

/-- The attributes of an operation are printed no deeper than two levels below the place where they
stand. -/
theorem OpAttrs.deepens : OpAttrs.schema.Deepens 2 fun attrs => attrs.toJson.depth :=
  .record (.defaulted flag_deepens (Nat.zero_le _) <|
    .defaulted optional_int64_deepens (Nat.zero_le _) <|
    .defaulted flag_deepens (Nat.zero_le _) <|
    .defaulted (.optional flag_deepens) (Nat.zero_le _) <|
    .defaulted optional_int64_deepens (Nat.zero_le _) <|
    .defaulted optional_int64_deepens (Nat.zero_le _) <|
    .defaulted optional_int64_deepens (Nat.zero_le _) <|
    .defaulted optional_int64_deepens (Nat.zero_le _) <|
    .defaulted (.list ReductionKind.deepens) (by decide) .nil) fun _ => le_rfl

/-- The attributes of a function are printed no deeper than two levels below the place where they
stand. -/
theorem FuncAttrs.deepens : FuncAttrs.schema.Deepens 2 fun attrs => attrs.toJson.depth :=
  .record (.defaulted flag_deepens (Nat.zero_le _) <|
    .defaulted flag_deepens (Nat.zero_le _) <| .defaulted flag_deepens (Nat.zero_le _) <|
    .defaulted optional_int64_deepens (Nat.zero_le _) <|
    .defaulted optional_int64_deepens (Nat.zero_le _) <|
    .defaulted optional_int64_deepens (Nat.zero_le _) <|
    .defaulted optional_int64_deepens (Nat.zero_le _) .nil) fun _ => le_rfl

/-- A block is printed at most two brackets deeper than it was read if its operations are. -/
theorem block_deepens {schema : Schema Op} (h : schema.Deepens 2 fun op => op.toJson.depth) :
    (blockSchema schema).Deepens 2 fun block => (blockToJson block).depth :=
  .record (.defaulted ValueId.deepens_list (by decide) <| .defaulted (.list h) (by decide) .nil)
    fun (args, ops, ()) => by rw [blockToJson, opsToJson_eq]; exact le_rfl

/-- An operation is printed at most two brackets deeper than it was read, by induction on the
nesting that is left. -/
theorem Op.deepens : (depth : Nat) → (Op.schema depth).Deepens 2 fun op => op.toJson.depth
  | 0 => .beyondLimit
  | depth + 1 =>
    .record (.required OpKind.deepens <| .defaulted ValueId.deepens_list (by decide) <|
      .defaulted ValueId.deepens_list (by decide) <| .defaulted OpAttrs.deepens (by decide) <|
      .defaulted (.list (block_deepens (Op.deepens depth))) (by decide) <|
      .defaulted line_deepens (Nat.zero_le _) .nil)
      fun (_, _, _, _, regions, _, ()) => by rw [Op.toJson, blocksToJson_eq]; exact le_rfl

/-! ## Functions and modules -/

/-- A function is printed at most two brackets deeper than it was read. -/
theorem Function.deepens : Function.schema.Deepens 2 fun function => function.toJson.depth :=
  .record (.required text_deepens <| .defaulted ValueId.deepens_list (by decide) <|
    .defaulted FuncAttrs.deepens (by decide) <|
    .required (.list (block_deepens (Op.deepens nestingLimit))) <|
    .defaulted line_deepens (Nat.zero_le _) .nil)
    fun (_, _, _, blocks, _, ()) => by rw [Function.toJson, blocksToJson_eq]; exact le_rfl

/-- A module is printed at most two brackets deeper than it was read. -/
theorem Module.deepens : Module.schema.Deepens 2 fun module => module.toJson.depth :=
  .record (.required (.list ValueInfo.deepens) <| .required (.list Function.deepens) .nil)
    fun _ => le_rfl

/-! ## Finite literals -/

/-- A literal that has been read is finite. -/
theorem Literal.yields_finite : (depth : Nat) →
    (Literal.schema depth).Yields fun _ literal => literal.isFinite = true
  | 0 => .beyondLimit
  | depth + 1 =>
    .choice <| .holding real_yields_finite (fun _ _ hfinite => hfinite) <|
      .holding .anything (fun _ _ _ => rfl) <| .holding .anything (fun _ _ _ => rfl) <|
      .holding (.list (Literal.yields_finite depth))
        (fun _ elements helements => by
          obtain ⟨_, -, hfinite⟩ := helements
          exact literalsFinite_iff.2 hfinite) <|
      .holding .anything (fun _ _ _ => rfl) .nil

/-- The constant of a value that has been read is finite. -/
theorem ValueInfo.yields_finite :
    ValueInfo.schema.Yields fun _ info => ∀ literal ∈ info.constant, literal.isFinite = true :=
  .record (.cons .anything (fun _ _ _ => trivial) <| .cons .anything (fun _ _ _ => trivial) <|
    .cons .anything (fun _ _ _ => trivial) <| .cons .anything (fun _ _ _ => trivial) <|
    .cons (.optional (Literal.yields_finite nestingLimit))
      (fun given hgiven _ literal hliteral => by cases hgiven; cases hliteral) .nil)
    fun _ _ h => h.2.2.2.2.1

/-- Every float literal of a module that is read is finite. -/
theorem Module.yields_finite : Module.schema.Yields fun _ module => module.LiteralsFinite :=
  .record (.cons (.list ValueInfo.yields_finite) (fun _ hnone => by cases hnone) <|
    .cons .anything (fun _ _ _ => trivial) .nil)
    fun _ (values, _, ()) h info hinfo => by
      obtain ⟨⟨_, -, hvalues⟩, -⟩ := h
      exact hvalues info (by simpa using hinfo)

/-! ## Printed texts are read back -/

namespace Module

variable {source : String} {module : Module}

/-- The literals of a module that has been read are finite. -/
theorem literalsFinite_of_parse (h : Module.parse source = .ok module) : module.LiteralsFinite := by
  obtain ⟨tree, ⟨-, hdecode⟩, -⟩ := parse_document h
  exact yields_finite.holds hdecode le_rfl

/-- A written module is nested at most two brackets deeper than the text it was read from. -/
theorem depth_toJson_le (h : Module.parse source = .ok module) {tree : Tree}
    (hwritten : tree.WrittenAs source) : module.toJson.depth ≤ tree.depth + 2 :=
  deepens.yields.holds (decode_of_parse h hwritten) le_rfl

/-- What is printed of an accepted text is read back, if the module's document has room. -/
theorem parse_printed (h : Module.parse source = .ok module)
    (hdepth : module.toJson.depth ≤ nestingLimit) :
    Module.parse module.canonical = .ok module ∧ Module.parse module.pretty = .ok module :=
  ⟨parse_spelling (literalsFinite_of_parse h) hdepth (spells_compact _),
    parse_spelling (literalsFinite_of_parse h) hdepth (spells_pretty 0 _)⟩

/-- It has room if the text leaves two brackets of the limit. -/
theorem parse_printed_of_room (h : Module.parse source = .ok module) {tree : Tree}
    (hwritten : tree.WrittenAs source) (hroom : tree.depth + 2 ≤ nestingLimit) :
    Module.parse module.canonical = .ok module ∧ Module.parse module.pretty = .ok module :=
  parse_printed h ((depth_toJson_le h hwritten).trans hroom)

end Module

end HlsEmit
