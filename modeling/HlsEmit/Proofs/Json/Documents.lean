import HlsEmit.Model.Document
import HlsEmit.Proofs.Json.Schemas

/-!
# The documents of a model read back

For every type of the model, its schema reads every spelling of a value's document as the value. Types
that contain themselves are read by schemas of a given depth; there the document must not be nested
deeper than that.

## Key results

- `Literal.reads`, `AffineExpr.reads`, `Op.reads`: the types that contain themselves
- `Module.reads`: modules whose float literals are finite
-/

namespace HlsEmit

open Json

variable {α : Type}

/-! ## Finite float literals -/

mutual

/-- Whether all floats in a constant's content are finite. -/
def Literal.isFinite : Literal → Bool
  | .float value => value.isFinite
  | .int _ | .bool _ | .str _ => true
  | .dense elements => literalsFinite elements
termination_by structural literal => literal

/-- Whether all floats in some contents are finite. -/
def literalsFinite : List Literal → Bool
  | [] => true
  | literal :: rest => literal.isFinite && literalsFinite rest
termination_by structural literals => literals

end

/-- Every float literal of the module is finite. -/
def Module.LiteralsFinite (module : Module) : Prop :=
  ∀ info ∈ module.values.toList, ∀ literal ∈ info.constant, literal.isFinite = true

instance (module : Module) : Decidable module.LiteralsFinite :=
  inferInstanceAs (Decidable (∀ info ∈ module.values.toList, ∀ literal ∈ info.constant, _))

/-- A list of literals is finite if each literal is. -/
theorem literalsFinite_iff {literals : List Literal} :
    literalsFinite literals = true ↔ ∀ literal ∈ literals, literal.isFinite = true := by
  induction literals with
  | nil => simp [literalsFinite]
  | cons literal rest ih => simp [literalsFinite, ih]

/-! ## Documents of lists -/

/-- Literals are written one by one. -/
theorem literalsToJson_eq (literals : List Literal) :
    literalsToJson literals = literals.map Literal.toJson := by
  induction literals with
  | nil => rfl
  | cons literal rest ih => rw [literalsToJson, ih, List.map_cons]

/-- Operations are written one by one. -/
theorem opsToJson_eq (ops : List Op) : opsToJson ops = ops.map Op.toJson := by
  induction ops with
  | nil => rfl
  | cons op rest ih => rw [opsToJson, ih, List.map_cons]

/-- Blocks are written one by one. -/
theorem blocksToJson_eq (blocks : List Block) : blocksToJson blocks = blocks.map blockToJson := by
  induction blocks with
  | nil => rfl
  | cons block rest ih => rw [blocksToJson, ih, List.map_cons]

/-- A list reads back if each item does. -/
theorem reads_map {schema : Schema α} {write : α → Json} {items : List α}
    (h : ∀ item ∈ items, schema.Reads (write item) item) :
    (Schema.list schema).Reads (.list (items.map write)) items := by
  refine reads_list (List.forall₂_map_left_iff.2 (List.forall₂_same.2 h))

/-- An optional value reads back if the value does and is not written as nothing. -/
theorem reads_ofOption {schema : Schema α} {write : α → Json} {value : Option α}
    (h : ∀ content ∈ value, schema.Reads (write content) content)
    (hnull : ∀ content, (write content).mayBeNull = false) :
    (Schema.optional schema).Reads (ofOption write value) value := by
  cases value with
  | none => exact reads_none schema
  | some content => exact reads_some (h content rfl) (hnull content)

/-! ## Names without content -/

/-- A kind of memory reads back from its name. -/
theorem MemoryKind.reads (kind : MemoryKind) : MemoryKind.schema.Reads kind.toJson kind := by
  cases kind <;> exact reads_bare rfl

/-- A kind of partition reads back from its name. -/
theorem PartitionKind.reads (kind : PartitionKind) :
    PartitionKind.schema.Reads kind.toJson kind := by
  cases kind <;> exact reads_bare rfl

/-- A kind of reduction reads back from its name. -/
theorem ReductionKind.reads (kind : ReductionKind) :
    ReductionKind.schema.Reads kind.toJson kind := by
  cases kind <;> exact reads_bare rfl

/-- A binary operator reads back from its name. -/
theorem BinaryOp.reads (op : BinaryOp) : BinaryOp.schema.Reads op.toJson op := by
  cases op <;> exact reads_bare rfl

/-- A unary operator reads back from its name. -/
theorem UnaryOp.reads (op : UnaryOp) : UnaryOp.schema.Reads op.toJson op := by
  cases op <;> exact reads_bare rfl

/-- A float predicate reads back from its name. -/
theorem CmpFPredicate.reads (predicate : CmpFPredicate) :
    CmpFPredicate.schema.Reads predicate.toJson predicate := by
  cases predicate <;> exact reads_bare rfl

/-- An integer predicate reads back from its name. -/
theorem CmpIPredicate.reads (predicate : CmpIPredicate) :
    CmpIPredicate.schema.Reads predicate.toJson predicate := by
  cases predicate <;> exact reads_bare rfl

/-- A kind of cast reads back from its name. -/
theorem CastKind.reads (kind : CastKind) : CastKind.schema.Reads kind.toJson kind := by
  cases kind <;> exact reads_bare rfl

/-- A kind of accelerator reads back from its name. -/
theorem IpKind.reads (kind : IpKind) : IpKind.schema.Reads kind.toJson kind := by
  cases kind <;> exact reads_bare rfl

/-! ## Values -/

/-- A value id reads back from its number. -/
theorem ValueId.reads (id : ValueId) : ValueId.schema.Reads id.toJson id :=
  reads_mapped (reads_uint32 id.number) ValueId.mk

/-- An element type reads back from its name, or from the alternative with its width. -/
theorem ElemType.reads (elem : ElemType) : ElemType.schema.Reads elem.toJson elem := by
  cases elem with
  | int width unsigned =>
    exact reads_alternative (by rfl) (.cons (reads_uint32 width) (.cons (reads_flag unsigned) .nil))
      (by decide) rfl
  | _ => exact reads_bare rfl

/-- A shape reads back from its alternative. -/
theorem Shape.reads (shape : Shape) : Shape.schema.Reads shape.toJson shape := by
  cases shape with
  | ranked extents =>
    exact reads_holding (by rfl) (reads_map fun extent _ =>
      reads_ofOption (fun size _ => reads_int64 size) fun _ => rfl) rfl
  | _ => exact reads_bare rfl

/-- The partition of a dimension reads back from its fields. -/
theorem DimPartition.reads (part : DimPartition) : DimPartition.schema.Reads part.toJson part :=
  reads_record (.cons part.kind.reads (.cons (reads_int64 part.factor) .nil)) (by decide) _ _

/-- A layout reads back from its dimensions. -/
theorem PartitionLayout.reads (layout : PartitionLayout) :
    PartitionLayout.schema.Reads layout.toJson layout :=
  reads_record (.cons (reads_map fun part _ => part.reads) .nil) (by decide) _ _

/-- A constant's content reads back by any schema that is deep enough for its document. -/
theorem Literal.reads {depth : Nat} {literal : Literal} (hfinite : literal.isFinite = true)
    (hdepth : literal.toJson.depth ≤ depth) : (Literal.schema depth).Reads literal.toJson literal := by
  induction depth generalizing literal with
  | zero => cases literal <;> simp [Literal.toJson, tagged, Json.depth] at hdepth
  | succ depth ih =>
    cases literal with
    | float value => exact reads_holding (by rfl) (reads_real hfinite) rfl
    | int value => exact reads_holding (by rfl) (reads_int64 value) rfl
    | bool value => exact reads_holding (by rfl) (reads_flag value) rfl
    | str value => exact reads_holding (by rfl) (reads_text value) rfl
    | dense elements =>
      rw [Literal.isFinite, literalsFinite_iff] at hfinite
      rw [Literal.toJson, tagged, literalsToJson_eq] at hdepth ⊢
      simp only [Json.depth, depthOfMembers, Nat.max_le, Nat.add_le_add_iff_right] at hdepth
      refine reads_holding (by rfl) (reads_map fun element hmem => ih (hfinite element hmem) ?_) rfl
      exact depthOfItems_le.1 (Nat.le_of_succ_le hdepth.1) _ (List.mem_map_of_mem hmem)

/-- An entry of the value table with a finite constant. -/
theorem ValueInfo.reads {info : ValueInfo}
    (hfinite : ∀ literal ∈ info.constant, literal.isFinite = true)
    (hdepth : info.toJson.depth ≤ nestingLimit) : ValueInfo.schema.Reads info.toJson info := by
  have hconstant (literal : Literal) (hliteral : literal ∈ info.constant) :
      (Literal.schema nestingLimit).Reads literal.toJson literal := by
    refine Literal.reads (hfinite literal hliteral) ?_
    have hmember := depthOfMembers_le.1 (Nat.le_of_succ_le hdepth)
      ("constant", ofOption Literal.toJson info.constant) (by simp)
    rwa [Option.mem_def.1 hliteral] at hmember
  exact reads_record
    (.cons info.elem.reads <| .cons info.shape.reads <| .cons info.memory.reads <|
      .cons (reads_ofOption (fun layout _ => layout.reads) fun _ => rfl) <|
      .cons (reads_ofOption hconstant fun literal => by cases literal <;> rfl) .nil)
    (by decide) _ _

/-! ## Affine expressions, maps and sets -/

/-- An affine expression reads back by any schema that is deep enough for its document. -/
theorem AffineExpr.reads {depth : Nat} {expr : AffineExpr} (hdepth : expr.toJson.depth ≤ depth) :
    (AffineExpr.schema depth).Reads expr.toJson expr := by
  induction depth generalizing expr with
  | zero => cases expr <;> simp [AffineExpr.toJson, tagged, Json.depth] at hdepth
  | succ depth ih =>
    -- Both operands are less deep than the expression, so they read back one level further in.
    have hoperands {name : String} {a b : AffineExpr}
        (h : (tagged name (.list [a.toJson, b.toJson])).depth ≤ depth + 1) :
        (Fields.cons "lhs" (AffineExpr.schema depth) none
          (.cons "rhs" (AffineExpr.schema depth) none .nil)).Reads
          [("lhs", a.toJson), ("rhs", b.toJson)] (a, b, ()) := by
      simp only [tagged, Json.depth, depthOfMembers, depthOfItems] at h
      exact .cons (ih (by omega)) (.cons (ih (by omega)) .nil)
    cases expr with
    | dim position => exact reads_holding (by rfl) (reads_uint32 position) rfl
    | symbol position => exact reads_holding (by rfl) (reads_uint32 position) rfl
    | constant value => exact reads_holding (by rfl) (reads_int64 value) rfl
    | add a b => exact reads_tuple (by rfl) (hoperands hdepth) rfl rfl
    | mul a b => exact reads_tuple (by rfl) (hoperands hdepth) rfl rfl
    | mod a b => exact reads_tuple (by rfl) (hoperands hdepth) rfl rfl
    | floorDiv a b => exact reads_tuple (by rfl) (hoperands hdepth) rfl rfl
    | ceilDiv a b => exact reads_tuple (by rfl) (hoperands hdepth) rfl rfl

/-- The results of a map read back. -/
theorem reads_exprs {exprs : List AffineExpr}
    (hdepth : ∀ expr ∈ exprs, expr.toJson.depth ≤ nestingLimit) :
    (Schema.list AffineExpr.anySchema).Reads (ofList AffineExpr.toJson exprs) exprs :=
  reads_map fun expr hexpr => AffineExpr.reads (hdepth expr hexpr)

/-- A map reads back from its fields. -/
theorem AffineMap.reads {map : AffineMap} (hdepth : map.toJson.depth ≤ nestingLimit) :
    AffineMap.schema.Reads map.toJson map := by
  have hresults (expr : AffineExpr) (hexpr : expr ∈ map.results) :
      expr.toJson.depth ≤ nestingLimit := by
    have hmember := depthOfMembers_le.1 (Nat.le_of_succ_le hdepth)
      ("results", ofList AffineExpr.toJson map.results) (by simp)
    exact depthOfItems_le.1 (Nat.le_of_succ_le hmember) _ (List.mem_map_of_mem hexpr)
  exact reads_record
    (.cons (reads_uint32 map.dims) <| .cons (reads_uint32 map.symbols) <|
      .cons (reads_exprs hresults) .nil)
    (by decide) _ _

/-- A list of value ids reads back. -/
theorem ValueId.reads_list (ids : List ValueId) :
    (Schema.list ValueId.schema).Reads (ofList ValueId.toJson ids) ids :=
  reads_map fun id _ => id.reads

/-- A bound reads back from its map and its operands. -/
theorem AffineBound.reads {bound : AffineBound} (hdepth : bound.toJson.depth ≤ nestingLimit) :
    AffineBound.schema.Reads bound.toJson bound := by
  have hmap := depthOfMembers_le.1 (Nat.le_of_succ_le hdepth) ("map", bound.map.toJson) (by simp)
  exact reads_record (.cons (AffineMap.reads hmap) <| .cons (ValueId.reads_list _) .nil)
    (by decide) _ _

/-- A set reads back from its constraints. -/
theorem IntegerSet.reads {set : IntegerSet} (hdepth : set.toJson.depth ≤ nestingLimit) :
    IntegerSet.schema.Reads set.toJson set := by
  have hconstraints (expr : AffineExpr) (hexpr : expr ∈ set.constraints) :
      expr.toJson.depth ≤ nestingLimit := by
    have hmember := depthOfMembers_le.1 (Nat.le_of_succ_le hdepth)
      ("constraints", ofList AffineExpr.toJson set.constraints) (by simp)
    exact depthOfItems_le.1 (Nat.le_of_succ_le hmember) _ (List.mem_map_of_mem hexpr)
  exact reads_record
    (.cons (reads_uint32 set.dims) <| .cons (reads_uint32 set.symbols) <|
      .cons (reads_exprs hconstraints) <| .cons (reads_map fun flag _ => reads_flag flag) .nil)
    (by decide) _ _

/-! ## Operations -/

/-- The contents of an operation kind are nested less deep than the kind. -/
theorem depth_member_le {name : String} {members : List (String × Json)} {n : Nat}
    (hdepth : (tagged name (.object members)).depth ≤ n) {key : String} {j : Json}
    (hmember : (key, j) ∈ members) : j.depth ≤ n := by
  simp only [tagged, Json.depth, depthOfMembers] at hdepth
  have hmembers : depthOfMembers members ≤ n := by omega
  exact depthOfMembers_le.1 hmembers (key, j) hmember

/-- A kind reads back from its alternative. -/
theorem OpKind.reads {kind : OpKind} (hdepth : kind.toJson.depth ≤ nestingLimit) :
    OpKind.schema.Reads kind.toJson kind := by
  -- Only the affine kinds hold documents of any depth; the others hold a name or nothing.
  cases kind with
  | affineFor lower upper step =>
    have hlower := AffineBound.reads (depth_member_le hdepth (.head _))
    have hupper := AffineBound.reads (depth_member_le hdepth (.tail _ (.head _)))
    exact reads_alternative (by rfl) (.cons hlower <| .cons hupper <| .cons (reads_int64 step) .nil)
      (by decide) rfl
  | affineIf set =>
    have hset := IntegerSet.reads (depth_member_le hdepth (.head _))
    exact reads_alternative (by rfl) (.cons hset .nil) (by decide) rfl
  | affineParallel lower upper steps =>
    have hlower := AffineBound.reads (depth_member_le hdepth (.head _))
    have hupper := AffineBound.reads (depth_member_le hdepth (.tail _ (.head _)))
    exact reads_alternative (by rfl)
      (.cons hlower <| .cons hupper <| .cons (reads_map fun step _ => reads_int64 step) .nil)
      (by decide) rfl
  | affineApply map | affineMax map | affineMin map | affineLoad map | affineStore map =>
    have hmap := AffineMap.reads (depth_member_le hdepth (.head _))
    exact reads_alternative (by rfl) (.cons hmap .nil) (by decide) rfl
  | binary op => exact reads_alternative (by rfl) (.cons op.reads .nil) (by decide) rfl
  | unary op => exact reads_alternative (by rfl) (.cons op.reads .nil) (by decide) rfl
  | cmpF predicate => exact reads_alternative (by rfl) (.cons predicate.reads .nil) (by decide) rfl
  | cmpI predicate => exact reads_alternative (by rfl) (.cons predicate.reads .nil) (by decide) rfl
  | cast kind => exact reads_alternative (by rfl) (.cons kind.reads .nil) (by decide) rfl
  | call callee => exact reads_alternative (by rfl) (.cons (reads_text callee) .nil) (by decide) rfl
  | ip kind => exact reads_alternative (by rfl) (.cons kind.reads .nil) (by decide) rfl
  | ipCall name => exact reads_alternative (by rfl) (.cons (reads_text name) .nil) (by decide) rfl
  | other name => exact reads_alternative (by rfl) (.cons (reads_text name) .nil) (by decide) rfl
  | _ => exact reads_bare (by rfl)

/-- An optional integer reads back. -/
theorem reads_optional_int64 (value : Option Int64) :
    (Schema.optional .int64).Reads (ofOption ofInt64 value) value :=
  reads_ofOption (fun n _ => reads_int64 n) fun _ => rfl

/-- The attributes of an operation read back. -/
theorem OpAttrs.reads (attrs : OpAttrs) : OpAttrs.schema.Reads attrs.toJson attrs :=
  reads_record
    (.cons (reads_flag _) <| .cons (reads_optional_int64 _) <| .cons (reads_flag _) <|
      .cons (reads_ofOption (fun flag _ => reads_flag flag) fun _ => rfl) <|
      .cons (reads_optional_int64 _) <| .cons (reads_optional_int64 _) <|
      .cons (reads_optional_int64 _) <| .cons (reads_optional_int64 _) <|
      .cons (reads_map fun kind _ => kind.reads) .nil)
    (by decide) _ _

/-- The attributes of a function read back. -/
theorem FuncAttrs.reads (attrs : FuncAttrs) : FuncAttrs.schema.Reads attrs.toJson attrs :=
  reads_record
    (.cons (reads_flag _) <| .cons (reads_flag _) <| .cons (reads_flag _) <|
      .cons (reads_optional_int64 _) <| .cons (reads_optional_int64 _) <|
      .cons (reads_optional_int64 _) <| .cons (reads_optional_int64 _) .nil)
    (by decide) _ _

/-- An optional line reads back. -/
theorem reads_line (line : Option UInt32) :
    (Schema.optional .uint32).Reads (ofOption ofUInt32 line) line :=
  reads_ofOption (fun n _ => reads_uint32 n) fun _ => rfl

/-- A block reads back if its operations do. -/
theorem reads_block {schema : Schema Op} {block : Block}
    (h : ∀ op ∈ block.ops, schema.Reads op.toJson op) :
    (blockSchema schema).Reads (blockToJson block) block := by
  obtain ⟨args, ops⟩ := block
  rw [blockToJson, opsToJson_eq]
  exact reads_record (.cons (ValueId.reads_list args) <| .cons (reads_map h) .nil)
    (of_decide_eq_true rfl) _ _

/-- The operations of a block are nested two brackets deeper than the block. -/
theorem depth_op_le {block : Block} {n : Nat} (hdepth : (blockToJson block).depth ≤ n) {op : Op}
    (hop : op ∈ block.ops) : op.toJson.depth + 2 ≤ n := by
  obtain ⟨args, ops⟩ := block
  rw [blockToJson, opsToJson_eq] at hdepth
  simp only [Json.depth, depthOfMembers] at hdepth
  have hops : op.toJson.depth ≤ depthOfItems (ops.map Op.toJson) :=
    depthOfItems_le.1 le_rfl _ (List.mem_map_of_mem hop)
  omega

/-- A block is no deeper than the list it is in. -/
theorem depth_block_le {blocks : List Block} {block : Block} (hblock : block ∈ blocks) :
    (blockToJson block).depth ≤ depthOfItems (blocks.map blockToJson) :=
  depthOfItems_le.1 le_rfl _ (List.mem_map_of_mem hblock)

/-- An operation reads back by any schema that is deep enough for its document. -/
theorem Op.reads {depth : Nat} {op : Op} (hdepth : op.toJson.depth ≤ depth)
    (hlimit : depth ≤ nestingLimit) : (Op.schema depth).Reads op.toJson op := by
  induction depth generalizing op with
  | zero => cases op; simp [Op.toJson, Json.depth] at hdepth
  | succ depth ih =>
    obtain ⟨kind, operands, results, attrs, regions, line⟩ := op
    rw [Op.toJson, blocksToJson_eq] at hdepth ⊢
    simp only [Json.depth, depthOfMembers] at hdepth
    have hkind : kind.toJson.depth ≤ nestingLimit := by omega
    -- A region is two levels inside of the operation, so its operations are less deep.
    have hregions (block : Block) (hblock : block ∈ regions) :
        (blockSchema (Op.schema depth)).Reads (blockToJson block) block := by
      refine reads_block fun op hop => ih ?_ (by omega)
      have hinner := depth_op_le (depth_block_le hblock) hop
      omega
    exact reads_record
      (.cons (OpKind.reads hkind) <| .cons (ValueId.reads_list _) <| .cons (ValueId.reads_list _) <|
        .cons attrs.reads <| .cons (reads_map hregions) <| .cons (reads_line line) .nil)
      (of_decide_eq_true rfl) _ _

/-! ## Functions and modules -/

/-- A function reads back from its fields. -/
theorem Function.reads {function : Function} (hdepth : function.toJson.depth ≤ nestingLimit) :
    Function.schema.Reads function.toJson function := by
  rw [Function.toJson, blocksToJson_eq] at hdepth ⊢
  simp only [Json.depth, depthOfMembers] at hdepth
  have hblocks (block : Block) (hblock : block ∈ function.blocks) :
      (blockSchema Op.anySchema).Reads (blockToJson block) block := by
    refine reads_block fun op hop => Op.reads ?_ le_rfl
    have hinner := depth_op_le (depth_block_le hblock) hop
    omega
  exact reads_record
    (.cons (reads_text _) <| .cons (ValueId.reads_list _) <| .cons function.attrs.reads <|
      .cons (reads_map hblocks) <| .cons (reads_line _) .nil)
    (of_decide_eq_true rfl) _ _

/-- A module whose float literals are finite and whose document is not nested too deep. -/
theorem Module.reads {module : Module} (hfinite : module.LiteralsFinite)
    (hdepth : module.toJson.depth ≤ nestingLimit) : Module.schema.Reads module.toJson module := by
  have hmember {name : String} {items : List Json} (h : (name, .list items) ∈
      [("values", ofList ValueInfo.toJson module.values.toList),
        ("functions", ofList Function.toJson module.functions)]) {item : Json} (hitem : item ∈ items) :
      item.depth ≤ nestingLimit := by
    have hitems := depthOfMembers_le.1 (Nat.le_of_succ_le hdepth) _ h
    exact depthOfItems_le.1 (Nat.le_of_succ_le hitems) item hitem
  have hvalues (info : ValueInfo) (hinfo : info ∈ module.values.toList) :
      ValueInfo.schema.Reads info.toJson info :=
    ValueInfo.reads (hfinite info hinfo) (hmember (.head _) (List.mem_map_of_mem hinfo))
  have hfunctions (function : Function) (hfunction : function ∈ module.functions) :
      Function.schema.Reads function.toJson function :=
    Function.reads (hmember (.tail _ (.head _)) (List.mem_map_of_mem hfunction))
  exact reads_record (.cons (reads_map hvalues) <| .cons (reads_map hfunctions) .nil)
    (of_decide_eq_true rfl) _ _

end HlsEmit
