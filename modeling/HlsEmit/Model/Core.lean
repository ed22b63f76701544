import HlsEmit.Cpp.Token
import HlsEmit.Model.Dominance
import HlsEmit.Naming

/-!
# The structured core

The functions whose code is known to compute what they mean. They are in dominance form and consist
of scalar constants, arithmetic, loads and stores, counting loops and conditionals with results;
their values are scalars and arrays of known extents. `Function.InCore` is all of that.

`Function.Faithful` says in addition that literals are written as what they are, and only where they
stand for constants. The code has no literal for a NaN, and it writes the literal of an argument in
place of its declaration.
-/

namespace HlsEmit

/-! ## Values -/

/-- A scalar, or an array of at least one dimension all of whose extents are known and positive. -/
def Shape.isStatic : Shape → Bool
  | .scalar => true
  | .ranked extents => !extents.isEmpty && extents.all fun extent => extent.any (0 < ·)
  | .unranked => false

/-- Whether an array has so many dimensions. -/
def Arena.isArray (arena : Arena) (array : ValueId) (rank : Nat) : Bool :=
  (arena.info array).isShaped && (arena.info array).shape.rank? = some rank

/-- Whether two values have the same shape. -/
def Arena.sameShape (arena : Arena) (id id' : ValueId) : Bool :=
  (arena.info id).shape = (arena.info id').shape

/-- Whether there are as many values as others, and of the same shapes. -/
def Arena.sameShapes (arena : Arena) : (ids others : List ValueId) → Bool
  | [], [] => true
  | id :: ids, other :: others => arena.sameShape id other && arena.sameShapes ids others
  | _, _ => false

/-- Whether the operand in a position is written with a minus sign in front. -/
def Arena.isNegative (arena : Arena) (operands : List ValueId) (position : Nat) : Bool :=
  match operands[position]?.bind (Arena.constantText? arena) with
  | some text => text.toList.head? = some '-'
  | none => false

/-! ## Affine expressions -/

namespace AffineExpr

/-- Whether an expression is a literal that is written with a minus sign in front, given that of its
operands. -/
def isNegative (negative : Nat → Bool) (dims : Nat) : AffineExpr → Bool
  | .dim position => negative position.toNat
  | .symbol position => negative (dims + position.toNat)
  | .constant value => value < 0
  | _ => false

/-- Whether an expression is a sum of products with all positions in range, in which no negative
literal is multiplied by minus one. -/
def inCore (negative : Nat → Bool) (dims symbols : Nat) : AffineExpr → Bool
  | .dim position => position.toNat < dims
  | .symbol position => position.toNat < symbols
  | .constant _ => true
  | .add lhs rhs => lhs.inCore negative dims symbols && rhs.inCore negative dims symbols
  | .mul lhs rhs =>
    lhs.inCore negative dims symbols && rhs.inCore negative dims symbols
      && !(rhs.constant? = some (-1) && lhs.isNegative negative dims)
  | .mod .. | .floorDiv .. | .ceilDiv .. => false

end AffineExpr

/-- Whether all results of a map over some operands are in the core. -/
def AffineMap.inCore (arena : Arena) (map : AffineMap) (operands : List ValueId) : Bool :=
  map.results.all fun result =>
    result.inCore (arena.isNegative operands) map.dims.toNat map.symbols.toNat

/-! ## Operations -/

/-- Whether an operation, apart from what is inside of it, is one of the core: it has exactly the
operands, results, regions and block arguments that its rule writes, with shapes that fit. -/
def Op.formInCore (arena : Arena) (op : Op) : Bool :=
  match op.kind, op.operands, op.results, op.regions with
  | .constant, [], [result], [] => (arena.constantText? result).isSome
  | .binary _, [lhs, rhs], [result], [] | .cmpF _, [lhs, rhs], [result], []
  | .cmpI _, [lhs, rhs], [result], [] => arena.sameShape lhs result && arena.sameShape rhs result
  | .unary _, [operand], [result], [] | .assign, [operand], [result], [] =>
    arena.sameShape operand result
  | .select, [condition, onTrue, onFalse], [result], [] =>
    (!(arena.info condition).isShaped || arena.sameShape condition result)
      && arena.sameShape onTrue result && arena.sameShape onFalse result
  | .alloc, [], [_], [] => true
  | .load, array :: indices, [_], [] => arena.isArray array indices.length
  | .store, _ :: array :: indices, [], [] => arena.isArray array indices.length
  | .affineLoad map, array :: inputs, [_], [] =>
    arena.isArray array map.results.length && map.inCore arena inputs
  | .affineStore map, _ :: array :: inputs, [], [] =>
    arena.isArray array map.results.length && map.inCore arena inputs
  | .affineApply map, inputs, [_], [] => map.inCore arena inputs
  | .scfFor, [_, _, _], [], [⟨[_], _⟩] => true
  | .affineFor lower upper step, [], [], [⟨[_], _⟩] =>
    lower.map.inCore arena lower.operands && upper.map.inCore arena upper.operands && 0 < step
  | .scfIf, [_], [], [⟨[], _⟩] | .scfIf, [_], _, [⟨[], _⟩, ⟨[], _⟩] => true
  | _, _, _, _ => false

/-- A yield of a value for each of some results. -/
def Op.isYield (arena : Arena) (results : List ValueId) (op : Op) : Bool :=
  (op.kind = .scfYield || op.kind = .affineYield) && arena.sameShapes op.operands results
    && op.results.isEmpty && op.regions.isEmpty

mutual

/-- Whether an operation with everything inside of it is in the core. -/
def Op.inCore (arena : Arena) : Op → Bool
  | ⟨kind, operands, results, attrs, regions, line⟩ =>
    (⟨kind, operands, results, attrs, regions, line⟩ : Op).formInCore arena
      && blocksInCore arena results regions
termination_by structural op => op

/-- Whether some regions are in the core each of which yields to these results. -/
def blocksInCore (arena : Arena) (results : List ValueId) : List (BlockOf Op) → Bool
  | [] => true
  | block :: rest => blockInCore arena results block && blocksInCore arena results rest
termination_by structural blocks => blocks

/-- Whether a region is in the core that yields to these results. -/
def blockInCore (arena : Arena) (results : List ValueId) : BlockOf Op → Bool
  | ⟨_, ops⟩ => opsInCore arena results ops
termination_by structural block => block

/-- Whether some operations are in the core, up to the yield in last place. There need not be one if
there are no results. -/
def opsInCore (arena : Arena) (results : List ValueId) : List Op → Bool
  | [] => results.isEmpty
  | op :: rest =>
    op.isYield arena results && rest.isEmpty || op.inCore arena && opsInCore arena results rest
termination_by structural ops => ops

end

/-- Whether some operations are in the core, up to the return in last place. -/
def bodyInCore (arena : Arena) : List Op → Bool
  | [] => false
  | op :: rest =>
    op.kind = .ret && op.results.isEmpty && op.regions.isEmpty && rest.isEmpty
      || op.inCore arena && bodyInCore arena rest

/-! ## Functions -/

/-- Whether the body of a function is one block of the core. -/
def Function.bodyInCore (arena : Arena) (function : Function) : Bool :=
  match function.blocks with
  | [⟨[], ops⟩] => HlsEmit.bodyInCore arena ops
  | _ => false

/-- A function of the structured core. -/
structure Function.InCore (arena : Arena) (function : Function) : Prop where
  shapes : ∀ id ∈ function.mentioned, (arena.info id).shape.isStatic = true
  body : function.bodyInCore arena = true
  distinct : function.defined.Nodup
  dominated : BlocksDominated function.args function.blocks

instance (arena : Arena) (function : Function) : Decidable (function.InCore arena) :=
  decidable_of_iff ((∀ id ∈ function.mentioned, (arena.info id).shape.isStatic = true) ∧
    function.bodyInCore arena = true ∧ function.defined.Nodup ∧
      BlocksDominated function.args function.blocks)
    ⟨fun h => ⟨h.1, h.2.1, h.2.2.1, h.2.2.2⟩, fun h => ⟨h.shapes, h.body, h.distinct, h.dominated⟩⟩

/-- A function in a place of a module that is in the structured core. No function in front of it
mentions a value that it defines. -/
structure Module.InCore (module : Module) (place : Nat) (function : Function) : Prop
    extends function.InCore module.values where
  found : module.functions[place]? = some function
  own : ∀ earlier ∈ module.functions.take place, ∀ id ∈ earlier.mentioned, id ∉ function.defined

/-! ## Literals and names -/

/-- A literal of one element that stands for the number it is written as. A NaN is written as an
infinity. -/
def Literal.isFaithful : Literal → Bool
  | .float value => value.isFinite || value.fractionField = 0
  | .int _ | .bool _ => true
  | .dense _ | .str _ => false

/-- Whether the results of an operation are literals that are faithful if it is a constant, and no
literals otherwise; arguments of its regions never are. -/
def Op.literalsFit (arena : Arena) (op : Op) : Bool :=
  if op.kind = .constant then
    op.results.all fun id => (arena.info id).constant.all Literal.isFaithful
  else (op.results ++ op.regions.flatMap BlockOf.args).all fun id => (arena.constantText? id).isNone

/-- A function whose literals are faithful and only results of constants, with a name that is an
identifier. -/
structure Function.Faithful (arena : Arena) (function : Function) : Prop where
  name : Cpp.isName function.name = true
  args : ∀ id ∈ function.args, arena.constantText? id = none
  ops : ∀ op ∈ withinBlocks function.blocks, op.literalsFit arena = true

instance (arena : Arena) (function : Function) : Decidable (function.Faithful arena) :=
  decidable_of_iff (Cpp.isName function.name = true ∧
    (∀ id ∈ function.args, arena.constantText? id = none) ∧
      ∀ op ∈ withinBlocks function.blocks, op.literalsFit arena = true)
    ⟨fun h => ⟨h.1, h.2.1, h.2.2⟩, fun h => ⟨h.name, h.args, h.ops⟩⟩

end HlsEmit
