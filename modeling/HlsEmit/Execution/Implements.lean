import HlsEmit.Cpp.Machine
import HlsEmit.Execution.Evaluation
import HlsEmit.Model.Core

/-!
# Machines that implement a meaning

What C++ has to compute for the numbers of the model. `Machine.Implements` gives for each constant,
operation and conversion of the model the literal, operator, function or type of C++ that computes
the same, wherever the model has a result. It is about numbers alone; what becomes of the operations
of a function is the business of the code that is written for them.

A meaning may leave open what C++ does otherwise: a comparison with a NaN, say, whose result is not
that of the operator.

One conversion of C++ belongs to no operation of the model: a selection is written as `?:`, which
converts both of its branches to a common type. `Machine.Selects` says of a selection that this does
not show in its result.
-/

namespace HlsEmit

/-- Where the first has a result, the second has the same. -/
def Refines {α : Type} (expected actual : Option α) : Prop :=
  ∀ result, expected = some result → actual = some result

/-- Where the first content has been set, the second is the same. -/
def Content.Refines {V : Type} : (expected actual : Content V) → Prop
  | .scalar value, .scalar value' => HlsEmit.Refines value value'
  | .array elements, .array elements' =>
    ∀ indices, HlsEmit.Refines (elements indices) (elements' indices)
  | _, _ => False

/-- The same for several contents, one by one. -/
def Content.AllRefine {V : Type} : (expected actual : List (Content V)) → Prop
  | [], [] => True
  | content :: rest, content' :: rest' => content.Refines content' ∧ AllRefine rest rest'
  | _, _ => False

/-- A content of the kind of a value: that of a scalar or that of an array. -/
def Content.Fits {V : Type} (arena : Arena) (id : ValueId) : Content V → Prop
  | .scalar _ => (arena.info id).isShaped = false
  | .array _ => (arena.info id).isShaped = true

/-- A content of its kind for each of some values. -/
def Content.AllFit {V : Type} (arena : Arena) : List ValueId → List (Content V) → Prop
  | [], [] => True
  | id :: ids, content :: contents => content.Fits arena id ∧ AllFit arena ids contents
  | _, _ => False

/-! ## What is implemented by what -/

/-- The type of C++ for an element type, if there is one. -/
def ElemType.typeName? : ElemType → Option Cpp.TypeName
  | .f16 | .bf16 => none
  | .f32 => some ⟨"float", none⟩
  | .f64 => some ⟨"double", none⟩
  | .bool => some ⟨"bool", none⟩
  | .index => some ⟨"int", none⟩
  | .int width unsigned =>
    if width = 1 then some ⟨"bool", none⟩
    else some ⟨if unsigned then "ap_uint" else "ap_int", some (toString width.toNat)⟩

/-- The operator of C++ for arithmetic on two operands. -/
def BinaryOp.cppOperator : BinaryOp → String
  | .add => "+"
  | .sub => "-"
  | .mul => "*"
  | .div => "/"
  | .rem => "%"
  | .xor => "^"
  | .and => "&"
  | .or => "|"
  | .shl => "<<"
  | .shr => ">>"

/-- The operator of C++ for a comparison of integers. -/
def CmpIPredicate.cppOperator : CmpIPredicate → String
  | .eq => "=="
  | .ne => "!="
  | .slt | .ult => "<"
  | .sle | .ule => "<="
  | .sgt | .ugt => ">"
  | .sge | .uge => ">="

/-- The operator of C++ for a comparison of floating-point numbers. The others have none. -/
def CmpFPredicate.cppOperator? : CmpFPredicate → Option String
  | .oeq | .ueq => some "=="
  | .one | .une => some "!="
  | .olt | .ult => some "<"
  | .ole | .ule => some "<="
  | .ogt | .ugt => some ">"
  | .oge | .uge => some ">="
  | .alwaysFalse | .alwaysTrue | .ord | .uno => none

namespace Cpp.Machine

variable {V : Type} (m : Machine V)

/-- What C++ computes for a function of one operand. -/
def unary : UnaryOp → V → Option V
  | .neg, x => m.negate x
  | .rsqrt, x => do m.binary "/" (← m.constant "1.0") (← m.call "sqrt" [x])
  | .abs, x => m.call "abs" [x]
  | .ceil, x => m.call "ceil" [x]
  | .cos, x => m.call "cos" [x]
  | .sin, x => m.call "sin" [x]
  | .tanh, x => m.call "tanh" [x]
  | .sqrt, x => m.call "sqrt" [x]
  | .exp, x => m.call "exp" [x]
  | .exp2, x => m.call "exp2" [x]
  | .log, x => m.call "log" [x]
  | .log2, x => m.call "log2" [x]
  | .log10, x => m.call "log10" [x]

/-- What the text of a literal stands for. -/
def literal (text : String) : Option V := do
  m.eval [] (← readExpr text)

/-- The counter of a loop behind so many iterations. -/
def counter : Nat → Option V
  | 0 => do m.convert ⟨"int", none⟩ (← m.constant "0")
  | n + 1 => do m.convert ⟨"int", none⟩ (← m.binary "+" (← counter n) (← m.constant "1"))

/-- Counters stand for their numbers up to an extent, where the loop ends. -/
structure CountsTo (extent : Int) : Prop where
  bound : (m.constant (toString extent)).bind m.index = some extent
  counts : ∀ n : Nat, (n : Int) ≤ extent → ∃ counter limit, m.counter n = some counter ∧
    m.index counter = some (n : Int) ∧ m.constant (toString extent) = some limit ∧
    (m.binary "<" counter limit).bind m.truth = some (decide ((n : Int) < extent))

/-- A machine computes what a meaning says. -/
structure Implements (meaning : Meaning V) : Prop where
  literals : ∀ literal text, literal.scalarText? = some text → literal.isFaithful = true →
    Refines (meaning.constant literal) (m.literal text)
  binary : ∀ op x y, Refines (meaning.binary op x y) (m.binary op.cppOperator x y)
  unary : ∀ op x, Refines (meaning.unary op x) (m.unary op x)
  cmpI : ∀ predicate x y, Refines (meaning.cmpI predicate x y) (m.binary predicate.cppOperator x y)
  cmpF : ∀ predicate operator, predicate.cppOperator? = some operator → ∀ x y,
    Refines (meaning.cmpF predicate x y) (m.binary operator x y)
  max : ∀ x y, Refines (meaning.max x y) (m.call "max" [x, y])
  min : ∀ x y, Refines (meaning.min x y) (m.call "min" [x, y])
  convert : ∀ elem type, elem.typeName? = some type → ∀ x,
    Refines (meaning.convert elem x) (m.convert type x)
  truth : ∀ x, Refines (meaning.truth x) (m.truth x)
  index : ∀ x, Refines (meaning.index x) (m.index x)
  /-- To multiply by minus one is to negate. -/
  negate : ∀ x, Refines (do meaning.binary .mul x (← meaning.constant (.int (-1)))) (m.negate x)
  /-- To add a negative constant is to subtract its magnitude. -/
  subtractLiteral : ∀ x (c : Int64), c < 0 → Refines
    (do meaning.binary .add x (← meaning.constant (.int c)))
    (do m.binary "-" x (← m.constant (toString c.toInt.natAbs)))
  /-- To add a product with minus one is to subtract the other factor. -/
  subtract : ∀ x y, Refines
    (do meaning.binary .add x (← meaning.binary .mul y (← meaning.constant (.int (-1)))))
    (m.binary "-" x y)

/-! ### Selections -/

/-- The type that a value has where it is written: that of its literal or that of its object. -/
def writtenType? (arena : Arena) (id : ValueId) : Option TypeName :=
  match arena.constantText? id with
  | some text => do m.typeOf [] (← readExpr text)
  | none => (arena.info id).elem.typeName?

/-- What a value can be where it is written: the number of its literal, or a number of the type of its
object. -/
def CanBe (arena : Arena) (id : ValueId) (value : V) : Prop :=
  match arena.constantText? id with
  | some text => m.literal text = some value
  | none => ∃ type, (arena.info id).elem.typeName? = some type ∧ m.HasType type value

/-- A result is set to the same if what is chosen for it is converted to the common type of both
branches first. -/
def Merges (meaning : Meaning V) (arena : Arena) (onTrue onFalse result : ValueId) : Prop :=
  ∃ typeTrue typeFalse, m.writtenType? arena onTrue = some typeTrue ∧
    m.writtenType? arena onFalse = some typeFalse ∧
    ∀ id ∈ [onTrue, onFalse], ∀ value, m.CanBe arena id value → ∀ type,
      (arena.info result).elem.typeName? = some type →
        Refines (meaning.convert (arena.info result).elem value)
          (do m.convert type (← m.merge typeTrue typeFalse value))

/-- An operation computes the same in C++ if it is a selection. Of other operations nothing is said. -/
def Selects (meaning : Meaning V) (arena : Arena) (op : Op) : Prop :=
  match op.kind, op.operands, op.results with
  | .select, [_, onTrue, onFalse], [result] => m.Merges meaning arena onTrue onFalse result
  | _, _, _ => True

/-- Nothing is converted if both branches are written with the same type. -/
theorem merges_of_sameType {m : Machine V} {meaning : Meaning V} (h : m.Implements meaning)
    {arena : Arena} {onTrue onFalse : ValueId} {type : TypeName}
    (hTrue : m.writtenType? arena onTrue = some type)
    (hFalse : m.writtenType? arena onFalse = some type) (result : ValueId) :
    m.Merges meaning arena onTrue onFalse result := by
  refine ⟨type, type, hTrue, hFalse, fun id _ value _ type' htype => ?_⟩
  rw [merge, if_pos rfl]
  exact h.convert _ type' htype value

/-- An operation whose operands, apart from the first one, are written with the same type if it is a
selection. -/
theorem selects_of_sameType {m : Machine V} {meaning : Meaning V} (h : m.Implements meaning)
    {arena : Arena} {op : Op} {type : TypeName}
    (hsame : op.kind = .select → ∀ id ∈ op.operands.tail, m.writtenType? arena id = some type) :
    m.Selects meaning arena op := by
  unfold Selects
  split
  · next onTrue onFalse result hkind hoperands _ =>
    have hbranches := hsame hkind
    rw [hoperands] at hbranches
    exact merges_of_sameType h (hbranches onTrue (by simp)) (hbranches onFalse (by simp)) result
  · trivial

end Cpp.Machine

end HlsEmit
