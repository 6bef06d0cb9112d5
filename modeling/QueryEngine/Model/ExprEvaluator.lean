import QueryEngine.Model.Expression
import QueryEngine.Model.RecordBatch

/-! # Column-at-a-time evaluation (`org.kogu.queryengine.expression.ExprEvaluator`)

The eight kernels are one loop over two vectors of one element type; each keeps its name and passes
its own operation and the default value its result array starts with.
-/
namespace QueryEngine
open Library
set_option autoImplicit false
set_option maxHeartbeats 250000

namespace ExprEvaluator
variable {α β γ F : Type}

/-! ## The null-gated kernels -/

def validateSameLength (left right : Vector F) : Java Unit :=
  if left.length ≠ right.length then
    .error (.illegalArgument (jstr "Vector lengths do not match"))
  else .ok ()

/-- `i -> left.isNotNull(i) && right.isNotNull(i)`. -/
def bothNonNull (left : TypedVec α) (right : TypedVec β) (i : Int32) : Java Bool := do
  if ← left.isNotNull i then right.isNotNull i else pure false

/-- `i -> result[i] = f(left.value(i), right.value(i))`. -/
def writeSlot (f : α → β → Java γ) (left : TypedVec α) (right : TypedVec β) (i : Int32)
    (result : JArray γ) : Java (JArray γ) := do
  let x ← left.value i
  let y ← right.value i
  let z ← f x y
  result.set i z

/-- `perSlot`: the write at every slot where the test holds, the null bit at the rest. The array
that `writeSlot` captures travels with the null bits. -/
def perSlot (test : Int32 → Java Bool) (write : Int32 → JArray γ → Java (JArray γ)) (length : Int32)
    (result : JArray γ) : Java (Output γ) :=
  forInt length (fun i out => do
    if ← test i then
      let values ← write i out.values
      pure ⟨values, out.nulls⟩
    else
      let nulls ← out.nulls.set i
      pure ⟨out.values, nulls⟩) ⟨result, .empty⟩

/-- The body that the kernels repeat for each element type. -/
def kernel (default : γ) (f : α → β → Java γ) (left : TypedVec α) (right : TypedVec β) :
    Java (TypedVec γ) := do
  let result ← JArray.filled left.length default
  let out ← perSlot (bothNonNull left right) (writeSlot f left right) left.length result
  Vectors.ofArray out.values out.nulls

def numericInts (left : IntVec) (op : ArithmeticOp) (right : IntVec) : Java IntVec :=
  kernel 0 op.applyInt left right

def numericLongs (left : LongVec) (op : ArithmeticOp) (right : LongVec) : Java LongVec :=
  kernel 0 op.applyLong left right

def numericDoubles [JavaDouble F] (left : DoubleVec F) (op : ArithmeticOp) (right : DoubleVec F) :
    Java (DoubleVec F) :=
  kernel JavaDouble.zero op.applyDouble left right

def compareInts (left : IntVec) (op : ComparisonOp) (right : IntVec) : Java BoolVec :=
  kernel false op.compareInt left right

def compareLongs (left : LongVec) (op : ComparisonOp) (right : LongVec) : Java BoolVec :=
  kernel false op.compareLong left right

def compareDoubles [JavaDouble F] (left : DoubleVec F) (op : ComparisonOp) (right : DoubleVec F) :
    Java BoolVec :=
  kernel false op.compareDouble left right

def compareBools (left : BoolVec) (op : ComparisonOp) (right : BoolVec) : Java BoolVec :=
  kernel false op.compareBool left right

def compareUtf8 (left : Utf8Vec) (op : ComparisonOp) (right : Utf8Vec) : Java BoolVec :=
  kernel false op.compareString left right

/-! ## Dispatch on the element types -/

variable [JavaDouble F]

def numeric (left : Vector F) (op : ArithmeticOp) (right : Vector F) : Java (Vector F) := do
  validateSameLength left right
  match left, right with
  | .int l, .int r => .int <$> numericInts l op r
  | .long l, .long r => .long <$> numericLongs l op r
  | .double l, .double r => .double <$> numericDoubles l op r
  | _, _ => .error (Expr.cannotApply op left.type right.type)

def compare (left : Vector F) (op : ComparisonOp) (right : Vector F) : Java (Vector F) := do
  validateSameLength left right
  match left, right with
  | .int l, .int r => .bool <$> compareInts l op r
  | .long l, .long r => .bool <$> compareLongs l op r
  | .double l, .double r => .bool <$> compareDoubles l op r
  | .bool l, .bool r => .bool <$> compareBools l op r
  | .utf8 l, .utf8 r => .bool <$> compareUtf8 l op r
  | _, _ => .error (Expr.cannotCompare op left.type right.type)

/-! ## Three-valued connectives -/

/-- `evalBoolNulls`: one operand is null at `index`, `vector` is the other one. -/
def evalBoolNulls (op : LogicalOp) (vector : BoolVec) (index : Int32) (out : Output Bool) :
    Java (Output Bool) := do
  if (← vector.value index) && op = .OR then
    let values ← out.values.set index true
    pure ⟨values, out.nulls⟩
  else if !(← vector.value index) && op = .AND then
    let values ← out.values.set index false
    pure ⟨values, out.nulls⟩
  else
    let nulls ← out.nulls.set index
    pure ⟨out.values, nulls⟩

/-- `left.value(i) && right.value(i)` or `left.value(i) || right.value(i)`: the right value is read
only when the left one does not decide. -/
def logicalValue (op : LogicalOp) (left right : BoolVec) (i : Int32) : Java Bool := do
  match op, ← left.value i with
  | .AND, false => pure false
  | .AND, true => right.value i
  | .OR, true => pure true
  | .OR, false => right.value i

def logicalSlot (op : LogicalOp) (left right : BoolVec) (i : Int32) (out : Output Bool) :
    Java (Output Bool) := do
  if ← bothNonNull left right i then
    let b ← logicalValue op left right i
    let values ← out.values.set i b
    pure ⟨values, out.nulls⟩
  else if ← left.isNotNull i then evalBoolNulls op left i out
  else if ← right.isNotNull i then evalBoolNulls op right i out
  else
    let nulls ← out.nulls.set i
    pure ⟨out.values, nulls⟩

def evalLogical (batch : RecordBatch F) (op : LogicalOp) (left right : BoolVec) :
    Java BoolVec := do
  let result ← JArray.filled batch.rowCount false
  let out ← forInt batch.rowCount (logicalSlot op left right) ⟨result, .empty⟩
  Vectors.booleanVector out.values out.nulls

def notSlot (bs : BoolVec) (i : Int32) (out : Output Bool) : Java (Output Bool) := do
  if ← bs.isNotNull i then
    let b ← bs.value i
    let values ← out.values.set i (!b)
    pure ⟨values, out.nulls⟩
  else
    let nulls ← out.nulls.set i
    pure ⟨out.values, nulls⟩

/-- `evalUnary` after its operand is evaluated. -/
def evalUnary (batch : RecordBatch F) (op : UnaryOp) (v : Vector F) : Java BoolVec :=
  match op, v with
  | .NOT, .bool bs => do
      let result ← JArray.filled batch.rowCount false
      let out ← forInt batch.rowCount (notSlot bs) ⟨result, .empty⟩
      Vectors.booleanVector out.values out.nulls
  | _, _ => .error (.illegalArgument (jstr "Unsupported unary operation"))

/-! ## The evaluator -/

def evalLiteral (l : Literal F) (length : Int32) : Java (Vector F) :=
  match l with
  | .int32 n => (.int ∘ .constant) <$> ConstantVector.new n length
  | .int64 n => (.long ∘ .constant) <$> ConstantVector.new n length
  | .float64 d => (.double ∘ .constant) <$> ConstantVector.new d length
  | .str s => (.utf8 ∘ .constant) <$> ConstantVector.new (some s) length
  | .bool b => (.bool ∘ .constant) <$> ConstantVector.new b length

def eval (batch : RecordBatch F) : Expr F → Java (Vector F)
  | .columnRef name => batch.vectorOf name
  | .literal l => evalLiteral l batch.rowCount
  | .binary left op right => do
      let a ← eval batch left
      let b ← eval batch right
      match op with
      | .arithmetic o => numeric a o b
      | .comparison o => compare a o b
  | .unary op e => do
      let v ← eval batch e
      .bool <$> evalUnary batch op v
  | .logical left op right => do
      let a ← eval batch left
      let b ← eval batch right
      match a, b with
      | .bool l, .bool r => .bool <$> evalLogical batch op l r
      | _, _ => .error (.typeMismatch (jstr "Logical requires boolean operands"))

end ExprEvaluator

end QueryEngine
