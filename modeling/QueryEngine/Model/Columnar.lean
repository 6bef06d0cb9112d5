import QueryEngine.Model.Schema

/-! # Vectors (`org.kogu.queryengine.columnar`)

The five element types share one shape, so `TypedVec` is written once: an array vector is a window
`[offset, offset + length)` of a backing array whose null bits are indexed from the start of the
array, and a constant vector is one value with a length. `IntVec`, `LongVec`, `DoubleVec`, `BoolVec`
and `Utf8Vec` are its instances; a `String[]` slot may hold `null`. A record's compact constructor
is the function `new`, and the checks it made stay with the value as fields.
-/
namespace QueryEngine
open Library
set_option autoImplicit false
set_option maxHeartbeats 250000

namespace Vector

def positiveLength (n : Int32) : Java Unit :=
  if n < 0 then .error (.illegalArgument (jstr "Length must be >= 0")) else .ok ()

def validateWindow (offset length arrayLength : Int32) : Java Unit :=
  if offset < 0 ∨ length < 0 ∨ offset > arrayLength ∨ length > arrayLength - offset then
    .error .indexOutOfBounds
  else .ok ()

def validateIndex (index length : Int32) : Java Unit :=
  if index < 0 ∨ index ≥ length then .error .indexOutOfBounds else .ok ()

end Vector

/-! ## Storage -/

structure ArrayVector (α : Type) where
  values : JArray α
  offset : Int32
  length : Int32
  nullIndices : BitSet
  positive : Vector.positiveLength length = .ok ()
  window : Vector.validateWindow offset length values.length = .ok ()

namespace ArrayVector
variable {α : Type}

def new (values : JArray α) (offset length : Int32) (nullIndices : BitSet) :
    Java (ArrayVector α) :=
  match hp : Vector.positiveLength length with
  | .error e => .error e
  | .ok () =>
      match hw : Vector.validateWindow offset length values.length with
      | .error e => .error e
      | .ok () => .ok ⟨values, offset, length, nullIndices, hp, hw⟩

def value (v : ArrayVector α) (index : Int32) : Java α := do
  Vector.validateIndex index v.length
  v.values.get (v.offset + index)

def isNull (v : ArrayVector α) (index : Int32) : Java Bool := do
  Vector.validateIndex index v.length
  v.nullIndices.get (v.offset + index)

end ArrayVector

structure ConstantVector (α : Type) where
  value : α
  length : Int32
  positive : Vector.positiveLength length = .ok ()

namespace ConstantVector
variable {α : Type}

def new (value : α) (length : Int32) : Java (ConstantVector α) :=
  match hp : Vector.positiveLength length with
  | .error e => .error e
  | .ok () => .ok ⟨value, length, hp⟩

def valueAt (v : ConstantVector α) (index : Int32) : Java α := do
  Vector.validateIndex index v.length
  pure v.value

def isNull (v : ConstantVector α) (index : Int32) : Java Bool := do
  Vector.validateIndex index v.length
  pure false

end ConstantVector

/-- The values and the null bits that a kernel or a gather writes before it builds a vector. -/
structure Output (α : Type) where
  values : JArray α
  nulls : BitSet

/-! ## Vectors of one element type -/

inductive TypedVec (α : Type)
  | array (v : ArrayVector α)
  | constant (v : ConstantVector α)

namespace TypedVec
variable {α : Type}

def length : TypedVec α → Int32
  | array v => v.length
  | constant v => v.length

def value : TypedVec α → Int32 → Java α
  | array v, index => v.value index
  | constant v, index => v.valueAt index

def isNull : TypedVec α → Int32 → Java Bool
  | array v, index => v.isNull index
  | constant v, index => v.isNull index

def isNotNull (v : TypedVec α) (index : Int32) : Java Bool := do
  let b ← v.isNull index
  pure !b

/-- One round of the default `gather`: copy the value, then the null bit, of row `rows[k]`. -/
def gatherRow (v : TypedVec α) (rows : JArray Int32) (k : Int32) (out : Output α) :
    Java (Output α) := do
  let row ← rows.get k
  let x ← v.value row
  let values ← out.values.set k x
  if ← v.isNull row then
    let nulls ← out.nulls.set k
    pure ⟨values, nulls⟩
  else pure ⟨values, out.nulls⟩

/-- `gather(rows)`: the default method for array storage, where `default` fills the new array, and
the override of constant storage, which never looks at the indices. -/
def gather (default : α) : TypedVec α → JArray Int32 → Java (TypedVec α)
  | array v, rows => do
      let values ← JArray.filled rows.length default
      let out ← forInt rows.length ((array v).gatherRow rows) ⟨values, .empty⟩
      array <$> ArrayVector.new out.values 0 rows.length out.nulls
  | constant v, rows => constant <$> ConstantVector.new v.value rows.length

/-- The default `gather` on any storage, also where a constant overrides it. -/
def defaultGather (default : α) (v : TypedVec α) (rows : JArray Int32) : Java (TypedVec α) := do
  let values ← JArray.filled rows.length default
  let out ← forInt rows.length (v.gatherRow rows) ⟨values, .empty⟩
  array <$> ArrayVector.new out.values 0 rows.length out.nulls

end TypedVec

abbrev IntVec := TypedVec Int32
abbrev LongVec := TypedVec Int64
abbrev DoubleVec (F : Type) := TypedVec F
abbrev BoolVec := TypedVec Bool
abbrev Utf8Vec := TypedVec (Option JString)

namespace Vectors
variable {α : Type}

/-- `Vectors.intVector(values, nullIndices)` and its four siblings. -/
def ofArray (values : JArray α) (nullIndices : BitSet) : Java (TypedVec α) :=
  .array <$> ArrayVector.new values 0 values.length nullIndices

def intVector (values : JArray Int32) (nullIndices : BitSet) : Java IntVec :=
  ofArray values nullIndices

def longVector (values : JArray Int64) (nullIndices : BitSet) : Java LongVec :=
  ofArray values nullIndices

def doubleVector {F : Type} (values : JArray F) (nullIndices : BitSet) : Java (DoubleVec F) :=
  ofArray values nullIndices

def stringVector (values : JArray (Option JString)) (nullIndices : BitSet) : Java Utf8Vec :=
  ofArray values nullIndices

def booleanVector (values : JArray Bool) (nullIndices : BitSet) : Java BoolVec :=
  ofArray values nullIndices

end Vectors

/-! ## Vectors -/

inductive Vector (F : Type)
  | int (v : IntVec)
  | long (v : LongVec)
  | double (v : DoubleVec F)
  | bool (v : BoolVec)
  | utf8 (v : Utf8Vec)

namespace Vector
variable {F : Type}

def length : Vector F → Int32
  | int v => v.length
  | long v => v.length
  | double v => v.length
  | bool v => v.length
  | utf8 v => v.length

def type : Vector F → Scalar
  | int _ => .INT32
  | long _ => .INT64
  | double _ => .FLOAT64
  | bool _ => .BOOLEAN
  | utf8 _ => .UTF8

def isNull : Vector F → Int32 → Java Bool
  | int v, index => v.isNull index
  | long v, index => v.isNull index
  | double v, index => v.isNull index
  | bool v, index => v.isNull index
  | utf8 v, index => v.isNull index

def gather [JavaDouble F] (input : Vector F) (rows : JArray Int32) : Java (Vector F) :=
  match input with
  | int v => int <$> v.gather 0 rows
  | long v => long <$> v.gather 0 rows
  | double v => double <$> v.gather JavaDouble.zero rows
  | bool v => bool <$> v.gather false rows
  | utf8 v => utf8 <$> v.gather none rows

/-- The element-by-element `gather`, whatever the storage. -/
def defaultGather [JavaDouble F] (input : Vector F) (rows : JArray Int32) : Java (Vector F) :=
  match input with
  | int v => int <$> v.defaultGather 0 rows
  | long v => long <$> v.defaultGather 0 rows
  | double v => double <$> v.defaultGather JavaDouble.zero rows
  | bool v => bool <$> v.defaultGather false rows
  | utf8 v => utf8 <$> v.defaultGather none rows

end Vector

end QueryEngine
