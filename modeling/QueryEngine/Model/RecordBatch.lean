import QueryEngine.Model.Columnar

/-! # Record batches (`org.kogu.queryengine.columnar.RecordBatch`) -/
namespace QueryEngine
open Library
set_option autoImplicit false
set_option maxHeartbeats 250000

namespace RecordBatch
variable {F : Type}

/-- The first loop of the constructor: vector types against field types, from position `i` on. -/
def checkTypes (schema : Schema) : ℕ → List (Vector F) → Java Unit
  | _, [] => .ok ()
  | i, v :: vs => do
      let f ← schema.fieldAtIndex i
      if v.type ≠ f.type then
        .error (.illegalArgument
          (jstr "vector type does not match schema field at index " ++ jstr (toString i)))
      else checkTypes schema (i + 1) vs

/-- The second loop of the constructor: the lengths of the vectors from position `i` on against the
length of the vector at position 0. -/
def checkLengths (length : Int32) : ℕ → List (Vector F) → Java Unit
  | _, [] => .ok ()
  | i, v :: vs =>
      if v.length ≠ length then
        .error (.illegalArgument
          (jstr "vector lengths do not match at index " ++ jstr (toString i)))
      else checkLengths length (i + 1) vs

def validate (schema : Schema) (vectors : List (Vector F)) : Java Unit := do
  if vectors.length ≠ schema.fieldCount then
    throw (.illegalArgument (jstr "vector count does not match schema field count"))
  checkTypes schema 0 vectors
  match vectors with
  | [] => pure ()
  | v :: vs => checkLengths v.length 1 vs

end RecordBatch

structure RecordBatch (F : Type) where
  schema : Schema
  vectors : List (Vector F)
  accepted : RecordBatch.validate schema vectors = .ok ()

namespace RecordBatch
variable {F : Type}

def new (schema : Schema) (vectors : List (Vector F)) : Java (RecordBatch F) :=
  match h : validate schema vectors with
  | .error e => .error e
  | .ok () => .ok ⟨schema, vectors, h⟩

/-- The length of the first vector, or 0 without vectors. -/
def rowCount (b : RecordBatch F) : Int32 :=
  match b.vectors with
  | [] => 0
  | v :: _ => v.length

def vectorOf (b : RecordBatch F) (name : JString) : Java (Vector F) := do
  let i ← b.schema.indexOfField name
  match b.vectors[i]? with
  | none => .error .indexOutOfBounds
  | some v => .ok v

end RecordBatch

end QueryEngine
