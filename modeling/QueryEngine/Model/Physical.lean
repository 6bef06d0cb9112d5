import QueryEngine.Model.ExprEvaluator

/-! # Physical operators (`org.kogu.queryengine.physical`)

An operator is an object with mutable fields, so its methods are functions from a state to an
outcome and a next state; the state survives an exception. `while` loops take fuel, and a call that
is still running when the fuel is spent answers `none`. `BufferedExec` is generic over the `pull` of
its subclass, and the subclasses are generic over the `Exec` they hold as a child.
-/
namespace QueryEngine
open Library
set_option autoImplicit false
set_option maxHeartbeats 250000

/-- A method call on an object whose mutable fields are a `σ`. -/
abbrev Call (σ α : Type) := Option (Java α × σ)

/-- The interface `Exec`: its fields, its schema, and `next`, where `none` stands for `null`. -/
structure Exec (F : Type) where
  State : Type
  schema : Schema
  start : State
  next : ℕ → State → Call State (Option (RecordBatch F))

/-- What a subclass adds to `BufferedExec`: its own fields and `pull`. -/
structure Subclass (F : Type) where
  State : Type
  schema : Schema
  start : State
  pull : ℕ → State → Call State (Option (RecordBatch F))

variable {F : Type}

/-! ## BufferedExec -/

namespace BufferedExec

/-- `exhausted`, and the fields of the subclass. -/
structure Fields (σ : Type) where
  exhausted : Bool
  fields : σ

/-- `while (!exhausted) { ... } return null;` for at most `k` rounds. -/
def loop {σ : Type} (pull : σ → Call σ (Option (RecordBatch F))) :
    ℕ → Fields σ → Call (Fields σ) (Option (RecordBatch F))
  | 0, _ => none
  | k + 1, self =>
      if self.exhausted then some (.ok none, self)
      else match pull self.fields with
        | none => none
        | some (.error e, fields) => some (.error e, { self with fields := fields })
        | some (.ok none, fields) => some (.ok none, ⟨true, fields⟩)
        | some (.ok (some batch), fields) =>
            if batch.rowCount > 0 then some (.ok (some batch), { self with fields := fields })
            else loop pull k { self with fields := fields }

def next {σ : Type} (pull : ℕ → σ → Call σ (Option (RecordBatch F))) (fuel : ℕ)
    (self : Fields σ) : Call (Fields σ) (Option (RecordBatch F)) :=
  if self.exhausted then some (.ok none, self) else loop (pull fuel) fuel self

/-- A `BufferedExec` with a given subclass. -/
def exec (sub : Subclass F) : Exec F where
  State := Fields sub.State
  schema := sub.schema
  start := ⟨false, sub.start⟩
  next := next sub.pull

end BufferedExec

/-! ## MemoryScanExec -/

namespace MemoryScanExec

/-- `index < batches.size() ? batches.get(index++) : null`. -/
def pull (batches : List (RecordBatch F)) (index : ℕ) : Call ℕ (Option (RecordBatch F)) :=
  match batches[index]? with
  | some batch => some (.ok (some batch), index + 1)
  | none => some (.ok none, index)

def subclass (schema : Schema) (batches : List (RecordBatch F)) : Subclass F where
  State := ℕ
  schema := schema
  start := 0
  pull _ := pull batches

end MemoryScanExec

/-! ## FilterExec -/

namespace FilterExec

/-- `mask.isNotNull(i) && mask.value(i)`. -/
def selected (mask : BoolVec) (i : Int32) : Java Bool := do
  if ← mask.isNotNull i then mask.value i else pure false

/-- Pass 1: the number of selected slots. -/
def countSurvivors (mask : BoolVec) : Java Int32 :=
  forInt mask.length (fun i rowCount => do
    if ← selected mask i then pure (rowCount + 1) else pure rowCount) 0

/-- The indices of the selected slots: the array `rows` and the write position `out`. -/
def survivorRound (mask : BoolVec) (i : Int32) (s : JArray Int32 × Int32) :
    Java (JArray Int32 × Int32) := do
  if ← selected mask i then
    let rows ← s.1.set s.2 i
    pure (rows, s.2 + 1)
  else pure s

def survivors (mask : BoolVec) (rowCount : Int32) : Java (JArray Int32) := do
  let rows ← JArray.filled rowCount 0
  let s ← forInt mask.length (survivorRound mask) (rows, 0)
  pure s.1

variable [JavaDouble F]

/-- Pass 2: every column of the schema, looked up by name and gathered. -/
def gatherColumns (schema : Schema) (batch : RecordBatch F) (rows : JArray Int32) :
    Java (List (Vector F)) :=
  schema.fieldsList.mapM fun f => do
    let input ← batch.vectorOf f.name
    input.gather rows

/-- The body of the loop of `pull` for one child batch; `none` is its `continue`. -/
def select (schema : Schema) (predicate : Expr F) (batch : RecordBatch F) :
    Java (Option (RecordBatch F)) := do
  match ← ExprEvaluator.eval batch predicate with
  | .bool mask =>
      let rowCount ← countSurvivors mask
      if rowCount = 0 then pure none
      else
        let rows ← survivors mask rowCount
        let output ← gatherColumns schema batch rows
        some <$> RecordBatch.new schema output
  | _ => .error .classCast

/-- `while (true) { ... }` for at most `k` rounds. -/
def loop {σ : Type} (childNext : σ → Call σ (Option (RecordBatch F))) (schema : Schema)
    (predicate : Expr F) : ℕ → σ → Call σ (Option (RecordBatch F))
  | 0, _ => none
  | k + 1, child =>
      match childNext child with
      | none => none
      | some (.error e, child) => some (.error e, child)
      | some (.ok none, child) => some (.ok none, child)
      | some (.ok (some batch), child) =>
          match select schema predicate batch with
          | .error e => some (.error e, child)
          | .ok none => loop childNext schema predicate k child
          | .ok (some out) => some (.ok (some out), child)

def subclass (child : Exec F) (predicate : Expr F) : Subclass F where
  State := child.State
  schema := child.schema
  start := child.start
  pull fuel := loop (child.next fuel) child.schema predicate fuel

end FilterExec

/-! ## ProjectExec -/

structure Projection (F : Type) where
  name : JString
  expression : Expr F

namespace ProjectExec

def deriveField (child : Schema) (projection : Projection F) : Java Field := do
  let result ← projection.expression.outputType child
  return ⟨projection.name, result.type, result.nullable⟩

def deriveSchema (child : Schema) (projections : List (Projection F)) : Java Schema := do
  if projections.isEmpty then
    throw (.illegalArgument (jstr "projection requires at least one expression"))
  let fields ← projections.mapM (deriveField child)
  Schema.fromFields fields

variable [JavaDouble F]

/-- What `pull` makes of one child batch. -/
def compute (schema : Schema) (projections : List (Projection F)) (batch : RecordBatch F) :
    Java (RecordBatch F) := do
  let output ← projections.mapM fun p => ExprEvaluator.eval batch p.expression
  RecordBatch.new schema output

def pull {σ : Type} (childNext : σ → Call σ (Option (RecordBatch F))) (schema : Schema)
    (projections : List (Projection F)) (child : σ) : Call σ (Option (RecordBatch F)) :=
  match childNext child with
  | none => none
  | some (.error e, child) => some (.error e, child)
  | some (.ok none, child) => some (.ok none, child)
  | some (.ok (some batch), child) => some (some <$> compute schema projections batch, child)

def subclass (schema : Schema) (child : Exec F) (projections : List (Projection F)) :
    Subclass F where
  State := child.State
  schema := schema
  start := child.start
  pull fuel := pull (child.next fuel) schema projections

end ProjectExec

/-! ## Plan trees -/

/-- The operator objects that the constructors below build. -/
inductive Plan (F : Type)
  | memoryScan (schema : Schema) (batches : List (RecordBatch F))
  | filter (child : Plan F) (predicate : Expr F)
  | project (schema : Schema) (child : Plan F) (projections : List (Projection F))

namespace Plan

def schema : Plan F → Schema
  | memoryScan schema _ => schema
  | filter child _ => child.schema
  | project schema _ _ => schema

def sourceBatches : Plan F → List (RecordBatch F)
  | memoryScan _ batches => batches
  | filter child _ => child.sourceBatches
  | project _ child _ => child.sourceBatches

def sourceSchema : Plan F → Schema
  | memoryScan schema _ => schema
  | filter child _ => child.sourceSchema
  | project _ child _ => child.sourceSchema

variable [JavaDouble F]

/-- The objects of a tree, each subclass turned into an `Exec` by `buffer`. -/
def execWith (buffer : Subclass F → Exec F) : Plan F → Exec F
  | memoryScan schema batches => buffer (MemoryScanExec.subclass schema batches)
  | filter child predicate => buffer (FilterExec.subclass (child.execWith buffer) predicate)
  | project schema child projections =>
      buffer (ProjectExec.subclass schema (child.execWith buffer) projections)

def exec (p : Plan F) : Exec F := p.execWith BufferedExec.exec

end Plan

def FilterExec.create (child : Plan F) (predicate : Expr F) : Java (Plan F) := do
  let exprType ← predicate.outputType child.schema
  if exprType.type ≠ .BOOLEAN then
    throw (.illegalArgument (jstr "Filter predicate must be of type boolean"))
  return .filter child predicate

def ProjectExec.new (child : Plan F) (projections : List (Projection F)) : Java (Plan F) := do
  let schema ← deriveSchema child.schema projections
  return .project schema child projections

/-- The trees that the three constructors build. -/
inductive Plan.Built : Plan F → Prop
  | memoryScan (schema : Schema) (batches : List (RecordBatch F)) :
      Built (.memoryScan schema batches)
  | filter {child p : Plan F} {predicate : Expr F} (hc : Built child)
      (h : FilterExec.create child predicate = .ok p) : Built p
  | project {child p : Plan F} {projections : List (Projection F)} (hc : Built child)
      (h : ProjectExec.new child projections = .ok p) : Built p

end QueryEngine
