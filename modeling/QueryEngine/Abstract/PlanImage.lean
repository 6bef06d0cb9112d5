import QueryEngine.Abstract.SlotView
import QueryEngine.Library.PullMachine
import QueryEngine.Model.Physical

/-! # What a plan does to a row

The purpose of an operator tree, stated on rows: a filter keeps a row on which its predicate is
TRUE, a projection replaces the row by the values of its expressions, and the tree does both from
the scan upwards. `Carries` says that an operation on batches does to the rows of a batch what an
operation on rows does to each of them; it composes, and that is how a tree gets its meaning.
-/
namespace QueryEngine
open Library
set_option autoImplicit false
set_option maxHeartbeats 250000

variable {F : Type}

/-- TRUE, as against FALSE and null. -/
def Cell.isTrue : Cell F → Bool
  | some (.bool b) => b
  | _ => false

section Rows
variable [JavaDouble F]

def keepRow (predicate : Expr F) (row : Row F) : Java (Option (Row F)) := do
  let c ← interp row predicate
  return if Cell.isTrue c then some row else none

def projectRow (projections : List (Projection F)) (row : Row F) : Java (Row F) :=
  projections.mapM fun p => do
    let c ← interp row p.expression
    return (p.name, c)

/-- What a tree makes of one row of its scan: another row, or nothing. -/
def Plan.imageRow : Plan F → Row F → Java (Option (Row F))
  | memoryScan _ _ => fun row => .ok (some row)
  | filter child predicate => andThen child.imageRow (keepRow predicate)
  | project _ child projections => andThen child.imageRow fun row =>
      some <$> projectRow projections row

def Plan.image (p : Plan F) (rows : List (Row F)) : Java (List (Row F)) :=
  rows.filterMapM p.imageRow

end Rows

/-! ## Operations on batches that act row by row -/

/-- A batch of the schema that holds these rows, or no batch for no rows. -/
def Shows (schema : Schema) : Option (RecordBatch F) → List (Row F) → Prop
  | none, rows => rows = []
  | some b, rows => b.schema = schema ∧ b.rows = rows ∧ rows ≠ []

/-- On batches of schema `s`, `f` does to the rows what `g` does to each, with results of schema
`t`; and what `f` raises, `g` raises on one of the rows. -/
def Carries (s t : Schema) (f : RecordBatch F → Java (Option (RecordBatch F)))
    (g : Row F → Java (Option (Row F))) : Prop :=
  ∀ b : RecordBatch F, b.schema = s →
    (∃ o rows, f b = .ok o ∧ b.rows.filterMapM g = .ok rows ∧ Shows t o rows) ∨
      (∃ row ∈ b.rows, ∃ x, f b = .error x ∧ g row = .error x)

/-- **Row-by-row operations compose.** -/
theorem Carries.andThen {s t u : Schema} {f f' : RecordBatch F → Java (Option (RecordBatch F))}
    {g g' : Row F → Java (Option (Row F))} (h : Carries s t f g) (h' : Carries t u f' g') :
    Carries s u (andThen f f') (andThen g g') := by
  intro b hb
  rcases h b hb with ⟨o, rows, hf, hg, hshow⟩ | ⟨row, hrow, x, hf, hg⟩
  · cases o with
    | none =>
      have hnil : rows = [] := hshow
      rw [hnil] at hg
      exact Or.inl ⟨none, [], andThen_of_none hf f', filterMapM_andThen hg rfl, rfl⟩
    | some c =>
      obtain ⟨hc, hcrows, -⟩ := hshow
      rw [← hcrows] at hg
      rcases h' c hc with ⟨o', rows', hf', hg', hshow'⟩ | ⟨row', hrow', x, hf', hg'⟩
      · exact Or.inl ⟨o', rows', (andThen_of_some hf f').trans hf', filterMapM_andThen hg hg',
          hshow'⟩
      · obtain ⟨row, hrow, hgrow⟩ := exists_of_mem_filterMapM hg hrow'
        exact Or.inr ⟨row, hrow, x, (andThen_of_some hf f').trans hf',
          (andThen_of_some hgrow g').trans hg'⟩
  · exact Or.inr ⟨row, hrow, x, andThen_of_error hf f', andThen_of_error hg g'⟩

/-- `BufferedExec` skips batches without rows. -/
def nonEmpty (batch : RecordBatch F) : Java (Option (RecordBatch F)) :=
  .ok (if batch.rowCount > 0 then some batch else none)

/-! ## Scans -/

/-- The batches of the scan have the fields of the scan's schema. -/
def Plan.SourcesConform (p : Plan F) : Prop :=
  ∀ b ∈ p.sourceBatches, b.schema.fieldsList = p.sourceSchema.fieldsList

def Plan.withBatches (batches : List (RecordBatch F)) : Plan F → Plan F
  | memoryScan schema _ => memoryScan schema batches
  | filter child predicate => filter (child.withBatches batches) predicate
  | project schema child projections => project schema (child.withBatches batches) projections

namespace Plan

@[simp] theorem sourceBatches_withBatches (p : Plan F) (batches : List (RecordBatch F)) :
    (p.withBatches batches).sourceBatches = batches := by
  induction p with
  | memoryScan schema _ => rfl
  | filter child predicate ih => exact ih
  | project schema child projections ih => exact ih

@[simp] theorem schema_withBatches (p : Plan F) (batches : List (RecordBatch F)) :
    (p.withBatches batches).schema = p.schema := by
  induction p with
  | memoryScan schema _ => rfl
  | filter child predicate ih => exact ih
  | project schema child projections ih => rfl

@[simp] theorem sourceSchema_withBatches (p : Plan F) (batches : List (RecordBatch F)) :
    (p.withBatches batches).sourceSchema = p.sourceSchema := by
  induction p with
  | memoryScan schema _ => rfl
  | filter child predicate ih => exact ih
  | project schema child projections ih => exact ih

end Plan

variable [JavaDouble F]

@[simp] theorem Plan.imageRow_withBatches (p : Plan F) (batches : List (RecordBatch F)) :
    (p.withBatches batches).imageRow = p.imageRow := by
  induction p with
  | memoryScan schema _ => rfl
  | filter child predicate ih => rw [Plan.withBatches, imageRow, imageRow, ih]
  | project schema child projections ih => rw [Plan.withBatches, imageRow, imageRow, ih]

/-! ## Batches through a tree -/

/-- What an operator makes of one batch of its child. -/
def Plan.step : Plan F → RecordBatch F → Java (Option (RecordBatch F))
  | memoryScan _ _ => nonEmpty
  | filter child predicate =>
      andThen child.step (andThen (FilterExec.select child.schema predicate) nonEmpty)
  | project schema child projections =>
      andThen child.step
        (andThen (fun b => some <$> ProjectExec.compute schema projections b) nonEmpty)

/-- `next()` until it returns `null` or raises. -/
def Plan.drain (p : Plan F) (fuel : ℕ) : Option (Java (List (RecordBatch F))) :=
  Library.drain p.exec.next fuel fuel p.exec.start

end QueryEngine
