import QueryEngine.Abstract.Instrument

/-! # Operators that write down what they pull

A history variable: every operator keeps the answers of its `pull` so far, so that one can see how
often the scan was asked and which batches it has handed up.
-/
namespace QueryEngine
set_option autoImplicit false
set_option maxHeartbeats 250000

variable {F : Type}

/-- The fields of a subclass and the answers of its `pull` so far. -/
structure Metered (F σ : Type) where
  fields : σ
  pulls : List (Java (Option (RecordBatch F)))

/-- A subclass with a log. -/
def metering (sub : Subclass F) : Subclass F where
  State := Metered F sub.State
  schema := sub.schema
  start := ⟨sub.start, []⟩
  pull fuel s := (sub.pull fuel s.fields).map fun out => (out.1, ⟨out.2, s.pulls ++ [out.1]⟩)

namespace Plan
variable [JavaDouble F]

def metered (p : Plan F) : Exec F := p.execWith fun sub => BufferedExec.exec (metering sub)

/-- The answers of the scan's `pull`, from the first to the last. -/
def scanPulls : (p : Plan F) → p.metered.State → List (Java (Option (RecordBatch F)))
  | memoryScan _ _, s => Metered.pulls (BufferedExec.Fields.fields s)
  | filter child _, s => child.scanPulls (Metered.fields (BufferedExec.Fields.fields s))
  | project _ child _, s => child.scanPulls (Metered.fields (BufferedExec.Fields.fields s))

end Plan

end QueryEngine
