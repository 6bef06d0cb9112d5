import QueryEngine.Library.PullMachine
import QueryEngine.Model.Physical

/-! # Operators that write down their answers

A history variable: every operator of the tree keeps the answers of its `next` so far. Nothing
reads the log, and `erase` forgets it, so a recorded run is a run of the tree in which one can see
how often an operator has called its child, and what the child had answered by then.
-/
namespace QueryEngine
open Library
set_option autoImplicit false
set_option maxHeartbeats 250000

variable {F : Type}

/-- An operator's fields and its answers so far. -/
structure Recorded (F σ : Type) where
  self : BufferedExec.Fields σ
  answers : List (Java (Option (RecordBatch F)))

/-- `BufferedExec` with a log. -/
def recording (sub : Subclass F) : Exec F where
  State := Recorded F sub.State
  schema := sub.schema
  start := ⟨⟨false, sub.start⟩, []⟩
  next fuel s := (BufferedExec.next sub.pull fuel s.self).map fun out =>
    (out.1, ⟨out.2, s.answers ++ [out.1]⟩)

namespace Plan
variable [JavaDouble F]

def recorded (p : Plan F) : Exec F := p.execWith recording

def answers : (p : Plan F) → p.recorded.State → List (Java (Option (RecordBatch F)))
  | memoryScan _ _, s => Recorded.answers s
  | filter _ _, s => Recorded.answers s
  | project _ _ _, s => Recorded.answers s

/-- The state without its logs. -/
def erase : (p : Plan F) → p.recorded.State → p.exec.State
  | memoryScan _ _, s => Recorded.self s
  | filter child _, s => ⟨(Recorded.self s).exhausted, child.erase (Recorded.self s).fields⟩
  | project _ child _, s => ⟨(Recorded.self s).exhausted, child.erase (Recorded.self s).fields⟩

end Plan

/-- Nothing was asked after the first `null`. -/
def EndsAtNull (answers : List (Java (Option (RecordBatch F)))) : Prop :=
  ∀ pre post, answers = pre ++ .ok none :: post → post = []

/-- No operator of the tree has called its child after the child had answered `null`. -/
def Plan.NoCallAfterNull [JavaDouble F] : (p : Plan F) → p.recorded.State → Prop
  | memoryScan _ _, _ => True
  | filter child _, s =>
      EndsAtNull (child.answers (Recorded.self s).fields) ∧
        child.NoCallAfterNull (Recorded.self s).fields
  | project _ child _, s =>
      EndsAtNull (child.answers (Recorded.self s).fields) ∧
        child.NoCallAfterNull (Recorded.self s).fields

end QueryEngine
