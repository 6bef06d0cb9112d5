import QueryEngine.Model.Physical

/-! # Trees that keep more than their fields

History variables: an instrument builds every operator of a tree with something added to its state,
which nothing of the operator reads. `strip` forgets what one operator has added, `erase` what all
operators of a tree have.
-/
namespace QueryEngine
set_option autoImplicit false
set_option maxHeartbeats 250000

/-- A `BufferedExec` with an addition: without it, the schema, the first state and every call are
those of the `BufferedExec`. -/
structure Instrument (F : Type) where
  exec : Subclass F → Exec F
  strip : (sub : Subclass F) → (exec sub).State → BufferedExec.Fields sub.State
  schema_eq : ∀ sub, (exec sub).schema = sub.schema
  strip_start : ∀ sub, strip sub (exec sub).start = ⟨false, sub.start⟩
  strip_next : ∀ sub fuel s, ((exec sub).next fuel s).map (fun out => (out.1, strip sub out.2)) =
    BufferedExec.next sub.pull fuel (strip sub s)

/-- The flag as it is, the fields of the subclass changed. -/
def BufferedExec.Fields.map {σ τ : Type} (f : σ → τ) (self : Fields σ) : Fields τ :=
  ⟨self.exhausted, f self.fields⟩

variable {F : Type} [JavaDouble F]

/-- The state of a tree without the additions. -/
def Instrument.erase (I : Instrument F) : (p : Plan F) → (p.execWith I.exec).State → p.exec.State
  | .memoryScan schema batches, s => I.strip (MemoryScanExec.subclass schema batches) s
  | .filter child predicate, s =>
      (I.strip (FilterExec.subclass (child.execWith I.exec) predicate) s).map (I.erase child)
  | .project schema child projections, s =>
      (I.strip (ProjectExec.subclass schema (child.execWith I.exec) projections) s).map
        (I.erase child)

/-- A property of a tree, said of its scan and, for every operator above it, of the operator's child
under the operator's flag. -/
def Instrument.Throughout (I : Instrument F)
    (Scan : (schema : Schema) → (batches : List (RecordBatch F)) →
      ((Plan.memoryScan schema batches).execWith I.exec).State → Prop)
    (Link : (child : Plan F) → Bool → (child.execWith I.exec).State → Prop) :
    (p : Plan F) → (p.execWith I.exec).State → Prop
  | .memoryScan schema batches, s => Scan schema batches s
  | .filter child predicate, s =>
      let self := I.strip (FilterExec.subclass (child.execWith I.exec) predicate) s
      Link child self.exhausted self.fields ∧ I.Throughout Scan Link child self.fields
  | .project schema child projections, s =>
      let self := I.strip (ProjectExec.subclass schema (child.execWith I.exec) projections) s
      Link child self.exhausted self.fields ∧ I.Throughout Scan Link child self.fields

end QueryEngine
