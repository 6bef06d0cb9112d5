import QueryEngine.Proof.Physical.Contracts

/-! # The declared schema of a scan

`MemoryScanExec` takes a schema and a list of batches, each of which has been checked against a
schema of its own, and compares nothing. What its parents derive from the declared schema holds of
the batches that keep it: those with its names and types in its order, and without a null slot in a
column that it declares non-nullable. Batches without rows are never handed up and may be anything.
-/
namespace QueryEngine
open Library ExprEvaluator
set_option autoImplicit false
set_option maxHeartbeats 250000

variable {F : Type}

/-- The names and types of the fields, in their order. -/
def Schema.shape (s : Schema) : List (JString × Scalar) :=
  s.fieldsList.map fun f => (f.name, f.type)

theorem Schema.field_of_shape {s s' : Schema} (h : s.shape = s'.shape) {f : Field}
    (hf : f ∈ s.fieldsList) : ∃ f' ∈ s'.fieldsList, f'.name = f.name ∧ f'.type = f.type := by
  have hmem : (f.name, f.type) ∈ s'.shape := by
    rw [← h]
    exact List.mem_map_of_mem hf
  obtain ⟨f', hf', hpair⟩ := List.mem_map.mp hmem
  obtain ⟨hname, htype⟩ := Prod.mk.inj hpair
  exact ⟨f', hf', hname, htype⟩

/-- **A static type depends on names and types only**, but for its nullability. -/
theorem Expr.outputType_of_shape {s s' : Schema} (h : s.shape = s'.shape) {e : Expr F}
    {t : ExprType} (ht : e.outputType s = .ok t) :
    ∃ t', e.outputType s' = .ok t' ∧ t'.type = t.type := by
  induction e generalizing t with
  | columnRef name =>
    obtain ⟨f, hf, rfl⟩ := outputType_columnRef_ok ht
    obtain ⟨hmem, rfl⟩ := (s.field_ok_iff name f).mp hf
    obtain ⟨f', hf', hname, htype⟩ := Schema.field_of_shape h hmem
    have hfield : s'.field f.name = .ok f' := hname ▸ Schema.field_of_mem hf'
    exact ⟨⟨f'.type, f'.nullable⟩, by rw [outputType, hfield, ok_bind]; rfl, htype⟩
  | literal l => exact ⟨t, ht, rfl⟩
  | binary left op right ihl ihr =>
    obtain ⟨u, w, hu, hw, huw, -, hop⟩ := outputType_binary_ok ht
    obtain ⟨u', hu', hut⟩ := ihl hu
    obtain ⟨w', hw', hwt⟩ := ihr hw
    have huw' : u'.type = w'.type := by rw [hut, hwt, huw]
    rw [outputType, hu', ok_bind, hw', ok_bind]
    cases op with
    | arithmetic op =>
      refine ⟨_, binaryType_arithmetic op huw' (hut ▸ hop.1), ?_⟩
      rw [hop.2, hut]
    | comparison op => exact ⟨_, binaryType_comparison op huw', hop.symm⟩
  | unary op e ih =>
    obtain ⟨hu, hbool⟩ := outputType_unary_ok ht
    obtain ⟨t', ht', htype⟩ := ih hu
    rw [outputType, ht', ok_bind]
    exact ⟨t', by rw [unaryType, if_pos (htype.trans hbool)], htype⟩
  | logical left op right ihl ihr =>
    obtain ⟨u, w, hu, hw, hub, hwb, rfl⟩ := outputType_logical_ok ht
    obtain ⟨u', hu', hut⟩ := ihl hu
    obtain ⟨w', hw', hwt⟩ := ihr hw
    have hbool : u'.type = .BOOLEAN ∧ w'.type = .BOOLEAN := ⟨hut.trans hub, hwt.trans hwb⟩
    rw [outputType, hu', ok_bind, hw', ok_bind, logicalType, if_pos hbool]
    exact ⟨_, rfl, rfl⟩

namespace RecordBatch

/-- The batch has what the schema declares: its names and types in its order, and no null slot in a
column that it declares non-nullable. -/
structure Keeps (s : Schema) (b : RecordBatch F) : Prop where
  shape : b.schema.shape = s.shape
  required : ∀ (k : ℕ) (f : Field) (v : Vector F), s.fieldsList[k]? = some f →
    b.vectors[k]? = some v → f.nullable = false → ∀ i < b.size, (v.slot i).isSome

theorem Keeps.row_fits {s : Schema} {b : RecordBatch F} (h : b.Keeps s) (hb : b.StringsPresent)
    {i : ℕ} (hi : i < b.size) : (b.row i).Fits s := by
  intro f hf
  obtain ⟨f', hf', hname, htype⟩ := Schema.field_of_shape h.shape.symm hf
  have hfits := RecordBatch.row_fits hb hi f' hf'
  rwa [hname, htype] at hfits

theorem Keeps.row_required {s : Schema} {b : RecordBatch F} (h : b.Keeps s) {i : ℕ}
    (hi : i < b.size) : (b.row i).Required s := by
  intro f hf hnull
  obtain ⟨k, hk⟩ := List.getElem?_of_mem hf
  have hshape : b.schema.shape[k]? = some (f.name, f.type) := by
    rw [h.shape, Schema.shape, List.getElem?_map, hk]
    rfl
  rw [Schema.shape, List.getElem?_map, Option.map_eq_some_iff] at hshape
  obtain ⟨f', hk', hpair⟩ := hshape
  obtain ⟨hname, -⟩ := Prod.mk.inj hpair
  obtain ⟨v, hv, -, hcolumn⟩ := b.getElem_column hk'
  rw [← hname, b.row_cell i ((lookup_eq_some_iff b.columns_nodup f'.name v).mpr hcolumn)]
  exact h.required k f v hk hv hnull i hi

end RecordBatch

variable [JavaDouble F]

/-- What `outputType` has found out over a schema is so on the batch: an accepted expression yields
a vector of the announced type, without null slots if it is announced non-nullable, and raises
nothing but a division by zero or an ordering of booleans. -/
structure RecordBatch.ChecksValid (s : Schema) (b : RecordBatch F) : Prop where
  typed : ∀ e t v, Expr.outputType s e = .ok t → eval b e = .ok v → v.type = t.type
  required : b.StringsPresent → ∀ e t v, Expr.outputType s e = .ok t → t.nullable = false →
    eval b e = .ok v → ∀ i < v.size, (v.slot i).isSome
  raises : b.StringsPresent → ∀ e t x, Expr.outputType s e = .ok t → eval b e = .error x →
    Tolerated x

theorem RecordBatch.Keeps.checksValid {s : Schema} {b : RecordBatch F} (h : b.Keeps s) :
    b.ChecksValid s where
  typed := by
    intro e t v ht hv
    obtain ⟨t', ht', htype⟩ := Expr.outputType_of_shape h.shape.symm ht
    obtain ⟨u, hu, huv⟩ := typed_of_eval hv
    obtain rfl : t' = u := by simpa [ht'] using hu
    rw [← huv, htype]
  required := by
    intro hb e t v ht hnull hv i hi
    obtain ⟨hsize, hslots⟩ := eval_ok hv
    have hlt : i < b.size := hsize ▸ hi
    exact interp_required (h.row_fits hb hlt) (h.row_required hlt) ht hnull (hslots i hlt)
  raises := by
    intro hb e t x ht hx
    obtain ⟨t', ht', -⟩ := Expr.outputType_of_shape h.shape.symm ht
    obtain ⟨v, hv, -⟩ | ⟨i, hi, y, hy, hrow⟩ := eval_refines b e ht'
    · simp [hv] at hx
    · obtain rfl : y = x := by simpa [hy] using hx
      exact interp_tolerated (h.row_fits hb hi) ht hrow

/-! ## Runs of a scan -/

theorem mem_scan_responses (schema : Schema) {batches : List (RecordBatch F)} {b : RecordBatch F} :
    .ok b ∈ (Plan.memoryScan schema batches).responses batches ↔
      b ∈ batches ∧ b.rowCount > 0 := by
  rw [Plan.mem_responses]
  constructor
  · rintro ⟨c, hc, hstep⟩
    by_cases hpos : c.rowCount > 0
    · obtain rfl : c = b := by simpa [Plan.step, nonEmpty, hpos] using hstep
      exact ⟨hc, hpos⟩
    · simp [Plan.step, nonEmpty, hpos] at hstep
  · rintro ⟨hb, hpos⟩
    exact ⟨b, hb, by simp [Plan.step, nonEmpty, hpos]⟩

/-- **A scan returns the batches of its list that have rows.** -/
theorem scan_returns_iff {schema : Schema} {batches : List (RecordBatch F)} {b : RecordBatch F} :
    (∃ rs s, Calls (Plan.memoryScan schema batches).exec.next
      (Plan.memoryScan schema batches).exec.start rs s ∧ .ok (some b) ∈ rs) ↔
      b ∈ batches ∧ b.rowCount > 0 := by
  obtain ⟨R, hserves, hstart⟩ := (Plan.memoryScan schema batches).exec_serves
  rw [← mem_scan_responses schema]
  constructor
  · rintro ⟨rs, s, hs, hb⟩
    rw [hserves.answers hstart hs] at hb
    exact mem_of_answersTo (r := .ok b) hb
  · intro hb
    obtain ⟨s, hs⟩ := hserves.exists_whole_run hstart
    exact ⟨_, s, hs, List.mem_append_left _ (List.mem_map_of_mem hb)⟩

/-- **When a scan honours its declared schema**: exactly when the batches of its list that have rows
keep it. -/
theorem scan_honours_schema_iff (schema : Schema) (batches : List (RecordBatch F)) :
    (∀ rs s, Calls (Plan.memoryScan schema batches).exec.next
        (Plan.memoryScan schema batches).exec.start rs s →
      ∀ b, .ok (some b) ∈ rs → b.Keeps (Plan.memoryScan schema batches).exec.schema ∧
        b.ChecksValid (Plan.memoryScan schema batches).exec.schema) ↔
    ∀ b ∈ batches, b.rowCount > 0 → b.Keeps schema := by
  constructor
  · intro h b hb hpos
    obtain ⟨rs, s, hs, hmem⟩ := scan_returns_iff.mpr ⟨hb, hpos⟩
    exact (h rs s hs b hmem).1
  · intro h rs s hs b hmem
    obtain ⟨hb, hpos⟩ := scan_returns_iff.mp ⟨rs, s, hs, hmem⟩
    have hkeeps := h b hb hpos
    exact ⟨hkeeps, hkeeps.checksValid⟩

/-! ## A scan that breaks its schema -/

namespace Sample

/-- `f BOOLEAN NOT NULL`. -/
def flagSchema : Schema := ⟨⟨[(f, ⟨f, .BOOLEAN, false⟩)], by decide⟩, by decide⟩

/-- A batch whose own schema says that `f` is an INT32. -/
def mistyped : RecordBatch Unit :=
  ⟨⟨⟨[(f, ⟨f, .INT32, false⟩)], by decide⟩, by decide⟩, [.int (.constant ⟨1, 1, one_positive⟩)],
    by decide⟩

/-- A batch of `flagSchema` in which `f` is null. -/
def nullFlag : RecordBatch Unit :=
  ⟨flagSchema, [.bool (.array ⟨⟨[false], by decide⟩, 0, 1, ⟨[0]⟩, one_positive, by decide⟩)],
    by decide⟩

def flagScan : Plan Unit := .memoryScan flagSchema [mistyped, nullFlag]

end Sample

/-- Both batches come out of the scan as they are; the filter on `f` is accepted and then fails on a
cast. -/
theorem scan_breaks_schema :
    (∃ s, Calls Sample.flagScan.exec.next Sample.flagScan.exec.start
      [.ok (some Sample.mistyped), .ok (some Sample.nullFlag)] s) ∧
    ¬ Sample.mistyped.Keeps Sample.flagScan.exec.schema ∧
    ¬ Sample.nullFlag.Keeps Sample.flagScan.exec.schema ∧
    ∃ filter, FilterExec.create Sample.flagScan (.columnRef Sample.f) = .ok filter ∧
      filter.drain 3 = some (.error .classCast) := by
  refine ⟨⟨_, Calls.call (n := 2) (Calls.call (n := 2) .start rfl) rfl⟩, fun h => ?_, fun h => ?_,
    _, rfl, rfl⟩
  · have hshape : Sample.mistyped.schema.shape = Sample.flagSchema.shape := h.shape
    revert hshape
    decide
  · have hpresent := h.required 0 ⟨Sample.f, .BOOLEAN, false⟩ _ rfl rfl rfl 0 (by decide)
    revert hpresent
    decide

end QueryEngine
