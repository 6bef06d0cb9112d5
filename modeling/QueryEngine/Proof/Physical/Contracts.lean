import QueryEngine.Proof.Evaluator.Guarantees
import QueryEngine.Proof.Physical.Rows

/-! # The contracts of an operator tree

What a caller of `next()` can rely on: the batches it gets are the images of the scan's batches,
batch boundaries and storage cannot be seen from outside, and nothing goes wrong at run time but a
division by zero or an ordering of booleans.
-/
namespace QueryEngine
open Library
set_option autoImplicit false
set_option maxHeartbeats 250000

variable {F : Type}

/-! ## A sample tree -/

namespace Sample

def scan : Plan Unit := .memoryScan schema [batch]

theorem scan_sourcesConform : scan.SourcesConform := by
  intro b hb
  rw [List.mem_singleton.mp hb]
  rfl

theorem d_nodup : (([(d, ⟨d, .INT32, true⟩)] : List (JString × Field)).map Prod.fst).Nodup := by
  decide

theorem d_keyed : ∀ e ∈ ([(d, ⟨d, .INT32, true⟩)] : List (JString × Field)), e.2.name = e.1 := by
  decide

theorem one_positive : Vector.positiveLength 1 = .ok () := by decide

/-- `SELECT d FROM batch WHERE f`. -/
def plan : Plan Unit :=
  .project ⟨⟨[(d, ⟨d, .INT32, true⟩)], d_nodup⟩, d_keyed⟩ (.filter scan (.columnRef f))
    [⟨d, .columnRef d⟩]

theorem plan_built : plan.Built := by
  have hfilter : FilterExec.create scan (.columnRef f) = .ok (.filter scan (.columnRef f)) := rfl
  have hproject : ProjectExec.new (.filter scan (.columnRef f)) [⟨d, .columnRef d⟩] =
      .ok plan := rfl
  exact .project (.filter (.memoryScan schema [batch]) hfilter) hproject

theorem plan_drains : ∃ out, plan.drain 2 = some (.ok out) := ⟨_, rfl⟩

theorem plan_sourcesConform : plan.SourcesConform := scan_sourcesConform

/-- The first row of `batch`, `d` in constant storage. -/
def first : RecordBatch Unit :=
  ⟨schema, [.int (.constant ⟨7, 1, one_positive⟩), .bool (.constant ⟨true, 1, one_positive⟩)],
    by decide⟩

def noRows : RecordBatch Unit :=
  ⟨schema, [.int (.constant ⟨7, 0, by decide⟩), .bool (.constant ⟨true, 0, by decide⟩)], by decide⟩

/-- The second row of `batch`, over other junk and at another offset. -/
def second : RecordBatch Unit :=
  ⟨schema, [.int (.array ⟨⟨[5], by decide⟩, 0, 1, ⟨[0]⟩, one_positive, by decide⟩),
    .bool (.array ⟨⟨[false, true], by decide⟩, 1, 1, ⟨[0]⟩, one_positive, by decide⟩)], by decide⟩

end Sample

variable [JavaDouble F]

/-! ## Pipeline semantics -/

/-- **Draining a tree returns the images of the scan's batches, the empty ones left out.** -/
theorem drain_images (p : Plan F) (hp : p.Built) (hsrc : p.SourcesConform) :
    (∀ fuel, p.sourceBatches.length < fuel → ∃ r, p.drain fuel = some r) ∧
    (∀ fuel out, p.drain fuel = some (.ok out) →
      (∀ b ∈ out, b.schema = p.schema) ∧
      ∃ images, p.sourceBatches.mapM (fun b => p.image b.rows) = .ok images ∧
        out.map RecordBatch.rows = images.filter fun rows => !rows.isEmpty) :=
  ⟨fun _ => p.drain_returns,
    fun _ _ h => ⟨Plan.drain_schema hp hsrc h, Plan.drain_ok hp hsrc h⟩⟩

theorem drain_images_sample :
    (∀ fuel, 1 < fuel → ∃ r, Sample.plan.drain fuel = some r) ∧
    ∃ out images, Sample.plan.drain 2 = some (.ok out) ∧
      (∀ b ∈ out, b.schema = Sample.plan.schema) ∧
      [Sample.batch].mapM (fun b => Sample.plan.image b.rows) = .ok images ∧
      out.map RecordBatch.rows = images.filter fun rows => !rows.isEmpty := by
  have h := drain_images Sample.plan Sample.plan_built Sample.plan_sourcesConform
  obtain ⟨out, hout⟩ := Sample.plan_drains
  obtain ⟨hschema, images, himages, hrows⟩ := h.2 2 out hout
  exact ⟨h.1, out, images, hout, hschema, himages, hrows⟩

/-! ## Batch boundaries and storage -/

/-- **Two scans of the same rows cannot be told apart through a tree.** -/
theorem boundaries_invisible (p : Plan F) (hp : p.Built) {batches batches' : List (RecordBatch F)}
    (hsrc : ∀ b ∈ batches, b.schema.fieldsList = p.sourceSchema.fieldsList)
    (hsrc' : ∀ b ∈ batches', b.schema.fieldsList = p.sourceSchema.fieldsList)
    (hrows : batches.flatMap RecordBatch.rows = batches'.flatMap RecordBatch.rows)
    {fuel fuel' : ℕ} (hfuel : batches.length < fuel) (hfuel' : batches'.length < fuel') :
    (∃ x x', (p.withBatches batches).drain fuel = some (.error x) ∧
      (p.withBatches batches').drain fuel' = some (.error x')) ∨
    (∃ out out', (p.withBatches batches).drain fuel = some (.ok out) ∧
      (p.withBatches batches').drain fuel' = some (.ok out') ∧
      out.flatMap RecordBatch.rows = out'.flatMap RecordBatch.rows) := by
  have hdrain := Plan.drain_image (hp.withBatches batches)
    (Plan.sourcesConform_withBatches hsrc) (by rw [p.sourceBatches_withBatches]; exact hfuel)
  have hdrain' := Plan.drain_image (hp.withBatches batches')
    (Plan.sourcesConform_withBatches hsrc') (by rw [p.sourceBatches_withBatches]; exact hfuel')
  simp only [Plan.image, Plan.imageRow_withBatches, Plan.sourceBatches_withBatches, ← hrows]
    at hdrain hdrain'
  obtain ⟨x, y, hx, hy⟩ | ⟨out, hout, himage⟩ := hdrain
  · obtain ⟨x', y', hx', -⟩ | ⟨out', -, himage'⟩ := hdrain'
    · exact Or.inl ⟨x, x', hx, hx'⟩
    · simp [hy] at himage'
  · obtain ⟨x', y', -, hy'⟩ | ⟨out', hout', himage'⟩ := hdrain'
    · simp [hy'] at himage
    · rw [himage] at himage'
      exact Or.inr ⟨out, out', hout, hout', Except.ok.inj himage'⟩

theorem boundaries_invisible_sample :
    (∃ x x', (Sample.plan.withBatches [Sample.batch]).drain 2 = some (.error x) ∧
      (Sample.plan.withBatches [Sample.first, Sample.noRows, Sample.second]).drain 4 =
        some (.error x')) ∨
    (∃ out out', (Sample.plan.withBatches [Sample.batch]).drain 2 = some (.ok out) ∧
      (Sample.plan.withBatches [Sample.first, Sample.noRows, Sample.second]).drain 4 =
        some (.ok out') ∧
      out.flatMap RecordBatch.rows = out'.flatMap RecordBatch.rows) := by
  apply boundaries_invisible Sample.plan Sample.plan_built
  · simp [Sample.plan, Sample.scan, Sample.batch, Plan.sourceSchema]
  · simp [Sample.plan, Sample.scan, Sample.first, Sample.noRows, Sample.second, Plan.sourceSchema]
  · decide
  · decide
  · decide

/-! ## Nothing goes wrong -/

/-- What a caller may expect of a batch from an operator with this schema. -/
structure RecordBatch.Conforms (s : Schema) (b : RecordBatch F) : Prop where
  rows : b.rowCount > 0
  fields : b.schema.fieldsList = s.fieldsList
  types : b.vectors.map Vector.type = s.fieldsList.map Field.type
  lengths : ∀ v ∈ b.vectors, v.length = b.rowCount
  required : b.RequiredPresent

/-- `null`, a batch that conforms, or one of the two exceptions of well-typed expressions. -/
def WellBehaved (s : Schema) : Java (Option (RecordBatch F)) → Prop
  | .ok none => True
  | .ok (some b) => b.Conforms s
  | .error x => Tolerated x

namespace Plan

theorem wellBehaved_of_pending {p : Plan F} (hp : p.Built) (hsrc : p.SourcesConform)
    (hrow : ∀ b ∈ p.sourceBatches, ∀ row ∈ b.rows, row.Conforms p.sourceSchema) (k : ℕ) :
    WellBehaved p.schema (answer ((p.responses p.sourceBatches).drop k)) := by
  match hl : (p.responses p.sourceBatches).drop k with
  | [] => trivial
  | .error x :: rest =>
    have hmem : .error x ∈ p.responses p.sourceBatches :=
      List.mem_of_mem_drop (hl ▸ List.mem_cons_self)
    obtain ⟨b, hb, row, hr, hx⟩ := response_error hp hsrc.schema_eq hmem
    exact hp.imageRow_tolerated (hrow b hb row hr) hx
  | .ok out :: rest =>
    have hmem : .ok out ∈ p.responses p.sourceBatches :=
      List.mem_of_mem_drop (hl ▸ List.mem_cons_self)
    obtain ⟨hschema, hpos, b, hb, himage⟩ := response_ok hp hsrc.schema_eq hmem
    have hrequired : out.RequiredPresent := by
      rw [out.requiredPresent_iff, hschema]
      intro i hi
      have hmem : out.row i ∈ out.rows := List.mem_map.mpr ⟨i, List.mem_range.mpr hi, rfl⟩
      obtain ⟨row, hr, hrowi⟩ := exists_of_mem_filterMapM himage hmem
      exact (hp.imageRow_conforms (hrow b hb row hr) hrowi).required
    exact ⟨out.rowCount_pos_iff.mpr hpos, by rw [hschema], hschema ▸ out.types_eq,
      fun v hv => out.length_of_mem hv, hrequired⟩

end Plan

/-- **In every state that calls of `next()` lead to, the next call is well behaved.** -/
theorem next_well_behaved (p : Plan F) (hp : p.Built) (hsrc : p.SourcesConform)
    (hrequired : ∀ b ∈ p.sourceBatches, b.RequiredPresent)
    (hstrings : ∀ b ∈ p.sourceBatches, b.StringsPresent) {s : p.exec.State}
    {rs : List (Java (Option (RecordBatch F)))} (hs : Calls p.exec.next p.exec.start rs s) :
    (∀ fuel, p.sourceBatches.length < fuel → ∃ r s', p.exec.next fuel s = some (r, s')) ∧
    ∀ fuel r s', p.exec.next fuel s = some (r, s') → WellBehaved p.exec.schema r := by
  obtain ⟨R, hserves, hstart⟩ := p.exec_serves
  have hk := hserves.calls hstart hs
  refine ⟨fun fuel hfuel => hserves.total hk hfuel, fun fuel r s' hnext => ?_⟩
  rw [(hserves.sound hk hnext).1, p.exec_schema]
  exact Plan.wellBehaved_of_pending hp hsrc
    (fun b hb row hrow => Plan.sourceRow_conforms hsrc hstrings hrequired hb hrow)
    rs.length

theorem next_well_behaved_sample :
    (∀ fuel, 1 < fuel → ∃ r s', Sample.plan.exec.next fuel Sample.plan.exec.start = some (r, s')) ∧
    ∀ fuel r s', Sample.plan.exec.next fuel Sample.plan.exec.start = some (r, s') →
      WellBehaved Sample.plan.exec.schema r := by
  apply next_well_behaved Sample.plan Sample.plan_built Sample.plan_sourcesConform
  · intro b hb
    rw [List.mem_singleton.mp hb, Sample.batch.requiredPresent_iff]
    unfold Row.Required
    decide
  · intro b hb
    rw [List.mem_singleton.mp hb]
    exact Sample.stringsPresent
  · exact .start

end QueryEngine
