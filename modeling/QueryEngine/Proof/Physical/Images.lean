import QueryEngine.Proof.Physical.Serving

/-! # What a drained tree has returned

The step of a well-built tree carries `imageRow`, by composition of what a filter and a projection
carry. Collected over the batches of the scan, the responses are the images of these batches, the
empty ones left out; and an exception is one that `imageRow` raises on some row of the scan.
-/
namespace QueryEngine
open Library
set_option autoImplicit false
set_option maxHeartbeats 250000

variable {F : Type}

/-! ## The constructors -/

theorem FilterExec.create_ok {child p : Plan F} {predicate : Expr F}
    (h : FilterExec.create child predicate = .ok p) :
    p = .filter child predicate ∧
      ∃ t, predicate.outputType child.schema = .ok t ∧ t.type = .BOOLEAN := by
  obtain ⟨t, ht, h⟩ := bind_eq_ok h
  by_cases hbool : t.type = .BOOLEAN
  · have hp : Except.ok (.filter child predicate) = (.ok p : Java (Plan F)) := by
      simpa [hbool] using h
    exact ⟨(Except.ok.inj hp).symm, t, ht, hbool⟩
  · simp [hbool] at h

theorem FilterExec.create_of_boolean {child : Plan F} {predicate : Expr F} {t : ExprType}
    (ht : predicate.outputType child.schema = .ok t) (hbool : t.type = .BOOLEAN) :
    FilterExec.create child predicate = .ok (.filter child predicate) := by
  simp [FilterExec.create, ht, hbool]

theorem ProjectExec.new_ok {child p : Plan F} {projections : List (Projection F)}
    (h : ProjectExec.new child projections = .ok p) :
    ∃ schema, ProjectExec.deriveSchema child.schema projections = .ok schema ∧
      p = .project schema child projections := by
  obtain ⟨schema, hschema, h⟩ := bind_eq_ok h
  exact ⟨schema, hschema, (Except.ok.inj h).symm⟩

theorem ProjectExec.new_of_schema {child : Plan F} {projections : List (Projection F)}
    {schema : Schema} (h : ProjectExec.deriveSchema child.schema projections = .ok schema) :
    ProjectExec.new child projections = .ok (.project schema child projections) := by
  rw [ProjectExec.new, h]
  rfl

namespace Plan

theorem SourcesConform.schema_eq {p : Plan F} (h : p.SourcesConform) :
    ∀ b ∈ p.sourceBatches, b.schema = p.sourceSchema :=
  fun b hb => Schema.ext_fieldsList (h b hb)

theorem Built.withBatches {p : Plan F} (hp : p.Built) (batches : List (RecordBatch F)) :
    (p.withBatches batches).Built := by
  induction hp with
  | memoryScan schema _ => exact .memoryScan schema batches
  | @filter child p predicate _ h ih =>
    obtain ⟨rfl, t, ht, hbool⟩ := FilterExec.create_ok h
    rw [← child.schema_withBatches batches] at ht
    exact .filter ih (FilterExec.create_of_boolean ht hbool)
  | @project child p projections _ h ih =>
    obtain ⟨schema, hschema, rfl⟩ := ProjectExec.new_ok h
    rw [← child.schema_withBatches batches] at hschema
    exact .project ih (ProjectExec.new_of_schema hschema)

theorem sourcesConform_withBatches {p : Plan F} {batches : List (RecordBatch F)}
    (h : ∀ b ∈ batches, b.schema.fieldsList = p.sourceSchema.fieldsList) :
    (p.withBatches batches).SourcesConform := by
  intro b hb
  rw [p.sourceBatches_withBatches] at hb
  rw [p.sourceSchema_withBatches]
  exact h b hb

variable [JavaDouble F]

/-- **The step of a well-built tree does to rows what the tree says.** -/
theorem Built.carries {p : Plan F} (hp : p.Built) :
    Carries p.sourceSchema p.schema p.step p.imageRow := by
  induction hp with
  | memoryScan schema batches => exact nonEmpty_carries schema
  | @filter child p predicate _ h ih =>
    obtain ⟨rfl, t, ht, hbool⟩ := FilterExec.create_ok h
    have hselect := FilterExec.select_carries ht hbool
    have hstage := hselect.andThen (nonEmpty_carries child.schema)
    rw [andThen_some] at hstage
    exact ih.andThen hstage
  | @project child p projections _ h ih =>
    obtain ⟨schema, hschema, rfl⟩ := ProjectExec.new_ok h
    exact ih.andThen (ProjectExec.compute_carries hschema)

/-! ## Responses -/

/-- What the calls make of one batch of the scan: nothing where its image is empty, its image, or
what the evaluation raises on one of its rows. -/
def Settles (p : Plan F) (b : RecordBatch F) : Java (Option (RecordBatch F)) → Prop
  | .ok none => p.image b.rows = .ok []
  | .ok (some out) => out.schema = p.schema ∧ p.image b.rows = .ok out.rows ∧ out.rows ≠ []
  | .error x => ∃ row ∈ b.rows, p.imageRow row = .error x

variable {p : Plan F} {batches : List (RecordBatch F)}

theorem Built.settles (hp : p.Built) {b : RecordBatch F} (hb : b.schema = p.sourceSchema)
    {r : Java (Option (RecordBatch F))} (hstep : p.step b = r) : p.Settles b r := by
  subst hstep
  obtain ⟨o, rows, hstep, himage, hshow⟩ | ⟨row, hrow, x, hstep, himage⟩ := hp.carries b hb
  · rw [hstep]
    cases o with
    | none =>
      obtain rfl : rows = [] := hshow
      exact himage
    | some out =>
      obtain ⟨hschema, rfl, hne⟩ := hshow
      exact ⟨hschema, himage, hne⟩
  · rw [hstep]
    exact ⟨row, hrow, himage⟩

theorem mem_responses {r : Java (RecordBatch F)} :
    r ∈ p.responses batches ↔ ∃ b ∈ batches, p.step b = some <$> r := by
  rw [responses, List.filterMap_map, List.mem_filterMap]
  exact exists_congr fun b => and_congr_right fun _ => passOn_ok_eq_some_iff

theorem response_ok (hp : p.Built) (hschema : ∀ b ∈ batches, b.schema = p.sourceSchema)
    {out : RecordBatch F} (h : .ok out ∈ p.responses batches) :
    out.schema = p.schema ∧ 0 < out.size ∧
      ∃ b ∈ batches, b.rows.filterMapM p.imageRow = .ok out.rows := by
  obtain ⟨b, hb, hstep⟩ := mem_responses.mp h
  obtain ⟨hout, himage, hne⟩ := hp.settles (hschema b hb) hstep
  have hsize : out.size ≠ 0 := fun h0 => hne (out.rows_eq_nil_iff.mpr h0)
  exact ⟨hout, by omega, b, hb, himage⟩

theorem response_error (hp : p.Built) (hschema : ∀ b ∈ batches, b.schema = p.sourceSchema)
    {x : JavaException} (h : .error x ∈ p.responses batches) :
    ∃ b ∈ batches, ∃ row ∈ b.rows, p.imageRow row = .error x := by
  obtain ⟨b, hb, hstep⟩ := mem_responses.mp h
  exact ⟨b, hb, hp.settles (hschema b hb) hstep⟩

/-! ## Responses, collected -/

theorem collect_responses (hp : p.Built) (hschema : ∀ b ∈ batches, b.schema = p.sourceSchema)
    {out : List (RecordBatch F)} (h : collect (p.responses batches) = .ok out) :
    ∃ images, batches.mapM (fun b => p.image b.rows) = .ok images ∧
      out.map RecordBatch.rows = images.filter fun rows => !rows.isEmpty := by
  induction batches generalizing out with
  | nil => exact ⟨[], rfl, by rw [show out = [] from (Except.ok.inj h).symm]; rfl⟩
  | cons b bs ih =>
    have hbs := fun c hc => hschema c (List.mem_cons_of_mem b hc)
    have hcons : ∀ image images, p.image b.rows = .ok image →
        bs.mapM (fun b => p.image b.rows) = .ok images →
        (b :: bs).mapM (fun b => p.image b.rows) = .ok (image :: images) := by
      intro image images himage himages
      rw [mapM_cons_eq, himage, ok_bind, himages]
      rfl
    have hsettles := fun r => hp.settles (hschema b List.mem_cons_self) (r := r)
    cases hstep : p.step b using outcome_cases with
    | raise x =>
      have hhead : p.responses (b :: bs) = .error x :: p.responses bs := by
        simp [responses, passOn, hstep]
      rw [hhead] at h
      simp [collect] at h
    | drop =>
      have htail : p.responses (b :: bs) = p.responses bs := by simp [responses, passOn, hstep]
      rw [htail] at h
      obtain ⟨images, himages, hout⟩ := ih hbs h
      exact ⟨[] :: images, hcons _ _ (hsettles _ hstep) himages, by simpa using hout⟩
    | keep c =>
      have hhead : p.responses (b :: bs) = .ok c :: p.responses bs := by
        simp [responses, passOn, hstep]
      rw [hhead] at h
      obtain ⟨-, himage, hne⟩ := hsettles _ hstep
      obtain ⟨rest, hrest, rfl⟩ := map_eq_ok h
      obtain ⟨images, himages, hout⟩ := ih hbs hrest
      exact ⟨c.rows :: images, hcons _ _ himage himages, by simp [hout, hne]⟩

/-! ## Draining -/

theorem drain_returns (p : Plan F) {fuel : ℕ} (h : p.sourceBatches.length < fuel) :
    ∃ r, p.drain fuel = some r := by
  obtain ⟨R, hserves, hstart⟩ := p.exec_serves
  have hshort := hserves.short hstart
  exact hserves.drain_total hstart h (by omega)

theorem drain_eq_collect {fuel : ℕ} {r : Java (List (RecordBatch F))}
    (h : p.drain fuel = some r) : r = collect (p.responses p.sourceBatches) := by
  obtain ⟨R, hserves, hstart⟩ := p.exec_serves
  exact hserves.drain_sound hstart h

/-- **A drain that raised nothing has returned the images.** -/
theorem drain_ok (hp : p.Built) (hsrc : p.SourcesConform) {fuel : ℕ}
    {out : List (RecordBatch F)} (h : p.drain fuel = some (.ok out)) :
    ∃ images, p.sourceBatches.mapM (fun b => p.image b.rows) = .ok images ∧
      out.map RecordBatch.rows = images.filter fun rows => !rows.isEmpty :=
  collect_responses hp hsrc.schema_eq (drain_eq_collect h).symm

theorem drain_schema (hp : p.Built) (hsrc : p.SourcesConform) {fuel : ℕ}
    {out : List (RecordBatch F)} (h : p.drain fuel = some (.ok out)) :
    ∀ b ∈ out, b.schema = p.schema := by
  intro b hb
  have hmem := mem_of_collect_ok (drain_eq_collect h).symm hb
  exact (response_ok hp hsrc.schema_eq hmem).1

theorem drain_error (hp : p.Built) (hsrc : p.SourcesConform) {fuel : ℕ} {x : JavaException}
    (h : p.drain fuel = some (.error x)) :
    ∃ b ∈ p.sourceBatches, ∃ row ∈ b.rows, p.imageRow row = .error x :=
  response_error hp hsrc.schema_eq (mem_of_collect_error (drain_eq_collect h).symm)

theorem flatMap_images {p : Plan F} {batches : List (RecordBatch F)} {images : List (List (Row F))}
    (h : batches.mapM (fun b => p.image b.rows) = .ok images) :
    p.image (batches.flatMap RecordBatch.rows) = .ok images.flatten := by
  have hpairs := mapM_ok_iff.mp h
  clear h
  induction hpairs with
  | nil => rfl
  | cons hb _ ih =>
    rw [List.flatMap_cons, List.flatten_cons]
    exact filterMapM_append hb ih

theorem drain_ok_rows {p : Plan F} (hp : p.Built) (hsrc : p.SourcesConform) {fuel : ℕ}
    {out : List (RecordBatch F)} (h : p.drain fuel = some (.ok out)) :
    p.image (p.sourceBatches.flatMap RecordBatch.rows) = .ok (out.flatMap RecordBatch.rows) := by
  obtain ⟨images, himages, hout⟩ := drain_ok hp hsrc h
  rw [flatMap_images himages, List.flatMap_def, hout, List.flatten_filter_not_isEmpty]

/-- **A drain raises or returns as the image of the rows of the scan does.** -/
theorem drain_image {p : Plan F} (hp : p.Built) (hsrc : p.SourcesConform) {fuel : ℕ}
    (hfuel : p.sourceBatches.length < fuel) :
    (∃ x x', p.drain fuel = some (.error x) ∧
      p.image (p.sourceBatches.flatMap RecordBatch.rows) = .error x') ∨
    (∃ out, p.drain fuel = some (.ok out) ∧
      p.image (p.sourceBatches.flatMap RecordBatch.rows) = .ok (out.flatMap RecordBatch.rows)) := by
  obtain ⟨r, hr⟩ := p.drain_returns hfuel
  match r with
  | .error x =>
    obtain ⟨b, hb, row, hrow, himage⟩ := drain_error hp hsrc hr
    have hmem : row ∈ p.sourceBatches.flatMap RecordBatch.rows :=
      List.mem_flatMap.mpr ⟨b, hb, hrow⟩
    obtain ⟨x', hx'⟩ := filterMapM_error_iff.mpr ⟨row, hmem, x, himage⟩
    exact Or.inl ⟨x, x', hr, hx'⟩
  | .ok out => exact Or.inr ⟨out, hr, drain_ok_rows hp hsrc hr⟩

end Plan

end QueryEngine
