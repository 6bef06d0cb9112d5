import QueryEngine.Proof.Physical.Contracts

/-! # Calls after an exception

An exception leaves the operators below already advanced and every flag above unset. The calls of a
tree settle the batches of its scan one after the other: a batch without an image is passed over,
one with an image is answered with it, and one on which the evaluation raises is answered with that
exception and not seen again. So nothing is missing before the first exception, and after it the
images of the batches that raised are.
-/
namespace QueryEngine
open Library
set_option autoImplicit false
set_option maxHeartbeats 250000

variable {F : Type}

/-- The batches among the answers of a run. -/
def returned (rs : List (Java (Option (RecordBatch F)))) : List (RecordBatch F) :=
  rs.filterMap fun
    | .ok (some b) => some b
    | _ => none

theorem returned_answers (outs : List (RecordBatch F)) (nulls : ℕ) :
    returned ((outs.map .ok).map (some <$> ·) ++ List.replicate nulls (.ok none)) = outs := by
  induction outs with
  | nil => simp [returned]
  | cons out outs ih => exact congrArg (List.cons out) ih

namespace Plan
variable [JavaDouble F]

/-- No image has been left out of the answers of a run, and no failure was followed by anything but
failures. -/
structure GapFree (p : Plan F) (rs : List (Java (Option (RecordBatch F)))) : Prop where
  images : ∃ batches images, batches <+: p.sourceBatches ∧
    batches.mapM (fun b => p.image b.rows) = .ok images ∧
    (returned rs).map RecordBatch.rows = images.filter fun rows => !rows.isEmpty
  failed : ∀ pre x post, rs = pre ++ .error x :: post → ∀ r ∈ post, ∃ y, r = .error y

/-! ## Runs -/

theorem map_responses (p : Plan F) (batches : List (RecordBatch F)) :
    (p.responses batches).map (some <$> ·) = (batches.map p.step).filter fun r => !ended r :=
  map_filterMap_passOn p.step batches

/-- Responses without exceptions come from an initial part of the scan, and are its images. -/
theorem images_of_responses {p : Plan F} (hp : p.Built) (hsrc : p.SourcesConform)
    {outs : List (RecordBatch F)} (h : outs.map .ok <+: p.responses p.sourceBatches) :
    ∃ batches images, batches <+: p.sourceBatches ∧
      batches.mapM (fun b => p.image b.rows) = .ok images ∧
      outs.map RecordBatch.rows = images.filter fun rows => !rows.isEmpty := by
  obtain ⟨pending, hpending, houts⟩ := List.prefix_filterMap_iff.mp h
  obtain ⟨batches, hbatches, rfl⟩ := List.prefix_map_iff.mp hpending
  have hcollect : collect (p.responses batches) = .ok outs := by
    rw [responses, ← houts]
    exact collect_map_ok outs
  obtain ⟨images, himages, hrows⟩ :=
    collect_responses hp (fun b hb => hsrc.schema_eq b (hbatches.subset hb)) hcollect
  exact ⟨batches, images, hbatches, himages, hrows⟩

theorem gapFree_of_no_error {p : Plan F} (hp : p.Built) (hsrc : p.SourcesConform)
    {rs : List (Java (Option (RecordBatch F)))} {s : p.exec.State}
    (h : Calls p.exec.next p.exec.start rs s) (herror : ∀ x, .error x ∉ rs) : p.GapFree rs := by
  obtain ⟨R, hserves, hstart⟩ := p.exec_serves
  have hrs := hserves.answers hstart h
  constructor
  · cases hcollect : collect ((p.responses p.sourceBatches).take rs.length) with
    | error x =>
      have hmem : .error x ∈ rs := by
        rw [hrs]
        exact List.mem_append_left _ (List.mem_map_of_mem (mem_of_collect_error hcollect))
      exact absurd hmem (herror x)
    | ok outs =>
      have houts := eq_map_ok_of_collect hcollect
      have hreturned : returned rs = outs := by
        rw [hrs, answersTo, houts]
        exact returned_answers outs _
      rw [hreturned]
      exact images_of_responses hp hsrc (houts ▸ List.take_prefix _ _)
  · rintro pre x post rfl
    exact absurd (List.mem_append_right pre List.mem_cons_self) (herror x)

/-- Some response is an exception exactly when some batch has no image. -/
theorem responses_raise_iff {p : Plan F} (hp : p.Built) {batches : List (RecordBatch F)}
    (hschema : ∀ b ∈ batches, b.schema = p.sourceSchema) :
    (∃ x, .error x ∈ p.responses batches) ↔ ∃ b ∈ batches, ∃ y, p.image b.rows = .error y := by
  constructor
  · rintro ⟨x, hx⟩
    obtain ⟨b, hb, row, hrow, himage⟩ := response_error hp hschema hx
    exact ⟨b, hb, filterMapM_error_iff.mpr ⟨row, hrow, x, himage⟩⟩
  · rintro ⟨b, hb, y, hy⟩
    have hsettles := fun r => hp.settles (hschema b hb) (r := r)
    cases hstep : p.step b using outcome_cases with
    | raise x => exact ⟨x, mem_responses.mpr ⟨b, hb, hstep⟩⟩
    | drop =>
      have himage : p.image b.rows = .ok [] := hsettles _ hstep
      simp [himage] at hy
    | keep out => simp [(hsettles _ hstep).2.1] at hy

/-- A call goes on after a failure, so a batch that raises is followed by something else. -/
theorem not_gapFree_of_raise {p : Plan F} {x : JavaException}
    (h : .error x ∈ p.responses p.sourceBatches) :
    ∃ rs s, Calls p.exec.next p.exec.start rs s ∧ ¬ p.GapFree rs := by
  obtain ⟨R, hserves, hstart⟩ := p.exec_serves
  obtain ⟨s, hs⟩ := hserves.exists_whole_run hstart
  refine ⟨_, s, hs, fun hgap => ?_⟩
  obtain ⟨pre, post, hsplit⟩ := List.append_of_mem h
  have hrs : (p.responses p.sourceBatches).map (some <$> ·) ++ [.ok none] =
      pre.map (some <$> ·) ++ .error x :: (post.map (some <$> ·) ++ [.ok none]) := by
    rw [hsplit, List.map_append, List.append_assoc]
    rfl
  obtain ⟨y, hy⟩ := hgap.failed _ x _ hrs (.ok none) (by simp)
  cases hy

end Plan

variable [JavaDouble F]

/-- **What calls do after an exception.** The calls settle the batches of the scan in order; up to
an exception nothing is missing; and nothing is ever missing exactly when no batch raises. -/
theorem calls_settle (p : Plan F) (hp : p.Built) (hsrc : p.SourcesConform) :
    (∃ outcomes, List.Forall₂ p.Settles p.sourceBatches outcomes ∧
      ∀ rs s, Calls p.exec.next p.exec.start rs s →
        rs = (outcomes.filter fun r => !ended r).take rs.length ++
          List.replicate (rs.length - (outcomes.filter fun r => !ended r).length) (.ok none)) ∧
    (∀ rs s, Calls p.exec.next p.exec.start rs s → (∀ x, .error x ∉ rs) → p.GapFree rs) ∧
    ((∀ rs s, Calls p.exec.next p.exec.start rs s → p.GapFree rs) ↔
      ∀ b ∈ p.sourceBatches, ∃ rows, p.image b.rows = .ok rows) := by
  obtain ⟨R, hserves, hstart⟩ := p.exec_serves
  refine ⟨⟨p.sourceBatches.map p.step, ?_, fun rs s hs => ?_⟩,
    fun rs s => Plan.gapFree_of_no_error hp hsrc, fun hgap b hb => ?_, fun himages rs s hs => ?_⟩
  · rw [List.forall₂_map_right_iff, List.forall₂_same]
    exact fun b hb => hp.settles (hsrc.schema_eq b hb) rfl
  · have hrs := hserves.answers hstart hs
    rw [answersTo, List.map_take, p.map_responses] at hrs
    rwa [← p.map_responses, List.length_map, p.map_responses]
  · cases himage : p.image b.rows with
    | ok rows => exact ⟨rows, rfl⟩
    | error y =>
      obtain ⟨x, hx⟩ := (Plan.responses_raise_iff hp hsrc.schema_eq).mpr ⟨b, hb, y, himage⟩
      obtain ⟨rs, s, hs, hgapped⟩ := Plan.not_gapFree_of_raise hx
      exact absurd (hgap rs s hs) hgapped
  · refine Plan.gapFree_of_no_error hp hsrc hs fun x hmem => ?_
    rw [hserves.answers hstart hs] at hmem
    have hx : .error x ∈ p.responses p.sourceBatches := mem_of_answersTo hmem
    obtain ⟨b, hb, y, hy⟩ := (Plan.responses_raise_iff hp hsrc.schema_eq).mp ⟨x, hx⟩
    obtain ⟨rows, hrows⟩ := himages b hb
    simp [hrows] at hy

/-! ## A run with a gap -/

namespace Sample

/-- One row, on which `1 / d` divides by zero. -/
def zero : RecordBatch Unit :=
  ⟨schema, [.int (.constant ⟨0, 1, one_positive⟩), .bool (.constant ⟨true, 1, one_positive⟩)],
    by decide⟩

/-- `SELECT 1 / d AS d` over a batch that raises and one that does not. -/
def risky : Plan Unit :=
  .project ⟨⟨[(d, ⟨d, .INT32, true⟩)], d_nodup⟩, d_keyed⟩ (.memoryScan schema [zero, first])
    [⟨d, inverse⟩]

theorem risky_built : risky.Built := by
  have hproject : ProjectExec.new (.memoryScan schema [zero, first]) [⟨d, inverse⟩] =
      .ok risky := rfl
  exact .project (.memoryScan schema [zero, first]) hproject

theorem risky_sourcesConform : risky.SourcesConform := by
  intro b hb
  have hmem : b ∈ [zero, first] := hb
  obtain rfl | rfl : b = zero ∨ b = first := by simpa using hmem
  · rfl
  · rfl

end Sample

/-- An exception, then the image of the second batch, then `null`. -/
theorem failure_leaves_gap :
    Sample.risky.Built ∧ Sample.risky.SourcesConform ∧
    ∃ out s, Calls Sample.risky.exec.next Sample.risky.exec.start
        [.error .arithmetic, .ok (some out), .ok none] s ∧
      Sample.risky.image Sample.first.rows = .ok out.rows ∧
      ¬ Sample.risky.GapFree [.error .arithmetic, .ok (some out), .ok none] := by
  refine ⟨Sample.risky_built, Sample.risky_sourcesConform, _, _, Calls.call (n := 3)
    (Calls.call (n := 3) (Calls.call (n := 3) .start rfl) rfl) rfl, ?_, fun hgap => ?_⟩
  · decide
  · obtain ⟨y, hy⟩ := hgap.failed [] .arithmetic _ rfl (.ok none) (by simp)
    cases hy

theorem calls_settle_sample :
    (∃ outcomes, List.Forall₂ Sample.risky.Settles [Sample.zero, Sample.first] outcomes ∧
      ∀ rs s, Calls Sample.risky.exec.next Sample.risky.exec.start rs s →
        rs = (outcomes.filter fun r => !ended r).take rs.length ++
          List.replicate (rs.length - (outcomes.filter fun r => !ended r).length) (.ok none)) ∧
    ∀ rs s, Calls Sample.risky.exec.next Sample.risky.exec.start rs s → (∀ x, .error x ∉ rs) →
      Sample.risky.GapFree rs := by
  have h := calls_settle Sample.risky Sample.risky_built Sample.risky_sourcesConform
  exact ⟨h.1, h.2.1⟩

end QueryEngine
