import QueryEngine.Proof.Physical.Select

/-! # One batch through a projection

The schema is derived once, one field for each expression. Every batch then gets one vector for
each expression, of the derived type and of the batch's length, so the constructor accepts them and
the rows that come out are the rows that went in, projected.
-/
namespace QueryEngine
open Library ExprEvaluator
set_option autoImplicit false
set_option maxHeartbeats 250000

variable {F : Type}

namespace ProjectExec

def Derives (child : Schema) (p : Projection F) (f : Field) : Prop :=
  ∃ t, p.expression.outputType child = .ok t ∧ f = ⟨p.name, t.type, t.nullable⟩

theorem deriveSchema_ok {child schema : Schema} {projections : List (Projection F)}
    (h : deriveSchema child projections = .ok schema) :
    projections ≠ [] ∧ List.Forall₂ (Derives child) projections schema.fieldsList := by
  rw [deriveSchema] at h
  match projections with
  | [] => simp at h
  | p :: ps =>
    refine ⟨by simp, ?_⟩
    obtain ⟨fields, hfields, hfrom⟩ := bind_eq_ok (show ((p :: ps).mapM (deriveField child) >>=
      Schema.fromFields) = .ok schema from h)
    rw [Schema.fromFields_ok hfrom]
    refine (mapM_ok_iff.mp hfields).imp fun q f hq => ?_
    obtain ⟨t, ht, hf⟩ := bind_eq_ok hq
    exact ⟨t, ht, (Except.ok.inj hf).symm⟩

theorem names_eq {child : Schema} {projections : List (Projection F)} {fields : List Field}
    (h : List.Forall₂ (Derives child) projections fields) :
    projections.map Projection.name = fields.map Field.name := by
  apply map_eq_of_forall₂ h
  rintro p f ⟨t, -, rfl⟩
  rfl

theorem names_nodup {child schema : Schema} {projections : List (Projection F)}
    (h : deriveSchema child projections = .ok schema) :
    (projections.map Projection.name).Nodup := by
  rw [names_eq (deriveSchema_ok h).2]
  exact schema.names_nodup

theorem projection_of_field {child schema : Schema} {projections : List (Projection F)}
    (h : deriveSchema child projections = .ok schema) {f : Field} (hf : f ∈ schema.fieldsList) :
    ∃ p ∈ projections, Derives child p f := by
  have hderives := (deriveSchema_ok h).2.flip
  exact exists_of_forall₂_mem hderives hf

variable [JavaDouble F]

theorem projectRow_cons (p : Projection F) (ps : List (Projection F)) (row : Row F) :
    projectRow (p :: ps) row = (do
      let c ← interp row p.expression
      let cs ← projectRow ps row
      pure ((p.name, c) :: cs)) := by
  rw [projectRow, mapM_cons_eq]
  cases interp row p.expression <;> rfl

/-- The vector of one projection: the derived type, and the interpreter's answer on every row. -/
structure Column (b : RecordBatch F) (p : Projection F) (v : Vector F) : Prop where
  size : v.size = b.size
  slots : ∀ i < b.size, interp (b.row i) p.expression = .ok (v.slot i)

/-- What the loop over the projections does: every column, or the exception that the first
expression to fail raises on one of the rows. -/
theorem evalColumns_spec (b : RecordBatch F) {projections : List (Projection F)}
    {fields : List Field} (h : List.Forall₂ (Derives b.schema) projections fields) :
    (∃ vs, projections.mapM (fun p => eval b p.expression) = .ok vs ∧
      vs.map Vector.type = fields.map Field.type ∧ List.Forall₂ (Column b) projections vs) ∨
    (∃ i < b.size, ∃ x, projections.mapM (fun p => eval b p.expression) = .error x ∧
      projectRow projections (b.row i) = .error x) := by
  induction h with
  | nil => exact Or.inl ⟨[], rfl, rfl, List.Forall₂.nil⟩
  | @cons p f ps fs hp _ ih =>
    obtain ⟨t, ht, rfl⟩ := hp
    obtain ⟨v, hv, htype, hsize, hslots⟩ | ⟨i, hi, x, hx, hrow⟩ := eval_refines b p.expression ht
    · obtain ⟨vs, hvs, htypes, hcols⟩ | ⟨i, hi, x, hx, hrow⟩ := ih
      · refine Or.inl ⟨v :: vs, ?_, ?_, List.Forall₂.cons ⟨hsize, hslots⟩ hcols⟩
        · rw [mapM_cons_eq, hv, ok_bind, hvs]
          rfl
        · rw [List.map_cons, List.map_cons, htype, htypes]
      · refine Or.inr ⟨i, hi, x, ?_, ?_⟩
        · rw [mapM_cons_eq, hv, ok_bind, hx]
          rfl
        · simp [projectRow_cons, hslots i hi, hrow]
    · refine Or.inr ⟨i, hi, x, ?_, ?_⟩
      · rw [mapM_cons_eq, hx]
        rfl
      · simp [projectRow_cons, hrow]

theorem projectRow_of_columns {b : RecordBatch F} {projections : List (Projection F)}
    {vs : List (Vector F)} (h : List.Forall₂ (Column b) projections vs) {i : ℕ}
    (hi : i < b.size) :
    projectRow projections (b.row i) =
      .ok ((projections.map Projection.name).zip (vs.map fun v => v.slot i)) := by
  induction h with
  | nil => rfl
  | cons hc _ ih => simp [projectRow_cons, hc.slots i hi, ih]

/-- **A projection replaces every row of a batch by the values of its expressions.** -/
theorem compute_spec {child schema : Schema} {projections : List (Projection F)}
    (h : deriveSchema child projections = .ok schema) {b : RecordBatch F} (hb : b.schema = child) :
    (∃ out, compute schema projections b = .ok out ∧ out.schema = schema ∧ out.size = b.size ∧
      ∀ i < b.size, projectRow projections (b.row i) = .ok (out.row i)) ∨
    (∃ i < b.size, ∃ x, compute schema projections b = .error x ∧
      projectRow projections (b.row i) = .error x) := by
  obtain ⟨hne, hderives⟩ := deriveSchema_ok h
  rw [← hb] at hderives
  obtain ⟨vs, hvs, htypes, hcols⟩ | ⟨i, hi, x, hx, hrow⟩ := evalColumns_spec b hderives
  · have hsize : ∀ v ∈ vs, v.size = b.size := forall_of_forall₂ hcols fun p v hc => hc.size
    have hnil : vs = [] → b.size = 0 := by
      rintro rfl
      exact absurd (List.forall₂_nil_right_iff.mp hcols) hne
    obtain ⟨out, hout, hschema, hvectors, hosize⟩ := RecordBatch.new_of_types htypes hsize hnil
    refine Or.inl ⟨out, ?_, hschema, hosize, fun i hi => ?_⟩
    · rw [compute, hvs, ok_bind, hout]
    · rw [projectRow_of_columns hcols hi, out.row_eq_zip, hschema, hvectors, names_eq hderives]
  · exact Or.inr ⟨i, hi, x, by rw [compute, hx, error_bind], hrow⟩

end ProjectExec

/-! ## The skipping of empty batches -/

theorem nonEmpty_shows (b : RecordBatch F) : ∃ o, nonEmpty b = .ok o ∧ Shows b.schema o b.rows := by
  by_cases hpos : b.rowCount > 0
  · refine ⟨some b, by rw [nonEmpty, if_pos hpos], rfl, rfl, fun hnil => ?_⟩
    have hzero := b.rows_eq_nil_iff.mp hnil
    have hsize := b.rowCount_pos_iff.mp hpos
    omega
  · refine ⟨none, by rw [nonEmpty, if_neg hpos], b.rows_eq_nil_iff.mpr ?_⟩
    rw [b.rowCount_pos_iff] at hpos
    omega

theorem nonEmpty_carries (schema : Schema) :
    Carries schema schema (nonEmpty (F := F)) fun row => .ok (some row) := by
  intro b hb
  have hrows : b.rows.filterMapM (fun row => (.ok (some row) : Java _)) = .ok b.rows :=
    filterMapM_of_map b.row b.row fun i _ => rfl
  obtain ⟨o, ho, hshow⟩ := nonEmpty_shows b
  exact Or.inl ⟨o, b.rows, ho, hrows, hb ▸ hshow⟩

theorem ProjectExec.compute_carries [JavaDouble F] {child schema : Schema}
    {projections : List (Projection F)}
    (h : ProjectExec.deriveSchema child projections = .ok schema) :
    Carries child schema
      (andThen (fun b => some <$> ProjectExec.compute schema projections b) nonEmpty)
      fun row => some <$> projectRow projections row := by
  intro b hb
  obtain ⟨out, hout, hschema, hsize, hrows⟩ | ⟨i, hi, x, hx, hrow⟩ := ProjectExec.compute_spec h hb
  · have hstage : andThen (fun b => some <$> ProjectExec.compute schema projections b) nonEmpty b =
        nonEmpty out := by
      simp [andThen, hout]
    have himage : b.rows.filterMapM (fun row => some <$> projectRow projections row) =
        .ok ((List.range b.size).map out.row) := by
      apply filterMapM_of_map
      intro i hi
      rw [hrows i (List.mem_range.mp hi)]
      rfl
    rw [← hsize] at himage
    obtain ⟨o, ho, hshow⟩ := nonEmpty_shows out
    exact Or.inl ⟨o, out.rows, hstage.trans ho, himage, hschema ▸ hshow⟩
  · refine Or.inr ⟨b.row i, List.mem_map.mpr ⟨i, List.mem_range.mpr hi, rfl⟩, x, ?_, ?_⟩
    · exact andThen_of_error (by rw [hx]; rfl) nonEmpty
    · show some <$> projectRow projections (b.row i) = _
      rw [hrow]
      rfl

end QueryEngine
