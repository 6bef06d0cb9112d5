import QueryEngine.Proof.Evaluator.Rephrasing
import QueryEngine.Proof.Physical.Flattening

/-! # Trees that cannot be told apart

Two trees over one scan that make the same of every batch, the same rows or an exception, answer
every sequence of calls alike, calls after an exception included. Filters and projections respect
this: a filter may keep the same rows by another predicate, and a projection compute the same
columns by other expressions.
-/
namespace QueryEngine
open Library ExprEvaluator
set_option autoImplicit false
set_option maxHeartbeats 250000

variable {F : Type}

/-! ## Batches that show the same -/

/-- Two batches of the schema that show the same. -/
def SameOf (s : Schema) (b b' : RecordBatch F) : Prop := b.schema = s ∧ b.Same b'

theorem SameOf.trans {s : Schema} {b b' b'' : RecordBatch F} (h : SameOf s b b')
    (h' : SameOf s b' b'') : SameOf s b b'' :=
  ⟨h.1, h.2.1.trans h'.2.1, h.2.2.trans h'.2.2⟩

theorem Shows.sameOf {s : Schema} {o o' : Option (RecordBatch F)} {rows : List (Row F)}
    (h : Shows s o rows) (h' : Shows s o' rows) : Option.Rel (SameOf s) o o' := by
  cases o with
  | none =>
    obtain rfl : rows = [] := h
    cases o' with
    | none => exact .none
    | some b' => exact absurd rfl h'.2.2
  | some b =>
    obtain ⟨hs, hrows, hne⟩ := h
    cases o' with
    | none => exact absurd h' hne
    | some b' => exact .some ⟨hs, hs.trans h'.1.symm, hrows.trans h'.2.1.symm⟩

/-- **An operation that acts row by row does not look at storage.** -/
theorem Carries.alike {s t : Schema} {f : RecordBatch F → Java (Option (RecordBatch F))}
    {g : Row F → Java (Option (Row F))} (h : Carries s t f g) {b b' : RecordBatch F}
    (hb : SameOf s b b') : Alike (Option.Rel (SameOf t)) (f b) (f b') := by
  obtain ⟨hs, hschema, hrows⟩ := hb
  obtain ⟨o, rows, ho, hg, hshow⟩ | ⟨row, hrow, x, hx, hgx⟩ := h b hs
  · obtain ⟨o', rows', ho', hg', hshow'⟩ | ⟨row', hrow', x', -, hgx'⟩ :=
      h b' (hschema.symm.trans hs)
    · rw [← hrows, hg, Except.ok.injEq] at hg'
      rw [ho, ho']
      exact .ok (hshow.sameOf (hg' ▸ hshow'))
    · obtain ⟨c, hc⟩ := filterMapM_ok_forall hg row' (hrows ▸ hrow')
      rw [hgx'] at hc
      cases hc
  · obtain ⟨o', rows', -, hg', -⟩ | ⟨row', -, x', hx', -⟩ := h b' (hschema.symm.trans hs)
    · obtain ⟨c, hc⟩ := filterMapM_ok_forall hg' row (hrows ▸ hrow)
      rw [hgx] at hc
      cases hc
    · rw [hx, hx']
      exact .error x x'

theorem RecordBatch.same_of_vectors {b b' : RecordBatch F} (hschema : b.schema = b'.schema)
    (hsize : b.size = b'.size) (h : List.Forall₂ Vector.ObsEq b.vectors b'.vectors) :
    b.Same b' := by
  refine ⟨hschema, ?_⟩
  rw [rows, rows, ← hsize]
  refine List.map_congr_left fun i hi => ?_
  rw [b.row_eq_zip, b'.row_eq_zip, hschema]
  congr 1
  refine map_eq_of_forall₂ ((List.forall₂_and_left _ _).mpr ⟨fun v hv => hv, h⟩) ?_
  rintro v w ⟨hv, hvw⟩
  exact hvw.2.2 i (b.size_of_mem hv ▸ List.mem_range.mp hi)

theorem nonEmpty_alike {s : Schema} {b b' : RecordBatch F} (h : SameOf s b b') :
    Alike (Option.Rel (SameOf s)) (nonEmpty b) (nonEmpty b') :=
  (nonEmpty_carries s).alike h

/-! ## What a built tree consists of -/

theorem FilterExec.create_raises_iff (child : Plan F) (e : Expr F) :
    (∃ x, create child e = .error x) ↔ ¬ e.Boolean child.schema := by
  constructor
  · rintro ⟨x, hx⟩ ⟨t, ht, hbool⟩
    rw [create_of_boolean ht hbool] at hx
    cases hx
  · intro h
    cases hp : create child e with
    | error x => exact ⟨x, rfl⟩
    | ok p => exact absurd (create_ok hp).2 h

variable [JavaDouble F]

/-! ## One filter, one projection -/

/-- Two predicates that keep the same rows of every batch of the schema, or both raise. -/
def KeepsAlike (s : Schema) (p q : Expr F) : Prop :=
  ∀ b : RecordBatch F, b.schema = s →
    Alike (Masks b.size fun x y => x = some true ↔ y = some true) (eval b p) (eval b q)

theorem FilterExec.select_alike {s : Schema} {p q : Expr F} (h : KeepsAlike s p q)
    {b : RecordBatch F} (hb : b.schema = s) :
    Alike (Option.Rel (SameOf s)) (select s p b) (select s q b) := by
  subst hb
  refine (h b rfl).elim (fun x y hp hq => ?_) fun v w hp hq hvw => ?_
  · rw [select, hp, error_bind, select, hq, error_bind]
    exact .error x y
  · obtain ⟨l, r, rfl, rfl, hl, hr, hslots⟩ := hvw
    obtain ⟨o, ho, hshow⟩ := select_ok hp hl
    obtain ⟨o', ho', hshow'⟩ := select_ok hq hr
    have hkept : kept l b.size = kept r b.size := by
      refine List.filter_congr fun k hk => ?_
      rw [keeps, keeps, decide_eq_decide]
      exact hslots k (List.mem_range.mp hk)
    rw [ho, ho']
    exact .ok (hshow.sameOf (hkept ▸ hshow'))

theorem ProjectExec.compute_of_columns {child s : Schema} {ps : List (Projection F)}
    (hps : deriveSchema child ps = .ok s) {b : RecordBatch F} (hb : b.schema = child)
    {vs : List (Vector F)} (hvs : (ps.mapM fun p => eval b p.expression) = .ok vs) :
    ∃ out, compute s ps b = .ok out ∧ out.schema = s ∧ out.vectors = vs ∧ out.size = b.size := by
  obtain ⟨hne, hderives⟩ := deriveSchema_ok hps
  rw [← hb] at hderives
  obtain ⟨ws, hws, htypes, hcols⟩ | ⟨i, -, x, hx, -⟩ := evalColumns_spec b hderives
  · obtain rfl : vs = ws := Except.ok.inj (hvs.symm.trans hws)
    have hsize : ∀ v ∈ vs, v.size = b.size := forall_of_forall₂ hcols fun p v hc => hc.size
    have hnil : vs = [] → b.size = 0 := by
      rintro rfl
      exact absurd (List.forall₂_nil_right_iff.mp hcols) hne
    obtain ⟨out, hout, hschema, hvectors, hosize⟩ := RecordBatch.new_of_types htypes hsize hnil
    exact ⟨out, by rw [compute, hvs, ok_bind, hout], hschema, hvectors, hosize⟩
  · rw [hvs] at hx
    cases hx

theorem ProjectExec.compute_alike {child s : Schema} {ps qs : List (Projection F)}
    (hps : deriveSchema child ps = .ok s) (hqs : deriveSchema child qs = .ok s)
    (h : List.Forall₂ (fun p q => EvalAlike child p.expression q.expression) ps qs)
    {b : RecordBatch F} (hb : b.schema = child) :
    Alike (SameOf s) (compute s ps b) (compute s qs b) := by
  have hcolumns : Alike (List.Forall₂ Vector.ObsEq)
      (ps.mapM fun p => eval b p.expression) (qs.mapM fun q => eval b q.expression) :=
    mapM_alike (h.imp fun p q hpq => hpq b hb)
  refine hcolumns.elim (fun x y hvs hws => ?_) fun vs ws hvs hws hsame => ?_
  · rw [compute, hvs, error_bind, compute, hws, error_bind]
    exact .error x y
  · obtain ⟨out, hout, hschema, hvectors, hsize⟩ := compute_of_columns hps hb hvs
    obtain ⟨out', hout', hschema', hvectors', hsize'⟩ := compute_of_columns hqs hb hws
    rw [hout, hout']
    refine .ok ⟨hschema, RecordBatch.same_of_vectors (hschema.trans hschema'.symm)
      (hsize.trans hsize'.symm) ?_⟩
    rw [hvectors, hvectors']
    exact hsame

/-! ## Trees -/

namespace Plan

/-- Over the same scan and with the same schema, batch for batch the same rows, or both raise. -/
structure StepsAlike (p q : Plan F) : Prop where
  schema : p.schema = q.schema
  sourceSchema : p.sourceSchema = q.sourceSchema
  sourceBatches : p.sourceBatches = q.sourceBatches
  step : ∀ b, b.schema = p.sourceSchema →
    Alike (Option.Rel (SameOf p.schema)) (p.step b) (q.step b)

namespace StepsAlike

theorem refl {p : Plan F} (hp : p.Built) : StepsAlike p p :=
  ⟨rfl, rfl, rfl, fun _ hb => hp.carries.alike ⟨hb, rfl, rfl⟩⟩

theorem trans {p q r : Plan F} (h : StepsAlike p q) (h' : StepsAlike q r) : StepsAlike p r where
  schema := h.schema.trans h'.schema
  sourceSchema := h.sourceSchema.trans h'.sourceSchema
  sourceBatches := h.sourceBatches.trans h'.sourceBatches
  step := by
    intro b hb
    have hstep := h'.step b (h.sourceSchema ▸ hb)
    rw [← h.schema] at hstep
    exact (h.step b hb).trans hstep fun _ _ _ ho ho' =>
      optionRel_trans ho ho' fun _ _ _ => SameOf.trans

/-- **A filter may keep the same rows by another predicate.** -/
theorem filter {child child' : Plan F} (h : StepsAlike child child') {p q : Expr F}
    (hpq : KeepsAlike child.schema p q) {t : ExprType} (ht : q.outputType child.schema = .ok t)
    (hbool : t.type = .BOOLEAN) : StepsAlike (.filter child p) (.filter child' q) where
  schema := h.schema
  sourceSchema := h.sourceSchema
  sourceBatches := h.sourceBatches
  step := by
    intro b hb
    refine andThen_alike (h.step b hb) fun d d' hd => ?_
    have hkeep := andThen_alike (FilterExec.select_alike hpq hd.1) fun _ _ => nonEmpty_alike
    have hstorage :=
      ((FilterExec.select_carries ht hbool).andThen (nonEmpty_carries child.schema)).alike hd
    rw [← h.schema]
    exact hkeep.trans hstorage fun _ _ _ ho ho' => optionRel_trans ho ho' fun _ _ _ => SameOf.trans

/-- **A projection may compute the same columns by other expressions.** -/
theorem project {schema : Schema} {child child' : Plan F} (h : StepsAlike child child')
    {ps qs : List (Projection F)}
    (hpq : List.Forall₂ (fun p q => EvalAlike child.schema p.expression q.expression) ps qs)
    (hps : ProjectExec.deriveSchema child.schema ps = .ok schema)
    (hqs : ProjectExec.deriveSchema child.schema qs = .ok schema) :
    StepsAlike (.project schema child ps) (.project schema child' qs) where
  schema := rfl
  sourceSchema := h.sourceSchema
  sourceBatches := h.sourceBatches
  step := by
    intro b hb
    refine andThen_alike (h.step b hb) fun d d' hd => ?_
    have hcompute := (ProjectExec.compute_alike hps hqs hpq hd.1).map
      (S := Option.Rel (SameOf schema)) (f := some) (g := some) fun _ _ => .some
    have hrestate := andThen_alike hcompute fun _ _ => nonEmpty_alike
    have hstorage := (ProjectExec.compute_carries hqs).alike hd
    exact hrestate.trans hstorage fun _ _ _ ho ho' =>
      optionRel_trans ho ho' fun _ _ _ => SameOf.trans

end StepsAlike

/-- No sequence of calls, not even calls after an exception, tells the trees apart. -/
structure SameAnswers (p q : Plan F) : Prop where
  schema : p.schema = q.schema
  forth : ∀ rs s, Calls p.exec.next p.exec.start rs s →
    ∃ rs' s', Calls q.exec.next q.exec.start rs' s' ∧
      List.Forall₂ (Alike (Option.Rel RecordBatch.Same)) rs rs'
  back : ∀ rs' s', Calls q.exec.next q.exec.start rs' s' →
    ∃ rs s, Calls p.exec.next p.exec.start rs s ∧
      List.Forall₂ (Alike (Option.Rel RecordBatch.Same)) rs rs'

theorem exists_calls (p : Plan F) (k : ℕ) :
    ∃ rs s, Calls p.exec.next p.exec.start rs s ∧ rs.length = k := by
  obtain ⟨R, hserves, hstart⟩ := p.exec_serves
  exact hserves.exists_run hstart k

theorem calls_alike {p q : Plan F}
    (h : List.Forall₂ (Alike RecordBatch.Same) (p.responses p.sourceBatches)
      (q.responses q.sourceBatches)) {rs rs' : List (Java (Option (RecordBatch F)))}
    {s : p.exec.State} {s' : q.exec.State} (hs : Calls p.exec.next p.exec.start rs s)
    (hs' : Calls q.exec.next q.exec.start rs' s') (hlen : rs.length = rs'.length) :
    List.Forall₂ (Alike (Option.Rel RecordBatch.Same)) rs rs' := by
  obtain ⟨R, hserves, hstart⟩ := p.exec_serves
  obtain ⟨R', hserves', hstart'⟩ := q.exec_serves
  rw [hserves.answers hstart hs, hserves'.answers hstart' hs', ← hlen]
  exact answersTo_alike h rs.length

theorem sameAnswers_of_responses {p q : Plan F} (hschema : p.schema = q.schema)
    (h : List.Forall₂ (Alike RecordBatch.Same) (p.responses p.sourceBatches)
      (q.responses q.sourceBatches)) : SameAnswers p q where
  schema := hschema
  forth := by
    intro rs s hs
    obtain ⟨rs', s', hs', hlen⟩ := q.exists_calls rs.length
    exact ⟨rs', s', hs', calls_alike h hs hs' hlen.symm⟩
  back := by
    intro rs' s' hs'
    obtain ⟨rs, s, hs, hlen⟩ := p.exists_calls rs'.length
    exact ⟨rs, s, hs, calls_alike h hs hs' hlen⟩

/-- **Trees that treat every batch of the scan alike cannot be told apart.** -/
theorem StepsAlike.sameAnswers {p q : Plan F} (h : StepsAlike p q) (hsrc : p.SourcesConform) :
    SameAnswers p q := by
  refine sameAnswers_of_responses h.schema ?_
  rw [← h.sourceBatches]
  refine filterMap_passOn_alike (List.forall₂_same.mpr fun b hb => ?_)
  exact (h.step b (hsrc.schema_eq b hb)).mono fun _ _ ho => optionRel_mono ho fun _ _ => And.right

end Plan

end QueryEngine
