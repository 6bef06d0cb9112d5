import QueryEngine.Proof.Physical.Rewrites
import QueryEngine.Proof.Schema

/-! # One filter and one projection

Stacked projections are one projection with the inner expressions written in. And whatever a tree
of filters and projections computes, one filter and one projection over its scan compute: what the
tree asks of a row, and what it says under each of its names, are expressions over the scan.
-/
namespace QueryEngine
open Library
set_option autoImplicit false
set_option maxHeartbeats 250000

variable {F : Type}

theorem Schema.fromFields_fieldsList (s : Schema) : Schema.fromFields s.fieldsList = .ok s := by
  obtain ⟨t, ht⟩ := (Schema.fromFields_ok_iff s.fieldsList).mpr s.names_nodup
  rw [ht, Schema.ext_fieldsList (Schema.fromFields_ok ht)]

theorem Row.eq_map_cell {row : Row F} {names : List JString} (hrow : row.map Prod.fst = names)
    (hnames : names.Nodup) : row = names.map fun name => (name, row.cell name) := by
  rw [← hrow, List.map_map]
  refine (List.map_id row).symm.trans (List.map_congr_left fun e he => ?_)
  have hlookup : row.lookup e.1 = some e.2 := by
    rw [lookup_eq_some_iff (hrow ▸ hnames)]
    exact he
  simp [cell, hlookup]

theorem RecordBatch.row_names (b : RecordBatch F) (i : ℕ) :
    (b.row i).map Prod.fst = b.schema.fieldsList.map Field.name := by
  rw [b.row_eq_zip]
  apply List.map_fst_zip
  rw [List.length_map, List.length_map, b.vectors_length]

theorem ProjectExec.deriveSchema_of_derives {child schema : Schema}
    {projections : List (Projection F)} (hne : projections ≠ [])
    (h : List.Forall₂ (Derives child) projections schema.fieldsList) :
    deriveSchema child projections = .ok schema := by
  have hfields : projections.mapM (deriveField child) = .ok schema.fieldsList := by
    refine mapM_ok_iff.mpr (h.imp fun p f hp => ?_)
    obtain ⟨t, ht, rfl⟩ := hp
    rw [deriveField, ht]
    rfl
  match projections, hne with
  | p :: ps, _ =>
    show ((p :: ps).mapM (deriveField child) >>= Schema.fromFields) = .ok schema
    rw [hfields, ok_bind, schema.fromFields_fieldsList]

theorem projectRow_of_forall₂ [JavaDouble F] {projections : List (Projection F)} {row r : Row F}
    (h : List.Forall₂ (fun p c => c.1 = p.name ∧ interp row p.expression = .ok c.2)
      projections r) : projectRow projections row = .ok r := by
  refine mapM_ok_iff.mpr (h.imp fun p c hc => ?_)
  rw [hc.2, ok_bind, ← hc.1]
  rfl

/-! ## Projection fusion -/

/-- The projections with their columns replaced. -/
def Projection.subst (σ : JString → Expr F) (p : Projection F) : Projection F :=
  ⟨p.name, p.expression.subst σ⟩

namespace ProjectExec

theorem deriveSchema_subst {child inner schema : Schema} {ps qs : List (Projection F)}
    (hinner : deriveSchema child ps = .ok inner) (h : deriveSchema inner qs = .ok schema) :
    deriveSchema child (qs.map (Projection.subst (projected ps))) = .ok schema := by
  obtain ⟨hne, hderives⟩ := deriveSchema_ok h
  refine deriveSchema_of_derives (by simpa using hne) ?_
  rw [List.forall₂_map_left_iff]
  refine hderives.imp fun q f hq => ?_
  obtain ⟨t, ht, rfl⟩ := hq
  exact ⟨t, Expr.outputType_subst (fun name f => projected_type hinner (f := f)) ht, rfl⟩

variable [JavaDouble F]

theorem projectRow_subst {child inner schema : Schema} {ps qs : List (Projection F)}
    (hinner : deriveSchema child ps = .ok inner) (h : deriveSchema inner qs = .ok schema)
    {row row' r : Row F} (hrow : projectRow ps row = .ok row') (hr : projectRow qs row' = .ok r) :
    projectRow (qs.map (Projection.subst (projected ps))) row = .ok r := by
  have htyped : ∀ q ∈ qs, ∃ t, q.expression.outputType inner = .ok t := by
    intro q hq
    obtain ⟨f, -, t, ht, -⟩ := exists_of_forall₂_mem (deriveSchema_ok h).2 hq
    exact ⟨t, ht⟩
  clear h
  apply projectRow_of_forall₂
  rw [List.forall₂_map_left_iff]
  have hcells := projectRow_ok hr
  clear hr
  induction hcells with
  | nil => exact .nil
  | @cons q c qs r hc _ ih =>
    obtain ⟨t, ht⟩ := htyped q List.mem_cons_self
    refine .cons ⟨hc.1, ?_⟩ (ih fun q' hq' => htyped q' (List.mem_cons_of_mem q hq'))
    rw [Projection.subst, interp_subst (fun name f => projected_value hinner hrow) ht, hc.2]

end ProjectExec

section Fusion
variable [JavaDouble F]

/-- **Stacked projections are one projection with the inner expressions written in**, as long as
the stack raises nothing. -/
theorem project_fusion (c : Plan F) (hc : c.Built) (hsrc : c.SourcesConform)
    {ps qs : List (Projection F)} {inner stacked : Plan F}
    (hps : ProjectExec.new c ps = .ok inner) (hqs : ProjectExec.new inner qs = .ok stacked) :
    ∃ fused, ProjectExec.new c (qs.map (Projection.subst (projected ps))) = .ok fused ∧
      fused.schema = stacked.schema ∧
      ∀ fuel fuel' out, stacked.drain fuel = some (.ok out) → c.sourceBatches.length < fuel' →
        ∃ out', fused.drain fuel' = some (.ok out') ∧
          List.Forall₂ RecordBatch.Same out out' := by
  have hbuilt := Plan.Built.project (Plan.Built.project hc hps) hqs
  obtain ⟨middle, hmiddle, rfl⟩ := ProjectExec.new_ok hps
  obtain ⟨schema, hschema, rfl⟩ := ProjectExec.new_ok hqs
  have hfused := ProjectExec.new_of_schema (ProjectExec.deriveSchema_subst hmiddle hschema)
  refine ⟨_, hfused, rfl, fun fuel fuel' out hdrain hfuel => ?_⟩
  refine Plan.drain_alike hbuilt (.project hc hfused) hsrc hsrc rfl rfl (fun row o h => ?_)
    hdrain hfuel
  have hrow : andThen c.imageRow (andThen (fun row => some <$> projectRow ps row)
      fun row => some <$> projectRow qs row) row = .ok o := by
    rw [← andThen_assoc]
    exact h
  refine andThen_of_agree (fun b o hb => ?_) hrow
  obtain ⟨o', ho', hb⟩ := bind_eq_ok hb
  obtain ⟨b', hb', rfl⟩ := map_eq_ok ho'
  obtain ⟨r, hr, rfl⟩ := map_eq_ok hb
  rw [ProjectExec.projectRow_subst hmiddle hschema hb' hr]
  rfl

theorem project_fusion_sample :
    ∃ stacked fused out out',
      (do ProjectExec.new (← ProjectExec.new Sample.scan Sample.swap) Sample.swap) =
        .ok stacked ∧
      ProjectExec.new Sample.scan
        [⟨Sample.d, .columnRef Sample.d⟩, ⟨Sample.f, .columnRef Sample.f⟩] = .ok fused ∧
      fused.schema = stacked.schema ∧ stacked.drain 2 = some (.ok out) ∧
      fused.drain 2 = some (.ok out') ∧ List.Forall₂ RecordBatch.Same out out' := by
  obtain ⟨inner, hps⟩ : ∃ p, ProjectExec.new Sample.scan Sample.swap = .ok p := ⟨_, rfl⟩
  obtain ⟨stacked, hqs⟩ : ∃ p, ProjectExec.new inner Sample.swap = .ok p := by
    obtain rfl := Except.ok.inj hps
    exact ⟨_, rfl⟩
  obtain ⟨fused, hfused, hschema, h⟩ :=
    project_fusion Sample.scan (.memoryScan _ _) Sample.scan_sourcesConform hps hqs
  obtain ⟨out, hout⟩ : ∃ out, stacked.drain 2 = some (.ok out) := by
    obtain rfl := Except.ok.inj hps
    obtain rfl := Except.ok.inj hqs
    exact ⟨_, rfl⟩
  obtain ⟨out', hout', hsame⟩ := h 2 2 out hout (by decide)
  refine ⟨stacked, fused, out, out', ?_, hfused, hschema, hout, hout', hsame⟩
  rw [hps]
  exact hqs

end Fusion

/-! ## What a tree says of its scan -/

namespace Plan

/-- What stands under a name of a tree, in terms of its scan. -/
def meaning : Plan F → JString → Expr F
  | memoryScan _ _ => .columnRef
  | filter child _ => child.meaning
  | project _ child projections => fun name => (projected projections name).subst child.meaning

/-- What a tree asks of a row of its scan. -/
def condition : Plan F → Expr F
  | memoryScan _ _ => .literal (.bool true)
  | filter child predicate => .logical child.condition .AND (predicate.subst child.meaning)
  | project _ child _ => child.condition

/-- One filter under one projection. -/
def flatten (p : Plan F) : Java (Plan F) := do
  let filtered ← FilterExec.create (.memoryScan p.sourceSchema p.sourceBatches) p.condition
  ProjectExec.new filtered (p.schema.fieldsList.map fun f => ⟨f.name, p.meaning f.name⟩)

theorem Built.meaning_type {p : Plan F} (hp : p.Built) {name : JString} {f : Field}
    (hf : p.schema.field name = .ok f) :
    (p.meaning name).outputType p.sourceSchema = .ok ⟨f.type, f.nullable⟩ := by
  induction hp generalizing name f with
  | memoryScan schema batches =>
    have hfield : schema.field name = .ok f := hf
    rw [meaning, Expr.outputType, sourceSchema, hfield]
    rfl
  | filter _ hcreate ih =>
    obtain ⟨rfl, -⟩ := FilterExec.create_ok hcreate
    exact ih hf
  | project _ hnew ih =>
    obtain ⟨schema, hschema, rfl⟩ := ProjectExec.new_ok hnew
    exact Expr.outputType_subst (fun _ _ => ih) (ProjectExec.projected_type hschema hf)

theorem Built.condition_type {p : Plan F} (hp : p.Built) :
    ∃ t, p.condition.outputType p.sourceSchema = .ok t ∧ t.type = .BOOLEAN := by
  induction hp with
  | memoryScan schema batches => exact ⟨_, rfl, rfl⟩
  | @filter child p predicate hc hcreate ih =>
    obtain ⟨rfl, t, ht, hbool⟩ := FilterExec.create_ok hcreate
    obtain ⟨u, hu, hubool⟩ := ih
    have hsubst := Expr.outputType_subst (fun _ _ => hc.meaning_type) ht
    refine ⟨⟨.BOOLEAN, u.nullable || t.nullable⟩, ?_, rfl⟩
    rw [condition, sourceSchema, Expr.outputType, hu, ok_bind, hsubst, ok_bind, Expr.logicalType,
      if_pos ⟨hubool, hbool⟩]
  | project _ hnew ih =>
    obtain ⟨schema, -, rfl⟩ := ProjectExec.new_ok hnew
    exact ih

theorem Built.flatten_ok {p : Plan F} (hp : p.Built) (hfields : p.schema.fieldsList ≠ []) :
    p.flatten = .ok (.project p.schema
      (.filter (.memoryScan p.sourceSchema p.sourceBatches) p.condition)
      (p.schema.fieldsList.map fun f => ⟨f.name, p.meaning f.name⟩)) := by
  obtain ⟨t, ht, hbool⟩ := hp.condition_type
  have hfilter : FilterExec.create (.memoryScan p.sourceSchema p.sourceBatches) p.condition = _ :=
    FilterExec.create_of_boolean ht hbool
  rw [flatten, hfilter, ok_bind]
  apply ProjectExec.new_of_schema
  apply ProjectExec.deriveSchema_of_derives (by simpa using hfields)
  rw [List.forall₂_map_left_iff, List.forall₂_same]
  intro f hf
  exact ⟨_, hp.meaning_type (Schema.field_of_mem hf), rfl⟩

variable [JavaDouble F]

/-- **What stands under a name of an image is what the name means on the row of the scan.** -/
theorem Built.meaning_value {p : Plan F} (hp : p.Built) {row r : Row F}
    (h : p.imageRow row = .ok (some r)) {name : JString} {f : Field}
    (hf : p.schema.field name = .ok f) : interp row (p.meaning name) = .ok (r.cell name) := by
  induction hp generalizing r name f with
  | memoryScan schema batches =>
    obtain rfl : row = r := by simpa [imageRow] using h
    rfl
  | filter _ hcreate ih =>
    obtain ⟨rfl, -⟩ := FilterExec.create_ok hcreate
    obtain ⟨r', hr', hkeep⟩ := andThen_eq_some h
    rw [keepRow_some hkeep]
    exact ih hr' hf
  | project _ hnew ih =>
    obtain ⟨schema, hschema, rfl⟩ := ProjectExec.new_ok hnew
    obtain ⟨r', hr', hproject⟩ := andThen_eq_some h
    obtain ⟨r'', hr'', hsome⟩ := map_eq_ok hproject
    rw [← Option.some.inj hsome, meaning,
      interp_subst (fun _ _ => ih hr') (ProjectExec.projected_type hschema hf)]
    exact ProjectExec.projected_value hschema hr'' hf

/-- **A row has an image if and only if the condition is TRUE on it**, where both have an answer. -/
theorem Built.condition_value {p : Plan F} (hp : p.Built) {row : Row F} {o : Option (Row F)}
    (h : p.imageRow row = .ok o) {c : Cell F} (hc : interp row p.condition = .ok c) :
    Cell.isTrue c = o.isSome := by
  induction hp generalizing o c with
  | memoryScan schema batches =>
    obtain rfl : some row = o := by simpa [imageRow] using h
    obtain rfl : some (.bool true) = c := Except.ok.inj hc
    rfl
  | @filter child p predicate hchild hcreate ih =>
    obtain ⟨rfl, t, ht, -⟩ := FilterExec.create_ok hcreate
    obtain ⟨a, ha, hc⟩ := bind_eq_ok hc
    obtain ⟨b, hb, hc⟩ := bind_eq_ok hc
    obtain ⟨x, hx, hc⟩ := bind_eq_ok hc
    obtain ⟨y, hy, hc⟩ := bind_eq_ok hc
    have hcell : c = (Kleene.and x y).map .bool := (Except.ok.inj hc).symm
    obtain ⟨o', ho', h⟩ := bind_eq_ok h
    have hchildTrue := ih ho' ha
    rw [truth_ok_cell hx, isTrue_map] at hchildTrue
    rw [hcell, isTrue_map]
    cases o' with
    | none =>
      obtain rfl : none = o := Except.ok.inj h
      simp only [Option.isSome_none, beq_eq_false_iff_ne, ne_eq] at hchildTrue ⊢
      simp [Kleene.and_eq_true_iff, hchildTrue]
    | some r =>
      have hpredicate : interp r predicate = .ok b := by
        rw [← interp_subst (fun _ _ => hchild.meaning_value ho') ht, hb]
      obtain ⟨b', hb', rfl⟩ := keepRow_ok h
      rw [hpredicate, Except.ok.injEq] at hb'
      rw [← hb', truth_ok_cell hy, isTrue_map]
      simp only [Option.isSome_some, beq_iff_eq] at hchildTrue
      by_cases hytrue : y = some true <;> simp [Kleene.and_eq_true_iff, hchildTrue, hytrue]
  | project _ hnew ih =>
    obtain ⟨schema, hschema, rfl⟩ := ProjectExec.new_ok hnew
    obtain ⟨o', ho', h⟩ := bind_eq_ok h
    rw [ih ho' hc]
    cases o' with
    | none =>
      obtain rfl : none = o := Except.ok.inj h
      rfl
    | some r =>
      obtain ⟨r', -, rfl⟩ := map_eq_ok h
      rfl

theorem Built.imageRow_names {p : Plan F} (hp : p.Built) {row r : Row F}
    (hrow : row.map Prod.fst = p.sourceSchema.fieldsList.map Field.name)
    (h : p.imageRow row = .ok (some r)) :
    r.map Prod.fst = p.schema.fieldsList.map Field.name := by
  induction hp generalizing r with
  | memoryScan schema batches =>
    obtain rfl : row = r := by simpa [imageRow] using h
    exact hrow
  | filter _ hcreate ih =>
    obtain ⟨rfl, -⟩ := FilterExec.create_ok hcreate
    obtain ⟨r', hr', hkeep⟩ := andThen_eq_some h
    rw [keepRow_some hkeep]
    exact ih hrow hr'
  | project _ hnew ih =>
    obtain ⟨schema, hschema, rfl⟩ := ProjectExec.new_ok hnew
    obtain ⟨r', -, hproject⟩ := andThen_eq_some h
    obtain ⟨r'', hr'', hsome⟩ := map_eq_ok hproject
    have hnames := map_eq_of_forall₂ (projectRow_ok hr'') fun p c hc => hc.1.symm
    rw [← Option.some.inj hsome, ← hnames]
    exact ProjectExec.names_eq (ProjectExec.deriveSchema_ok hschema).2

/-! ## The flat tree -/

/-- **On a row of the scan the flat tree answers what the tree does, or its condition raises.** -/
theorem Built.flat_imageRow {p flat : Plan F} (hp : p.Built) (hfields : p.schema.fieldsList ≠ [])
    (hflat : p.flatten = .ok flat) {row : Row F}
    (hrow : row.map Prod.fst = p.sourceSchema.fieldsList.map Field.name) {o : Option (Row F)}
    (h : p.imageRow row = .ok o) :
    flat.imageRow row = .ok o ∨
      ∃ x, flat.imageRow row = .error x ∧ interp row p.condition = .error x := by
  rw [hp.flatten_ok hfields, Except.ok.injEq] at hflat
  subst hflat
  cases hc : interp row p.condition with
  | error x =>
    have hkeep : keepRow p.condition row = .error x := by
      rw [keepRow, hc]
      rfl
    have hfilter := (andThen_of_some rfl (keepRow p.condition)).trans hkeep
    exact Or.inr ⟨x, andThen_of_error hfilter _, rfl⟩
  | ok c =>
    have htrue := hp.condition_value h hc
    have hkeep : keepRow p.condition row = .ok (if o.isSome then some row else none) := by
      rw [keepRow, hc, ok_bind, htrue]
      rfl
    have hfilter := (andThen_of_some rfl (keepRow p.condition)).trans hkeep
    left
    cases o with
    | none => exact andThen_of_none hfilter _
    | some r =>
      refine (andThen_of_some hfilter _).trans ?_
      have hproject : projectRow (p.schema.fieldsList.map fun f => ⟨f.name, p.meaning f.name⟩) row =
          .ok r := by
        apply projectRow_of_forall₂
        rw [Row.eq_map_cell (hp.imageRow_names hrow h) p.schema.names_nodup, List.map_map,
          List.forall₂_map_left_iff, List.forall₂_map_right_iff, List.forall₂_same]
        intro f hf
        exact ⟨rfl, hp.meaning_value h (Schema.field_of_mem hf)⟩
      rw [hproject]
      rfl

end Plan

variable [JavaDouble F]

/-- **Every tree of filters and projections is one filter under one projection over its scan**:
when the tree raises nothing, the flat tree returns the same batches, or its condition raises on
some row of the scan. -/
theorem plan_flattened (p : Plan F) (hp : p.Built) (hsrc : p.SourcesConform)
    (hfields : p.schema.fieldsList ≠ []) :
    ∃ flat, p.flatten = .ok flat ∧ flat.schema = p.schema ∧
      ∀ fuel fuel' out, p.drain fuel = some (.ok out) → p.sourceBatches.length < fuel' →
        (∃ out', flat.drain fuel' = some (.ok out') ∧ List.Forall₂ RecordBatch.Same out out') ∨
        (∃ x, flat.drain fuel' = some (.error x) ∧
          ∃ b ∈ p.sourceBatches, ∃ row ∈ b.rows, interp row p.condition = .error x) := by
  have hflat := hp.flatten_ok hfields
  obtain ⟨filtered, hfiltered, hproject⟩ := bind_eq_ok hflat
  refine ⟨_, hflat, rfl, fun fuel fuel' out hdrain hfuel => ?_⟩
  refine Plan.drain_compare hp (.project (.filter (.memoryScan _ _) hfiltered) hproject) hsrc hsrc
    rfl rfl (fun row x => interp row p.condition = .error x) ?_ hdrain hfuel
  intro b hb row hrow o ho
  obtain ⟨i, -, rfl⟩ := List.mem_map.mp hrow
  refine hp.flat_imageRow hfields hflat ?_ ho
  rw [b.row_names, hsrc b hb]

theorem plan_flattened_sample :
    ∃ flat out out', Sample.plan.flatten = .ok flat ∧ flat.schema = Sample.plan.schema ∧
      Sample.plan.drain 2 = some (.ok out) ∧ flat.drain 2 = some (.ok out') ∧
      List.Forall₂ RecordBatch.Same out out' := by
  obtain ⟨flat, hflat, hschema, h⟩ :=
    plan_flattened Sample.plan Sample.plan_built Sample.plan_sourcesConform (by decide)
  obtain ⟨out, hout⟩ := Sample.plan_drains
  obtain ⟨out', hout', hsame⟩ | ⟨x, hx, -⟩ := h 2 2 out hout (by decide)
  · exact ⟨flat, out, out', hflat, hschema, hout, hout', hsame⟩
  · obtain ⟨returned, hreturned⟩ : ∃ returned, flat.drain 2 = some (.ok returned) := by
      obtain rfl := Except.ok.inj hflat
      exact ⟨_, rfl⟩
    rw [hx] at hreturned
    cases hreturned

end QueryEngine
