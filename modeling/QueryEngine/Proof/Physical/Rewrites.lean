import QueryEngine.Proof.Physical.Contracts

/-! # Rewriting an operator tree

Two trees over the same batches, one of which answers on every row what the other answers, drain
alike. Two rewrites follow: stacked filters are one filter with a conjunction, and a filter over a
projection is a projection over a filter whose predicate has the projected expressions written in.
-/
namespace QueryEngine
open Library
set_option autoImplicit false
set_option maxHeartbeats 250000

variable {F : Type}

/-! ## Substitution -/

def Expr.subst (σ : JString → Expr F) : Expr F → Expr F
  | .columnRef name => σ name
  | .literal l => .literal l
  | .binary left op right => .binary (left.subst σ) op (right.subst σ)
  | .unary op e => .unary op (e.subst σ)
  | .logical left op right => .logical (left.subst σ) op (right.subst σ)

/-- **Types are preserved** when every column is replaced by an expression of its type. -/
theorem Expr.outputType_subst {s child : Schema} {σ : JString → Expr F}
    (hσ : ∀ name f, s.field name = .ok f →
      (σ name).outputType child = .ok ⟨f.type, f.nullable⟩) {e : Expr F} {t : ExprType}
    (ht : e.outputType s = .ok t) : (e.subst σ).outputType child = .ok t := by
  induction e generalizing t with
  | columnRef name =>
    obtain ⟨f, hf, rfl⟩ := outputType_columnRef_ok ht
    exact hσ name f hf
  | literal l => exact ht
  | binary left op right ihl ihr =>
    obtain ⟨u, hu, ht⟩ := bind_eq_ok ht
    obtain ⟨w, hw, ht⟩ := bind_eq_ok ht
    rw [subst, outputType, ihl hu, ok_bind, ihr hw, ok_bind, ht]
  | unary op e ih =>
    obtain ⟨u, hu, ht⟩ := bind_eq_ok ht
    rw [subst, outputType, ih hu, ok_bind, ht]
  | logical left op right ihl ihr =>
    obtain ⟨u, hu, ht⟩ := bind_eq_ok ht
    obtain ⟨w, hw, ht⟩ := bind_eq_ok ht
    rw [subst, outputType, ihl hu, ok_bind, ihr hw, ok_bind, ht]

/-- **Meanings are preserved** when every column is replaced by an expression of its value. -/
theorem interp_subst [JavaDouble F] {s : Schema} {row row' : Row F} {σ : JString → Expr F}
    (hσ : ∀ name f, s.field name = .ok f → interp row (σ name) = .ok (row'.cell name))
    {e : Expr F} {t : ExprType} (ht : e.outputType s = .ok t) :
    interp row (e.subst σ) = interp row' e := by
  induction e generalizing t with
  | columnRef name =>
    obtain ⟨f, hf, -⟩ := Expr.outputType_columnRef_ok ht
    exact hσ name f hf
  | literal l => rfl
  | binary left op right ihl ihr =>
    obtain ⟨u, w, hu, hw, -⟩ := Expr.outputType_binary_ok ht
    rw [Expr.subst, interp, interp, ihl hu, ihr hw]
  | unary op e ih =>
    obtain ⟨hu, -⟩ := Expr.outputType_unary_ok ht
    rw [Expr.subst, interp, interp, ih hu]
  | logical left op right ihl ihr =>
    obtain ⟨u, w, hu, hw, -⟩ := Expr.outputType_logical_ok ht
    rw [Expr.subst, interp, interp, ihl hu, ihr hw]

/-- The expression of the projection of a name, or the column itself. -/
def projected (projections : List (Projection F)) (name : JString) : Expr F :=
  match projections.find? fun p => p.name = name with
  | some p => p.expression
  | none => .columnRef name

theorem projected_of_mem {projections : List (Projection F)}
    (hnames : (projections.map Projection.name).Nodup) {p : Projection F} (hp : p ∈ projections) :
    projected projections p.name = p.expression := by
  have hsome : (projections.find? fun q => q.name = p.name).isSome := by
    rw [List.find?_isSome]
    exact ⟨p, hp, by simp⟩
  obtain ⟨q, hq⟩ := Option.isSome_iff_exists.mp hsome
  have hname : q.name = p.name := by simpa using List.find?_some hq
  have hqp : q = p := List.inj_on_of_nodup_map hnames (List.mem_of_find?_eq_some hq) hp hname
  rw [projected, hq, hqp]

namespace ProjectExec

theorem projected_type {child schema : Schema} {projections : List (Projection F)}
    (h : deriveSchema child projections = .ok schema) {name : JString} {f : Field}
    (hf : schema.field name = .ok f) :
    (projected projections name).outputType child = .ok ⟨f.type, f.nullable⟩ := by
  obtain ⟨hmem, rfl⟩ := (schema.field_ok_iff name f).mp hf
  obtain ⟨p, hp, t, ht, rfl⟩ := projection_of_field h hmem
  rw [projected_of_mem (names_nodup h) hp, ht]

theorem projected_value [JavaDouble F] {child schema : Schema} {projections : List (Projection F)}
    (h : deriveSchema child projections = .ok schema) {row row' : Row F}
    (hrow : projectRow projections row = .ok row') {name : JString} {f : Field}
    (hf : schema.field name = .ok f) :
    interp row (projected projections name) = .ok (row'.cell name) := by
  obtain ⟨hmem, rfl⟩ := (schema.field_ok_iff name f).mp hf
  obtain ⟨p, hp, t, -, rfl⟩ := projection_of_field h hmem
  rw [projected_of_mem (names_nodup h) hp]
  exact projectRow_cell (names_nodup h) hrow hp

end ProjectExec

/-! ## Truth values of cells -/

theorem truth_ok_cell {c : Cell F} {s : Option Bool} (h : Interp.truth c = .ok s) :
    c = s.map .bool := by
  match c with
  | none =>
    rw [Interp.truth, Except.ok.injEq] at h
    rw [← h]
    rfl
  | some (.bool b) =>
    rw [Interp.truth, Except.ok.injEq] at h
    rw [← h]
    rfl
  | some (.int32 _) => simp [Interp.truth] at h
  | some (.int64 _) => simp [Interp.truth] at h
  | some (.float64 _) => simp [Interp.truth] at h
  | some (.utf8 _) => simp [Interp.truth] at h

theorem isTrue_map (s : Option Bool) : Cell.isTrue (s.map (@Value.bool F)) = (s == some true) := by
  match s with
  | none => rfl
  | some true => rfl
  | some false => rfl

/-! ## Trees that answer alike -/

/-- Two batches that show the same: fields, and rows with their null flags and values. -/
def RecordBatch.Same (b b' : RecordBatch F) : Prop := b.schema = b'.schema ∧ b.rows = b'.rows

theorem RecordBatch.same_of_rows {s : Schema} {out out' : List (RecordBatch F)}
    (hs : ∀ b ∈ out, b.schema = s) (hs' : ∀ b ∈ out', b.schema = s)
    (h : out.map RecordBatch.rows = out'.map RecordBatch.rows) :
    List.Forall₂ RecordBatch.Same out out' := by
  induction out generalizing out' with
  | nil =>
    have hnil : out' = [] := by simpa using h.symm
    rw [hnil]
    exact List.Forall₂.nil
  | cons b out ih =>
    match out' with
    | [] => simp at h
    | b' :: out' =>
      rw [List.map_cons, List.map_cons, List.cons.injEq] at h
      have hb := hs b List.mem_cons_self
      have hb' := hs' b' List.mem_cons_self
      apply List.Forall₂.cons ⟨hb.trans hb'.symm, h.1⟩
      exact ih (fun c hc => hs c (List.mem_cons_of_mem b hc))
        (fun c hc => hs' c (List.mem_cons_of_mem b' hc)) h.2

variable [JavaDouble F]

/-- A tree that on every row of the scan answers what another one does, or raises: it drains to the
same batches, or raises on some row. -/
theorem Plan.drain_compare {p p' : Plan F} (hp : p.Built) (hp' : p'.Built) (hsrc : p.SourcesConform)
    (hsrc' : p'.SourcesConform) (hbatches : p'.sourceBatches = p.sourceBatches)
    (hschema : p'.schema = p.schema) (Raises : Row F → JavaException → Prop)
    (hrows : ∀ b ∈ p.sourceBatches, ∀ row ∈ b.rows, ∀ o, p.imageRow row = .ok o →
      p'.imageRow row = .ok o ∨ ∃ x, p'.imageRow row = .error x ∧ Raises row x) {fuel fuel' : ℕ}
    {out : List (RecordBatch F)} (h : p.drain fuel = some (.ok out))
    (hfuel : p.sourceBatches.length < fuel') :
    (∃ out', p'.drain fuel' = some (.ok out') ∧ List.Forall₂ RecordBatch.Same out out') ∨
    (∃ x, p'.drain fuel' = some (.error x) ∧
      ∃ b ∈ p.sourceBatches, ∃ row ∈ b.rows, Raises row x) := by
  obtain ⟨images, himages, hout⟩ := drain_ok hp hsrc h
  have hpairs := mapM_ok_iff.mp himages
  obtain ⟨r, hr⟩ := p'.drain_returns (hbatches ▸ hfuel)
  match r with
  | .error x =>
    obtain ⟨b, hb, row, hrow, hx⟩ := drain_error hp' hsrc' hr
    rw [hbatches] at hb
    obtain ⟨rows, -, hrowsb⟩ := exists_of_forall₂_mem hpairs hb
    obtain ⟨o, ho⟩ := filterMapM_ok_forall hrowsb row hrow
    obtain hsame | ⟨y, hy, hraises⟩ := hrows b hb row hrow o ho
    · simp [hx] at hsame
    · obtain rfl : x = y := Except.error.inj (hx.symm.trans hy)
      exact Or.inr ⟨x, hr, b, hb, row, hrow, hraises⟩
  | .ok out' =>
    obtain ⟨images', himages', hout'⟩ := drain_ok hp' hsrc' hr
    rw [hbatches] at himages'
    have hagree : ∀ b ∈ p.sourceBatches, ∀ row ∈ b.rows, ∀ o, p.imageRow row = .ok o →
        p'.imageRow row = .ok o := by
      intro b hb row hrow o ho
      obtain hsame | ⟨y, hy, -⟩ := hrows b hb row hrow o ho
      · exact hsame
      · obtain ⟨rows, -, hrowsb⟩ := exists_of_forall₂_mem (mapM_ok_iff.mp himages') hb
        obtain ⟨o', ho'⟩ := filterMapM_ok_forall hrowsb row hrow
        simp [hy] at ho'
    have himages'' : p.sourceBatches.mapM (fun b => p'.image b.rows) = .ok images :=
      mapM_of_agree (fun b hb rows => filterMapM_of_agree (hagree b hb)) himages
    rw [himages', Except.ok.injEq] at himages''
    refine Or.inl ⟨out', hr, RecordBatch.same_of_rows (drain_schema hp hsrc h) ?_ ?_⟩
    · rw [← hschema]
      exact drain_schema hp' hsrc' hr
    · rw [hout, hout', himages'']

/-- **A tree that answers on rows whatever another one does drains to the same batches.** -/
theorem Plan.drain_alike {p p' : Plan F} (hp : p.Built) (hp' : p'.Built) (hsrc : p.SourcesConform)
    (hsrc' : p'.SourcesConform) (hbatches : p'.sourceBatches = p.sourceBatches)
    (hschema : p'.schema = p.schema)
    (hrows : ∀ row o, p.imageRow row = .ok o → p'.imageRow row = .ok o) {fuel fuel' : ℕ}
    {out : List (RecordBatch F)} (h : p.drain fuel = some (.ok out))
    (hfuel : p.sourceBatches.length < fuel') :
    ∃ out', p'.drain fuel' = some (.ok out') ∧ List.Forall₂ RecordBatch.Same out out' := by
  obtain hsame | ⟨_, _, _, _, _, _, hfalse⟩ :=
    Plan.drain_compare hp hp' hsrc hsrc' hbatches hschema (fun _ _ => False)
      (fun _ _ row _ o ho => Or.inl (hrows row o ho)) h hfuel
  · exact hsame
  · exact hfalse.elim

/-! ## Filter fusion -/

theorem keepRow_and {p q : Expr F} {row : Row F} {o : Option (Row F)}
    (h : keepRow (.logical p .AND q) row = .ok o) :
    andThen (keepRow p) (keepRow q) row = .ok o := by
  obtain ⟨c, hc, rfl⟩ := keepRow_ok h
  obtain ⟨a, ha, hc⟩ := bind_eq_ok hc
  obtain ⟨b, hb, hc⟩ := bind_eq_ok hc
  obtain ⟨x, hx, hc⟩ := bind_eq_ok hc
  obtain ⟨y, hy, hc⟩ := bind_eq_ok hc
  have hcell : c = (Kleene.and x y).map .bool := (Except.ok.inj hc).symm
  have hkeep : ∀ {e : Expr F} {s : Option Bool}, interp row e = .ok (s.map .bool) →
      keepRow e row = .ok (if s = some true then some row else none) := by
    intro e s he
    rw [keepRow, he, ok_bind, isTrue_map]
    simp
  have hp := hkeep (truth_ok_cell hx ▸ ha)
  have hq := hkeep (truth_ok_cell hy ▸ hb)
  rw [hcell, isTrue_map]
  by_cases hxt : x = some true
  · rw [if_pos hxt] at hp
    rw [andThen_of_some hp, hq]
    simp [Kleene.and_eq_true_iff, hxt]
  · rw [if_neg hxt] at hp
    rw [andThen_of_none hp]
    simp [Kleene.and_eq_true_iff, hxt]

/-- **Stacked filters are one filter with a conjunction**, as long as the conjunction raises
nothing. -/
theorem filter_fusion (c : Plan F) (hc : c.Built) (hsrc : c.SourcesConform) {p q : Expr F}
    {filtered other : Plan F} (hp : FilterExec.create c p = .ok filtered)
    (hq : FilterExec.create c q = .ok other) :
    ∃ stacked fused, FilterExec.create filtered q = .ok stacked ∧
      FilterExec.create c (.logical p .AND q) = .ok fused ∧ stacked.schema = fused.schema ∧
      ∀ fuel fuel' out, fused.drain fuel = some (.ok out) → c.sourceBatches.length < fuel' →
        ∃ out', stacked.drain fuel' = some (.ok out') ∧
          List.Forall₂ RecordBatch.Same out out' := by
  have hbuilt := Plan.Built.filter hc hp
  obtain ⟨rfl, t, ht, htb⟩ := FilterExec.create_ok hp
  obtain ⟨rfl, u, hu, hub⟩ := FilterExec.create_ok hq
  have hstacked : FilterExec.create (.filter c p) q = .ok (.filter (.filter c p) q) :=
    FilterExec.create_of_boolean hu hub
  have hand : (Expr.logical p .AND q).outputType c.schema =
      .ok ⟨.BOOLEAN, t.nullable || u.nullable⟩ := by
    rw [Expr.outputType, ht, ok_bind, hu, ok_bind, Expr.logicalType, if_pos ⟨htb, hub⟩]
  have hfused := FilterExec.create_of_boolean hand rfl
  refine ⟨_, _, hstacked, hfused, rfl, fun fuel fuel' out hdrain hfuel => ?_⟩
  refine Plan.drain_alike (.filter hc hfused) (.filter hbuilt hstacked) hsrc hsrc rfl rfl
    (fun row o h => ?_) hdrain hfuel
  show andThen (andThen c.imageRow (keepRow p)) (keepRow q) row = .ok o
  rw [andThen_assoc]
  exact andThen_of_agree (fun r o => keepRow_and) h

def Sample.positive : Expr Unit :=
  .binary (.columnRef Sample.d) (.comparison .GT) (.literal (.int32 0))

theorem filter_fusion_sample :
    ∃ stacked fused out out',
      FilterExec.create (.filter Sample.scan (.columnRef Sample.f)) Sample.positive = .ok stacked ∧
      FilterExec.create Sample.scan (.logical (.columnRef Sample.f) .AND Sample.positive) =
        .ok fused ∧
      fused.drain 2 = some (.ok out) ∧ stacked.drain 2 = some (.ok out') ∧
      List.Forall₂ RecordBatch.Same out out' := by
  have hp : FilterExec.create Sample.scan (.columnRef Sample.f) =
      .ok (.filter Sample.scan (.columnRef Sample.f)) := rfl
  have hq : FilterExec.create Sample.scan Sample.positive =
      .ok (.filter Sample.scan Sample.positive) := rfl
  obtain ⟨stacked, fused, hstacked, hfused, -, h⟩ :=
    filter_fusion Sample.scan (.memoryScan _ _) Sample.scan_sourcesConform hp hq
  obtain rfl : .filter Sample.scan (.logical (.columnRef Sample.f) .AND Sample.positive) = fused :=
    Except.ok.inj hfused
  obtain ⟨out', hout', hsame⟩ := h 2 2 _ rfl (by decide)
  exact ⟨stacked, _, _, out', hstacked, hfused, rfl, hout', hsame⟩

/-! ## Filter and projection -/

theorem keep_projected {child schema : Schema} {projections : List (Projection F)} {q : Expr F}
    {t : ExprType} (hschema : ProjectExec.deriveSchema child projections = .ok schema)
    (hq : q.outputType schema = .ok t) {row : Row F} {o : Option (Row F)}
    (h : andThen (fun row => some <$> projectRow projections row) (keepRow q) row = .ok o) :
    andThen (keepRow (q.subst (projected projections)))
      (fun row => some <$> projectRow projections row) row = .ok o := by
  obtain ⟨o', ho', h⟩ := bind_eq_ok h
  obtain ⟨row', hrow', rfl⟩ := map_eq_ok ho'
  obtain ⟨c, hc, rfl⟩ := keepRow_ok h
  have hsubst : interp row (q.subst (projected projections)) = .ok c := by
    rw [interp_subst (fun name f => ProjectExec.projected_value hschema hrow') hq, hc]
  by_cases htrue : Cell.isTrue c = true
  · have hkeep : keepRow (q.subst (projected projections)) row = .ok (some row) := by
      rw [keepRow, hsubst, ok_bind, if_pos htrue]
      rfl
    rw [andThen_of_some hkeep, hrow', if_pos htrue]
    rfl
  · have hkeep : keepRow (q.subst (projected projections)) row = .ok none := by
      rw [keepRow, hsubst, ok_bind, if_neg htrue]
      rfl
    rw [andThen_of_none hkeep, if_neg htrue]

/-- **A filter over a projection is a projection over a filter**, as long as the former raises
nothing. -/
theorem filter_pushdown (c : Plan F) (hc : c.Built) (hsrc : c.SourcesConform)
    {projections : List (Projection F)} {q : Expr F} {projection original : Plan F}
    (hps : ProjectExec.new c projections = .ok projection)
    (hq : FilterExec.create projection q = .ok original) :
    ∃ filtered pushed, FilterExec.create c (q.subst (projected projections)) = .ok filtered ∧
      ProjectExec.new filtered projections = .ok pushed ∧
      pushed.schema.fieldsList = original.schema.fieldsList ∧
      ∀ fuel fuel' out, original.drain fuel = some (.ok out) → c.sourceBatches.length < fuel' →
        ∃ out', pushed.drain fuel' = some (.ok out') ∧
          List.Forall₂ RecordBatch.Same out out' := by
  have hbuilt := Plan.Built.filter (Plan.Built.project hc hps) hq
  obtain ⟨schema, hschema, rfl⟩ := ProjectExec.new_ok hps
  obtain ⟨rfl, t, ht, hbool⟩ := FilterExec.create_ok hq
  have hsubst := Expr.outputType_subst
    (fun name f => ProjectExec.projected_type hschema (f := f)) ht
  have hfiltered := FilterExec.create_of_boolean hsubst hbool
  have hpushed : ProjectExec.new (.filter c (q.subst (projected projections))) projections =
      .ok (.project schema (.filter c (q.subst (projected projections))) projections) :=
    ProjectExec.new_of_schema hschema
  refine ⟨_, _, hfiltered, hpushed, rfl, fun fuel fuel' out hdrain hfuel => ?_⟩
  refine Plan.drain_alike hbuilt (.project (.filter hc hfiltered) hpushed) hsrc hsrc rfl rfl
    (fun row o h => ?_) hdrain hfuel
  have hrow : andThen c.imageRow
      (andThen (fun row => some <$> projectRow projections row) (keepRow q)) row = .ok o := by
    rw [← andThen_assoc]
    exact h
  show andThen (andThen c.imageRow (keepRow (q.subst (projected projections))))
    (fun row => some <$> projectRow projections row) row = .ok o
  rw [andThen_assoc]
  exact andThen_of_agree (fun r o => keep_projected hschema ht) hrow

/-- The two columns under each other's names. -/
def Sample.swap : List (Projection Unit) :=
  [⟨Sample.d, .columnRef Sample.f⟩, ⟨Sample.f, .columnRef Sample.d⟩]

theorem filter_pushdown_sample :
    ∃ original filtered pushed out out',
      (do FilterExec.create (← ProjectExec.new Sample.scan Sample.swap) (.columnRef Sample.d)) =
        .ok original ∧
      FilterExec.create Sample.scan (.columnRef Sample.f) = .ok filtered ∧
      ProjectExec.new filtered Sample.swap = .ok pushed ∧
      pushed.schema.fieldsList = original.schema.fieldsList ∧
      original.drain 2 = some (.ok out) ∧ pushed.drain 2 = some (.ok out') ∧
      List.Forall₂ RecordBatch.Same out out' := by
  obtain ⟨projection, hps⟩ : ∃ p, ProjectExec.new Sample.scan Sample.swap = .ok p := ⟨_, rfl⟩
  obtain ⟨original, hq⟩ : ∃ p, FilterExec.create projection (.columnRef Sample.d) = .ok p := by
    obtain rfl := Except.ok.inj hps
    exact ⟨_, rfl⟩
  obtain ⟨filtered, pushed, hfiltered, hpushed, hfields, h⟩ :=
    filter_pushdown Sample.scan (.memoryScan _ _) Sample.scan_sourcesConform hps hq
  obtain ⟨out, hout⟩ : ∃ out, original.drain 2 = some (.ok out) := by
    obtain rfl := Except.ok.inj hps
    obtain rfl := Except.ok.inj hq
    exact ⟨_, rfl⟩
  obtain ⟨out', hout', hsame⟩ := h 2 2 out hout (by decide)
  refine ⟨original, filtered, pushed, out, out', ?_, hfiltered, hpushed, hfields, hout, hout',
    hsame⟩
  rw [hps]
  exact hq

end QueryEngine
