import QueryEngine.Proof.Evaluator.Guarantees

/-! # The columns an expression reads

`collectReferences` names exactly the columns that matter. Schemas and batches that agree on these
columns, whatever else they hold and in whatever order, give the expression the same type and the
same values; without one of them the expression is rejected. So a batch may be pruned to the
referenced columns, as long as one is left to carry the row count.
-/
namespace QueryEngine
open Library ExprEvaluator
set_option autoImplicit false
set_option maxHeartbeats 250000

variable {F : Type}

/-! ## Static types -/

/-- The same field, or none, under each of the names. -/
def Schema.AgreesOn (names : Finset JString) (s t : Schema) : Prop :=
  ∀ name ∈ names, s.fields.get name = t.fields.get name

/-- Both return this type, or both raise. -/
def SameType (e : Expr F) (s t : Schema) : Prop :=
  (∃ u, e.outputType s = .ok u ∧ e.outputType t = .ok u) ∨
    ((∃ x, e.outputType s = .error x) ∧ ∃ x, e.outputType t = .error x)

theorem outputType_of_agreesOn {e : Expr F} {s t : Schema} (h : s.AgreesOn e.references t)
    {u : ExprType} (hu : e.outputType s = .ok u) : e.outputType t = .ok u := by
  induction e generalizing u with
  | columnRef name =>
    obtain ⟨f, hf, rfl⟩ := Expr.outputType_columnRef_ok hu
    have hget := (s.get_eq_some_iff name f).mpr ((s.field_ok_iff name f).mp hf)
    rw [h name (by simp)] at hget
    rw [Expr.outputType, Schema.field, hget]
    rfl
  | literal l => exact hu
  | binary left op right ihl ihr =>
    obtain ⟨x, hx, hrest⟩ := bind_eq_ok hu
    obtain ⟨y, hy, hop⟩ := bind_eq_ok hrest
    rw [Expr.outputType, ihl (fun n hn => h n (by simp [hn])) hx, ok_bind,
      ihr (fun n hn => h n (by simp [hn])) hy, ok_bind]
    exact hop
  | unary op e ih =>
    obtain ⟨x, hx, hop⟩ := bind_eq_ok hu
    rw [Expr.outputType, ih h hx, ok_bind]
    exact hop
  | logical left op right ihl ihr =>
    obtain ⟨x, hx, hrest⟩ := bind_eq_ok hu
    obtain ⟨y, hy, hop⟩ := bind_eq_ok hrest
    rw [Expr.outputType, ihl (fun n hn => h n (by simp [hn])) hx, ok_bind,
      ihr (fun n hn => h n (by simp [hn])) hy, ok_bind]
    exact hop

/-- **Static types depend on the referenced fields only.** -/
theorem sameType_of_agreesOn {e : Expr F} {s t : Schema} (h : s.AgreesOn e.references t) :
    SameType e s t := by
  have hsymm : t.AgreesOn e.references s := fun name hname => (h name hname).symm
  cases hs : e.outputType s with
  | ok u => exact Or.inl ⟨u, hs, outputType_of_agreesOn h hs⟩
  | error x =>
    cases ht : e.outputType t with
    | ok u => simp [outputType_of_agreesOn hsymm ht] at hs
    | error x' => exact Or.inr ⟨⟨x, hs⟩, x', ht⟩

/-- **A missing column is noticed**, wherever in the expression it is mentioned. -/
theorem outputType_of_missing {e : Expr F} {s : Schema} {name : JString}
    (hname : name ∈ e.references) (h : name ∉ s.fieldsList.map Field.name) :
    ∃ x, e.outputType s = .error x := by
  induction e with
  | columnRef n =>
    obtain rfl : name = n := by simpa using hname
    exact ⟨_, by rw [Expr.outputType, Schema.field_error_of_absent h]; rfl⟩
  | literal l => simp at hname
  | binary left op right ihl ihr =>
    rw [Expr.references_binary, Finset.mem_union] at hname
    obtain hname | hname := hname
    · exact bind_error_of_second _ fun u => bind_error_of_first (ihr hname) _
    · exact bind_error_of_first (ihl hname) _
  | unary op e ih => exact bind_error_of_first (ih hname) _
  | logical left op right ihl ihr =>
    rw [Expr.references_logical, Finset.mem_union] at hname
    obtain hname | hname := hname
    · exact bind_error_of_second _ fun u => bind_error_of_first (ihr hname) _
    · exact bind_error_of_first (ihl hname) _

/-! ## Pruned batches -/

/-- The batch of `schema().project(names)` with the vectors under the names it keeps. -/
def RecordBatch.prune (b : RecordBatch F) (names : List JString) : Java (RecordBatch F) := do
  let s ← b.schema.project names
  let vectors ← s.fieldsList.mapM fun f => b.vectorOf f.name
  RecordBatch.new s vectors

/-- A pruned batch has the named columns, unchanged, and its rows unless no column is left. -/
theorem RecordBatch.prune_ok {b : RecordBatch F} {names : List JString}
    (h : ∀ name ∈ names, name ∈ b.schema.fieldsList.map Field.name) :
    ∃ p, b.prune names = .ok p ∧ p.size = (if names = [] then 0 else b.size) ∧
      ∀ name ∈ names, b.schema.fields.get name = p.schema.fields.get name ∧
        b.vectorOf name = p.vectorOf name := by
  obtain ⟨s, hs, hmem⟩ := Schema.project_ok h
  have hcolumn : ∀ f ∈ s.fieldsList, ∃ v, b.vectorOf f.name = .ok v := by
    intro f hf
    obtain ⟨v, hv, -⟩ := b.vectorOf_of_field (Schema.field_of_mem ((hmem f).mp hf).1)
    exact ⟨v, hv⟩
  obtain ⟨vectors, hvectors⟩ := mapM_of_forall hcolumn
  have hpairs := (List.forall₂_and_left _ _).mpr ⟨fun f hf => hf, mapM_ok_iff.mp hvectors⟩
  have hfound : ∀ f v, f ∈ s.fieldsList ∧ b.vectorOf f.name = .ok v →
      v.type = f.type ∧ v ∈ b.vectors := by
    rintro f v ⟨hf, hv⟩
    obtain ⟨w, hw, htype, hw', -⟩ := b.vectorOf_of_field (Schema.field_of_mem ((hmem f).mp hf).1)
    rw [hv] at hw
    cases hw
    exact ⟨htype, hw'⟩
  have htypes : vectors.map Vector.type = s.fieldsList.map Field.type :=
    (map_eq_of_forall₂ hpairs fun f v hfv => (hfound f v hfv).1.symm).symm
  have hsize : ∀ v ∈ vectors, v.size = if names = [] then 0 else b.size := by
    refine forall_of_forall₂ hpairs fun f v hfv => ?_
    rw [if_neg (List.ne_nil_of_mem ((hmem f).mp hfv.1).2)]
    exact b.size_of_mem (hfound f v hfv).2
  have hnil : vectors = [] → (if names = [] then 0 else b.size) = 0 := by
    rintro rfl
    have hempty := List.forall₂_nil_right_iff.mp hpairs
    rw [if_pos]
    refine List.eq_nil_iff_forall_not_mem.mpr fun name hname => ?_
    obtain ⟨f, hf, rfl⟩ := List.mem_map.mp (h name hname)
    have hkept := (hmem f).mpr ⟨hf, hname⟩
    rw [hempty] at hkept
    cases hkept
  obtain ⟨p, hp, rfl, rfl, hpsize⟩ := RecordBatch.new_of_types htypes hsize hnil
  refine ⟨p, by rw [prune, hs, ok_bind, hvectors, ok_bind, hp], hpsize, fun name hname => ?_⟩
  have hfield : ∀ f, b.schema.fields.get name = some f ↔ p.schema.fields.get name = some f := by
    intro f
    rw [Schema.get_eq_some_iff, Schema.get_eq_some_iff, hmem]
    constructor
    · rintro ⟨hf, rfl⟩
      exact ⟨⟨hf, hname⟩, rfl⟩
    · rintro ⟨⟨hf, -⟩, hn⟩
      exact ⟨hf, hn⟩
  have hvector := mapM_agree hvectors (mapM_ok_iff.mpr p.vectorOf_forall₂)
  obtain ⟨f, hf, rfl⟩ := List.mem_map.mp (h name hname)
  exact ⟨Option.ext hfield, hvector f ((hmem f).mpr ⟨hf, hname⟩)⟩

/-! ## Values -/

/-- Equal row counts, and under each of the names the same field and columns that cannot be told
apart, or nothing. -/
structure RecordBatch.AgreesOn (names : Finset JString) (b c : RecordBatch F) : Prop where
  schema : b.schema.AgreesOn names c.schema
  rowCount : b.rowCount = c.rowCount
  columns : ∀ name ∈ names, ∀ v w, b.vectorOf name = .ok v → c.vectorOf name = .ok w → v.ObsEq w

theorem RecordBatch.AgreesOn.symm {names : Finset JString} {b c : RecordBatch F}
    (h : b.AgreesOn names c) : c.AgreesOn names b where
  schema := fun name hn => (h.schema name hn).symm
  rowCount := h.rowCount.symm
  columns := fun name hn v w hv hw => (h.columns name hn w v hw hv).symm

theorem RecordBatch.AgreesOn.size {names : Finset JString} {b c : RecordBatch F}
    (h : b.AgreesOn names c) : b.size = c.size := by
  rw [RecordBatch.size, RecordBatch.size, h.rowCount]

theorem RecordBatch.AgreesOn.cell {names : Finset JString} {b c : RecordBatch F}
    (h : b.AgreesOn names c) {name : JString} (hname : name ∈ names) {i : ℕ} (hi : i < b.size) :
    (b.row i).cell name = (c.row i).cell name := by
  have hfields : name ∈ b.schema.fieldsList.map Field.name ↔
      name ∈ c.schema.fieldsList.map Field.name := by
    rw [← Schema.get_isSome_iff_mem, ← Schema.get_isSome_iff_mem, h.schema name hname]
  obtain ⟨f, v, hf, hv, -, hsize, hcell⟩ | ⟨habsent, hcell⟩ := b.column_cases name
  · obtain ⟨g, w, -, hw, -, -, hcell'⟩ | ⟨habsent, -⟩ := c.column_cases name
    · rw [hcell, hcell', (h.columns name hname v w hv hw).2.2 i (hsize ▸ hi)]
    · simp [b.vectorOf_of_absent (hfields.not.mpr habsent)] at hv
  · obtain ⟨g, w, -, hw, -⟩ | ⟨-, hcell'⟩ := c.column_cases name
    · simp [c.vectorOf_of_absent (hfields.not.mp habsent)] at hw
    · rw [hcell, hcell']

variable [JavaDouble F]

theorem interp_congr {e : Expr F} {row row' : Row F}
    (h : ∀ name ∈ e.references, row.cell name = row'.cell name) :
    interp row e = interp row' e := by
  induction e with
  | columnRef name => rw [interp, interp, h name (by simp)]
  | literal l => rfl
  | binary left op right ihl ihr =>
    rw [interp, interp, ihl fun n hn => h n (by simp [hn]), ihr fun n hn => h n (by simp [hn])]
  | unary op e ih => rw [interp, interp, ih h]
  | logical left op right ihl ihr =>
    rw [interp, interp, ihl fun n hn => h n (by simp [hn]), ihr fun n hn => h n (by simp [hn])]

theorem eval_of_agreesOn {b c : RecordBatch F} {e : Expr F} (h : b.AgreesOn e.references c)
    {v : Vector F} (hv : eval b e = .ok v) : ∃ w, eval c e = .ok w ∧ v.ObsEq w := by
  obtain ⟨t, ht, htype⟩ := typed_of_eval hv
  obtain ⟨w, hw, htype', hsize, hslots⟩ := eval_transfer (outputType_of_agreesOn h.schema ht) id Eq
    (fun k hk => h.size.symm ▸ hk)
    (fun k hk x hx => ⟨x, by
      rw [← interp_congr fun name hn => h.cell hn (h.size.symm ▸ hk)]
      exact hx, rfl⟩) hv
  have hv' := (eval_ok hv).1
  refine ⟨w, hw, htype.symm.trans htype'.symm, by rw [hv', hsize, h.size], fun i hi => ?_⟩
  exact (hslots i (by rw [← h.size, ← hv']; exact hi)).symm

/-- **`collectReferences` is exactly the footprint of an expression.** -/
theorem footprint (e : Expr F) :
    (∀ s t : Schema, s.AgreesOn e.references t → SameType e s t) ∧
    (∀ b c : RecordBatch F, b.AgreesOn e.references c →
      (∃ v w, eval b e = .ok v ∧ eval c e = .ok w ∧ v.ObsEq w) ∨
        ((∃ x, eval b e = .error x) ∧ ∃ x, eval c e = .error x)) ∧
    (∀ name ∈ e.references,
      (∀ s : Schema, name ∉ s.fieldsList.map Field.name → ∃ x, e.outputType s = .error x) ∧
      (∀ b : RecordBatch F, name ∉ b.schema.fieldsList.map Field.name →
        ∃ x, eval b e = .error x)) := by
  refine ⟨fun s t => sameType_of_agreesOn, fun b c h => ?_, fun name hname => ⟨fun s hs => ?_,
    fun b hb => ?_⟩⟩
  · cases hv : eval b e with
    | ok v =>
      obtain ⟨w, hw, hobs⟩ := eval_of_agreesOn h hv
      exact Or.inl ⟨v, w, rfl, hw, hobs⟩
    | error x =>
      cases hw : eval c e with
      | ok w =>
        obtain ⟨v, hv', -⟩ := eval_of_agreesOn h.symm hw
        simp [hv] at hv'
      | error y => exact Or.inr ⟨⟨x, rfl⟩, y, rfl⟩
  · exact outputType_of_missing hname hs
  · obtain ⟨x, hx⟩ := outputType_of_missing hname hb
    cases hv : eval b e with
    | error y => exact ⟨y, rfl⟩
    | ok v =>
      obtain ⟨t, ht, -⟩ := typed_of_eval hv
      simp [hx] at ht

/-! ## Pruning -/

/-- **A batch may be pruned to the columns of an expression** as long as one is left: without
columns the batch has no rows, and so has the result. -/
theorem eval_prune {b : RecordBatch F} {e : Expr F} {v : Vector F} (hv : eval b e = .ok v)
    (names : List JString) (hnames : ∀ name, name ∈ names ↔ name ∈ e.references) :
    ∃ p w, b.prune names = .ok p ∧ eval p e = .ok w ∧ w.type = v.type ∧
      (e.references.Nonempty ∨ b.rowCount = 0 → v.ObsEq w) ∧
      (e.references = ∅ → p.rowCount = 0 ∧ w.length = 0) := by
  obtain ⟨t, ht, htype⟩ := typed_of_eval hv
  have hpresent : ∀ name ∈ names, name ∈ b.schema.fieldsList.map Field.name := by
    intro name hname
    by_contra habsent
    obtain ⟨x, hx⟩ := outputType_of_missing ((hnames name).mp hname) habsent
    simp [hx] at ht
  obtain ⟨p, hp, hsize, hkept⟩ := b.prune_ok hpresent
  have hschema : b.schema.AgreesOn e.references p.schema := fun name hname =>
    (hkept name ((hnames name).mpr hname)).1
  have hnil : names = [] ↔ e.references = ∅ := by
    rw [List.eq_nil_iff_forall_not_mem, Finset.eq_empty_iff_forall_notMem]
    exact forall_congr' fun name => (hnames name).not
  have hzero : e.references = ∅ → p.rowCount = 0 := by
    intro hrefs
    rw [p.rowCount_eq, hsize, if_pos (hnil.mpr hrefs)]
    rfl
  by_cases hrows : p.rowCount = b.rowCount
  · have hagrees : b.AgreesOn e.references p := by
      refine ⟨hschema, hrows.symm, fun name hname u w hu hw => ?_⟩
      rw [(hkept name ((hnames name).mpr hname)).2, hw] at hu
      rw [Except.ok.inj hu]
      exact Vector.ObsEq.refl u
    obtain ⟨w, hw, hobs⟩ := eval_of_agreesOn hagrees hv
    exact ⟨p, w, hp, hw, hobs.1.symm, fun _ => hobs,
      fun hrefs => ⟨hzero hrefs, (length_of_eval hw).trans (hzero hrefs)⟩⟩
  · -- no column is left, and the batch had rows
    have hrefs : e.references = ∅ := by
      by_contra hne
      rw [if_neg (hnil.not.mpr hne)] at hsize
      exact hrows (by rw [p.rowCount_eq, b.rowCount_eq, hsize])
    have hempty : p.size = 0 := by rw [hsize, if_pos (hnil.mpr hrefs)]
    obtain ⟨w, hw, htype', -⟩ := eval_transfer (outputType_of_agreesOn hschema ht) id Eq
      (fun k hk => absurd hk (by omega)) (fun k hk => absurd hk (by omega)) hv
    refine ⟨p, w, hp, hw, htype'.trans htype, ?_,
      fun _ => ⟨hzero hrefs, (length_of_eval hw).trans (hzero hrefs)⟩⟩
    rintro (hne | hb)
    · exact absurd hrefs hne.ne_empty
    · exact absurd ((hzero hrefs).trans hb.symm) hrows

theorem eval_prune_sample :
    ∃ p w, Sample.batch.prune [Sample.d, Sample.d] = .ok p ∧
      eval p (.columnRef Sample.d) = .ok w ∧ w.type = Sample.distances.type ∧
      ((Expr.columnRef Sample.d : Expr Unit).references.Nonempty ∨ Sample.batch.rowCount = 0 →
        Sample.distances.ObsEq w) ∧
      ((Expr.columnRef Sample.d : Expr Unit).references = ∅ → p.rowCount = 0 ∧ w.length = 0) :=
  eval_prune (b := Sample.batch) (e := .columnRef Sample.d) (v := Sample.distances) rfl
    [Sample.d, Sample.d] (by simp)

/-- A literal has a slot for each of the two rows, and none once every column is pruned away. -/
theorem pruned_literal_loses_rows :
    ∃ v p w, (Expr.literal (.int32 1) : Expr Unit).references = ∅ ∧
      eval Sample.batch (.literal (.int32 1)) = .ok v ∧ Sample.batch.prune [] = .ok p ∧
      eval p (.literal (.int32 1)) = .ok w ∧ v.length = 2 ∧ w.length = 0 :=
  ⟨_, _, _, rfl, rfl, rfl, rfl, rfl, rfl⟩

end QueryEngine
