import QueryEngine.Proof.Evaluator.FaultOrder
import QueryEngine.Proof.Physical.Images

/-! # Rows on their way up a tree

A row that fits the scan's schema, with a value in every required column, keeps doing so under a
filter, which leaves it alone, and under a projection, by type preservation and nullability
soundness of the interpreter. And what a tree can raise on such a row is what an expression can.
-/
namespace QueryEngine
open Library
set_option autoImplicit false
set_option maxHeartbeats 250000

variable {F : Type}

/-- A row that a schema promises: typed cells, and values where they are required. -/
structure Row.Conforms (s : Schema) (row : Row F) : Prop where
  fits : row.Fits s
  required : row.Required s

theorem Plan.sourceRow_conforms {p : Plan F} (hsrc : p.SourcesConform)
    (hstrings : ∀ b ∈ p.sourceBatches, b.StringsPresent)
    (hrequired : ∀ b ∈ p.sourceBatches, b.RequiredPresent) {b : RecordBatch F}
    (hb : b ∈ p.sourceBatches) {row : Row F} (hrow : row ∈ b.rows) :
    row.Conforms p.sourceSchema := by
  obtain ⟨i, hi, rfl⟩ := List.mem_map.mp hrow
  have hlt := List.mem_range.mp hi
  rw [← hsrc.schema_eq b hb]
  exact ⟨RecordBatch.row_fits (hstrings b hb) hlt,
    b.requiredPresent_iff.mp (hrequired b hb) i hlt⟩

variable [JavaDouble F]

/-! ## One filter, one projection -/

theorem keepRow_ok {predicate : Expr F} {row : Row F} {o : Option (Row F)}
    (h : keepRow predicate row = .ok o) :
    ∃ c, interp row predicate = .ok c ∧ o = if Cell.isTrue c then some row else none := by
  obtain ⟨c, hc, h⟩ := bind_eq_ok h
  exact ⟨c, hc, (Except.ok.inj h).symm⟩

theorem keepRow_some {predicate : Expr F} {row r : Row F}
    (h : keepRow predicate row = .ok (some r)) : r = row := by
  obtain ⟨c, -, hc⟩ := keepRow_ok h
  by_cases htrue : Cell.isTrue c = true
  · simpa [htrue] using hc
  · simp [htrue] at hc

theorem keepRow_error {predicate : Expr F} {row : Row F} {x : JavaException}
    (h : keepRow predicate row = .error x) : interp row predicate = .error x := by
  obtain h | ⟨c, -, h⟩ := bind_eq_error h
  · exact h
  · simp at h

theorem projectRow_ok {projections : List (Projection F)} {row r : Row F}
    (h : projectRow projections row = .ok r) :
    List.Forall₂ (fun p c => c.1 = p.name ∧ interp row p.expression = .ok c.2) projections r := by
  refine (mapM_ok_iff.mp h).imp fun p c hc => ?_
  obtain ⟨x, hx, hc⟩ := bind_eq_ok hc
  rw [← Except.ok.inj hc]
  exact ⟨rfl, hx⟩

theorem projectRow_error {projections : List (Projection F)} {row : Row F} {x : JavaException}
    (h : projectRow projections row = .error x) :
    ∃ p ∈ projections, interp row p.expression = .error x := by
  obtain ⟨p, hp, hx⟩ := mapM_error h
  obtain hx | ⟨c, -, hx⟩ := bind_eq_error hx
  · exact ⟨p, hp, hx⟩
  · simp at hx

theorem projectRow_cell {projections : List (Projection F)}
    (hnames : (projections.map Projection.name).Nodup) {row r : Row F}
    (h : projectRow projections row = .ok r) {p : Projection F} (hp : p ∈ projections) :
    interp row p.expression = .ok (r.cell p.name) := by
  have hcells := projectRow_ok h
  have hr : r.map Prod.fst = projections.map Projection.name :=
    (map_eq_of_forall₂ hcells fun p c hc => hc.1.symm).symm
  obtain ⟨⟨name, c⟩, hmem, hname, hc⟩ := exists_of_forall₂_mem hcells hp
  have hlookup : r.lookup p.name = some c := by
    rw [lookup_eq_some_iff (hr ▸ hnames), ← show name = p.name from hname]
    exact hmem
  rw [hc, Row.cell, hlookup]
  rfl

theorem projectRow_conforms {child schema : Schema} {projections : List (Projection F)}
    (hschema : ProjectExec.deriveSchema child projections = .ok schema) {row r : Row F}
    (hrow : row.Conforms child) (h : projectRow projections row = .ok r) : r.Conforms schema := by
  have hcell : ∀ f ∈ schema.fieldsList, ∃ e t, Expr.outputType child e = .ok t ∧
      t.type = f.type ∧ t.nullable = f.nullable ∧ interp row e = .ok (r.cell f.name) := by
    intro f hf
    obtain ⟨p, hp, t, ht, rfl⟩ := ProjectExec.projection_of_field hschema hf
    exact ⟨p.expression, t, ht, rfl, rfl,
      projectRow_cell (ProjectExec.names_nodup hschema) h hp⟩
  constructor
  · intro f hf
    obtain ⟨e, t, ht, htype, -, he⟩ := hcell f hf
    have hfits := interp_fits hrow.fits ht he
    rwa [htype] at hfits
  · intro f hf hnull
    obtain ⟨e, t, ht, -, hnullable, he⟩ := hcell f hf
    exact interp_required hrow.fits hrow.required ht (hnullable.trans hnull) he

/-! ## A whole tree -/

/-- The exceptions of a well-typed expression. -/
def Tolerated (x : JavaException) : Prop :=
  x = .arithmetic ∨ ∃ op : ComparisonOp, x = op.booleansNotSupported

theorem interp_tolerated {s : Schema} {row : Row F} (hrow : row.Fits s) {e : Expr F} {t : ExprType}
    (ht : e.outputType s = .ok t) {x : JavaException} (h : interp row e = .error x) :
    Tolerated x := by
  obtain ⟨n, -, hfault⟩ := interp_error hrow ht h
  exact hfault.imp And.left And.left

namespace Plan

/-- **Rows stay conforming up to the root.** -/
theorem Built.imageRow_conforms {p : Plan F} (hp : p.Built) {row r : Row F}
    (hrow : row.Conforms p.sourceSchema) (h : p.imageRow row = .ok (some r)) :
    r.Conforms p.schema := by
  induction hp generalizing r with
  | memoryScan schema batches =>
    obtain rfl : row = r := by simpa [imageRow] using h
    exact hrow
  | filter _ hcreate ih =>
    obtain ⟨rfl, -⟩ := FilterExec.create_ok hcreate
    obtain ⟨r', hr', hkeep⟩ := andThen_eq_some h
    rw [keepRow_some hkeep]
    exact ih hrow hr'
  | project _ hnew ih =>
    obtain ⟨schema, hschema, rfl⟩ := ProjectExec.new_ok hnew
    obtain ⟨r', hr', hproject⟩ := andThen_eq_some h
    obtain ⟨r'', hr'', hsome⟩ := map_eq_ok hproject
    rw [← Option.some.inj hsome]
    exact projectRow_conforms hschema (ih hrow hr') hr''

/-- **A tree raises on a conforming row what an expression can raise.** -/
theorem Built.imageRow_tolerated {p : Plan F} (hp : p.Built) {row : Row F}
    (hrow : row.Conforms p.sourceSchema) {x : JavaException} (h : p.imageRow row = .error x) :
    Tolerated x := by
  induction hp with
  | memoryScan schema batches => simp [imageRow] at h
  | filter hc hcreate ih =>
    obtain ⟨rfl, t, ht, -⟩ := FilterExec.create_ok hcreate
    obtain hchild | ⟨r, hr, hkeep⟩ := andThen_eq_error h
    · exact ih hrow hchild
    · exact interp_tolerated (hc.imageRow_conforms hrow hr).fits ht (keepRow_error hkeep)
  | project hc hnew ih =>
    obtain ⟨schema, hschema, rfl⟩ := ProjectExec.new_ok hnew
    obtain hchild | ⟨r, hr, hproject⟩ := andThen_eq_error h
    · exact ih hrow hchild
    · obtain ⟨p, hp, hx⟩ := projectRow_error (map_eq_error hproject)
      obtain ⟨f, -, t, ht, -⟩ :=
        exists_of_forall₂_mem (ProjectExec.deriveSchema_ok hschema).2 hp
      exact interp_tolerated (hc.imageRow_conforms hrow hr).fits ht hx

end Plan

end QueryEngine
