import QueryEngine.Proof.Evaluator.Guarantees
import QueryEngine.Proof.Physical.Images

/-! # Unknown inputs made known

Replacing nulls by values refines what was null and changes nothing else: the row interpreter is
monotone in what a row knows, so every decided slot of an evaluation stays as it was, an evaluation
that fails on the row that knows less fails on the row that knows more, and a filter that keeps a
row keeps it still. Strict operations need both operands; for AND and OR it is the monotonicity of
Kleene's tables.
-/
namespace QueryEngine
open Library ExprEvaluator
set_option autoImplicit false
set_option maxHeartbeats 250000

variable {F : Type}

/-! ## Operations on cells -/

theorem lift_informs {f : Value F → Value F → Java (Value F)} {a a' b b' c' : Cell F}
    (ha : Kleene.Informs a a') (hb : Kleene.Informs b b') (h : Interp.lift f a' b' = .ok c') :
    ∃ c, Interp.lift f a b = .ok c ∧ Kleene.Informs c c' := by
  obtain rfl | rfl := ha.unknown_or_eq
  · exact ⟨none, rfl, Kleene.Informs.none c'⟩
  · obtain rfl | rfl := hb.unknown_or_eq
    · refine ⟨none, ?_, Kleene.Informs.none c'⟩
      cases a <;> rfl
    · exact ⟨c', h, Kleene.Informs.refl c'⟩

theorem truth_informs {a a' : Cell F} {s' : Option Bool} (ha : Kleene.Informs a a')
    (h : Interp.truth a' = .ok s') : ∃ s, Interp.truth a = .ok s ∧ Kleene.Informs s s' := by
  obtain rfl | rfl := ha.unknown_or_eq
  · exact ⟨none, rfl, Kleene.Informs.none s'⟩
  · exact ⟨s', h, Kleene.Informs.refl s'⟩

theorem unary_informs {op : UnaryOp} {a a' c' : Cell F} (ha : Kleene.Informs a a')
    (h : Interp.unary op a' = .ok c') :
    ∃ c, Interp.unary op a = .ok c ∧ Kleene.Informs c c' := by
  obtain ⟨s', hs', h⟩ := bind_eq_ok h
  obtain ⟨s, hs, hinf⟩ := truth_informs ha hs'
  cases op
  refine ⟨_, by rw [Interp.unary, hs]; rfl, ?_⟩
  rw [← Except.ok.inj h]
  exact (Kleene.not_informs hinf).map _

theorem logical_informs {op : LogicalOp} {a a' b b' c' : Cell F} (ha : Kleene.Informs a a')
    (hb : Kleene.Informs b b') (h : Interp.logical op a' b' = .ok c') :
    ∃ c, Interp.logical op a b = .ok c ∧ Kleene.Informs c c' := by
  obtain ⟨s', hs', h⟩ := bind_eq_ok h
  obtain ⟨t', ht', h⟩ := bind_eq_ok h
  obtain ⟨s, hs, hinf⟩ := truth_informs ha hs'
  obtain ⟨t, ht, hinf'⟩ := truth_informs hb ht'
  refine ⟨_, by rw [Interp.logical, hs, ok_bind, ht]; rfl, ?_⟩
  rw [← Except.ok.inj h]
  cases op with
  | AND => exact (Kleene.and_informs hinf hinf').map _
  | OR => exact (Kleene.or_informs hinf hinf').map _

/-! ## Batches -/

/-- The same fields and rows, but some nulls of `b` hold values in `b'`. -/
structure RecordBatch.Informs (b b' : RecordBatch F) : Prop where
  fields : b.schema.fieldsList = b'.schema.fieldsList
  rowCount : b.rowCount = b'.rowCount
  columns : ∀ name v w, b.vectorOf name = .ok v → b'.vectorOf name = .ok w → v.Informs w

variable {b b' : RecordBatch F}

theorem RecordBatch.Informs.size (h : b.Informs b') : b.size = b'.size := by
  rw [RecordBatch.size, RecordBatch.size, h.rowCount]

theorem RecordBatch.Informs.schema (h : b.Informs b') : b.schema = b'.schema :=
  Schema.ext_fieldsList h.fields

theorem RecordBatch.Informs.row (h : b.Informs b') {i : ℕ} (hi : i < b.size) (name : JString) :
    Kleene.Informs ((b.row i).cell name) ((b'.row i).cell name) := by
  obtain ⟨f, v, -, hv, -, hsize, hcell⟩ | ⟨-, hcell⟩ := b.column_cases name
  · obtain ⟨f', w, -, hw, -, hsize', hcell'⟩ | ⟨habsent, -⟩ := b'.column_cases name
    · rw [hcell i, hcell' i]
      have hvw : v.size = w.size := by rw [hsize, hsize', h.size]
      exact (Vector.informs_iff hvw).mp (h.columns name v w hv hw) i (hsize ▸ hi)
    · rw [← h.fields] at habsent
      simp [b.vectorOf_of_absent habsent] at hv
  · rw [hcell i]
    exact Kleene.Informs.none _

/-- The positions that a mask selects stay selected. -/
theorem FilterExec.kept_informs {mask mask' : BoolVec} {n : ℕ}
    (h : ∀ i < n, mask.slot i = some true → mask'.slot i = some true) :
    (kept mask n).Sublist (kept mask' n) := by
  have hkept : kept mask n = (kept mask' n).filter (keeps mask) := by
    rw [kept, kept, List.filter_filter]
    refine List.filter_congr fun i hi => ?_
    by_cases hk : mask.slot i = some true
    · simp [keeps, hk, h i (List.mem_range.mp hi) hk]
    · simp [keeps, hk]
  rw [hkept]
  exact List.filter_sublist

theorem Vector.Informs.mask {mask mask' : BoolVec} (hsize : mask.size = mask'.size)
    (h : (Vector.bool mask : Vector F).Informs (.bool mask')) :
    ∀ i < mask.size, mask.slot i = some true → mask'.slot i = some true := by
  intro i hi hslot
  have hbool : (Vector.bool mask : Vector F).slot i = some (.bool true) := by
    rw [Vector.slot, hslot]
    rfl
  have hsizes : (Vector.bool mask : Vector F).size = (Vector.bool mask' : Vector F).size :=
    hsize
  have hbool' := (Vector.informs_iff hsizes).mp h i hi _ hbool
  obtain ⟨x, hx, hxt⟩ := Option.map_eq_some_iff.mp hbool'
  rw [hx, Value.bool.inj hxt]

variable [JavaDouble F]

/-! ## Expressions -/

/-- **The row interpreter is monotone in what a row knows.** -/
theorem interp_informs {row row' : Row F}
    (hrow : ∀ name, Kleene.Informs (row.cell name) (row'.cell name)) {e : Expr F} {c' : Cell F}
    (h : interp row' e = .ok c') : ∃ c, interp row e = .ok c ∧ Kleene.Informs c c' := by
  induction e generalizing c' with
  | columnRef name =>
    cases h
    exact ⟨_, rfl, hrow name⟩
  | literal l => exact ⟨c', h, Kleene.Informs.refl c'⟩
  | binary left op right ihl ihr =>
    obtain ⟨a', ha', h⟩ := bind_eq_ok h
    obtain ⟨b', hb', h⟩ := bind_eq_ok h
    obtain ⟨a, ha, hinf⟩ := ihl ha'
    obtain ⟨b, hb, hinf'⟩ := ihr hb'
    rw [interp, ha, ok_bind, hb, ok_bind]
    exact lift_informs hinf hinf' h
  | unary op e ih =>
    obtain ⟨a', ha', h⟩ := bind_eq_ok h
    obtain ⟨a, ha, hinf⟩ := ih ha'
    rw [interp, ha, ok_bind]
    exact unary_informs hinf h
  | logical left op right ihl ihr =>
    obtain ⟨a', ha', h⟩ := bind_eq_ok h
    obtain ⟨b', hb', h⟩ := bind_eq_ok h
    obtain ⟨a, ha, hinf⟩ := ihl ha'
    obtain ⟨b, hb, hinf'⟩ := ihr hb'
    rw [interp, ha, ok_bind, hb, ok_bind]
    exact logical_informs hinf hinf' h

/-! ## Evaluations and filters -/

/-- **Evaluation only refines nulls.** -/
theorem eval_informs (h : b.Informs b') {e : Expr F} {v' : Vector F} (hv' : eval b' e = .ok v') :
    ∃ v, eval b e = .ok v ∧ v.type = v'.type ∧ v.length = v'.length ∧ v.Informs v' := by
  obtain ⟨t, ht, htype⟩ := typed_of_eval hv'
  rw [← h.schema] at ht
  obtain ⟨v, hv, htype', hsize, hslots⟩ := eval_transfer ht id Kleene.Informs
    (fun k hk => h.size ▸ hk) (fun k hk c hc => interp_informs (h.row hk) hc) hv'
  have hlength : v.length = v'.length := by rw [length_of_eval hv, length_of_eval hv', h.rowCount]
  have hsizes : v.size = v'.size := by rw [Vector.size, Vector.size, hlength]
  exact ⟨v, hv, htype'.trans htype, hlength,
    (Vector.informs_iff hsizes).mpr fun i hi => hslots i (hsize ▸ hi)⟩

/-- **Nulls are only ever refined**, by the evaluator and by a filter over its answers. -/
theorem nulls_refined (h : b.Informs b') (e : Expr F) :
    (∀ v', eval b' e = .ok v' →
      ∃ v, eval b e = .ok v ∧ v.type = v'.type ∧ v.length = v'.length ∧ v.Informs v') ∧
    (∀ child filter : Plan F, FilterExec.create child e = .ok filter →
      child.schema.fieldsList = b.schema.fieldsList →
      ∀ o', FilterExec.select child.schema e b' = .ok o' →
      ∃ o mask mask', FilterExec.select child.schema e b = .ok o ∧
        eval b e = .ok (.bool mask) ∧ eval b' e = .ok (.bool mask') ∧
        Shows child.schema o ((FilterExec.kept mask b.size).map b.row) ∧
        Shows child.schema o' ((FilterExec.kept mask' b'.size).map b'.row) ∧
        (FilterExec.kept mask b.size).Sublist (FilterExec.kept mask' b'.size)) := by
  refine ⟨fun v' hv' => eval_informs h hv', fun child filter hf hfields o' ho' => ?_⟩
  have hschema : child.schema = b.schema := Schema.ext_fieldsList hfields
  obtain ⟨-, t, ht, hbool⟩ := FilterExec.create_ok hf
  rw [hschema] at ht ho' ⊢
  obtain ⟨v', hv', -⟩ := bind_eq_ok ho'
  obtain ⟨v, hv, htype, hlength, hinf⟩ := eval_informs h hv'
  obtain ⟨u, hu, hut⟩ := typed_of_eval hv
  rw [ht] at hu
  cases hu
  rw [hbool] at hut
  obtain ⟨mask, rfl⟩ := Vector.bool_of_type hut.symm
  obtain ⟨mask', rfl⟩ := Vector.bool_of_type (htype ▸ hut.symm)
  have hsize : mask.size = b.size := (eval_ok hv).1
  have hsize' : mask'.size = b'.size := (eval_ok hv').1
  obtain ⟨o, ho, hshow⟩ := FilterExec.select_ok hv hsize
  obtain ⟨o'', ho'', hshow'⟩ := FilterExec.select_ok hv' hsize'
  rw [← h.schema, ho'] at ho''
  cases ho''
  refine ⟨o, mask, mask', ho, hv, hv', hshow, h.schema ▸ hshow', ?_⟩
  rw [← h.size]
  have hmask := hinf.mask (hsize.trans (h.size.trans hsize'.symm))
  rw [hsize] at hmask
  exact FilterExec.kept_informs hmask

/-! ## A sample -/

namespace Sample

/-- `batch` with 3 in place of the null. -/
def known : RecordBatch Unit :=
  ⟨schema, [.int (.array ⟨⟨[7, 3], by decide⟩, 0, 2, .empty, two_positive, by decide⟩), flags],
    by decide⟩

/-- `d > 5 OR f`. -/
def farOrFlagged : Expr Unit :=
  .logical (.binary (.columnRef d) (.comparison .GT) (.literal (.int32 5))) .OR (.columnRef f)

theorem batch_informs_known : batch.Informs known where
  fields := rfl
  rowCount := rfl
  columns := by
    intro name v w hv hw
    obtain ⟨g, hg, -⟩ := batch.field_of_vectorOf hv
    obtain ⟨hmem, rfl⟩ := (schema.field_ok_iff name g).mp hg
    obtain rfl | rfl : g = ⟨d, .INT32, true⟩ ∨ g = ⟨f, .BOOLEAN, false⟩ := by
      simpa [schema, Schema.fieldsList, OrderedMap.values] using hmem
    · obtain rfl : distances = v := Except.ok.inj hv
      cases hw
      refine (Vector.informs_iff (by rfl)).mpr fun i hi => ?_
      obtain rfl | rfl : i = 0 ∨ i = 1 := by
        have hi2 : i < 2 := hi
        omega
      · exact Kleene.Informs.refl (some (Value.int32 7))
      · exact Kleene.Informs.none _
    · obtain rfl : flags = v := Except.ok.inj hv
      cases hw
      exact (Vector.informs_iff (by rfl)).mpr fun i _ => Kleene.Informs.refl _

end Sample

theorem nulls_refined_sample :
    ∃ v', eval Sample.known Sample.farOrFlagged = .ok v' ∧
      ∃ v, eval Sample.batch Sample.farOrFlagged = .ok v ∧ v.type = v'.type ∧
        v.length = v'.length ∧ v.Informs v' :=
  ⟨_, rfl, (nulls_refined Sample.batch_informs_known Sample.farOrFlagged).1 _ rfl⟩

end QueryEngine
