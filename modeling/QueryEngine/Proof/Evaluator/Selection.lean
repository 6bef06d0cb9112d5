import QueryEngine.Proof.Columnar.Gather
import QueryEngine.Proof.Evaluator.Guarantees

/-! # Evaluation and row selection

Evaluating on selected rows is selecting from the evaluation. Row `k` of the gathered batch is row
`rows[k]` of the batch, whatever storage the columns had and have, and the row interpreter sees
nothing but the row.
-/
namespace QueryEngine
open Library ExprEvaluator
set_option autoImplicit false
set_option maxHeartbeats 250000

/-- The second row of the sample batch twice, then the first. -/
def Sample.selection : JArray Int32 := ⟨[1, 1, 0], by decide⟩

theorem Sample.selection_valid :
    ∀ r ∈ Sample.selection.elems, ¬ (r < 0 ∨ r ≥ Sample.batch.rowCount) := by
  intro r hr
  have hcases : r = 1 ∨ r = 0 := by simpa [Sample.selection] using hr
  obtain rfl | rfl := hcases
  · decide
  · decide

variable {F : Type} [JavaDouble F]

/-- **Evaluation commutes with row selection.** -/
theorem eval_gather (b : RecordBatch F) (e : Expr F) {v : Vector F} (hv : eval b e = .ok v)
    (rows : JArray Int32) (hrows : ∀ r ∈ rows.elems, ¬ (r < 0 ∨ r ≥ b.rowCount)) :
    ∃ gathered b' v', b.vectors.mapM (fun u => u.gather rows) = .ok gathered ∧
      RecordBatch.new b.schema gathered = .ok b' ∧ eval b' e = .ok v' ∧ v'.type = v.type ∧
      v'.length = rows.length ∧
      ∀ k (hk : k < rows.elems.length), v'.observe (Int32.ofNat k) = v.observe rows.elems[k] := by
  obtain ⟨indices, hindices, hin⟩ := positions_of_valid hrows
  obtain ⟨gathered, hgathered, hgathers⟩ := b.gather_vectors hindices hin
  obtain ⟨b', hb', hschema, hrowsEq⟩ := b.gathered hin hgathers
  obtain ⟨hsize, hrow⟩ := RecordBatch.row_of_rows hrowsEq
  rw [List.length_map] at hsize
  obtain ⟨t, ht, htype⟩ := typed_of_eval hv
  rw [← hschema] at ht
  have horigin : ∀ k (hk : k < indices.length), indices.getD k 0 = indices[k] := by
    intro k hk
    rw [List.getD_eq_getElem?_getD, List.getElem?_eq_getElem hk, Option.getD_some]
  obtain ⟨v', hv', htype', hsize', hslots⟩ := eval_transfer ht (fun k => indices.getD k 0) Eq
    (fun k hk => by
      rw [hsize] at hk
      simp only [horigin k hk]
      exact hin _ (List.getElem_mem hk))
    (fun k hk c hc => by
      rw [hsize] at hk
      simp only [horigin k hk] at hc
      exact ⟨c, by rw [hrow k (by rwa [List.length_map]), List.getElem_map, hc], rfl⟩) hv
  have hcount : rows.elems.length = indices.length := by rw [hindices, List.length_map]
  refine ⟨gathered, b', v', hgathered, hb', hv', htype'.trans htype, ?_, fun k hk => ?_⟩
  · rw [v'.length_eq, hsize', hsize, ← hcount]
    rfl
  · have hk' : k < indices.length := hcount ▸ hk
    have hget : rows.elems[k] = Int32.ofNat indices[k] := by simp [hindices]
    have hslot := hslots k (hsize ▸ hk')
    simp only [horigin k hk'] at hslot
    have hvk : indices[k] < v.size := by
      rw [(eval_ok hv).1]
      exact hin _ (List.getElem_mem hk')
    rw [hget, v.observe_ofNat hvk, v'.observe_ofNat (by omega), hslot]

theorem eval_gather_sample :
    ∃ gathered b' v',
      Sample.batch.vectors.mapM (fun u => u.gather Sample.selection) = .ok gathered ∧
      RecordBatch.new Sample.batch.schema gathered = .ok b' ∧
      eval b' (.columnRef Sample.d) = .ok v' ∧ v'.type = Sample.distances.type ∧
      v'.length = Sample.selection.length ∧
      ∀ k (hk : k < Sample.selection.elems.length),
        v'.observe (Int32.ofNat k) = Sample.distances.observe Sample.selection.elems[k] :=
  eval_gather Sample.batch (.columnRef Sample.d) (v := Sample.distances) rfl Sample.selection
    Sample.selection_valid

end QueryEngine
