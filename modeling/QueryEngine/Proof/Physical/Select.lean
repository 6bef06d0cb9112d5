import QueryEngine.Abstract.PlanImage
import QueryEngine.Proof.Columnar.Batches
import QueryEngine.Proof.Columnar.Gather
import QueryEngine.Proof.Evaluator.Refinement

/-! # One batch through a filter

Both passes of `FilterExec.pull` read the mask through `selected`. The first counts the TRUE slots,
the second collects their positions into an array of exactly that size, and every column is
gathered at those positions. So the batch that comes out holds the rows on which the predicate is
TRUE, in order, and a batch without such a row yields none.
-/
namespace QueryEngine
open Library ExprEvaluator
set_option autoImplicit false
set_option maxHeartbeats 250000

variable {F : Type}

/-! ## The two passes over the mask -/

namespace FilterExec

def keeps (mask : BoolVec) (i : ℕ) : Bool := decide (mask.slot i = some true)

/-- The positions below `n` that a mask selects. -/
def kept (mask : BoolVec) (n : ℕ) : List ℕ := (List.range n).filter (keeps mask)

theorem kept_succ (mask : BoolVec) (n : ℕ) :
    kept mask (n + 1) = kept mask n ++ if keeps mask n then [n] else [] := by
  rw [kept, List.range_succ, List.filter_append]
  by_cases h : keeps mask n = true
  · simp [kept, h]
  · simp [kept, h]

theorem mem_kept {mask : BoolVec} {n i : ℕ} (h : i ∈ kept mask n) : i < n :=
  List.mem_range.mp (List.mem_filter.mp h).1

theorem kept_length_le (mask : BoolVec) (n : ℕ) : (kept mask n).length ≤ n := by
  have h := List.length_filter_le (keeps mask) (List.range n)
  rwa [List.length_range] at h

theorem kept_length_mono (mask : BoolVec) {m n : ℕ} (h : m ≤ n) :
    (kept mask m).length ≤ (kept mask n).length := by
  have hsub : (List.range m).Sublist (List.range n) := List.range_sublist.mpr h
  exact (hsub.filter (keeps mask)).length_le

theorem selected_ofNat (mask : BoolVec) {i : ℕ} (h : i < mask.size) :
    selected mask (Int32.ofNat i) = .ok (keeps mask i) := by
  rw [selected, mask.isNotNull_ofNat h, ok_bind, keeps]
  match hs : mask.slot i with
  | none => simp
  | some x => simp [mask.value_of_slot h hs]

theorem ofNat_succ (n : ℕ) : Int32.ofNat n + 1 = Int32.ofNat (n + 1) := by
  rw [Int32.ofNat_add]
  rfl

theorem count_loop (mask : BoolVec) (m : ℕ) (hm : m ≤ mask.size) :
    forLoop m (fun i rowCount => do
      if ← selected mask (Int32.ofNat i) then pure (rowCount + 1) else pure rowCount) 0 =
    .ok (Int32.ofNat (kept mask m).length) := by
  induction m with
  | zero => rfl
  | succ m ih =>
    have hprev := ih (by omega)
    rw [forLoop_succ_ok hprev, selected_ofNat mask (by omega), ok_bind, kept_succ]
    by_cases h : keeps mask m = true
    · rw [if_pos h, if_pos h, List.length_append, List.length_singleton, ← ofNat_succ]
      rfl
    · simp [h]

/-- **Pass 1 counts the selected slots.** -/
theorem countSurvivors_ok (mask : BoolVec) :
    countSurvivors mask = .ok (Int32.ofNat (kept mask mask.size).length) :=
  count_loop mask mask.size (Nat.le_refl _)

/-- After `m` rounds of pass 2: the selected positions below `m`, then the zeros of a new array. -/
structure Collected (mask : BoolVec) (m : ℕ) (s : JArray Int32 × Int32) : Prop where
  filled : s.1.elems = (kept mask m).map Int32.ofNat ++
    List.replicate ((kept mask mask.size).length - (kept mask m).length) 0
  position : s.2 = Int32.ofNat (kept mask m).length

theorem Collected.room {mask : BoolVec} {m : ℕ} {s : JArray Int32 × Int32}
    (h : Collected mask m s) (hm : m < mask.size) (hk : keeps mask m = true) :
    (kept mask m).length < (kept mask mask.size).length ∧
      s.1.elems.length = (kept mask mask.size).length := by
  have hle := kept_length_mono mask (Nat.succ_le_of_lt hm)
  rw [kept_succ, if_pos hk, List.length_append, List.length_singleton] at hle
  refine ⟨by omega, ?_⟩
  rw [h.filled, List.length_append, List.length_map, List.length_replicate]
  omega

theorem Collected.store {mask : BoolVec} {m : ℕ} {s : JArray Int32 × Int32}
    (h : Collected mask m s) (hm : m < mask.size) (hk : keeps mask m = true) :
    ∃ s', survivorRound mask (Int32.ofNat m) s = .ok s' ∧ Collected mask (m + 1) s' := by
  obtain ⟨hroom, hlen⟩ := h.room hm hk
  obtain ⟨rows, hset, helems⟩ := s.1.set_ofNat (hlen ▸ hroom) (Int32.ofNat m)
  have hkept : kept mask (m + 1) = kept mask m ++ [m] := by rw [kept_succ, if_pos hk]
  refine ⟨(rows, s.2 + 1), ?_, ?_, ?_⟩
  · rw [survivorRound, selected_ofNat mask hm, ok_bind, if_pos hk, h.position, hset]
    rfl
  · obtain ⟨d, hd⟩ : ∃ d, (kept mask mask.size).length - (kept mask m).length = d + 1 :=
      ⟨_, (Nat.succ_pred_eq_of_pos (by omega)).symm⟩
    have hd' : (kept mask mask.size).length - (kept mask (m + 1)).length = d := by
      rw [hkept, List.length_append, List.length_singleton]
      omega
    show rows.elems = _
    rw [helems, h.filled, hd, hd', hkept, List.replicate_succ, List.map_append,
      List.append_assoc]
    simp
  · show s.2 + 1 = _
    rw [h.position, ofNat_succ, hkept, List.length_append, List.length_singleton]

theorem Collected.skip {mask : BoolVec} {m : ℕ} {s : JArray Int32 × Int32}
    (h : Collected mask m s) (hm : m < mask.size) (hk : ¬ keeps mask m = true) :
    survivorRound mask (Int32.ofNat m) s = .ok s ∧ Collected mask (m + 1) s := by
  have hkept : kept mask (m + 1) = kept mask m := by
    rw [kept_succ, if_neg hk, List.append_nil]
  refine ⟨?_, ?_, ?_⟩
  · rw [survivorRound, selected_ofNat mask hm, ok_bind, if_neg hk]
    rfl
  · rw [hkept]
    exact h.filled
  · rw [hkept]
    exact h.position

/-- **Pass 2 collects exactly the selected positions.** -/
theorem survivors_ok (mask : BoolVec) :
    ∃ rows, survivors mask (Int32.ofNat (kept mask mask.size).length) = .ok rows ∧
      rows.elems = (kept mask mask.size).map Int32.ofNat := by
  have hcount : (kept mask mask.size).length < 2 ^ 31 :=
    Nat.lt_of_le_of_lt (kept_length_le mask mask.size) mask.size_lt
  obtain ⟨a, ha, hae⟩ := JArray.filled_of_not_neg (ofNat_not_neg hcount) (0 : Int32)
  rw [toNatClampNeg_ofNat hcount] at hae
  have hstart : Collected mask 0 (a, 0) := by
    refine ⟨?_, rfl⟩
    show a.elems = _
    rw [hae]
    rfl
  obtain ⟨s, hrun, hs⟩ := forLoop_total (Collected mask) hstart fun m hm s hinv => by
    by_cases hk : keeps mask m = true
    · exact hinv.store hm hk
    · exact ⟨s, hinv.skip hm hk⟩
  refine ⟨s.1, ?_, ?_⟩
  · rw [survivors, ha, ok_bind, forInt]
    have hsize : mask.length.toNatClampNeg = mask.size := rfl
    rw [hsize, hrun]
    rfl
  · rw [hs.filled, Nat.sub_self, List.replicate_zero, List.append_nil]

end FilterExec

/-! ## Gathering all columns -/

namespace FilterExec
variable [JavaDouble F]

theorem gatherColumns_ok (b : RecordBatch F) {rows : JArray Int32} {indices : List ℕ}
    (hrows : rows.elems = indices.map Int32.ofNat) (hin : ∀ i ∈ indices, i < b.size) :
    ∃ ws, gatherColumns b.schema b rows = .ok ws ∧
      List.Forall₂ (fun v w => Vector.Gathers v indices w) b.vectors ws := by
  obtain ⟨ws, hws, hgathers⟩ := b.gather_vectors hrows hin
  refine ⟨ws, ?_, hgathers⟩
  rw [gatherColumns, mapM_bind_of_ok b.vectorOf_forall₂]
  exact hws

/-! ## The whole round -/

/-- Both passes and the gathering, on a mask of the batch's length. -/
theorem select_ok {predicate : Expr F} {b : RecordBatch F} {mask : BoolVec}
    (hv : eval b predicate = .ok (.bool mask)) (hmask : mask.size = b.size) :
    ∃ o, select b.schema predicate b = .ok o ∧
      Shows b.schema o ((kept mask b.size).map b.row) := by
  have hcount := countSurvivors_ok mask
  rw [hmask] at hcount
  by_cases hzero : kept mask b.size = []
  · refine ⟨none, ?_, by rw [hzero]; rfl⟩
    rw [select, hv, ok_bind]
    simp [hcount, hzero]
  · have hin : ∀ i ∈ kept mask b.size, i < b.size := fun i hi => mem_kept hi
    obtain ⟨rows, hsurv, helems⟩ := survivors_ok mask
    rw [hmask] at hsurv helems
    obtain ⟨ws, hws, hgathers⟩ := gatherColumns_ok b helems hin
    obtain ⟨out, hout, hschema, hrows⟩ := b.gathered hin hgathers
    have hne : Int32.ofNat (kept mask b.size).length ≠ 0 := by
      intro h0
      have hlen := congrArg Int32.toNatClampNeg h0
      rw [toNatClampNeg_ofNat (Nat.lt_of_le_of_lt (kept_length_le mask b.size) b.size_lt)] at hlen
      exact hzero (List.length_eq_zero_iff.mp hlen)
    refine ⟨some out, ?_, hschema, hrows, by simpa using hzero⟩
    rw [select, hv, ok_bind]
    simp [hcount, hne, hsurv, hws, hout]

/-- **A filter keeps, of every batch, the rows on which its predicate is TRUE.** -/
theorem select_carries {schema : Schema} {predicate : Expr F} {t : ExprType}
    (ht : predicate.outputType schema = .ok t) (hbool : t.type = .BOOLEAN) :
    Carries schema schema (select schema predicate) (keepRow predicate) := by
  intro b hb
  subst hb
  obtain ⟨v, hv, htype, hsize, hslots⟩ | ⟨i, hi, x, hx, hrow⟩ := eval_refines b predicate ht
  · rw [hbool] at htype
    obtain ⟨mask, rfl⟩ := Vector.bool_of_type htype
    have hmask : mask.size = b.size := hsize
    have hkeep : ∀ i ∈ List.range b.size,
        keepRow predicate (b.row i) = .ok (if keeps mask i then some (b.row i) else none) := by
      intro i hi
      rw [keepRow, hslots i (List.mem_range.mp hi), ok_bind, Vector.slot, keeps]
      obtain _ | _ | _ := mask.slot i
      · rfl
      · rfl
      · rfl
    have hrows : b.rows.filterMapM (keepRow predicate) = .ok ((kept mask b.size).map b.row) :=
      filterMapM_of_filter (keeps mask) b.row b.row hkeep
    obtain ⟨o, ho, hshow⟩ := select_ok hv hmask
    exact Or.inl ⟨o, _, ho, hrows, hshow⟩
  · refine Or.inr ⟨b.row i, ?_, x, ?_, ?_⟩
    · exact List.mem_map.mpr ⟨i, List.mem_range.mpr hi, rfl⟩
    · rw [select, hx, error_bind]
    · rw [keepRow, hrow, error_bind]

end FilterExec

end QueryEngine
