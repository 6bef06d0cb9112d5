import QueryEngine.Proof.Columnar.Batches
import QueryEngine.Proof.Evaluator.Tabulation

/-! # What `gather` computes

Gathering copies slots: slot `k` of the result is slot `rows[k]` of the input, null bits moved to
their new positions. Array storage is read through the window and constant storage is not read at
all, and both give this one answer where the indices are in range. Out of range only array storage
notices.
-/
namespace QueryEngine
open Library
set_option autoImplicit false
set_option maxHeartbeats 250000

/-- The valid indices of an index array, as positions. -/
theorem positions_of_valid {rows : JArray Int32} {n : Int32}
    (h : ∀ r ∈ rows.elems, ¬ (r < 0 ∨ r ≥ n)) :
    ∃ indices : List ℕ, rows.elems = indices.map Int32.ofNat ∧
      ∀ i ∈ indices, i < n.toNatClampNeg := by
  refine ⟨rows.elems.map Int32.toNatClampNeg, ?_, ?_⟩
  · rw [List.map_map]
    refine (List.map_id _).symm.trans (List.map_congr_left fun r hr => ?_)
    exact (position_of_index (h r hr)).1
  · intro i hi
    obtain ⟨r, hr, rfl⟩ := List.mem_map.mp hi
    exact (position_of_index (h r hr)).2

variable {α F : Type}

namespace Output

/-- A null slot is written with its junk value first and its bit second. -/
theorem writes_junk {o : Output α} {i : ℕ} {a : JArray α} {x : α}
    (ha : a.elems = o.values.elems.set i x) :
    Writes i none o ⟨a, ⟨i :: o.nulls.bits⟩⟩ where
  size := by rw [size, ha, List.length_set, size]
  here := by simp [slot]
  earlier := by
    intro j hj
    have hne : j ≠ i := by omega
    simp [slot, ha, hne, hne.symm]
  ahead := by
    intro j hj h
    have hne : j ≠ i := by omega
    simpa [hne] using h

end Output

namespace TypedVec

theorem gatherRow_spec (v : TypedVec α) {rows : JArray Int32} {k i : ℕ}
    (hk : rows.elems[k]? = some (Int32.ofNat i)) (hi : i < v.size) {o : Output α}
    (hsize : k < o.size) (hnull : k ∉ o.nulls.bits) :
    ∃ o', v.gatherRow rows (Int32.ofNat k) o = .ok o' ∧ Output.Writes k (v.slot i) o o' := by
  obtain ⟨hlt, hget⟩ := List.getElem?_eq_some_iff.mp hk
  have hrow : rows.get (Int32.ofNat k) = .ok (Int32.ofNat i) := by
    rw [rows.get_ofNat hlt, hget]
  obtain ⟨x, hx, hread⟩ := v.read_slot hi
  obtain ⟨a, ha, hae⟩ := o.values.set_ofNat hsize x
  rcases hread with ⟨hn, hs⟩ | ⟨hn, hs⟩
  · have hk31 : k < 2 ^ 31 := Nat.lt_trans hlt rows.size_lt
    refine ⟨⟨a, ⟨k :: o.nulls.bits⟩⟩, ?_, ?_⟩
    · rw [gatherRow, hrow, ok_bind, hx, ok_bind, ha, ok_bind, hn, ok_bind, if_pos rfl,
        BitSet.set_ofNat _ hk31]
      rfl
    · rw [hs]
      exact Output.writes_junk hae
  · refine ⟨⟨a, o.nulls⟩, ?_, ?_⟩
    · rw [gatherRow, hrow, ok_bind, hx, ok_bind, ha, ok_bind, hn, ok_bind]
      rfl
    · rw [hs]
      exact Output.writes_value hsize hnull hae

/-- What row `r` contributes: its slot, or the exception of the index check. -/
def pick (v : TypedVec α) (r : Int32) : Java (Option α) :=
  if r < 0 ∨ r ≥ v.length then .error .indexOutOfBounds else .ok (v.slot r.toNatClampNeg)

theorem gatherRow_round (v : TypedVec α) (rows : JArray Int32) :
    Output.Round rows.elems.length (fun k => v.pick (rows.elems.getD k 0))
      fun k => v.gatherRow rows (Int32.ofNat k) := by
  intro k hk o hsize hnull
  have hget : rows.elems[k]? = some (rows.elems.getD k 0) := by
    rw [List.getD_eq_getElem?_getD, List.getElem?_eq_getElem hk, Option.getD_some]
  have hrow : rows.get (Int32.ofNat k) = .ok (rows.elems.getD k 0) := by
    rw [rows.get_ofNat hk, List.getD_eq_getElem?_getD, List.getElem?_eq_getElem hk,
      Option.getD_some]
  by_cases hr : rows.elems.getD k 0 < 0 ∨ rows.elems.getD k 0 ≥ v.length
  · refine Or.inl ⟨.indexOutOfBounds, ?_, if_pos hr⟩
    show v.gatherRow rows (Int32.ofNat k) o = _
    rw [gatherRow, hrow, ok_bind, v.value_of_out hr, error_bind]
  · obtain ⟨hnat, hlt⟩ := position_of_index hr
    rw [hnat] at hget
    obtain ⟨o', ho', hw⟩ := v.gatherRow_spec hget hlt (hsize ▸ hk) hnull
    exact Or.inr ⟨o', _, ho', if_neg hr, hw⟩

/-- **Element by element**: the slots at the indices, or the exception of an index out of range. -/
theorem defaultGather_tabulates (default : α) (v : TypedVec α) (rows : JArray Int32) :
    Tabulates rows.elems.length (fun k => v.pick (rows.elems.getD k 0))
      (v.defaultGather default rows) := by
  obtain ⟨a, ha, hae⟩ := JArray.filled_of_not_neg rows.length_not_neg default
  have hsize : (⟨a, .empty⟩ : Output α).size = rows.elems.length := by
    rw [Output.size, hae, List.length_replicate, rows.length_toNatClampNeg]
  rw [defaultGather, ha, ok_bind, forInt, rows.length_toNatClampNeg]
  obtain ⟨o, hrun, hf⟩ | ⟨k, hk, x, hrun, hx⟩ :=
    Output.fill (gatherRow_round v rows) hsize rfl rows.elems.length (Nat.le_refl _)
  · have hlen : o.values.length = rows.length := by
      have ho : o.values.elems.length = rows.elems.length := hf.size
      rw [JArray.length, JArray.length, ho]
    obtain ⟨w, hw, hwl, hslot⟩ := ArrayVector.new_whole o.values o.nulls
    rw [hlen] at hw hwl
    refine Or.inl ⟨array w, by rw [hrun, ok_bind, hw]; rfl, ?_, fun k hk => ?_⟩
    · rw [size, length, hwl, rows.length_toNatClampNeg]
    · exact (hf.done k hk).trans (congrArg Except.ok (hslot k).symm)
  · exact Or.inr ⟨k, hk, x, by rw [hrun, error_bind], hx⟩

end TypedVec

namespace Vector

/-! ## The two kinds of storage -/

/-- The value of a constant, whatever its length. -/
def constant? : Vector F → Option (Value F)
  | int (.constant v) => some (.int32 v.value)
  | long (.constant v) => some (.int64 v.value)
  | double (.constant v) => some (.float64 v.value)
  | bool (.constant v) => some (.bool v.value)
  | utf8 (.constant v) => some (.utf8 v.value)
  | _ => none

theorem slot_of_constant {v : Vector F} {x : Value F} (h : v.constant? = some x) (i : ℕ) :
    v.slot i = some x := by
  obtain (_ | v) | (_ | v) | (_ | v) | (_ | v) | (_ | v) := v
  all_goals
    cases h <;>
    rfl

theorem tabulates_of_typed (wrap : TypedVec α → Vector F) {value : α → Value F}
    (hlength : ∀ u, (wrap u).length = u.length)
    (hslot : ∀ u i, (wrap u).slot i = (u.slot i).map value)
    (default : α) (v : TypedVec α) (rows : JArray Int32) :
    Tabulates rows.elems.length (fun k => (wrap v).observe (rows.elems.getD k 0))
      (wrap <$> v.defaultGather default rows) := by
  have hsize : ∀ u, (wrap u).size = u.size := fun u => congrArg Int32.toNatClampNeg (hlength u)
  refine ((v.defaultGather_tabulates default rows).toVector hsize hslot).congr fun k _ => ?_
  rw [TypedVec.pick, observe_eq, hlength, hslot]
  split <;> rfl

variable [JavaDouble F]

theorem gather_of_array {v : Vector F} (h : v.constant? = none) (rows : JArray Int32) :
    v.gather rows = v.defaultGather rows := by
  obtain (v | _) | (v | _) | (v | _) | (v | _) | (v | _) := v
  all_goals first | rfl | cases h

/-- **A constant is gathered without a look at the indices.** -/
theorem gather_of_constant {v : Vector F} {x : Value F} (h : v.constant? = some x)
    (rows : JArray Int32) :
    ∃ w, v.gather rows = .ok w ∧ w.type = v.type ∧ w.length = rows.length ∧
      w.constant? = some x := by
  obtain (_ | v) | (_ | v) | (_ | v) | (_ | v) | (_ | v) := v
  all_goals first
    | rw [gather, TypedVec.gather, ConstantVector.new_of_not_neg v.value rows.length_not_neg,
        map_ok, map_ok]
      exact ⟨_, rfl, rfl, rfl, h⟩
    | cases h

theorem defaultGather_tabulates (v : Vector F) (rows : JArray Int32) :
    Tabulates rows.elems.length (fun k => v.observe (rows.elems.getD k 0))
      (v.defaultGather rows) := by
  cases v with
  | int v => exact tabulates_of_typed int (fun _ => rfl) (fun _ _ => rfl) 0 v rows
  | long v => exact tabulates_of_typed long (fun _ => rfl) (fun _ _ => rfl) 0 v rows
  | double v => exact tabulates_of_typed double (fun _ => rfl) (fun _ _ => rfl) _ v rows
  | bool v => exact tabulates_of_typed bool (fun _ => rfl) (fun _ _ => rfl) false v rows
  | utf8 v => exact tabulates_of_typed utf8 (fun _ => rfl) (fun _ _ => rfl) none v rows

/-- The default method reads the rows one after the other, or raises what one of them raises. -/
theorem defaultGather_cases (v : Vector F) (rows : JArray Int32) :
    (∃ w, v.defaultGather rows = .ok w ∧ w.type = v.type ∧ w.size = rows.elems.length ∧
      ∀ k (hk : k < rows.elems.length), v.observe rows.elems[k] = .ok (w.slot k)) ∨
    (∃ r ∈ rows.elems, ∃ x, v.defaultGather rows = .error x ∧ v.observe r = .error x) := by
  have hget : ∀ k (hk : k < rows.elems.length), rows.elems.getD k 0 = rows.elems[k] := by
    intro k hk
    rw [List.getD_eq_getElem?_getD, List.getElem?_eq_getElem hk, Option.getD_some]
  obtain ⟨w, hw, hsize, hslots⟩ | ⟨k, hk, x, hx, hread⟩ := v.defaultGather_tabulates rows
  · refine Or.inl ⟨w, hw, ?_, hsize, fun k hk => hget k hk ▸ hslots k hk⟩
    cases v <;>
      obtain ⟨u, -, rfl⟩ := map_eq_ok hw <;>
      rfl
  · refine Or.inr ⟨rows.elems[k], List.getElem_mem hk, x, hx, ?_⟩
    rw [← hget k hk]
    exact hread

/-! ## Gathered slots -/

structure Gathers (v : Vector F) (indices : List ℕ) (w : Vector F) : Prop where
  type : w.type = v.type
  size : w.size = indices.length
  slots : ∀ k i, indices[k]? = some i → w.slot k = v.slot i

theorem defaultGather_ok (v : Vector F) (rows : JArray Int32) {indices : List ℕ}
    (hrows : rows.elems = indices.map Int32.ofNat) (hin : ∀ i ∈ indices, i < v.size) :
    ∃ w, v.defaultGather rows = .ok w ∧ Gathers v indices w := by
  have hcount : rows.elems.length = indices.length := by rw [hrows, List.length_map]
  obtain ⟨w, hw, htype, hsize, hslots⟩ | ⟨r, hr, x, -, hx⟩ := v.defaultGather_cases rows
  · refine ⟨w, hw, htype, hsize.trans hcount, fun k i hk => ?_⟩
    have hlt := (List.getElem?_eq_some_iff.mp hk).1
    have hslot := hslots k (hcount ▸ hlt)
    have hrow : rows.elems[k] = Int32.ofNat i := by
      rw [List.getElem?_eq_getElem hlt, Option.some.injEq] at hk
      simp [hrows, hk]
    rw [hrow, v.observe_ofNat (hin i (List.mem_of_getElem? hk))] at hslot
    exact (Except.ok.inj hslot).symm
  · rw [hrows] at hr
    obtain ⟨i, hi, rfl⟩ := List.mem_map.mp hr
    rw [v.observe_ofNat (hin i hi)] at hx
    cases hx

/-- **An index out of range is noticed by the default method.** -/
theorem defaultGather_error (v : Vector F) (rows : JArray Int32)
    (hout : ∃ r ∈ rows.elems, r < 0 ∨ r ≥ v.length) :
    v.defaultGather rows = .error .indexOutOfBounds := by
  obtain ⟨r, hr, hbad⟩ := hout
  obtain ⟨w, -, -, -, hslots⟩ | ⟨r', -, x, hx, hread⟩ := v.defaultGather_cases rows
  · obtain ⟨k, hk, rfl⟩ := List.mem_iff_getElem.mp hr
    have hslot := hslots k hk
    rw [v.observe_of_out hbad] at hslot
    cases hslot
  · rw [observe_eq] at hread
    split at hread
    next =>
      cases hread
      exact hx
    next => cases hread

/-- **Indices in range are gathered.** -/
theorem gather_ok (v : Vector F) (rows : JArray Int32) {indices : List ℕ}
    (hrows : rows.elems = indices.map Int32.ofNat) (hin : ∀ i ∈ indices, i < v.size) :
    ∃ w, v.gather rows = .ok w ∧ Gathers v indices w := by
  cases hconst : v.constant? with
  | none =>
    rw [gather_of_array hconst]
    exact v.defaultGather_ok rows hrows hin
  | some x =>
    obtain ⟨w, hw, htype, hlength, hconst'⟩ := gather_of_constant hconst rows
    refine ⟨w, hw, htype, ?_, fun k i _ => ?_⟩
    · rw [size, hlength, rows.length_toNatClampNeg, hrows, List.length_map]
    · rw [slot_of_constant hconst, slot_of_constant hconst']

end Vector

namespace RecordBatch

/-- **Gathering every column gathers rows.** -/
theorem gathered (b : RecordBatch F) {indices : List ℕ} (hin : ∀ i ∈ indices, i < b.size)
    {ws : List (Vector F)}
    (hws : List.Forall₂ (fun v w => Vector.Gathers v indices w) b.vectors ws) :
    ∃ out, RecordBatch.new b.schema ws = .ok out ∧ out.schema = b.schema ∧
      out.rows = indices.map b.row := by
  have htypes : ws.map Vector.type = b.schema.fieldsList.map Field.type := by
    rw [← b.types_eq]
    exact (map_eq_of_forall₂ hws fun v w h => h.type.symm).symm
  have hsize : ∀ w ∈ ws, w.size = indices.length := forall_of_forall₂ hws fun v w h => h.size
  have hnil : ws = [] → indices.length = 0 := by
    rintro rfl
    have hzero := size_of_nil (List.forall₂_nil_right_iff.mp hws)
    match indices with
    | [] => rfl
    | i :: is =>
      have hi := hin i List.mem_cons_self
      omega
  obtain ⟨out, hout, hschema, hvectors, hosize⟩ := RecordBatch.new_of_types htypes hsize hnil
  refine ⟨out, hout, hschema, ?_⟩
  apply List.ext_getElem?
  intro k
  rw [RecordBatch.rows, hosize, List.getElem?_map, List.getElem?_map]
  by_cases hk : k < indices.length
  · have hget : indices[k]? = some indices[k] := List.getElem?_eq_getElem hk
    have hslots : b.vectors.map (fun v => v.slot indices[k]) = ws.map fun w => w.slot k :=
      map_eq_of_forall₂ hws fun v w h => (h.slots k _ hget).symm
    rw [List.getElem?_range hk, hget, Option.map_some, Option.map_some, out.row_eq_zip,
      b.row_eq_zip, hschema, hvectors, hslots]
  · rw [List.getElem?_eq_none (by rw [List.length_range]; omega),
      List.getElem?_eq_none (by omega)]
    rfl

theorem gather_vectors [JavaDouble F] (b : RecordBatch F) {rows : JArray Int32} {indices : List ℕ}
    (hrows : rows.elems = indices.map Int32.ofNat) (hin : ∀ i ∈ indices, i < b.size) :
    ∃ ws, b.vectors.mapM (fun v => v.gather rows) = .ok ws ∧
      List.Forall₂ (fun v w => Vector.Gathers v indices w) b.vectors ws := by
  have hgather : ∀ v ∈ b.vectors, ∃ w, v.gather rows = .ok w := by
    intro v hv
    obtain ⟨w, hw, -⟩ := v.gather_ok rows hrows fun i hi => b.size_of_mem hv ▸ hin i hi
    exact ⟨w, hw⟩
  obtain ⟨ws, hws⟩ := mapM_of_forall hgather
  have hpairs := mapM_ok_iff.mp hws
  refine ⟨ws, hws, ((List.forall₂_and_left _ _).mpr ⟨fun v hv => hv, hpairs⟩).imp ?_⟩
  intro v w hvw
  obtain ⟨w', hw', hg⟩ := v.gather_ok rows hrows fun i hi => b.size_of_mem hvw.1 ▸ hin i hi
  rw [hvw.2] at hw'
  rw [Except.ok.inj hw']
  exact hg

end RecordBatch

end QueryEngine
