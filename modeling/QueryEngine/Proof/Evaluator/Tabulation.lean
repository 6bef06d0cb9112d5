import QueryEngine.Abstract.SlotView

/-! # Loops that write one slot a round

Every kernel, connective and gather fills an `Output` slot by slot. `Tabulates n g r` is the common
specification: the run `r` either returns a vector of `n` slots that shows `g i` at every slot, or
raises what `g` raises at one of them. `Output.fill` derives it from what a single round does.
-/
namespace QueryEngine
open Library
set_option autoImplicit false
set_option maxHeartbeats 250000

variable {α F : Type}

/-- The run `r` computes the table of `g` over `n` slots. -/
def TypedVec.Tabulates (n : ℕ) (g : ℕ → Java (Option α)) (r : Java (TypedVec α)) : Prop :=
  (∃ v, r = .ok v ∧ v.size = n ∧ ∀ i < n, g i = .ok (v.slot i)) ∨
    (∃ i < n, ∃ e, r = .error e ∧ g i = .error e)

def Vector.Tabulates (n : ℕ) (g : ℕ → Java (Cell F)) (r : Java (Vector F)) : Prop :=
  (∃ v, r = .ok v ∧ v.size = n ∧ ∀ i < n, g i = .ok (v.slot i)) ∨
    (∃ i < n, ∃ e, r = .error e ∧ g i = .error e)

/-! ## Outputs under construction -/

namespace Output

def size (o : Output α) : ℕ := o.values.elems.length

def slot (o : Output α) (i : ℕ) : Option α :=
  if i ∈ o.nulls.bits then none else o.values.elems[i]?

/-- Round `i` leaves `s` in slot `i`, the earlier slots as they were, and no null bit ahead. -/
structure Writes (i : ℕ) (s : Option α) (o o' : Output α) : Prop where
  size : o'.size = o.size
  here : o'.slot i = s
  earlier : ∀ j < i, o'.slot j = o.slot j
  ahead : ∀ j > i, j ∈ o'.nulls.bits → j ∈ o.nulls.bits

theorem writes_value {o : Output α} {i : ℕ} {a : JArray α} {x : α} (hi : i < o.size)
    (hnull : i ∉ o.nulls.bits) (ha : a.elems = o.values.elems.set i x) :
    Writes i (some x) o ⟨a, o.nulls⟩ where
  size := by rw [size, ha, List.length_set, size]
  here := by
    have hl : i < o.values.elems.length := hi
    simp [slot, hnull, ha, hl]
  earlier := by
    intro j hj
    have hne : i ≠ j := by omega
    simp [slot, ha, hne]
  ahead := fun _ _ h => h

theorem writes_null (o : Output α) (i : ℕ) : Writes i none o ⟨o.values, ⟨i :: o.nulls.bits⟩⟩ where
  size := rfl
  here := by simp [slot]
  earlier := by
    intro j hj
    have hne : j ≠ i := by omega
    simp [slot, hne]
  ahead := by
    intro j hj h
    have hne : j ≠ i := by omega
    simpa [hne] using h

def record (o : Output α) (i : Int32) : Option α → Java (Output α)
  | some x => do
      let values ← o.values.set i x
      pure ⟨values, o.nulls⟩
  | none => do
      let nulls ← o.nulls.set i
      pure ⟨o.values, nulls⟩

theorem record_spec {o : Output α} {i : ℕ} (hi : i < o.size) (hnull : i ∉ o.nulls.bits)
    (s : Option α) : ∃ o', o.record (Int32.ofNat i) s = .ok o' ∧ Writes i s o o' := by
  cases s with
  | none =>
    have hi31 : i < 2 ^ 31 := Nat.lt_trans hi o.values.size_lt
    exact ⟨_, by rw [record, BitSet.set_ofNat _ hi31]; rfl, o.writes_null i⟩
  | some x =>
    obtain ⟨a, ha, hae⟩ := o.values.set_ofNat hi x
    exact ⟨⟨a, o.nulls⟩, by rw [record, ha]; rfl, writes_value hi hnull hae⟩

/-- After `i` rounds: the size is kept, the slots written so far show `g`, no bit is set ahead. -/
structure Filled (n : ℕ) (g : ℕ → Java (Option α)) (i : ℕ) (o : Output α) : Prop where
  size : o.size = n
  done : ∀ j < i, g j = .ok (o.slot j)
  ahead : ∀ j ≥ i, j ∉ o.nulls.bits

theorem Filled.step {n i : ℕ} {g : ℕ → Java (Option α)} {o o' : Output α} {s : Option α}
    (h : Filled n g i o) (hs : g i = .ok s) (hw : Writes i s o o') : Filled n g (i + 1) o' where
  size := hw.size.trans h.size
  done := by
    intro j hj
    by_cases hji : j = i
    · subst hji
      rw [hs, hw.here]
    · have hlt : j < i := by omega
      rw [hw.earlier j hlt]
      exact h.done j hlt
  ahead := fun j hj hm => h.ahead j (by omega) (hw.ahead j (by omega) hm)

/-- What a round has to do: raise what `g` raises, or write what `g` returns. -/
def Round (n : ℕ) (g : ℕ → Java (Option α)) (body : ℕ → Output α → Java (Output α)) : Prop :=
  ∀ i < n, ∀ o : Output α, o.size = n → i ∉ o.nulls.bits →
    (∃ e, body i o = .error e ∧ g i = .error e) ∨
      (∃ o' s, body i o = .ok o' ∧ g i = .ok s ∧ Writes i s o o')

theorem round_of_record {n : ℕ} {s : ℕ → Option α} {body : ℕ → Output α → Java (Output α)}
    (h : ∀ i < n, ∀ o, body i o = o.record (Int32.ofNat i) (s i)) :
    Round n (fun i => .ok (s i)) body := by
  intro i hi o ho hnull
  obtain ⟨o', hrun, hw⟩ := record_spec (ho ▸ hi) hnull (s i)
  exact Or.inr ⟨o', s i, (h i hi o).trans hrun, rfl, hw⟩

theorem fill {n : ℕ} {g : ℕ → Java (Option α)} {body : ℕ → Output α → Java (Output α)}
    {o : Output α} (round : Round n g body) (hsize : o.size = n) (hnulls : o.nulls.bits = []) :
    ∀ m ≤ n, (∃ o', forLoop m body o = .ok o' ∧ Filled n g m o') ∨
      (∃ i < m, ∃ e, forLoop m body o = .error e ∧ g i = .error e) := by
  intro m
  induction m with
  | zero =>
    intro _
    refine Or.inl ⟨o, rfl, hsize, fun j hj => absurd hj (Nat.not_lt_zero j), fun j _ => ?_⟩
    rw [hnulls]
    exact List.not_mem_nil
  | succ m ih =>
    intro hm
    rcases ih (by omega) with ⟨o', hrun, hf⟩ | ⟨i, hi, e, hrun, hg⟩
    · rcases round m (by omega) o' hf.size (hf.ahead m (Nat.le_refl m)) with
        ⟨e, hb, hg⟩ | ⟨o'', s, hb, hg, hw⟩
      · exact Or.inr ⟨m, by omega, e, by rw [forLoop_succ_ok hrun, hb], hg⟩
      · exact Or.inl ⟨o'', by rw [forLoop_succ_ok hrun, hb], hf.step hg hw⟩
    · exact Or.inr ⟨i, by omega, e, forLoop_succ_error hrun, hg⟩

end Output

/-! ## From a filled output to a vector -/

theorem ArrayVector.new_whole (values : JArray α) (nulls : BitSet) :
    ∃ v, ArrayVector.new values 0 values.length nulls = .ok v ∧
      v.length = values.length ∧ ∀ i, v.slot i = (⟨values, nulls⟩ : Output α).slot i := by
  have hp := Vector.positiveLength_of_not_neg values.length_not_neg
  have hw := Vector.validateWindow_whole values
  refine ⟨⟨values, 0, values.length, nulls, hp, hw⟩, ?_, rfl, fun i => ?_⟩
  · unfold new
    split
    next e he => rw [hp] at he; cases he
    next =>
      split
      next e he => rw [hw] at he; cases he
      next => rfl
  · have h0 : (0 : Int32).toNatClampNeg = 0 := rfl
    rw [slot, Output.slot]
    simp only [h0, Nat.zero_add]

theorem Vectors.ofArray_spec (values : JArray α) (nulls : BitSet) :
    ∃ v : TypedVec α, Vectors.ofArray values nulls = .ok v ∧ v.size = values.elems.length ∧
      ∀ i, v.slot i = (⟨values, nulls⟩ : Output α).slot i := by
  obtain ⟨v, hv, hl, hs⟩ := ArrayVector.new_whole values nulls
  refine ⟨.array v, by rw [Vectors.ofArray, hv]; rfl, ?_, hs⟩
  rw [TypedVec.size, TypedVec.length, hl, JArray.length_toNatClampNeg]

/-- **A loop of writing rounds, from a fresh array to a vector.** -/
theorem TypedVec.tabulates_of_rounds {g : ℕ → Java (Option α)} {n : Int32} (hn : ¬ n < 0)
    (default : α) {body : Int32 → Output α → Java (Output α)}
    (round : Output.Round n.toNatClampNeg g fun i => body (Int32.ofNat i)) :
    TypedVec.Tabulates n.toNatClampNeg g (do
      let result ← JArray.filled n default
      let out ← forInt n body ⟨result, .empty⟩
      Vectors.ofArray out.values out.nulls) := by
  obtain ⟨a, ha, hae⟩ := JArray.filled_of_not_neg hn default
  have hsize : (⟨a, .empty⟩ : Output α).size = n.toNatClampNeg := by
    rw [Output.size, hae, List.length_replicate]
  rw [ha, ok_bind, forInt]
  rcases Output.fill round hsize rfl n.toNatClampNeg (Nat.le_refl _) with
    ⟨o, hrun, hf⟩ | ⟨i, hi, e, hrun, hg⟩
  · obtain ⟨v, hv, hvs, hslot⟩ := Vectors.ofArray_spec o.values o.nulls
    refine Or.inl ⟨v, by rw [hrun, ok_bind, hv], hvs.trans hf.size, fun i hi => ?_⟩
    rw [hslot i]
    exact hf.done i hi
  · exact Or.inr ⟨i, hi, e, by rw [hrun, error_bind], hg⟩

/-! ## Element types change nothing -/

theorem TypedVec.Tabulates.toVector {n : ℕ} {g : ℕ → Java (Option α)} {r : Java (TypedVec α)}
    (h : TypedVec.Tabulates n g r) {wrap : TypedVec α → Vector F} {inj : α → Value F}
    (hsize : ∀ v, (wrap v).size = v.size) (hslot : ∀ v i, (wrap v).slot i = (v.slot i).map inj) :
    Vector.Tabulates n (fun i => Option.map inj <$> g i) (wrap <$> r) := by
  rcases h with ⟨v, rfl, hv, hs⟩ | ⟨i, hi, e, rfl, hg⟩
  · refine Or.inl ⟨wrap v, rfl, (hsize v).trans hv, fun i hi => ?_⟩
    simp only [hs i hi, map_ok, hslot]
  · exact Or.inr ⟨i, hi, e, rfl, by simp only [hg, map_error]⟩

theorem Vector.Tabulates.congr {n : ℕ} {g g' : ℕ → Java (Cell F)} {r : Java (Vector F)}
    (h : Vector.Tabulates n g r) (hg : ∀ i < n, g i = g' i) : Vector.Tabulates n g' r := by
  rcases h with ⟨v, hr, hv, hs⟩ | ⟨i, hi, e, hr, he⟩
  · exact Or.inl ⟨v, hr, hv, fun i hi => (hg i hi).symm.trans (hs i hi)⟩
  · exact Or.inr ⟨i, hi, e, hr, (hg i hi).symm.trans he⟩

end QueryEngine
