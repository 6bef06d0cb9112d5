import QueryEngine.Model.ExprEvaluator
import QueryEngine.Proof.Evaluator.Tabulation

/-! # What one round of each loop of the evaluator does

The null-gated kernels apply their operation where both slots hold values, and touch nothing else;
the connectives compute Kleene's tables.
-/
namespace QueryEngine
open Library
set_option autoImplicit false
set_option maxHeartbeats 250000

namespace ExprEvaluator
variable {α β γ F : Type}

/-! ## Kernels -/

/-- What a kernel computes in a slot. -/
def zipSlot (f : α → β → Java γ) : Option α → Option β → Java (Option γ)
  | some x, some y => some <$> f x y
  | _, _ => .ok none

theorem bothNonNull_ofNat (l : TypedVec α) (r : TypedVec β) {i : ℕ} (hl : i < l.size)
    (hr : i < r.size) :
    bothNonNull l r (Int32.ofNat i) = .ok ((l.slot i).isSome && (r.slot i).isSome) := by
  rw [bothNonNull, l.isNotNull_ofNat hl, ok_bind, r.isNotNull_ofNat hr]
  cases (l.slot i).isSome <;> rfl

theorem zipSlot_gated (f : α → β → Java γ) {a : Option α} {b : Option β}
    (h : (a.isSome && b.isSome) = false) : zipSlot f a b = .ok none := by
  cases a with
  | none => rfl
  | some x =>
    cases b with
    | none => rfl
    | some y => cases h

theorem kernel_round (f : α → β → Java γ) (l : TypedVec α) (r : TypedVec β) (h : r.size = l.size) :
    Output.Round l.size (fun i => zipSlot f (l.slot i) (r.slot i)) (fun i out => do
      if ← bothNonNull l r (Int32.ofNat i) then
        let values ← writeSlot f l r (Int32.ofNat i) out.values
        pure ⟨values, out.nulls⟩
      else
        let nulls ← out.nulls.set (Int32.ofNat i)
        pure ⟨out.values, nulls⟩) := by
  intro i hi o ho hnull
  have hi31 : i < 2 ^ 31 := Nat.lt_trans hi l.size_lt
  simp only [bothNonNull_ofNat l r hi (h ▸ hi), ok_bind]
  cases hgate : (l.slot i).isSome && (r.slot i).isSome with
  | false =>
    refine Or.inr ⟨⟨o.values, ⟨i :: o.nulls.bits⟩⟩, none, ?_, zipSlot_gated f hgate,
      o.writes_null i⟩
    simp [BitSet.set_ofNat _ hi31]
  | true =>
    rw [Bool.and_eq_true] at hgate
    obtain ⟨x, hx⟩ := Option.isSome_iff_exists.mp hgate.1
    obtain ⟨y, hy⟩ := Option.isSome_iff_exists.mp hgate.2
    have hxv := l.value_of_slot hi hx
    have hyv := r.value_of_slot (h ▸ hi) hy
    simp only [hx, hy, zipSlot, writeSlot, hxv, hyv, ok_bind, if_true]
    cases hf : f x y with
    | error e => exact Or.inl ⟨e, rfl, rfl⟩
    | ok z =>
      have hio : i < o.size := ho ▸ hi
      obtain ⟨a, ha, hae⟩ := o.values.set_ofNat hio z
      refine Or.inr ⟨⟨a, o.nulls⟩, some z, ?_, rfl, Output.writes_value hio hnull hae⟩
      simp only [ok_bind, ha, pure_eq]

/-- **A kernel computes its operation slot by slot, and never where a slot is null.** -/
theorem kernel_tabulates (default : γ) (f : α → β → Java γ) (l : TypedVec α) (r : TypedVec β)
    (h : r.size = l.size) :
    TypedVec.Tabulates l.size (fun i => zipSlot f (l.slot i) (r.slot i))
      (kernel default f l r) :=
  TypedVec.tabulates_of_rounds l.length_not_neg default (kernel_round f l r h)

/-! ## Connectives -/

theorem evalBoolNulls_eq (op : LogicalOp) (v : BoolVec) {i : ℕ} {b : Bool} (hi : i < v.size)
    (hs : v.slot i = some b) (o : Output Bool) :
    evalBoolNulls op v (Int32.ofNat i) o =
      o.record (Int32.ofNat i) (Interp.connective op (some b) none) := by
  have hv := v.value_of_slot hi hs
  rw [evalBoolNulls, hv]
  cases op <;> cases b <;> rfl

theorem logicalValue_eq (op : LogicalOp) (l r : BoolVec) {i : ℕ} {a b : Bool} (hl : i < l.size)
    (hr : i < r.size) (ha : l.slot i = some a) (hb : r.slot i = some b) :
    ∃ c, logicalValue op l r (Int32.ofNat i) = .ok c ∧
      Interp.connective op (some a) (some b) = some c := by
  have hla := l.value_of_slot hl ha
  have hrb := r.value_of_slot hr hb
  rw [logicalValue, hla, ok_bind, hrb]
  cases op <;> cases a <;> cases b <;> exact ⟨_, rfl, rfl⟩

theorem connective_comm (op : LogicalOp) (a b : Option Bool) :
    Interp.connective op a b = Interp.connective op b a := by
  cases op with
  | AND => exact Kleene.and_comm a b
  | OR => exact Kleene.or_comm a b

theorem logicalSlot_eq (op : LogicalOp) (l r : BoolVec) {i : ℕ} (hl : i < l.size) (hr : i < r.size)
    (o : Output Bool) :
    logicalSlot op l r (Int32.ofNat i) o =
      o.record (Int32.ofNat i) (Interp.connective op (l.slot i) (r.slot i)) := by
  rw [logicalSlot, bothNonNull_ofNat l r hl hr, l.isNotNull_ofNat hl, r.isNotNull_ofNat hr]
  cases ha : l.slot i with
  | none =>
    cases hb : r.slot i with
    | none => cases op <;> rfl
    | some b =>
      rw [connective_comm]
      exact evalBoolNulls_eq op r hr hb o
  | some a =>
    cases hb : r.slot i with
    | none => exact evalBoolNulls_eq op l hl ha o
    | some b =>
      obtain ⟨c, hc, hcc⟩ := logicalValue_eq op l r hl hr ha hb
      rw [hcc]
      simp only [Option.isSome_some, Bool.and_self, ok_bind, if_true, hc]
      rfl

theorem logicalSlot_round (op : LogicalOp) (l r : BoolVec) (n : ℕ) (hl : l.size = n)
    (hr : r.size = n) :
    Output.Round n (fun i => .ok (Interp.connective op (l.slot i) (r.slot i)))
      (fun i => logicalSlot op l r (Int32.ofNat i)) := by
  apply Output.round_of_record
  intro i hi o
  exact logicalSlot_eq op l r (hl ▸ hi) (hr ▸ hi) o

theorem notSlot_eq (v : BoolVec) {i : ℕ} (hi : i < v.size) (o : Output Bool) :
    notSlot v (Int32.ofNat i) o = o.record (Int32.ofNat i) (Kleene.not (v.slot i)) := by
  rw [notSlot, v.isNotNull_ofNat hi]
  cases hs : v.slot i with
  | none => rfl
  | some b =>
    simp only [Option.isSome_some, ok_bind, if_true, v.value_of_slot hi hs]
    rfl

theorem notSlot_round (v : BoolVec) (n : ℕ) (hv : v.size = n) :
    Output.Round n (fun i => .ok (Kleene.not (v.slot i))) (fun i => notSlot v (Int32.ofNat i)) := by
  apply Output.round_of_record
  intro i hi o
  exact notSlot_eq v (hv ▸ hi) o

theorem evalLogical_tabulates (b : RecordBatch F) (op : LogicalOp) (l r : BoolVec)
    (hl : l.size = b.size) (hr : r.size = b.size) :
    TypedVec.Tabulates b.size (fun i => .ok (Interp.connective op (l.slot i) (r.slot i)))
      (evalLogical b op l r) :=
  TypedVec.tabulates_of_rounds b.rowCount_not_neg false
    (logicalSlot_round op l r b.size hl hr)

theorem evalNot_tabulates (b : RecordBatch F) (v : BoolVec) (hv : v.size = b.size) :
    TypedVec.Tabulates b.size (fun i => .ok (Kleene.not (v.slot i)))
      (evalUnary b .NOT (.bool v)) :=
  TypedVec.tabulates_of_rounds b.rowCount_not_neg false (notSlot_round v b.size hv)

end ExprEvaluator

end QueryEngine
