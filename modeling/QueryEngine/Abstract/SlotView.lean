import QueryEngine.Abstract.RowInterpreter
import QueryEngine.Model.RecordBatch

/-! # Vectors as sequences of slots

What can be observed of a vector is its size and, slot by slot, null or a value. The window offset,
the junk behind null bits and the choice of constant storage disappear here: `read_slot` says that
the accessors, at an index in range, show exactly the slot.
-/
namespace QueryEngine
open Library
set_option autoImplicit false
set_option maxHeartbeats 250000

variable {α F : Type}

/-! ## Index checks -/

theorem Vector.validateIndex_ofNat {i : ℕ} {n : Int32} (h : i < n.toNatClampNeg) :
    Vector.validateIndex (Int32.ofNat i) n = .ok () := by
  have hi : i < 2 ^ 31 := Nat.lt_trans h (toNatClampNeg_lt n)
  have hc : ¬ (Int32.ofNat i < 0 ∨ Int32.ofNat i ≥ n) := by
    rintro (hneg | hge)
    · exact ofNat_not_neg hi hneg
    · have hle := Int32.le_iff_toInt_le.mp hge
      rw [toInt_ofNat hi] at hle
      rw [Int32.toNatClampNeg] at h
      omega
  rw [Vector.validateIndex, if_neg hc]

theorem Vector.validateIndex_of_out {index length : Int32} (h : index < 0 ∨ index ≥ length) :
    Vector.validateIndex index length = .error .indexOutOfBounds := by
  rw [Vector.validateIndex, if_pos h]

/-- An accessor checks its index before it reads. -/
theorem Vector.checked_of_out {index length : Int32} (h : index < 0 ∨ index ≥ length)
    (read : Java α) :
    (do Vector.validateIndex index length; read) = .error .indexOutOfBounds := by
  rw [Vector.validateIndex_of_out h, error_bind]

/-- An index in range is a position below the length. -/
theorem position_of_index {index length : Int32} (h : ¬ (index < 0 ∨ index ≥ length)) :
    index = Int32.ofNat index.toNatClampNeg ∧ index.toNatClampNeg < length.toNatClampNeg := by
  rw [not_or] at h
  have hlt := Int32.lt_iff_toInt_lt.mp (Int32.not_le.mp h.2)
  have hindex := toInt_of_not_neg h.1
  refine ⟨(ofNat_toNatClampNeg h.1).symm, ?_⟩
  rw [Int32.toNatClampNeg] at hindex ⊢
  rw [Int32.toNatClampNeg]
  omega

theorem Vector.not_neg_of_positiveLength {n : Int32} (h : Vector.positiveLength n = .ok ()) :
    ¬ n < 0 := by
  intro hn
  simp [Vector.positiveLength, if_pos hn] at h

theorem Vector.positiveLength_of_not_neg {n : Int32} (h : ¬ n < 0) :
    Vector.positiveLength n = .ok () := by
  rw [Vector.positiveLength, if_neg h]

/-- Where the window check subtracts, the difference is exact. -/
theorem Vector.room_exact (a : JArray α) {offset : Int32} (ho : ¬ offset < 0) :
    (a.length - offset).toInt = a.length.toInt - offset.toInt := by
  rw [Int32.lt_iff_toInt_lt, Int32.toInt_zero] at ho
  have hn := a.size_lt
  have hlt := offset.toInt_lt
  have hlength := a.length_toInt
  apply toInt_sub_of_bounds
  · omega
  · omega

/-- The subtraction form of the window check is exact: it bounds the mathematical sum. -/
theorem Vector.validateWindow_iff {offset length : Int32} {a : JArray α} :
    Vector.validateWindow offset length a.length = .ok () ↔
      0 ≤ offset.toInt ∧ 0 ≤ length.toInt ∧ offset.toInt + length.toInt ≤ a.elems.length := by
  unfold Vector.validateWindow
  by_cases ho : offset < 0
  · have hneg : offset.toInt < 0 := by
      rwa [Int32.lt_iff_toInt_lt, Int32.toInt_zero] at ho
    rw [if_pos (Or.inl ho)]
    simp only [reduceCtorEq, false_iff]
    omega
  · have hroom := Vector.room_exact a ho
    simp only [gt_iff_lt, Int32.lt_iff_toInt_lt, Int32.toInt_zero, hroom, a.length_toInt] at ho ⊢
    split
    next hc =>
      simp only [reduceCtorEq, false_iff]
      omega
    next hc =>
      simp only [true_iff]
      omega

theorem Vector.validateWindow_bounds {offset length : Int32} {a : JArray α}
    (h : Vector.validateWindow offset length a.length = .ok ()) :
    ¬ offset < 0 ∧ ¬ length < 0 ∧
      offset.toNatClampNeg + length.toNatClampNeg ≤ a.elems.length := by
  obtain ⟨ho, hl, hsum⟩ := Vector.validateWindow_iff.mp h
  rw [Int32.lt_iff_toInt_lt, Int32.lt_iff_toInt_lt, Int32.toInt_zero, Int32.toNatClampNeg,
    Int32.toNatClampNeg]
  omega

theorem Vector.validateWindow_whole (a : JArray α) :
    Vector.validateWindow 0 a.length a.length = .ok () := by
  rw [Vector.validateWindow_iff, a.length_toInt, Int32.toInt_zero]
  omega

theorem ConstantVector.new_of_not_neg (x : α) {n : Int32} (h : ¬ n < 0) :
    ConstantVector.new x n = .ok ⟨x, n, Vector.positiveLength_of_not_neg h⟩ := by
  unfold new
  split
  next e he => simp [Vector.positiveLength_of_not_neg h] at he
  next => rfl

/-! ## Slots of one element type -/

namespace ArrayVector

theorem bounds (v : ArrayVector α) :
    ¬ v.offset < 0 ∧ ¬ v.length < 0 ∧
      v.offset.toNatClampNeg + v.length.toNatClampNeg ≤ v.values.elems.length :=
  Vector.validateWindow_bounds v.window

def slot (v : ArrayVector α) (i : ℕ) : Option α :=
  if v.offset.toNatClampNeg + i ∈ v.nullIndices.bits then none
  else v.values.elems[v.offset.toNatClampNeg + i]?

theorem offset_add (v : ArrayVector α) (i : ℕ) :
    v.offset + Int32.ofNat i = Int32.ofNat (v.offset.toNatClampNeg + i) := by
  rw [Int32.ofNat_add, ofNat_toNatClampNeg v.bounds.1]

theorem value_ofNat (v : ArrayVector α) {i : ℕ} (h : i < v.length.toNatClampNeg) :
    ∃ x, v.value (Int32.ofNat i) = .ok x ∧
      v.values.elems[v.offset.toNatClampNeg + i]? = some x := by
  have hb := v.bounds.2.2
  have hi : v.offset.toNatClampNeg + i < v.values.elems.length := by omega
  refine ⟨v.values.elems[v.offset.toNatClampNeg + i], ?_, List.getElem?_eq_getElem hi⟩
  rw [value, Vector.validateIndex_ofNat h, v.offset_add, ← v.values.get_ofNat hi]
  rfl

theorem isNull_ofNat (v : ArrayVector α) {i : ℕ} (h : i < v.length.toNatClampNeg) :
    v.isNull (Int32.ofNat i) =
      .ok (decide (v.offset.toNatClampNeg + i ∈ v.nullIndices.bits)) := by
  have hb := v.bounds.2.2
  have hs := v.values.size_lt
  have hi : v.offset.toNatClampNeg + i < 2 ^ 31 := by omega
  rw [isNull, Vector.validateIndex_ofNat h, v.offset_add, ← v.nullIndices.get_ofNat hi]
  rfl

end ArrayVector

namespace TypedVec

def size (v : TypedVec α) : ℕ := v.length.toNatClampNeg

def slot : TypedVec α → ℕ → Option α
  | array v, i => v.slot i
  | constant v, _ => some v.value

theorem size_lt (v : TypedVec α) : v.size < 2 ^ 31 := toNatClampNeg_lt v.length

theorem length_not_neg (v : TypedVec α) : ¬ v.length < 0 := by
  cases v with
  | array v => exact v.bounds.2.1
  | constant v => exact Vector.not_neg_of_positiveLength v.positive

/-- The accessors at an index in range: a null slot, whose value is junk, or a value. -/
theorem read_slot (v : TypedVec α) {i : ℕ} (h : i < v.size) :
    ∃ x, v.value (Int32.ofNat i) = .ok x ∧
      ((v.isNull (Int32.ofNat i) = .ok true ∧ v.slot i = none) ∨
        (v.isNull (Int32.ofNat i) = .ok false ∧ v.slot i = some x)) := by
  cases v with
  | array v =>
    obtain ⟨x, hx, hget⟩ := v.value_ofNat h
    have hn := v.isNull_ofNat h
    refine ⟨x, hx, ?_⟩
    by_cases hbit : v.offset.toNatClampNeg + i ∈ v.nullIndices.bits
    · rw [decide_eq_true hbit] at hn
      exact Or.inl ⟨hn, by rw [slot, ArrayVector.slot, if_pos hbit]⟩
    · rw [decide_eq_false hbit] at hn
      exact Or.inr ⟨hn, by rw [slot, ArrayVector.slot, if_neg hbit, hget]⟩
  | constant v =>
    have hv : Vector.validateIndex (Int32.ofNat i) v.length = .ok () :=
      Vector.validateIndex_ofNat h
    refine ⟨v.value, ?_, Or.inr ⟨?_, rfl⟩⟩
    · rw [value, ConstantVector.valueAt, hv]
      rfl
    · rw [isNull, ConstantVector.isNull, hv]
      rfl

theorem isNull_of_out (v : TypedVec α) {index : Int32} (h : index < 0 ∨ index ≥ v.length) :
    v.isNull index = .error .indexOutOfBounds := by
  cases v with
  | array v => exact Vector.checked_of_out h _
  | constant v => exact Vector.checked_of_out h _

theorem value_of_out (v : TypedVec α) {index : Int32} (h : index < 0 ∨ index ≥ v.length) :
    v.value index = .error .indexOutOfBounds := by
  cases v with
  | array v => exact Vector.checked_of_out h _
  | constant v => exact Vector.checked_of_out h _

theorem isNotNull_ofNat (v : TypedVec α) {i : ℕ} (h : i < v.size) :
    v.isNotNull (Int32.ofNat i) = .ok (v.slot i).isSome := by
  obtain ⟨x, -, ⟨hn, hs⟩ | ⟨hn, hs⟩⟩ := v.read_slot h
  · rw [isNotNull, hn, hs]; rfl
  · rw [isNotNull, hn, hs]; rfl

theorem value_of_slot (v : TypedVec α) {i : ℕ} {x : α} (h : i < v.size) (hs : v.slot i = some x) :
    v.value (Int32.ofNat i) = .ok x := by
  obtain ⟨y, hy, ⟨-, hn⟩ | ⟨-, hn⟩⟩ := v.read_slot h
  · rw [hn] at hs; cases hs
  · rw [hn] at hs; cases hs; exact hy

end TypedVec

/-! ## Slots of any vector -/

namespace Vector

def size (v : Vector F) : ℕ := v.length.toNatClampNeg

def slot : Vector F → ℕ → Cell F
  | int v, i => (v.slot i).map .int32
  | long v, i => (v.slot i).map .int64
  | double v, i => (v.slot i).map .float64
  | bool v, i => (v.slot i).map .bool
  | utf8 v, i => (v.slot i).map .utf8

theorem length_not_neg (v : Vector F) : ¬ v.length < 0 := by
  cases v <;> exact TypedVec.length_not_neg _

theorem length_eq (v : Vector F) : v.length = Int32.ofNat v.size :=
  (ofNat_toNatClampNeg v.length_not_neg).symm

theorem bool_of_type {v : Vector F} (h : v.type = .BOOLEAN) : ∃ mask, v = bool mask := by
  cases v <;> first | exact ⟨_, rfl⟩ | simp [type] at h

/-- Reading slot `index` the way a caller does: the null bit first, then the value. -/
def observe (v : Vector F) (index : Int32) : Java (Cell F) := do
  if ← v.isNull index then pure none
  else match v with
    | int v => do return some (.int32 (← v.value index))
    | long v => do return some (.int64 (← v.value index))
    | double v => do return some (.float64 (← v.value index))
    | bool v => do return some (.bool (← v.value index))
    | utf8 v => do return some (.utf8 (← v.value index))

/-- **A caller that reads a slot in range sees the slot.** -/
theorem observe_ofNat (v : Vector F) {i : ℕ} (h : i < v.size) :
    v.observe (Int32.ofNat i) = .ok (v.slot i) := by
  cases v with
  | int v =>
    obtain ⟨x, hx, ⟨hn, hs⟩ | ⟨hn, hs⟩⟩ := v.read_slot h <;>
      simp [observe, isNull, slot, hn, hs, hx]
  | long v =>
    obtain ⟨x, hx, ⟨hn, hs⟩ | ⟨hn, hs⟩⟩ := v.read_slot h <;>
      simp [observe, isNull, slot, hn, hs, hx]
  | double v =>
    obtain ⟨x, hx, ⟨hn, hs⟩ | ⟨hn, hs⟩⟩ := v.read_slot h <;>
      simp [observe, isNull, slot, hn, hs, hx]
  | bool v =>
    obtain ⟨x, hx, ⟨hn, hs⟩ | ⟨hn, hs⟩⟩ := v.read_slot h <;>
      simp [observe, isNull, slot, hn, hs, hx]
  | utf8 v =>
    obtain ⟨x, hx, ⟨hn, hs⟩ | ⟨hn, hs⟩⟩ := v.read_slot h <;>
      simp [observe, isNull, slot, hn, hs, hx]

theorem observe_of_out (v : Vector F) {index : Int32} (h : index < 0 ∨ index ≥ v.length) :
    v.observe index = .error .indexOutOfBounds := by
  have hnull : v.isNull index = .error .indexOutOfBounds := by
    cases v <;> exact TypedVec.isNull_of_out _ h
  unfold observe
  rw [hnull, error_bind]

/-- Every read, in range and out of it. -/
theorem observe_eq (v : Vector F) (index : Int32) :
    v.observe index = if index < 0 ∨ index ≥ v.length then .error .indexOutOfBounds
      else .ok (v.slot index.toNatClampNeg) := by
  split
  next hout => exact v.observe_of_out hout
  next hin =>
    obtain ⟨hnat, hlt⟩ := position_of_index hin
    rw [hnat, v.observe_ofNat hlt, ← hnat]

/-- Two vectors that cannot be told apart: same type, same size, same slots. -/
def ObsEq (v w : Vector F) : Prop :=
  v.type = w.type ∧ v.size = w.size ∧ ∀ i < v.size, v.slot i = w.slot i

theorem ObsEq.refl (v : Vector F) : v.ObsEq v := ⟨rfl, rfl, fun _ _ => rfl⟩

theorem ObsEq.symm {v w : Vector F} (h : v.ObsEq w) : w.ObsEq v :=
  ⟨h.1.symm, h.2.1.symm, fun i hi => (h.2.2 i (h.2.1 ▸ hi)).symm⟩

theorem ObsEq.trans {u v w : Vector F} (h : u.ObsEq v) (h' : v.ObsEq w) : u.ObsEq w :=
  ⟨h.1.trans h'.1, h.2.1.trans h'.2.1,
    fun i hi => (h.2.2 i hi).trans (h'.2.2 i (h.2.1 ▸ hi))⟩

theorem ObsEq.length_eq {v w : Vector F} (h : v.ObsEq w) : v.length = w.length := by
  rw [v.length_eq, w.length_eq, h.2.1]

/-- Where `v` holds a value, `w` holds the same one. -/
def Informs (v w : Vector F) : Prop :=
  ∀ index x, v.observe index = .ok (some x) → w.observe index = .ok (some x)

theorem informs_iff {v w : Vector F} (h : v.size = w.size) :
    v.Informs w ↔ ∀ i < v.size, Kleene.Informs (v.slot i) (w.slot i) := by
  constructor
  · intro hvw i hi x hx
    have hw := hvw (Int32.ofNat i) x (by rw [v.observe_ofNat hi, hx])
    rw [w.observe_ofNat (h ▸ hi)] at hw
    exact Except.ok.inj hw
  · intro hslots index x hx
    by_cases hi : index < 0 ∨ index ≥ v.length
    · simp [v.observe_of_out hi] at hx
    · obtain ⟨hnat, hlt⟩ := position_of_index hi
      rw [hnat, v.observe_ofNat hlt] at hx
      rw [hnat, w.observe_ofNat (h ▸ hlt), hslots _ hlt x (Except.ok.inj hx)]

end Vector

/-! ## Batches as lists of rows -/

namespace RecordBatch

def columns (b : RecordBatch F) : List (JString × Vector F) :=
  (b.schema.fieldsList.map Field.name).zip b.vectors

def size (b : RecordBatch F) : ℕ := b.rowCount.toNatClampNeg

theorem rowCount_not_neg (b : RecordBatch F) : ¬ b.rowCount < 0 := by
  unfold rowCount
  split
  · decide
  · exact Vector.length_not_neg _

def row (b : RecordBatch F) (i : ℕ) : Row F := b.columns.map fun c => (c.1, c.2.slot i)

/-- What a batch says: its rows from first to last. -/
def rows (b : RecordBatch F) : List (Row F) := (List.range b.size).map b.row

end RecordBatch

end QueryEngine
