import QueryEngine.Abstract.SlotView

/-! # The window of an array vector is exact in 32 bits

The accessors add `offset + index` without a check, so they rest on the constructor. It forms no sum
that could wrap: after the tests for negative numbers it subtracts the offset from the length of the
array, and an accepted window lies inside the array as a matter of plain integers.
-/
namespace QueryEngine
open Library
set_option autoImplicit false
set_option maxHeartbeats 250000

variable {α : Type}

theorem Vector.outside_iff (index length : Int32) :
    index < 0 ∨ index ≥ length ↔ ¬ (0 ≤ index.toInt ∧ index.toInt < length.toInt) := by
  rw [ge_iff_le, Int32.lt_iff_toInt_lt, Int32.le_iff_toInt_le, Int32.toInt_zero]
  omega

namespace ArrayVector

/-- What a constructor accepts, it stores. -/
theorem new_ok {values : JArray α} {offset length : Int32} {nullIndices : BitSet}
    {v : ArrayVector α} (h : new values offset length nullIndices = .ok v) :
    v.values = values ∧ v.offset = offset ∧ v.length = length ∧ v.nullIndices = nullIndices := by
  unfold new at h
  split at h
  next => cases h
  next =>
    split at h
    next => cases h
    next =>
      cases h
      exact ⟨rfl, rfl, rfl, rfl⟩

theorem new_ok_iff (values : JArray α) (offset length : Int32) (nullIndices : BitSet) :
    (∃ v, new values offset length nullIndices = .ok v) ↔
      0 ≤ offset.toInt ∧ 0 ≤ length.toInt ∧
        offset.toInt + length.toInt ≤ values.elems.length := by
  rw [← Vector.validateWindow_iff]
  constructor
  · rintro ⟨v, hv⟩
    obtain ⟨rfl, rfl, rfl, -⟩ := new_ok hv
    exact v.window
  · intro hw
    have hp : Vector.positiveLength length = .ok () :=
      Vector.positiveLength_of_not_neg (Vector.validateWindow_bounds hw).2.1
    unfold new
    split
    next e he => simp [hp] at he
    next =>
      split
      next e he => simp [hw] at he
      next => exact ⟨_, rfl⟩

/-- What the accessors rely on at an index in range: a sum that does not wrap, and storage that has
the position. -/
structure ReadsInside (v : ArrayVector α) (index : Int32) : Prop where
  exact : (v.offset + index).toInt = v.offset.toInt + index.toInt
  lower : v.offset.toInt ≤ (v.offset + index).toInt
  upper : (v.offset + index).toInt < v.offset.toInt + v.length.toInt
  position : 0 ≤ (v.offset + index).toInt ∧ (v.offset + index).toInt < v.values.elems.length
  array : ∃ x, v.values.get (v.offset + index) = .ok x ∧ v.value index = .ok x
  bits : ∃ b, v.nullIndices.get (v.offset + index) = .ok b ∧ v.isNull index = .ok b

theorem readsInside (v : ArrayVector α) {index : Int32} (h0 : 0 ≤ index.toInt)
    (hlt : index.toInt < v.length.toInt) : v.ReadsInside index := by
  obtain ⟨ho, hl, hsum⟩ := Vector.validateWindow_iff.mp v.window
  have hsize := v.values.size_lt
  have hexact : (v.offset + index).toInt = v.offset.toInt + index.toInt :=
    toInt_add_of_bounds (by omega) (by omega)
  have hin : ¬ (index < 0 ∨ index ≥ v.length) := fun hout =>
    (Vector.outside_iff index v.length).mp hout ⟨h0, hlt⟩
  have hcheck : Vector.validateIndex index v.length = .ok () := by
    rw [Vector.validateIndex, if_neg hin]
  obtain ⟨hnat, hposition⟩ := position_of_index hin
  -- the accessor is the check and then the access, so where it returns the access does
  obtain ⟨x, hx, -⟩ := v.value_ofNat hposition
  have hb := v.isNull_ofNat hposition
  rw [← hnat] at hx hb
  exact {
    exact := hexact
    lower := by omega
    upper := by omega
    position := by omega
    array := ⟨x, by rwa [value, hcheck, ok_bind] at hx, hx⟩
    bits := ⟨_, by rwa [isNull, hcheck, ok_bind] at hb, hb⟩ }

/-- Outside its window a vector answers nothing. -/
theorem fails_outside (v : ArrayVector α) {index : Int32}
    (h : ¬ (0 ≤ index.toInt ∧ index.toInt < v.length.toInt)) :
    v.value index = .error .indexOutOfBounds ∧ v.isNull index = .error .indexOutOfBounds := by
  have hout := (Vector.outside_iff index v.length).mpr h
  exact ⟨TypedVec.value_of_out (.array v) hout, TypedVec.isNull_of_out (.array v) hout⟩

/-- **The window arithmetic is exact.** For any backing array and any two `int` arguments: the
constructor accepts just the windows whose end, as an integer, lies inside the array, and its
subtraction does not overflow; an accepted vector reads its array and its null bits at exactly the
indices in `[0, length)`, through a sum that does not wrap. -/
theorem window_arithmetic_exact (values : JArray α) (offset length : Int32)
    (nullIndices : BitSet) :
    ((∃ v, new values offset length nullIndices = .ok v) ↔
      0 ≤ offset.toInt ∧ 0 ≤ length.toInt ∧
        offset.toInt + length.toInt ≤ values.elems.length) ∧
    (¬ offset < 0 →
      (values.length - offset).toInt = values.length.toInt - offset.toInt) ∧
    ∀ v, new values offset length nullIndices = .ok v →
      (v.values = values ∧ v.offset = offset ∧ v.length = length ∧
        v.nullIndices = nullIndices) ∧
      ∀ index : Int32,
        ((∃ ex, v.value index = .error ex) ↔ ¬ (0 ≤ index.toInt ∧ index.toInt < length.toInt)) ∧
        ((∃ ex, v.isNull index = .error ex) ↔ ¬ (0 ≤ index.toInt ∧ index.toInt < length.toInt)) ∧
        (0 ≤ index.toInt → index.toInt < length.toInt → v.ReadsInside index) := by
  refine ⟨new_ok_iff values offset length nullIndices, Vector.room_exact values, fun v hv => ?_⟩
  have hstored := new_ok hv
  refine ⟨hstored, fun index => ?_⟩
  obtain ⟨-, -, rfl, -⟩ := hstored
  refine ⟨⟨?_, fun hout => ⟨_, (v.fails_outside hout).1⟩⟩,
    ⟨?_, fun hout => ⟨_, (v.fails_outside hout).2⟩⟩, v.readsInside⟩
  · rintro ⟨ex, hex⟩ ⟨h0, hlt⟩
    obtain ⟨x, -, hx⟩ := (v.readsInside h0 hlt).array
    simp [hx] at hex
  · rintro ⟨ex, hex⟩ ⟨h0, hlt⟩
    obtain ⟨b, -, hb⟩ := (v.readsInside h0 hlt).bits
    simp [hb] at hex

/-- Three slots from position 2 of five; from position 1, `Integer.MAX_VALUE` slots are too many. -/
theorem window_arithmetic_sample :
    (∃ v, new (⟨[3, 1, 4, 1, 5], by decide⟩ : JArray Int32) 2 3 .empty = .ok v ∧
      v.ReadsInside 2 ∧ ∃ ex, v.value 3 = .error ex) ∧
    ¬ ∃ v, new (⟨[3, 1, 4, 1, 5], by decide⟩ : JArray Int32) 1 2147483647 .empty = .ok v := by
  constructor
  · obtain ⟨haccept, -, hreads⟩ :=
      window_arithmetic_exact (⟨[3, 1, 4, 1, 5], by decide⟩ : JArray Int32) 2 3 .empty
    obtain ⟨v, hv⟩ := haccept.mpr (by decide)
    have hv' := (hreads v hv).2
    exact ⟨v, hv, (hv' 2).2.2 (by decide) (by decide), (hv' 3).1.mpr (by decide)⟩
  · rw [(window_arithmetic_exact _ _ _ _).1]
    decide

end ArrayVector

end QueryEngine
