import QueryEngine.Proof.Columnar.Gather
import QueryEngine.Proof.Evaluator.Guarantees

/-! # Storage and `gather`

Vectors that cannot be told apart gather alike where the indices are in range, whatever their
storage. An index out of range is noticed by array storage and not by a constant, which keeps its
value and takes the number of indices as its length; so with such an index the storage shows.
-/
namespace QueryEngine
open Library
set_option autoImplicit false
set_option maxHeartbeats 250000

variable {F : Type}

/-- Both raise an index error, or both return vectors of `n` slots that cannot be told apart. -/
def SameOutcome (n : Int32) (r s : Java (Vector F)) : Prop :=
  (r = .error .indexOutOfBounds ∧ s = .error .indexOutOfBounds) ∨
    ∃ v w, r = .ok v ∧ s = .ok w ∧ v.length = n ∧ v.ObsEq w

/-- Every index of the array is one of a vector of this length. -/
def InRange (rows : JArray Int32) (length : Int32) : Prop :=
  ∀ r ∈ rows.elems, ¬ (r < 0 ∨ r ≥ length)

theorem out_of_not_inRange {rows : JArray Int32} {length : Int32} (h : ¬ InRange rows length) :
    ∃ r ∈ rows.elems, r < 0 ∨ r ≥ length := by
  by_contra hnone
  exact h fun r hr hbad => hnone ⟨r, hr, hbad⟩

namespace Vector

theorem Gathers.same {v w x y : Vector F} {rows : JArray Int32} {indices : List ℕ}
    (hrows : rows.elems = indices.map Int32.ofNat) (hin : ∀ i ∈ indices, i < v.size)
    (h : v.ObsEq w) (hx : Gathers v indices x) (hy : Gathers w indices y) :
    x.length = rows.length ∧ x.ObsEq y := by
  refine ⟨?_, hx.type.trans (h.1.trans hy.type.symm), hx.size.trans hy.size.symm, fun k hk => ?_⟩
  · rw [x.length_eq, hx.size, JArray.length, hrows, List.length_map]
  · have hlt : k < indices.length := hx.size ▸ hk
    have hget : indices[k]? = some indices[k] := List.getElem?_eq_getElem hlt
    rw [hx.slots k _ hget, hy.slots k _ hget, h.2.2 _ (hin _ (List.mem_of_getElem? hget))]

variable [JavaDouble F]

theorem same_of_inRange {v w : Vector F} (h : v.ObsEq w) {rows : JArray Int32}
    (hrows : InRange rows v.length) :
    SameOutcome rows.length (v.gather rows) (w.gather rows) ∧
      SameOutcome rows.length (v.gather rows) (v.defaultGather rows) := by
  obtain ⟨indices, hindices, hin⟩ := positions_of_valid hrows
  have hin' : ∀ i ∈ indices, i < w.size := fun i hi => h.2.1 ▸ hin i hi
  obtain ⟨x, hx, hgx⟩ := v.gather_ok rows hindices hin
  obtain ⟨y, hy, hgy⟩ := w.gather_ok rows hindices hin'
  obtain ⟨z, hz, hgz⟩ := v.defaultGather_ok rows hindices hin
  exact ⟨Or.inr ⟨x, y, hx, hy, hgx.same hindices hin h hgy⟩,
    Or.inr ⟨x, z, hx, hz, hgx.same hindices hin (ObsEq.refl v) hgz⟩⟩

/-- Gathered constants show their values, unless no index asks for a slot. -/
theorem same_constants_iff {v w : Vector F} {c d : Value F} (hv : v.constant? = some c)
    (hw : w.constant? = some d) (htype : v.type = w.type) {rows : JArray Int32}
    (hpos : 0 < rows.elems.length) :
    SameOutcome rows.length (v.gather rows) (w.gather rows) ↔ c = d := by
  obtain ⟨x, hx, hxt, hxl, hxc⟩ := gather_of_constant hv rows
  obtain ⟨y, hy, hyt, hyl, hyc⟩ := gather_of_constant hw rows
  have hsize : x.size = rows.elems.length := by rw [size, hxl, rows.length_toNatClampNeg]
  have hsame : x.size = y.size := by rw [size, size, hxl, hyl]
  rw [hx, hy]
  constructor
  · rintro (⟨h, -⟩ | ⟨x', y', hx', hy', -, -, -, hslots⟩)
    · cases h
    · cases hx'
      cases hy'
      have hslot := hslots 0 (hsize ▸ hpos)
      rw [slot_of_constant hxc, slot_of_constant hyc] at hslot
      exact Option.some.inj hslot
  · rintro rfl
    refine Or.inr ⟨x, y, rfl, rfl, hxl, hxt.trans (htype.trans hyt.symm), hsame, fun k _ => ?_⟩
    rw [slot_of_constant hxc, slot_of_constant hyc]

/-- An index out of range shows the storage. -/
theorem same_of_out {v w : Vector F} (h : v.ObsEq w) {rows : JArray Int32}
    (hout : ∃ r ∈ rows.elems, r < 0 ∨ r ≥ v.length) :
    (SameOutcome rows.length (v.gather rows) (w.gather rows) ↔ v.constant? = w.constant?) ∧
      (SameOutcome rows.length (v.gather rows) (v.defaultGather rows) ↔ v.constant? = none) := by
  have hv := v.defaultGather_error rows hout
  have hw := w.defaultGather_error rows (h.length_eq ▸ hout)
  have hpos : 0 < rows.elems.length := by
    obtain ⟨r, hr, -⟩ := hout
    exact List.length_pos_of_mem hr
  rw [hv]
  cases hvc : v.constant? with
  | none =>
    rw [gather_of_array hvc, hv]
    refine ⟨?_, iff_of_true (Or.inl ⟨rfl, rfl⟩) rfl⟩
    cases hwc : w.constant? with
    | none =>
      rw [gather_of_array hwc, hw]
      exact iff_of_true (Or.inl ⟨rfl, rfl⟩) rfl
    | some d =>
      obtain ⟨y, hy, -⟩ := gather_of_constant hwc rows
      rw [hy]
      exact iff_of_false (by simp [SameOutcome]) (by simp)
  | some c =>
    obtain ⟨x, hx, -⟩ := gather_of_constant hvc rows
    constructor
    · cases hwc : w.constant? with
      | none =>
        rw [hx, gather_of_array hwc, hw]
        exact iff_of_false (by simp [SameOutcome]) (by simp)
      | some d =>
        rw [same_constants_iff hvc hwc h.1 hpos, Option.some.injEq]
    · rw [hx]
      exact iff_of_false (by simp [SameOutcome]) (by simp)

end Vector

/-! ## Independence of storage -/

variable [JavaDouble F]

/-- **When `gather` is independent of storage**: on indices in range, and beyond them only between
two arrays or two constants of one value. Beyond them an array raises, and a constant keeps its
value and takes the number of indices as its length. -/
theorem gather_agrees_iff (v w : Vector F) (h : v.ObsEq w) (rows : JArray Int32) :
    (SameOutcome rows.length (v.gather rows) (w.gather rows) ↔
      InRange rows v.length ∨ v.constant? = w.constant?) ∧
    (SameOutcome rows.length (v.gather rows) (v.defaultGather rows) ↔
      InRange rows v.length ∨ v.constant? = none) ∧
    (¬ InRange rows v.length → v.constant? = none → v.gather rows = .error .indexOutOfBounds) ∧
    ∀ c, v.constant? = some c → ∃ x, v.gather rows = .ok x ∧ x.type = v.type ∧
      x.length = rows.length ∧ x.constant? = some c := by
  refine ⟨?_, ?_, fun hrows harray => ?_, fun c hc => Vector.gather_of_constant hc rows⟩
  · by_cases hrows : InRange rows v.length
    · exact iff_of_true (Vector.same_of_inRange h hrows).1 (Or.inl hrows)
    · rw [or_iff_right hrows]
      exact (Vector.same_of_out h (out_of_not_inRange hrows)).1
  · by_cases hrows : InRange rows v.length
    · exact iff_of_true (Vector.same_of_inRange h hrows).2 (Or.inl hrows)
    · rw [or_iff_right hrows]
      exact (Vector.same_of_out h (out_of_not_inRange hrows)).2
  · rw [Vector.gather_of_array harray]
    exact v.defaultGather_error rows (out_of_not_inRange hrows)

namespace Sample

/-- Two sevens, spelled out. -/
def sevens : Vector Unit :=
  .int (.array ⟨⟨[7, 7], by decide⟩, 0, 2, ⟨[]⟩, two_positive, by decide⟩)

/-- Two sevens as a constant. -/
def constantSeven : Vector Unit := .int (.constant ⟨7, 2, two_positive⟩)

theorem sevens_obsEq : sevens.ObsEq constantSeven := by
  refine ⟨rfl, rfl, fun i hi => ?_⟩
  have hi' : i < 2 := hi
  obtain rfl | rfl : i = 0 ∨ i = 1 := by omega
  · rfl
  · rfl

/-- The first row, and a row that neither vector has. -/
def overrun : JArray Int32 := ⟨[0, 2], by decide⟩

end Sample

theorem gather_agrees_iff_sample :
    (SameOutcome Sample.overrun.length (Sample.sevens.gather Sample.overrun)
        (Sample.constantSeven.gather Sample.overrun) ↔
      InRange Sample.overrun Sample.sevens.length ∨
        Sample.sevens.constant? = Sample.constantSeven.constant?) ∧
    (SameOutcome Sample.overrun.length (Sample.sevens.gather Sample.overrun)
        (Sample.sevens.defaultGather Sample.overrun) ↔
      InRange Sample.overrun Sample.sevens.length ∨ Sample.sevens.constant? = none) ∧
    (¬ InRange Sample.overrun Sample.sevens.length → Sample.sevens.constant? = none →
      Sample.sevens.gather Sample.overrun = .error .indexOutOfBounds) ∧
    ∀ c, Sample.sevens.constant? = some c → ∃ x, Sample.sevens.gather Sample.overrun = .ok x ∧
      x.type = Sample.sevens.type ∧ x.length = Sample.overrun.length ∧ x.constant? = some c :=
  gather_agrees_iff Sample.sevens Sample.constantSeven Sample.sevens_obsEq Sample.overrun

/-- The array notices the missing row; the constant, which looks the same, returns two sevens. -/
theorem overrun_shows_storage :
    Sample.sevens.ObsEq Sample.constantSeven ∧
      Sample.sevens.gather Sample.overrun = .error .indexOutOfBounds ∧
      Sample.constantSeven.gather Sample.overrun = .ok Sample.constantSeven ∧
      Sample.constantSeven.defaultGather Sample.overrun = .error .indexOutOfBounds :=
  ⟨Sample.sevens_obsEq, rfl, rfl, rfl⟩

end QueryEngine
