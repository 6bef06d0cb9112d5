import QueryEngine.Abstract.SlotView
import QueryEngine.Library.Traversal

/-! # What the batch constructor guarantees

`validate` accepts exactly the vectors whose types are the schema's, position by position, and whose
lengths agree. From it: a column is found under its name, has its field's type, and has as many
slots as the batch has rows.
-/
namespace QueryEngine
open Library
set_option autoImplicit false
set_option maxHeartbeats 250000

namespace RecordBatch
variable {F : Type}

/-! ## The constructor's checks -/

theorem checkTypes_ok_iff (schema : Schema) (i : ℕ) (vs : List (Vector F)) :
    checkTypes schema i vs = .ok () ↔
      vs.map Vector.type <+: (schema.fieldsList.drop i).map Field.type := by
  induction vs generalizing i with
  | nil => simp [checkTypes]
  | cons v vs ih =>
    rw [checkTypes, Schema.fieldAtIndex]
    by_cases hi : i < schema.fieldsList.length
    · rw [List.getElem?_eq_getElem hi, ok_bind, List.drop_eq_getElem_cons hi, List.map_cons,
        List.map_cons, List.cons_prefix_cons, ← ih (i + 1)]
      by_cases ht : v.type = schema.fieldsList[i].type
      · simp [ht]
      · simp [ht]
    · rw [List.getElem?_eq_none (by omega), List.drop_eq_nil_of_le (by omega)]
      simp

theorem checkLengths_ok_iff (n : Int32) (i : ℕ) (vs : List (Vector F)) :
    checkLengths n i vs = .ok () ↔ ∀ v ∈ vs, v.length = n := by
  induction vs generalizing i with
  | nil => simp [checkLengths]
  | cons v vs ih =>
    rw [checkLengths]
    by_cases h : v.length = n
    · simp [h, ih (i + 1)]
    · simp [h]

/-- The length that a list of vectors gives to its batch. -/
def lengthOf : List (Vector F) → Int32
  | [] => 0
  | v :: _ => v.length

theorem validate_ok_iff (schema : Schema) (vs : List (Vector F)) :
    validate schema vs = .ok () ↔
      vs.map Vector.type = schema.fieldsList.map Field.type ∧
        ∀ v ∈ vs, v.length = lengthOf vs := by
  have hlen : ∀ ws : List (Vector F), (match ws with
      | [] => pure ()
      | v :: vs => checkLengths v.length 1 vs : Java Unit) = .ok () ↔
        ∀ v ∈ ws, v.length = lengthOf ws := by
    intro ws
    cases ws with
    | nil => simp
    | cons v ws =>
      rw [checkLengths_ok_iff]
      simp [lengthOf]
  unfold validate
  by_cases hc : vs.length = schema.fieldCount
  · have hpre : vs.map Vector.type <+: schema.fieldsList.map Field.type ↔
        vs.map Vector.type = schema.fieldsList.map Field.type := by
      refine ⟨fun h => h.eq_of_length ?_, fun h => h ▸ List.prefix_refl _⟩
      rw [List.length_map, List.length_map, hc]
      rfl
    rw [if_neg (not_not_intro hc), ← hpre]
    have hct := checkTypes_ok_iff schema 0 vs
    rw [List.drop_zero] at hct
    rw [← hct, ← hlen vs]
    cases hcase : checkTypes schema 0 vs with
    | error e => simp
    | ok u => exact ⟨fun h => ⟨rfl, h⟩, fun h => h.2⟩
  · have hne : vs.map Vector.type ≠ schema.fieldsList.map Field.type := by
      intro h
      have := congrArg List.length h
      rw [List.length_map, List.length_map] at this
      exact hc this
    rw [if_pos hc]
    simp [hne]

theorem new_of_validate {schema : Schema} {vs : List (Vector F)} (h : validate schema vs = .ok ()) :
    new schema vs = .ok ⟨schema, vs, h⟩ := by
  unfold new
  split
  next e he => rw [h] at he; cases he
  next => rfl

/-! ## Columns -/

theorem types_eq (b : RecordBatch F) :
    b.vectors.map Vector.type = b.schema.fieldsList.map Field.type :=
  ((validate_ok_iff b.schema b.vectors).mp b.accepted).1

theorem length_of_mem (b : RecordBatch F) {v : Vector F} (h : v ∈ b.vectors) :
    v.length = b.rowCount := by
  rw [((validate_ok_iff b.schema b.vectors).mp b.accepted).2 v h, rowCount]
  cases b.vectors <;> rfl

theorem size_of_mem (b : RecordBatch F) {v : Vector F} (h : v ∈ b.vectors) : v.size = b.size := by
  rw [Vector.size, b.length_of_mem h, size]

theorem vectors_length (b : RecordBatch F) : b.vectors.length = b.schema.fieldsList.length := by
  have h := congrArg List.length b.types_eq
  rwa [List.length_map, List.length_map] at h

theorem columns_names (b : RecordBatch F) :
    b.columns.map Prod.fst = b.schema.fieldsList.map Field.name := by
  have hlen : (b.schema.fieldsList.map Field.name).length = b.vectors.length := by
    rw [List.length_map, b.vectors_length]
  rw [columns, List.map_fst_zip (Nat.le_of_eq hlen)]

theorem columns_nodup (b : RecordBatch F) : (b.columns.map Prod.fst).Nodup := by
  rw [b.columns_names]
  exact b.schema.names_nodup

theorem getElem_column (b : RecordBatch F) {k : ℕ} {f : Field}
    (hk : b.schema.fieldsList[k]? = some f) :
    ∃ v, b.vectors[k]? = some v ∧ v.type = f.type ∧ (f.name, v) ∈ b.columns := by
  obtain ⟨hlt, rfl⟩ := List.getElem?_eq_some_iff.mp hk
  have hv : k < b.vectors.length := by rw [b.vectors_length]; exact hlt
  refine ⟨b.vectors[k], List.getElem?_eq_getElem hv, ?_, ?_⟩
  · have h := congrArg (fun l => l[k]?) b.types_eq
    simpa [hv, hlt] using h
  · refine List.mem_of_getElem? (i := k) ?_
    rw [columns, List.getElem?_zip_eq_some]
    simp [hv, hlt]

theorem vectorOf_of_field (b : RecordBatch F) {name : JString} {f : Field}
    (h : b.schema.field name = .ok f) :
    ∃ v, b.vectorOf name = .ok v ∧ v.type = f.type ∧ v ∈ b.vectors ∧
      b.columns.lookup name = some v := by
  obtain ⟨hf, rfl⟩ := (b.schema.field_ok_iff name f).mp h
  obtain ⟨k, hk⟩ := List.getElem?_of_mem hf
  obtain ⟨v, hv, ht, hc⟩ := b.getElem_column hk
  refine ⟨v, ?_, ht, List.mem_of_getElem? hv, ?_⟩
  · rw [vectorOf, Schema.indexOfField_of_getElem hk, ok_bind, hv]
  · exact (lookup_eq_some_iff b.columns_nodup f.name v).mpr hc

theorem vectorOf_of_absent (b : RecordBatch F) {name : JString}
    (h : name ∉ b.schema.fieldsList.map Field.name) :
    b.vectorOf name = .error (b.schema.fieldNotFound name) := by
  rw [vectorOf, Schema.indexOfField_error_of_absent h, error_bind]

theorem field_of_vectorOf (b : RecordBatch F) {name : JString} {v : Vector F}
    (h : b.vectorOf name = .ok v) :
    ∃ f, b.schema.field name = .ok f ∧ v.type = f.type ∧ v ∈ b.vectors ∧
      b.columns.lookup name = some v := by
  by_cases hn : name ∈ b.schema.fieldsList.map Field.name
  · obtain ⟨f, hf, rfl⟩ := List.mem_map.mp hn
    have hfield := Schema.field_of_mem hf
    obtain ⟨w, hw, hrest⟩ := b.vectorOf_of_field hfield
    rw [h] at hw
    cases hw
    exact ⟨f, hfield, hrest⟩
  · simp [b.vectorOf_of_absent hn] at h

/-! ## Rows -/

theorem row_cell (b : RecordBatch F) (i : ℕ) {name : JString} {v : Vector F}
    (h : b.columns.lookup name = some v) : (b.row i).cell name = v.slot i := by
  rw [row, Row.cell, lookup_map_snd fun v => Vector.slot v i, h]
  rfl

/-- What stands under a name: a column, whose slots the rows show, or nothing. -/
theorem column_cases (b : RecordBatch F) (name : JString) :
    (∃ f v, b.schema.field name = .ok f ∧ b.vectorOf name = .ok v ∧ v.type = f.type ∧
      v.size = b.size ∧ ∀ i, (b.row i).cell name = v.slot i) ∨
    (name ∉ b.schema.fieldsList.map Field.name ∧ ∀ i, (b.row i).cell name = none) := by
  by_cases hn : name ∈ b.schema.fieldsList.map Field.name
  · obtain ⟨f, hf, rfl⟩ := List.mem_map.mp hn
    have hfield := Schema.field_of_mem hf
    obtain ⟨v, hv, htype, hmem, hlookup⟩ := b.vectorOf_of_field hfield
    exact Or.inl ⟨f, v, hfield, hv, htype, b.size_of_mem hmem, fun i => b.row_cell i hlookup⟩
  · refine Or.inr ⟨hn, fun i => ?_⟩
    have hrow : (b.row i).map Prod.fst = b.schema.fieldsList.map Field.name := by
      rw [← b.columns_names, row, List.map_map]
      rfl
    have hlookup : (b.row i).lookup name = none := by
      rw [← Option.not_isSome_iff_eq_none, lookup_isSome_iff, hrow]
      exact hn
    rw [Row.cell, hlookup]
    rfl

theorem rowCount_eq (b : RecordBatch F) : b.rowCount = Int32.ofNat b.size :=
  (ofNat_toNatClampNeg b.rowCount_not_neg).symm

theorem size_lt (b : RecordBatch F) : b.size < 2 ^ 31 := toNatClampNeg_lt b.rowCount

theorem rowCount_pos_iff (b : RecordBatch F) : b.rowCount > 0 ↔ 0 < b.size := by
  have h : (0 : Int32) < b.rowCount ↔ (0 : Int32).toInt < b.rowCount.toInt :=
    Int32.lt_iff_toInt_lt
  rw [GT.gt, h, b.rowCount_eq, toInt_ofNat b.size_lt, Int32.toInt_zero]
  omega

theorem rows_length (b : RecordBatch F) : b.rows.length = b.size := by
  rw [rows, List.length_map, List.length_range]

theorem rows_eq_nil_iff (b : RecordBatch F) : b.rows = [] ↔ b.size = 0 := by
  rw [← List.length_eq_zero_iff, rows_length]

theorem row_eq_zip (b : RecordBatch F) (i : ℕ) :
    b.row i = (b.schema.fieldsList.map Field.name).zip (b.vectors.map fun v => v.slot i) := by
  rw [List.zip_map_right]
  rfl

theorem row_of_rows {b : RecordBatch F} {rows : List (Row F)} (h : b.rows = rows) :
    b.size = rows.length ∧ ∀ k (hk : k < rows.length), b.row k = rows[k] := by
  subst h
  refine ⟨b.rows_length.symm, fun k hk => ?_⟩
  simp [rows]

/-! ## All columns at once -/

theorem vectorOf_forall₂ (b : RecordBatch F) :
    List.Forall₂ (fun f v => b.vectorOf (Field.name f) = .ok v) b.schema.fieldsList b.vectors := by
  refine List.forall₂_iff_get.mpr ⟨b.vectors_length.symm, fun k hk hv => ?_⟩
  have hfield : b.schema.fieldsList[k]? = some b.schema.fieldsList[k] :=
    List.getElem?_eq_getElem hk
  have hvector : b.vectors[k]? = some b.vectors[k] := List.getElem?_eq_getElem hv
  simp [vectorOf, Schema.indexOfField_of_getElem hfield, hvector]

theorem size_of_nil {b : RecordBatch F} (h : b.vectors = []) : b.size = 0 := by
  simp [size, rowCount, h]

/-- Vectors of the schema's types and of one size make a batch of that size. -/
theorem new_of_types {schema : Schema} {vs : List (Vector F)} {n : ℕ}
    (htypes : vs.map Vector.type = schema.fieldsList.map Field.type)
    (hsize : ∀ v ∈ vs, v.size = n) (hnil : vs = [] → n = 0) :
    ∃ b, RecordBatch.new schema vs = .ok b ∧ b.schema = schema ∧ b.vectors = vs ∧
      b.size = n := by
  have hlen : ∀ v ∈ vs, v.length = lengthOf vs := by
    intro v hv
    match vs, hsize with
    | [], _ => simp at hv
    | w :: ws, hsize =>
      show v.length = w.length
      rw [v.length_eq, w.length_eq, hsize v hv, hsize w List.mem_cons_self]
  have hval := (validate_ok_iff schema vs).mpr ⟨htypes, hlen⟩
  refine ⟨_, new_of_validate hval, rfl, rfl, ?_⟩
  match vs with
  | [] => rw [size_of_nil rfl, hnil rfl]
  | w :: ws => exact hsize w List.mem_cons_self

end RecordBatch

end QueryEngine
