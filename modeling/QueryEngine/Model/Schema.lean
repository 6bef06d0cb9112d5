import QueryEngine.Library.OrderedMap
import QueryEngine.Model.Java

/-! # Types, fields and schemas (`org.kogu.queryengine.type`)

A `Schema` holds an insertion-ordered map from names to fields. Its constructor derives the field
list and the map from fields to positions once, and the object never changes, so both are functions
of the map here. Positions are natural numbers: a schema is far shorter than `2^31` fields.
-/
namespace QueryEngine
open Library
set_option autoImplicit false
set_option maxHeartbeats 250000

inductive Scalar
  | BOOLEAN | INT32 | INT64 | FLOAT64 | UTF8
  deriving DecidableEq

/-- The enum constant's name, which `%s` and string concatenation print. -/
def Scalar.name : Scalar → JString
  | .BOOLEAN => jstr "BOOLEAN"
  | .INT32 => jstr "INT32"
  | .INT64 => jstr "INT64"
  | .FLOAT64 => jstr "FLOAT64"
  | .UTF8 => jstr "UTF8"

structure Field where
  name : JString
  type : Scalar
  nullable : Bool
  deriving DecidableEq

/-- The map of a schema, with what both factory methods put into it: every key is the name of the
field under it. -/
structure Schema where
  fields : OrderedMap JString Field
  keyed : ∀ e ∈ fields.entries, e.2.name = e.1

namespace Schema

def fieldsList (s : Schema) : List Field := s.fields.values

def fieldCount (s : Schema) : ℕ := s.fieldsList.length

/-- The loop of the constructor: `fieldIndex.put(fieldsList.get(i), i)` for every position. -/
def indexFrom (i : ℕ) : List Field → OrderedMap Field ℕ → OrderedMap Field ℕ
  | [], index => index
  | f :: fs, index => indexFrom (i + 1) fs (index.put f i)

def fieldIndex (s : Schema) : OrderedMap Field ℕ := indexFrom 0 s.fieldsList .empty

/-- `asString`, used in the text of a failed lookup. -/
def asString (s : Schema) : JString :=
  let part (f : Field) : JString :=
    f.name ++ jstr ": " ++ f.type.name ++ jstr ", nullable:" ++
      jstr (if f.nullable then "true" else "false")
  jstr "[" ++ List.intercalate (jstr ",") (s.fieldsList.map part) ++ jstr "]"

def fieldNotFound (s : Schema) (name : JString) : JavaException :=
  .illegalArgument (jstr "Field not found: " ++ name ++ jstr " in schema: " ++ s.asString)

def field (s : Schema) (name : JString) : Java Field :=
  match s.fields.get name with
  | none => .error (s.fieldNotFound name)
  | some f => .ok f

/-- `indexOfField(name)`: the position of the field, looked up by the field's value. -/
def indexOfField (s : Schema) (name : JString) : Java ℕ := do
  match s.fieldIndex.get (← s.field name) with
  | none => .error .nullPointer
  | some n => .ok n

def fieldAtIndex (s : Schema) (index : ℕ) : Java Field :=
  match s.fieldsList[index]? with
  | none => .error .indexOutOfBounds
  | some f => .ok f

/-- The schema of no fields, from which both factory methods start. -/
def empty : Schema := ⟨.empty, by simp [OrderedMap.empty]⟩

def put (s : Schema) (f : Field) : Schema where
  fields := s.fields.put f.name f
  keyed := by
    intro e he
    rcases OrderedMap.mem_put he with h | rfl
    · exact s.keyed e h
    · rfl

/-- The loop of `project`: `cols` holds the names already taken, `fs` the fields put so far. -/
def projectLoop (s : Schema) : List JString → List JString → Schema → Java Schema
  | [], _, fs => .ok fs
  | name :: names, cols, fs =>
      if name ∈ cols then projectLoop s names cols fs
      else do
        let f ← s.field name
        projectLoop s names (name :: cols) (fs.put f)

/-- `project(names...)`: the named fields in the order of first mention, without repetition. -/
def project (s : Schema) (names : List JString) : Java Schema := s.projectLoop names [] .empty

/-- The loop of `from`: `put` answers the field that already stood under the name. -/
def fromLoop : List Field → Schema → Java Schema
  | [], uniques => .ok uniques
  | f :: fs, uniques =>
      match uniques.fields.get f.name with
      | some _ => .error (.illegalArgument (jstr "Duplicate field: " ++ f.name))
      | none => fromLoop fs (uniques.put f)

def fromFields (fields : List Field) : Java Schema := fromLoop fields .empty

/-! ## Names and positions -/

theorem entries_eq (s : Schema) : s.fields.entries = s.fieldsList.map fun f => (f.name, f) := by
  rw [fieldsList, OrderedMap.values, List.map_map]
  refine (List.map_id _).symm.trans (List.map_congr_left fun e he => ?_)
  simp [s.keyed e he]

theorem names_nodup (s : Schema) : (s.fieldsList.map Field.name).Nodup := by
  have h := s.fields.nodup
  rw [s.entries_eq, List.map_map] at h
  exact h

theorem ext_fieldsList {s t : Schema} (h : s.fieldsList = t.fieldsList) : s = t := by
  have he : s.fields.entries = t.fields.entries := by rw [s.entries_eq, t.entries_eq, h]
  obtain ⟨⟨es, hs⟩, ks⟩ := s
  obtain ⟨⟨et, ht⟩, kt⟩ := t
  cases he
  rfl

theorem get_eq_some_iff (s : Schema) (name : JString) (f : Field) :
    s.fields.get name = some f ↔ f ∈ s.fieldsList ∧ f.name = name := by
  rw [OrderedMap.get_eq_some_iff, s.entries_eq]
  simp only [List.mem_map, Prod.mk.injEq]
  constructor
  · rintro ⟨g, hg, hn, rfl⟩
    exact ⟨hg, hn⟩
  · rintro ⟨hf, hn⟩
    exact ⟨f, hf, hn, rfl⟩

theorem get_isSome_iff_mem (s : Schema) (name : JString) :
    (s.fields.get name).isSome ↔ name ∈ s.fieldsList.map Field.name := by
  rw [OrderedMap.get_isSome_iff, OrderedMap.keys, s.entries_eq, List.map_map]
  rfl

theorem field_ok_iff (s : Schema) (name : JString) (f : Field) :
    s.field name = .ok f ↔ f ∈ s.fieldsList ∧ f.name = name := by
  rw [← s.get_eq_some_iff, field]
  cases s.fields.get name with
  | none => simp
  | some g => simp

theorem field_error_of_absent {s : Schema} {name : JString}
    (h : name ∉ s.fieldsList.map Field.name) : s.field name = .error (s.fieldNotFound name) := by
  cases hg : s.fields.get name with
  | none => rw [field, hg]
  | some f =>
    obtain ⟨hf, hn⟩ := (s.get_eq_some_iff name f).mp hg
    exact absurd (List.mem_map.mpr ⟨f, hf, hn⟩) h

theorem field_of_mem {s : Schema} {f : Field} (h : f ∈ s.fieldsList) : s.field f.name = .ok f :=
  (s.field_ok_iff f.name f).mpr ⟨h, rfl⟩

theorem indexFrom_get_of_not_mem {fs : List Field} {index : OrderedMap Field ℕ} {i : ℕ} {f : Field}
    (hf : f ∉ fs) : (indexFrom i fs index).get f = index.get f := by
  induction fs generalizing i index with
  | nil => rfl
  | cons g fs ih =>
    rw [List.mem_cons, not_or] at hf
    rw [indexFrom, ih hf.2, OrderedMap.get_put_of_ne hf.1]

/-- The constructor's index maps the field at position `k` to `k`. -/
theorem indexFrom_get {fs : List Field} (hfs : fs.Nodup) {index : OrderedMap Field ℕ} {i k : ℕ}
    {f : Field} (hk : fs[k]? = some f) : (indexFrom i fs index).get f = some (i + k) := by
  induction fs generalizing i k index with
  | nil => simp at hk
  | cons g fs ih =>
    rw [List.nodup_cons] at hfs
    rw [indexFrom]
    cases k with
    | zero =>
      obtain rfl : g = f := by simpa using hk
      rw [indexFrom_get_of_not_mem hfs.1, OrderedMap.get_put_self, Nat.add_zero]
    | succ k =>
      rw [List.getElem?_cons_succ] at hk
      rw [ih hfs.2 hk, Nat.add_right_comm, Nat.add_assoc]

theorem fieldsList_nodup (s : Schema) : s.fieldsList.Nodup := List.Nodup.of_map _ s.names_nodup

theorem indexOfField_of_getElem {s : Schema} {k : ℕ} {f : Field} (hk : s.fieldsList[k]? = some f) :
    s.indexOfField f.name = .ok k := by
  have hf : s.field f.name = .ok f := field_of_mem (List.mem_of_getElem? hk)
  have hi : s.fieldIndex.get f = some k := by
    rw [fieldIndex, indexFrom_get s.fieldsList_nodup hk, Nat.zero_add]
  simp [indexOfField, hf, hi, bind, Except.bind]

theorem put_fieldsList {s : Schema} {f : Field} (h : f.name ∉ s.fieldsList.map Field.name) :
    (s.put f).fieldsList = s.fieldsList ++ [f] := by
  have hnew : f.name ∉ s.fields.keys := by
    rw [OrderedMap.keys, s.entries_eq, List.map_map]
    exact h
  simp [fieldsList, put, OrderedMap.values, OrderedMap.put_entries_of_new hnew]

theorem fromLoop_ok {fields : List Field} {uniques s : Schema}
    (h : fromLoop fields uniques = .ok s) : s.fieldsList = uniques.fieldsList ++ fields := by
  induction fields generalizing uniques with
  | nil =>
    rw [fromLoop, Except.ok.injEq] at h
    rw [← h, List.append_nil]
  | cons f fields ih =>
    rw [fromLoop] at h
    match hget : uniques.fields.get f.name with
    | some g => simp [hget] at h
    | none =>
      rw [hget] at h
      have hnew : f.name ∉ uniques.fieldsList.map Field.name := by
        intro hmem
        obtain ⟨g, hg, hgf⟩ := List.mem_map.mp hmem
        simp [(uniques.get_eq_some_iff f.name g).mpr ⟨hg, hgf⟩] at hget
      rw [ih h, put_fieldsList hnew, List.append_assoc, List.singleton_append]

theorem fromFields_ok {fields : List Field} {s : Schema} (h : fromFields fields = .ok s) :
    s.fieldsList = fields := fromLoop_ok h

theorem indexOfField_error_of_absent {s : Schema} {name : JString}
    (h : name ∉ s.fieldsList.map Field.name) :
    s.indexOfField name = .error (s.fieldNotFound name) := by
  simp [indexOfField, field_error_of_absent h, bind, Except.bind]

/-! ## Projections -/

theorem put_names {fs : Schema} {cols : List JString} {f : Field}
    (hcols : ∀ name, name ∈ cols ↔ name ∈ fs.fieldsList.map Field.name) (hf : f.name ∉ cols)
    (name : JString) : name ∈ f.name :: cols ↔ name ∈ (fs.put f).fieldsList.map Field.name := by
  rw [put_fieldsList ((hcols f.name).not.mp hf), List.map_append, List.mem_append, ← hcols,
    List.mem_cons, List.map_singleton, List.mem_singleton, or_comm]

theorem projectLoop_total {s : Schema} {names : List JString}
    (hnames : ∀ name ∈ names, name ∈ s.fieldsList.map Field.name) (cols : List JString)
    (fs : Schema) : ∃ t, s.projectLoop names cols fs = .ok t := by
  induction names generalizing cols fs with
  | nil => exact ⟨fs, rfl⟩
  | cons name names ih =>
    have htail := fun n hn => hnames n (List.mem_cons_of_mem name hn)
    rw [projectLoop]
    split
    next => exact ih htail cols fs
    next =>
      obtain ⟨f, hf, rfl⟩ := List.mem_map.mp (hnames name List.mem_cons_self)
      rw [field_of_mem hf, ok_bind]
      exact ih htail _ _

/-- The loop of `project` appends the fields of the names that are new, each once; `cols` are the
names of `fs`. -/
theorem projectLoop_fieldsList {s fs t : Schema} {names cols : List JString}
    (hcols : ∀ name, name ∈ cols ↔ name ∈ fs.fieldsList.map Field.name)
    (h : s.projectLoop names cols fs = .ok t) :
    t.fieldsList.map Except.ok =
      fs.fieldsList.map Except.ok ++
        ((names.filter fun name => name ∉ cols).eraseDups.map s.field) := by
  induction names generalizing cols fs with
  | nil =>
    cases h
    simp
  | cons name names ih =>
    rw [projectLoop] at h
    split at h
    next hold =>
      rw [ih hcols h, List.filter_cons_of_neg (by simpa using hold)]
    next hnew =>
      cases hfield : s.field name with
      | error ex => simp [hfield, bind, Except.bind] at h
      | ok f =>
        obtain ⟨hf, rfl⟩ := (s.field_ok_iff name f).mp hfield
        rw [hfield, ok_bind] at h
        -- the names left for later are the ones that differ from the name just taken
        have hlater : (names.filter fun n => n ∉ f.name :: cols) =
            (names.filter fun n => n ∉ cols).filter fun n => !n == f.name := by
          rw [List.filter_filter]
          refine List.filter_congr fun n _ => ?_
          rw [Bool.eq_iff_iff]
          simp
        rw [ih (put_names hcols hnew) h, put_fieldsList ((hcols f.name).not.mp hnew),
          List.filter_cons_of_pos (by simpa using hnew), List.eraseDups_cons, hlater,
          List.map_append, List.append_assoc]
        simp [hfield]

/-- **A projection has the named fields in the order of first mention, each once.** -/
theorem project_fieldsList {s t : Schema} {names : List JString} (h : s.project names = .ok t) :
    t.fieldsList.map Except.ok = names.eraseDups.map s.field := by
  have hcols : ∀ name : JString, name ∈ [] ↔ name ∈ empty.fieldsList.map Field.name := by
    simp [empty, fieldsList, OrderedMap.values, OrderedMap.empty]
  rw [projectLoop_fieldsList hcols h]
  simp [empty, fieldsList, OrderedMap.values, OrderedMap.empty]

theorem mem_project_iff {s t : Schema} {names : List JString} (h : s.project names = .ok t)
    (f : Field) : f ∈ t.fieldsList ↔ f ∈ s.fieldsList ∧ f.name ∈ names := by
  have hmem : f ∈ t.fieldsList ↔ (.ok f : Java Field) ∈ t.fieldsList.map Except.ok := by simp
  rw [hmem, project_fieldsList h, List.mem_map]
  simp only [List.mem_eraseDups, field_ok_iff]
  constructor
  · rintro ⟨name, hname, hf, rfl⟩
    exact ⟨hf, hname⟩
  · rintro ⟨hf, hname⟩
    exact ⟨f.name, hname, hf, rfl⟩

theorem project_ok {s : Schema} {names : List JString}
    (h : ∀ name ∈ names, name ∈ s.fieldsList.map Field.name) :
    ∃ t, s.project names = .ok t ∧
      ∀ f, f ∈ t.fieldsList ↔ f ∈ s.fieldsList ∧ f.name ∈ names := by
  obtain ⟨t, ht⟩ := projectLoop_total h [] empty
  exact ⟨t, ht, mem_project_iff ht⟩

end Schema

end QueryEngine
