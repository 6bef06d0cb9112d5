import QueryEngine.Model.RecordBatch

/-! # Names and positions of a schema agree

A schema keeps a map from names to fields, the list of the fields and a map from fields to
positions. `from` refuses a repeated name and `project` takes every name once, so the three say the
same about every schema that the two can build, however often it is projected.
-/
namespace QueryEngine
open Library
set_option autoImplicit false
set_option maxHeartbeats 250000

namespace Schema

/-! ## One schema -/

theorem fieldAtIndex_ok_iff (s : Schema) (i : ℕ) (f : Field) :
    s.fieldAtIndex i = .ok f ↔ s.fieldsList[i]? = some f := by
  unfold fieldAtIndex
  cases s.fieldsList[i]? with
  | none => simp
  | some g => simp

theorem indexOfField_of_fieldAtIndex {s : Schema} {i : ℕ} {f : Field}
    (h : s.fieldAtIndex i = .ok f) : s.indexOfField f.name = .ok i :=
  indexOfField_of_getElem ((s.fieldAtIndex_ok_iff i f).mp h)

theorem field_ok_iff_mem (s : Schema) (name : JString) :
    (∃ f, s.field name = .ok f) ↔ name ∈ s.fieldsList.map Field.name := by
  simp only [field_ok_iff, List.mem_map]

theorem exists_position {s : Schema} {name : JString} {f : Field} (h : s.field name = .ok f) :
    f.name = name ∧ ∃ i, s.fieldAtIndex i = .ok f := by
  obtain ⟨hf, hname⟩ := (s.field_ok_iff name f).mp h
  obtain ⟨i, hi⟩ := List.mem_iff_getElem?.mp hf
  exact ⟨hname, i, (s.fieldAtIndex_ok_iff i f).mpr hi⟩

/-- The three structures of a schema say the same: positions are found again by name, a name is
found just when one position carries it, and its field stands at the position found. -/
structure Agrees (s : Schema) : Prop where
  position : ∀ i < s.fieldCount, ∃ f, s.fieldAtIndex i = .ok f ∧ s.indexOfField f.name = .ok i
  found_iff : ∀ name,
    (∃ f, s.field name = .ok f) ↔ ∃! i, ∃ f, s.fieldAtIndex i = .ok f ∧ f.name = name
  field : ∀ name f, s.field name = .ok f →
    ∃ i, s.indexOfField name = .ok i ∧ s.fieldAtIndex i = .ok f

theorem agrees (s : Schema) : s.Agrees where
  position i hi := by
    have hget := (s.fieldAtIndex_ok_iff i _).mpr (List.getElem?_eq_getElem hi)
    exact ⟨_, hget, indexOfField_of_fieldAtIndex hget⟩
  found_iff name := by
    constructor
    · rintro ⟨f, hf⟩
      obtain ⟨hname, i, hi⟩ := exists_position hf
      refine ⟨i, ⟨f, hi, hname⟩, ?_⟩
      -- two positions of one name are both what `indexOfField` answers for it
      rintro j ⟨g, hg, hgname⟩
      have hj := indexOfField_of_fieldAtIndex hg
      rw [hgname, ← hname, indexOfField_of_fieldAtIndex hi] at hj
      exact (Except.ok.inj hj).symm
    · rintro ⟨i, ⟨f, hi, rfl⟩, -⟩
      exact ⟨f, field_of_mem (List.mem_of_getElem? ((s.fieldAtIndex_ok_iff i f).mp hi))⟩
  field name f hf := by
    obtain ⟨rfl, i, hi⟩ := exists_position hf
    exact ⟨i, indexOfField_of_fieldAtIndex hi, hi⟩

/-! ## Both factory methods -/

theorem fromLoop_total {fields : List Field} {uniques : Schema}
    (h : ((uniques.fieldsList ++ fields).map Field.name).Nodup) :
    ∃ s, fromLoop fields uniques = .ok s := by
  induction fields generalizing uniques with
  | nil => exact ⟨uniques, rfl⟩
  | cons f fields ih =>
    have hnew : f.name ∉ uniques.fieldsList.map Field.name := by
      rw [List.map_append, List.nodup_append] at h
      exact fun hmem => h.2.2 _ hmem _ List.mem_cons_self rfl
    have hnone : uniques.fields.get f.name = none := by
      rw [← Option.not_isSome_iff_eq_none, get_isSome_iff_mem]
      exact hnew
    have hrest : (((uniques.put f).fieldsList ++ fields).map Field.name).Nodup := by
      rwa [put_fieldsList hnew, List.append_assoc, List.singleton_append]
    obtain ⟨s, hs⟩ := ih hrest
    exact ⟨s, by rw [fromLoop, hnone, hs]⟩

theorem fromFields_ok_iff (fields : List Field) :
    (∃ s, fromFields fields = .ok s) ↔ (fields.map Field.name).Nodup := by
  constructor
  · rintro ⟨s, hs⟩
    have hnames := s.names_nodup
    rwa [fromFields_ok hs] at hnames
  · intro h
    exact fromLoop_total h

theorem project_ok_iff (s : Schema) (names : List JString) :
    (∃ t, s.project names = .ok t) ↔ ∀ name ∈ names, name ∈ s.fieldsList.map Field.name := by
  constructor
  · rintro ⟨t, ht⟩ name hname
    have hmem : s.field name ∈ names.eraseDups.map s.field :=
      List.mem_map_of_mem (List.mem_eraseDups.mpr hname)
    rw [← project_fieldsList ht] at hmem
    obtain ⟨f, -, hf⟩ := List.mem_map.mp hmem
    exact (s.field_ok_iff_mem name).mp ⟨f, hf.symm⟩
  · exact fun h => projectLoop_total h [] empty

/-- A projection keeps the field of every name it was asked for. -/
theorem field_project {s t : Schema} {names : List JString} (h : s.project names = .ok t)
    {name : JString} (hname : name ∈ names) :
    name ∈ t.fieldsList.map Field.name ∧ t.field name = s.field name := by
  obtain ⟨f, hf, rfl⟩ := List.mem_map.mp ((s.project_ok_iff names).mp ⟨t, h⟩ name hname)
  have hmem : f ∈ t.fieldsList := (mem_project_iff h f).mpr ⟨hf, hname⟩
  exact ⟨List.mem_map_of_mem hmem, by rw [field_of_mem hmem, field_of_mem hf]⟩

theorem project_project {s t : Schema} {names : List JString} (h : s.project names = .ok t) :
    t.project names = .ok t := by
  obtain ⟨u, hu⟩ := (t.project_ok_iff names).mpr fun name hname => (field_project h hname).1
  have hsame : u.fieldsList.map Except.ok = t.fieldsList.map (Except.ok (ε := JavaException)) := by
    rw [project_fieldsList hu, project_fieldsList h]
    exact List.map_congr_left fun name hname =>
      (field_project h (List.mem_eraseDups.mp hname)).2
  have hinj : Function.Injective (Except.ok (ε := JavaException) (α := Field)) :=
    fun _ _ hfg => Except.ok.inj hfg
  rw [hu, ext_fieldsList (List.map_injective_iff.mpr hinj hsame)]

/-! ## Any sequence of projections -/

/-- `from(fields)`, then the calls of `project` one after the other. -/
def projections (fields : List Field) (calls : List (List JString)) : Java Schema := do
  let s ← fromFields fields
  calls.foldlM project s

/-- No projection invents a field or changes one. -/
theorem fields_of_projections {s t : Schema} {calls : List (List JString)}
    (h : calls.foldlM project s = .ok t) : ∀ f ∈ t.fieldsList, f ∈ s.fieldsList := by
  induction calls generalizing s with
  | nil =>
    cases h
    exact fun f hf => hf
  | cons names calls ih =>
    rw [List.foldlM_cons] at h
    obtain ⟨u, hu, hcalls⟩ := bind_eq_ok h
    exact fun f hf => ((mem_project_iff hu f).mp (ih hcalls f hf)).1

/-- **Names and positions stay in bijection** through `from` and any sequence of projections, which
keep the given fields as they are; `from` raises just on a repeated name and `project` just on an
absent one, and a projection has the distinct names asked for, in the order of first mention. -/
theorem names_and_positions :
    (∀ fields calls s, projections fields calls = .ok s →
      s.Agrees ∧ ∀ f ∈ s.fieldsList, f ∈ fields) ∧
    (∀ fields : List Field, (∃ ex, fromFields fields = .error ex) ↔
      ¬ (fields.map Field.name).Nodup) ∧
    ∀ (s : Schema) (names : List JString),
      ((∃ ex, s.project names = .error ex) ↔
        ∃ name ∈ names, name ∉ s.fieldsList.map Field.name) ∧
      ∀ t, s.project names = .ok t →
        t.fieldsList.map Except.ok = names.eraseDups.map s.field ∧
          t.project names = .ok t := by
  refine ⟨fun fields calls s h => ⟨s.agrees, ?_⟩, fun fields => ?_, fun s names => ⟨?_, ?_⟩⟩
  · obtain ⟨u, hu, hcalls⟩ := bind_eq_ok h
    rw [← fromFields_ok hu]
    exact fields_of_projections hcalls
  · rw [error_iff_not_ok, fromFields_ok_iff]
  · rw [error_iff_not_ok, project_ok_iff]
    simp only [not_forall, exists_prop]
  · exact fun t ht => ⟨project_fieldsList ht, project_project ht⟩

/-- Columns `a` and `b` of one type and a column `c`, asked for `c`, `a` and `c` again. -/
theorem names_and_positions_sample :
    ∃ s, projections [⟨[97], .INT32, true⟩, ⟨[98], .INT32, true⟩, ⟨[99], .UTF8, true⟩]
        [[[99], [97], [99]]] = .ok s ∧
      s.fieldsList = [⟨[99], .UTF8, true⟩, ⟨[97], .INT32, true⟩] ∧ s.Agrees := by
  refine ⟨_, rfl, rfl, ?_⟩
  exact (names_and_positions.1 [⟨[97], .INT32, true⟩, ⟨[98], .INT32, true⟩, ⟨[99], .UTF8, true⟩]
    [[[99], [97], [99]]] _ rfl).1

end Schema

end QueryEngine
