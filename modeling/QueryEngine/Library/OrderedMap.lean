import Mathlib.Data.List.Nodup
import Mathlib.Tactic.Common

/-! # Maps that keep the order of first insertion

`OrderedMap K V` is a list of entries with distinct keys. `put` replaces the value of a key that is
present and appends an entry otherwise, so the keys stand in the order in which they were first put.
-/
namespace QueryEngine.Library
set_option autoImplicit false
set_option maxHeartbeats 250000

/-! ## Lookup in association lists -/

section Lookup
variable {K V : Type} [BEq K] [LawfulBEq K]

theorem lookup_cons_of_ne {k a : K} (h : k ≠ a) (b : V) (l : List (K × V)) :
    ((a, b) :: l).lookup k = l.lookup k := by
  rw [List.lookup_cons, beq_false_of_ne h]

theorem lookup_isSome_iff (l : List (K × V)) (k : K) :
    (l.lookup k).isSome ↔ k ∈ l.map Prod.fst := by
  induction l with
  | nil => simp
  | cons e l ih =>
    obtain ⟨a, b⟩ := e
    by_cases h : k = a
    · subst h; simp
    · rw [lookup_cons_of_ne h, ih, List.map_cons, List.mem_cons]
      simp [h]

theorem lookup_eq_some_iff {l : List (K × V)} (hl : (l.map Prod.fst).Nodup) (k : K) (v : V) :
    l.lookup k = some v ↔ (k, v) ∈ l := by
  induction l with
  | nil => simp
  | cons e l ih =>
    obtain ⟨a, b⟩ := e
    rw [List.map_cons, List.nodup_cons] at hl
    by_cases h : k = a
    · subst h
      have hk : (k, v) ∉ l := fun hm => hl.1 (List.mem_map.mpr ⟨(k, v), hm, rfl⟩)
      simp [hk, eq_comm]
    · rw [lookup_cons_of_ne h, ih hl.2]
      simp [h]

theorem lookup_map_snd {W : Type} (g : V → W) (k : K) (l : List (K × V)) :
    (l.map fun e => (e.1, g e.2)).lookup k = (l.lookup k).map g := by
  induction l with
  | nil => rfl
  | cons e l ih =>
    obtain ⟨a, b⟩ := e
    rw [List.map_cons]
    by_cases h : k = a
    · subst h; simp
    · rw [lookup_cons_of_ne h, lookup_cons_of_ne h, ih]

end Lookup

/-! ## The map -/

structure OrderedMap (K V : Type) where
  entries : List (K × V)
  nodup : (entries.map Prod.fst).Nodup

namespace OrderedMap
variable {K V : Type} [DecidableEq K]

def empty : OrderedMap K V := ⟨[], List.nodup_nil⟩

def get (m : OrderedMap K V) (k : K) : Option V := m.entries.lookup k

def keys (m : OrderedMap K V) : List K := m.entries.map Prod.fst

def values (m : OrderedMap K V) : List V := m.entries.map Prod.snd

def replace (k : K) (v : V) (l : List (K × V)) : List (K × V) :=
  l.map fun e => if e.1 = k then (k, v) else e

theorem replace_keys (k : K) (v : V) (l : List (K × V)) :
    (replace k v l).map Prod.fst = l.map Prod.fst := by
  rw [replace, List.map_map]
  refine List.map_congr_left fun e _ => ?_
  by_cases h : e.1 = k
  · simp [h]
  · simp [h]

/-- The map after `put(k, v)`; `put` itself answers the old value, which is `get k` before it. -/
def put (m : OrderedMap K V) (k : K) (v : V) : OrderedMap K V :=
  if h : k ∈ m.keys then
    ⟨replace k v m.entries, by rw [replace_keys]; exact m.nodup⟩
  else
    ⟨m.entries ++ [(k, v)], by
      rw [List.map_append, List.nodup_append]
      refine ⟨m.nodup, List.nodup_singleton k, ?_⟩
      intro a ha b hb
      rw [List.map_singleton, List.mem_singleton] at hb
      subst hb
      exact fun hab => h (hab ▸ ha)⟩

def mapValues {W : Type} (f : V → W) (m : OrderedMap K V) : OrderedMap K W where
  entries := m.entries.map fun e => (e.1, f e.2)
  nodup := by
    rw [List.map_map]
    exact m.nodup

theorem get_mapValues {W : Type} (f : V → W) (m : OrderedMap K V) (k : K) :
    (m.mapValues f).get k = (m.get k).map f := lookup_map_snd f k m.entries

theorem get_eq_some_iff (m : OrderedMap K V) (k : K) (v : V) :
    m.get k = some v ↔ (k, v) ∈ m.entries := lookup_eq_some_iff m.nodup k v

theorem get_isSome_iff (m : OrderedMap K V) (k : K) : (m.get k).isSome ↔ k ∈ m.keys :=
  lookup_isSome_iff m.entries k

theorem put_entries_of_new {m : OrderedMap K V} {k : K} (h : k ∉ m.keys) (v : V) :
    (m.put k v).entries = m.entries ++ [(k, v)] := by
  rw [put, dif_neg h]

theorem lookup_replace_of_ne {k a : K} (h : a ≠ k) (v : V) (l : List (K × V)) :
    (replace k v l).lookup a = l.lookup a := by
  induction l with
  | nil => rfl
  | cons e l ih =>
    obtain ⟨b, w⟩ := e
    rw [replace, List.map_cons, ← replace]
    by_cases hb : b = k
    · subst hb
      rw [if_pos rfl, lookup_cons_of_ne h, lookup_cons_of_ne h, ih]
    · rw [if_neg hb, List.lookup_cons, List.lookup_cons, ih]

theorem get_put_self (m : OrderedMap K V) (k : K) (v : V) : (m.put k v).get k = some v := by
  rw [get_eq_some_iff]
  unfold put
  split
  next h =>
    obtain ⟨e, he, hk⟩ := List.mem_map.mp h
    exact List.mem_map.mpr ⟨e, he, by rw [if_pos hk]⟩
  next h => simp

theorem get_put_of_ne {m : OrderedMap K V} {k a : K} {v : V} (h : a ≠ k) :
    (m.put k v).get a = m.get a := by
  unfold put get
  split
  · exact lookup_replace_of_ne h v m.entries
  · rw [List.lookup_append, lookup_cons_of_ne h, List.lookup_nil, Option.or_none]

/-- Folding items into a map: what stands under a key comes from the items of that key. -/
theorem get_foldl_put {A : Type} (key : A → K) (update : Option V → A → V) (l : List A)
    (m : OrderedMap K V) (k : K) :
    (l.foldl (fun m a => m.put (key a) (update (m.get (key a)) a)) m).get k =
      (l.filter fun a => key a = k).foldl (fun o a => some (update o a)) (m.get k) := by
  induction l generalizing m with
  | nil => rfl
  | cons a l ih =>
    rw [List.foldl_cons, ih]
    by_cases hk : key a = k
    · rw [List.filter_cons_of_pos (by simp [hk]), List.foldl_cons, hk, get_put_self]
    · rw [List.filter_cons_of_neg (by simp [hk]), get_put_of_ne (Ne.symm hk)]

theorem mem_put {m : OrderedMap K V} {k : K} {v : V} {e : K × V} (h : e ∈ (m.put k v).entries) :
    e ∈ m.entries ∨ e = (k, v) := by
  unfold put at h
  split at h
  · obtain ⟨x, hx, rfl⟩ := List.mem_map.mp h
    by_cases hk : x.1 = k
    · simp [hk]
    · simp [hk, hx]
  · simpa using h

end OrderedMap

end QueryEngine.Library
