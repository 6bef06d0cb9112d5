import QueryEngine.Proof.Format.Acceptance

/-! # When a generated reader panics

A generated reader holds three places that may panic: a required variable that is expected to be
set, a counter that may overflow, and the value of a union. Only the last is ever reached: it is,
whenever a union comes with one field whose number the table does not have.
-/
namespace QueryEngine.ParquetParser
open Library Library.Thrift
set_option autoImplicit false
set_option maxHeartbeats 250000

variable {rt : Runtime}

/-! ## Lone unknown fields -/

mutual

/-- Somewhere in the value, a union that the table knows holds one field which it does not. -/
def Serial.LoneUnknown {α : Type} : Serial α → Wire → Prop
  | .vec _ elem, w => ∃ ty ws, w = .sequence .list ty ws ∧ ∃ v ∈ ws, elem.LoneUnknown v
  | .struct _ fields _ _ _, w => ∃ ws, w = .struct ws ∧ ∃ f ∈ ws, fields.LoneUnknownAt f.1 f.2
  | @Serial.union _ ids _ _ variants _, w => ∃ ws, w = .struct ws ∧
      ((∃ f, ws = [f] ∧ f.1 ∉ ids) ∨ ∃ f ∈ ws, variants.LoneUnknownAt f.1 f.2)
  | _, _ => False

def Fields.LoneUnknownAt {ids : List Int16} {L R : Type} : Fields ids L R → Int16 → Wire → Prop
  | .nil, _, _ => False
  | .field id _ _ serial rest _, k, w =>
      if k = id then serial.LoneUnknown w else rest.LoneUnknownAt k w

def Variants.LoneUnknownAt {υ : Type} {ids : List Int16} {guards : List (υ → Bool)} :
    Variants υ ids guards → Int16 → Wire → Prop
  | .nil, _, _ => False
  | .variant id _ serial _ _ rest _ _, k, w =>
      if k = id then serial.LoneUnknown w else rest.LoneUnknownAt k w

end

/-- The errors that a generated reader makes itself. -/
def Refused (rt : Runtime) (e : Fault) : Prop :=
  (∃ path, e = .error (rt.missingRequiredField path)) ∨
  (∃ name, e = .error (.protocol .invalidData ("received empty union from remote " ++ name))) ∨
  ∃ name, e = .error (.protocol .invalidData
    ("received multiple fields for union from remote " ++ name))

/-! ## Unions -/

theorem Variants.step_outcome {υ : Type} {ids : List Int16} {guards : List (υ → Bool)}
    (variants : Variants υ ids guards) {f : Int16 × Wire} {ret : Option υ} {n : ℕ}
    {r : Except Fault (Option υ × Int32)} (hn : n + 1 < 2 ^ 31)
    (h : variants.Step rt (variants.Picks rt) f (ret, Int32.ofNat n) r) :
    (∃ u, r = .ok (ret.or (some u), Int32.ofNat (n + 1))) ∨
      (f.1 ∉ ids ∧ r = .ok (ret, Int32.ofNat (n + 1))) ∨
      ∃ e, r = .error e ∧ variants.Picks rt f.1 f.2 (.error e) := by
  rcases h with ⟨picked, hpicks, rfl⟩ | ⟨hid, -, rfl⟩
  · cases picked with
    | ok u =>
      refine Or.inl ⟨u, ?_⟩
      rw [countField_ofNat rt hn]
      rfl
    | error e => exact Or.inr (Or.inr ⟨e, rfl, hpicks⟩)
  · refine Or.inr (Or.inl ⟨hid, ?_⟩)
    rw [countField_ofNat rt hn]
    rfl

/-- The counter never overflows, and a value is kept unless every field was unknown. -/
theorem Variants.folds_outcome {υ : Type} {ids : List Int16} {guards : List (υ → Bool)}
    (variants : Variants υ ids guards) {ws : List (Int16 × Wire)} {ret : Option υ} {n : ℕ}
    {r : Except Fault (Option υ × Int32)}
    (h : Folds (variants.Step rt (variants.Picks rt)) ws (ret, Int32.ofNat n) r)
    (hn : n + ws.length < 2 ^ 31) :
    (∃ ret', r = .ok (ret', Int32.ofNat (n + ws.length)) ∧
      (ret' = none → ret = none ∧ ∀ f ∈ ws, f.1 ∉ ids)) ∨
      ∃ e, r = .error e ∧ ∃ f ∈ ws, variants.Picks rt f.1 f.2 (.error e) := by
  induction ws generalizing ret n with
  | nil =>
    cases h
    exact Or.inl ⟨ret, rfl, fun hret => ⟨hret, fun _ hf => absurd hf List.not_mem_nil⟩⟩
  | cons f ws ih =>
    rw [List.length_cons] at hn
    have hlen : n + 1 + ws.length = n + (f :: ws).length := by
      rw [List.length_cons]
      omega
    cases h with
    | next first rest =>
      rcases variants.step_outcome (by omega) first with ⟨u, heq⟩ | ⟨hid, heq⟩ | ⟨e, heq, -⟩
      · obtain rfl := Except.ok.inj heq
        rcases ih rest (by omega) with ⟨ret', hr, hnone⟩ | ⟨e, hr, g, hg, hpicks⟩
        · refine Or.inl ⟨ret', hlen ▸ hr, fun hret => ?_⟩
          have hor := (hnone hret).1
          cases ret <;> cases hor
        · exact Or.inr ⟨e, hr, g, List.mem_cons_of_mem f hg, hpicks⟩
      · obtain rfl := Except.ok.inj heq
        rcases ih rest (by omega) with ⟨ret', hr, hnone⟩ | ⟨e, hr, g, hg, hpicks⟩
        · refine Or.inl ⟨ret', hlen ▸ hr, fun hret => ⟨(hnone hret).1, fun g hg => ?_⟩⟩
          rcases List.mem_cons.mp hg with rfl | hg
          · exact hid
          · exact (hnone hret).2 g hg
        · exact Or.inr ⟨e, hr, g, List.mem_cons_of_mem f hg, hpicks⟩
      · cases heq
    | stop first =>
      rcases variants.step_outcome (by omega) first with ⟨u, heq⟩ | ⟨hid, heq⟩ | ⟨e, heq, hpicks⟩
      · cases heq
      · cases heq
      · exact Or.inr ⟨e, heq, f, List.mem_cons_self, hpicks⟩

theorem unionResult_error {υ : Type} {name : String} {ret : Option υ} {n : ℕ} {e : Fault}
    (hn : n < 2 ^ 31) (h : unionResult name (ret, Int32.ofNat n) = .error e) :
    Refused rt e ∨
      (n = 1 ∧ ret = none ∧ e = .panic "return value should have been constructed") := by
  match n with
  | 0 =>
    obtain rfl := Except.error.inj h
    exact Or.inl (Or.inr (Or.inl ⟨name, rfl⟩))
  | 1 =>
    cases ret with
    | none =>
      obtain rfl := Except.error.inj h
      exact Or.inr ⟨rfl, rfl, rfl⟩
    | some u => cases h
  | n + 2 =>
    rw [unionResult_many name ret (Nat.le_add_left 2 n) hn] at h
    obtain rfl := Except.error.inj h
    exact Or.inl (Or.inr (Or.inr ⟨name, rfl⟩))

/-! ## Errors -/

theorem width_of_mem {ws : List (Int16 × Wire)} {f : Int16 × Wire} {n : ℕ} (hf : f ∈ ws)
    (h : (Wire.struct ws).width < n) : f.2.width < n :=
  Nat.lt_of_le_of_lt (Nat.le_trans (Wire.width_le_of_mem_fields hf) (Nat.le_max_right _ _)) h

mutual

/-- **What fails to be read is refused, or holds a lone unknown field of a union.** -/
theorem Serial.decodes_error {α : Type} : (serial : Serial α) → ∀ {w : Wire} {e : Fault},
    serial.Decodes rt w (.error e) → w.width < 2 ^ 31 → Refused rt e ∨
      (e = .panic "return value should have been constructed" ∧ serial.LoneUnknown w)
  | .bool, _, _, ⟨_, _, h⟩, _ => nomatch h
  | .i8, _, _, ⟨_, _, h⟩, _ => nomatch h
  | .i16, _, _, ⟨_, _, h⟩, _ => nomatch h
  | .i32, _, _, ⟨_, _, h⟩, _ => nomatch h
  | .i64, _, _, ⟨_, _, h⟩, _ => nomatch h
  | .double, _, _, ⟨_, _, h⟩, _ => nomatch h
  | .string, _, _, ⟨_, _, h⟩, _ => nomatch h
  | .bytes, _, _, ⟨_, _, h⟩, _ => nomatch h
  | .enumeration _ _ _, _, _, h, _ => by
    obtain ⟨_, _, h⟩ := h
    cases h
  | .vec _ elem, _, _, h, hw => by
    obtain ⟨ty, ws, rfl, -, hcollects⟩ := h
    obtain ⟨v, hv, hvalue⟩ := hcollects.failing
    rcases elem.decodes_error hvalue
      (Nat.lt_of_le_of_lt (Wire.width_le_of_mem_elems hv) hw) with hrefused | ⟨he, hlone⟩
    · exact Or.inl hrefused
    · exact Or.inr ⟨he, ty, ws, rfl, v, hv, hlone⟩
  | .marker _ _ _, _, _, h, _ => by
    obtain ⟨_, _, _, h⟩ := h
    cases h
  | .struct _ fields _ _ _, _, _, h, hw => by
    obtain ⟨ws, stored, rfl, hfolds, hresult⟩ := h
    rcases bind_eq_error (map_eq_error hresult.symm) with rfl | ⟨s, rfl, hfinish⟩
    · obtain ⟨f, hf, s, hstores | ⟨-, -, heq⟩⟩ := hfolds.failing
      · rcases fields.stores_error hstores (width_of_mem hf hw) with hrefused | ⟨he, hlone⟩
        · exact Or.inl hrefused
        · exact Or.inr ⟨he, ws, rfl, f, hf, hlone⟩
      · cases heq
    · rcases fields.finish_outcome rt s with ⟨path, -, hmissing⟩ | ⟨-, values, hvalues⟩
      · rw [hfinish] at hmissing
        exact Or.inl (Or.inl ⟨path, Except.error.inj hmissing⟩)
      · rw [hfinish] at hvalues
        cases hvalues
  | .union _ variants _, _, _, h, hw => by
    obtain ⟨ws, received, rfl, hfolds, hresult⟩ := h
    have hlen : 0 + ws.length < 2 ^ 31 := by
      rw [Nat.zero_add]
      exact Nat.lt_of_le_of_lt (Nat.le_max_left _ _) hw
    rcases variants.folds_outcome (n := 0) hfolds hlen with
      ⟨ret, rfl, hnone⟩ | ⟨e', rfl, f, hf, hpicks⟩
    · rcases unionResult_error hlen hresult.symm with hrefused | ⟨hone, hret, he⟩
      · exact Or.inl hrefused
      · rw [Nat.zero_add] at hone
        obtain ⟨f, rfl⟩ := List.length_eq_one_iff.mp hone
        exact Or.inr ⟨he, [f], rfl, Or.inl ⟨f, rfl, (hnone hret).2 f List.mem_cons_self⟩⟩
    · obtain rfl := Except.error.inj hresult
      rcases variants.picks_error hpicks (width_of_mem hf hw) with hrefused | ⟨he, hlone⟩
      · exact Or.inl hrefused
      · exact Or.inr ⟨he, ws, rfl, Or.inr ⟨f, hf, hlone⟩⟩

theorem Fields.stores_error {ids : List Int16} {L R : Type} : (fields : Fields ids L R) →
    ∀ {k : Int16} {w : Wire} {s : L} {e : Fault}, fields.Stores rt k w s (.error e) →
    w.width < 2 ^ 31 → Refused rt e ∨
      (e = .panic "return value should have been constructed" ∧ fields.LoneUnknownAt k w)
  | .nil, _, _, _, _, h, _ => h.elim
  | .field id _ _ serial rest _, k, _, (_, _), _, h, hw => by
    rw [Fields.Stores] at h
    rw [Fields.LoneUnknownAt]
    by_cases hk : k = id
    · rw [if_pos hk] at h ⊢
      obtain ⟨value, hvalue, heq⟩ := h
      rw [map_eq_error heq.symm] at hvalue
      exact serial.decodes_error hvalue hw
    · rw [if_neg hk] at h ⊢
      obtain ⟨stored, hstored, heq⟩ := h
      rw [map_eq_error heq.symm] at hstored
      exact rest.stores_error hstored hw

theorem Variants.picks_error {υ : Type} {ids : List Int16} {guards : List (υ → Bool)} :
    (variants : Variants υ ids guards) → ∀ {k : Int16} {w : Wire} {e : Fault},
    variants.Picks rt k w (.error e) → w.width < 2 ^ 31 → Refused rt e ∨
      (e = .panic "return value should have been constructed" ∧ variants.LoneUnknownAt k w)
  | .nil, _, _, _, h, _ => h.elim
  | .variant id _ serial _ _ rest _ _, k, _, _, h, hw => by
    rw [Variants.Picks] at h
    rw [Variants.LoneUnknownAt]
    by_cases hk : k = id
    · rw [if_pos hk] at h ⊢
      obtain ⟨value, hvalue, heq⟩ := h
      rw [map_eq_error heq.symm] at hvalue
      exact serial.decodes_error hvalue hw
    · rw [if_neg hk] at h ⊢
      exact rest.picks_error h hw

end

/-! ## Values that are read -/

theorem Fields.id_mem_of_loneUnknownAt {ids : List Int16} {L R : Type} :
    (fields : Fields ids L R) → ∀ {k : Int16} {w : Wire}, fields.LoneUnknownAt k w → k ∈ ids
  | .nil, _, _, h => h.elim
  | .field id _ _ _ rest _, k, _, h => by
    rw [Fields.LoneUnknownAt] at h
    split at h
    · rename_i hk
      exact hk ▸ List.mem_cons_self
    · exact List.mem_cons_of_mem id (rest.id_mem_of_loneUnknownAt h)

theorem Variants.id_mem_of_loneUnknownAt {υ : Type} {ids : List Int16}
    {guards : List (υ → Bool)} : (variants : Variants υ ids guards) →
    ∀ {k : Int16} {w : Wire}, variants.LoneUnknownAt k w → k ∈ ids
  | .nil, _, _, h => h.elim
  | .variant id _ _ _ _ rest _ _, k, _, h => by
    rw [Variants.LoneUnknownAt] at h
    split at h
    · rename_i hk
      exact hk ▸ List.mem_cons_self
    · exact List.mem_cons_of_mem id (rest.id_mem_of_loneUnknownAt h)

mutual

/-- **No value with a lone unknown field of a union is ever read.** -/
theorem Serial.not_loneUnknown_of_decodes {α : Type} : (serial : Serial α) → ∀ {w : Wire} {a : α},
    serial.Decodes rt w (.ok a) → ¬ serial.LoneUnknown w
  | .bool, _, _, _, hlone => hlone
  | .i8, _, _, _, hlone => hlone
  | .i16, _, _, _, hlone => hlone
  | .i32, _, _, _, hlone => hlone
  | .i64, _, _, _, hlone => hlone
  | .double, _, _, _, hlone => hlone
  | .string, _, _, _, hlone => hlone
  | .bytes, _, _, _, hlone => hlone
  | .enumeration _ _ _, _, _, _, hlone => hlone
  | .vec _ elem, _, _, h, hlone => by
    obtain ⟨ty, ws, rfl, -, hcollects⟩ := h
    obtain ⟨_, _, heq, v, hv, hlone⟩ := hlone
    cases heq
    obtain ⟨b, hb⟩ := hcollects.each hv
    exact elem.not_loneUnknown_of_decodes hb hlone
  | .marker _ _ _, _, _, _, hlone => hlone
  | .struct _ fields _ _ _, _, _, h, hlone => by
    obtain ⟨ws, stored, rfl, hfolds, hresult⟩ := h
    obtain ⟨_, heq, f, hf, hlone⟩ := hlone
    cases heq
    obtain ⟨r, hr, -⟩ := map_eq_ok hresult.symm
    obtain ⟨s, rfl, -⟩ := bind_eq_ok hr
    obtain ⟨s₁, s₂, hstores | ⟨hid, -, -⟩⟩ := hfolds.each hf
    · exact fields.not_loneUnknownAt_of_stores hstores hlone
    · exact hid (fields.id_mem_of_loneUnknownAt hlone)
  | .union _ variants _, _, _, h, hlone => by
    obtain ⟨ws, received, rfl, hfolds, hresult⟩ := h
    obtain ⟨_, heq, hlone⟩ := hlone
    cases heq
    obtain ⟨s, rfl, hs⟩ := bind_eq_ok hresult.symm
    rcases hlone with ⟨f, rfl, hid⟩ | ⟨f, hf, hlone⟩
    · cases hfolds with
      | next first rest =>
        cases rest
        rcases first with ⟨_, hpicks, -⟩ | ⟨-, -, heq⟩
        · exact hid (variants.id_mem_of_picks hpicks)
        · have hone : countField rt 0 = .ok 1 := countField_ofNat rt (n := 0) (by decide)
          rw [hone] at heq
          obtain rfl := Except.ok.inj heq
          cases hs
    · obtain ⟨s₁, s₂, ⟨picked, hpicks, heq⟩ | ⟨hid, -, -⟩⟩ := hfolds.each hf
      · obtain ⟨u, rfl, -⟩ := bind_eq_ok heq.symm
        exact variants.not_loneUnknownAt_of_picks hpicks hlone
      · exact hid (variants.id_mem_of_loneUnknownAt hlone)

theorem Fields.not_loneUnknownAt_of_stores {ids : List Int16} {L R : Type} :
    (fields : Fields ids L R) → ∀ {k : Int16} {w : Wire} {s s' : L},
    fields.Stores rt k w s (.ok s') → ¬ fields.LoneUnknownAt k w
  | .nil, _, _, _, _, h, _ => h.elim
  | .field id _ _ serial rest _, k, _, (_, _), _, h, hlone => by
    rw [Fields.Stores] at h
    rw [Fields.LoneUnknownAt] at hlone
    by_cases hk : k = id
    · rw [if_pos hk] at h hlone
      obtain ⟨value, hvalue, heq⟩ := h
      obtain ⟨v, rfl, -⟩ := map_eq_ok heq.symm
      exact serial.not_loneUnknown_of_decodes hvalue hlone
    · rw [if_neg hk] at h hlone
      obtain ⟨stored, hstored, heq⟩ := h
      obtain ⟨s', rfl, -⟩ := map_eq_ok heq.symm
      exact rest.not_loneUnknownAt_of_stores hstored hlone

theorem Variants.not_loneUnknownAt_of_picks {υ : Type} {ids : List Int16}
    {guards : List (υ → Bool)} : (variants : Variants υ ids guards) →
    ∀ {k : Int16} {w : Wire} {u : υ}, variants.Picks rt k w (.ok u) →
    ¬ variants.LoneUnknownAt k w
  | .nil, _, _, _, h, _ => h.elim
  | .variant id _ serial _ _ rest _ _, k, _, _, h, hlone => by
    rw [Variants.Picks] at h
    rw [Variants.LoneUnknownAt] at hlone
    by_cases hk : k = id
    · rw [if_pos hk] at h hlone
      obtain ⟨value, hvalue, heq⟩ := h
      obtain ⟨v, rfl, -⟩ := map_eq_ok heq.symm
      exact serial.not_loneUnknown_of_decodes hvalue hlone
    · rw [if_neg hk] at h hlone
      exact rest.not_loneUnknownAt_of_picks h hlone

end

end QueryEngine.ParquetParser
