import QueryEngine.Proof.Format.RoundTrip

/-! # Values of later versions

A field is known by its number alone, so a reader does not mind where it stands, and passes over
those it does not know. Two fields with different numbers commute, a field without an arm changes
nothing, and the loop over a struct is a fold of such events.
-/
namespace QueryEngine.ParquetParser
open Library Library.Thrift
set_option autoImplicit false
set_option maxHeartbeats 250000

variable {rt : Runtime}

/-! ## One field of a struct -/

/-- Fields with different numbers go to different variables. -/
theorem Fields.stores_commute {ids : List Int16} {L R : Type} : (fields : Fields ids L R) →
    ∀ {k k' : Int16} {w w' : Wire} {s s₁ s₂ : L}, k ≠ k' → fields.Stores rt k w s (.ok s₁) →
    fields.Stores rt k' w' s₁ (.ok s₂) →
    ∃ t, fields.Stores rt k' w' s (.ok t) ∧ fields.Stores rt k w t (.ok s₂)
  | .nil, _, _, _, _, _, _, _, _, h, _ => h.elim
  | .field id _ _ serial rest _, k, k', w, w', (slot, locals), s₁, s₂, hne, h, h' => by
    rw [Fields.Stores] at h
    split at h
    · rename_i hk
      obtain ⟨value, hvalue, heq⟩ := h
      obtain ⟨v, rfl, rfl⟩ := map_eq_ok heq.symm
      rw [Fields.Stores, if_neg (hk ▸ hne.symm)] at h'
      obtain ⟨stored, hstored, heq'⟩ := h'
      obtain ⟨locals', rfl, rfl⟩ := map_eq_ok heq'.symm
      refine ⟨(slot, locals'), ?_, ?_⟩
      · rw [Fields.Stores, if_neg (hk ▸ hne.symm)]
        exact ⟨.ok locals', hstored, rfl⟩
      · rw [Fields.Stores, if_pos hk]
        exact ⟨.ok v, hvalue, rfl⟩
    · rename_i hk
      obtain ⟨stored, hstored, heq⟩ := h
      obtain ⟨locals', rfl, rfl⟩ := map_eq_ok heq.symm
      rw [Fields.Stores] at h'
      split at h'
      · rename_i hk'
        obtain ⟨value, hvalue, heq'⟩ := h'
        obtain ⟨v, rfl, rfl⟩ := map_eq_ok heq'.symm
        refine ⟨(some v, locals), ?_, ?_⟩
        · rw [Fields.Stores, if_pos hk']
          exact ⟨.ok v, hvalue, rfl⟩
        · rw [Fields.Stores, if_neg hk]
          exact ⟨.ok locals', hstored, rfl⟩
      · rename_i hk'
        obtain ⟨stored', hstored', heq'⟩ := h'
        obtain ⟨locals'', rfl, rfl⟩ := map_eq_ok heq'.symm
        obtain ⟨t, ht, ht'⟩ := rest.stores_commute hne hstored hstored'
        refine ⟨(slot, t), ?_, ?_⟩
        · rw [Fields.Stores, if_neg hk']
          exact ⟨.ok t, ht, rfl⟩
        · rw [Fields.Stores, if_neg hk]
          exact ⟨.ok locals'', ht', rfl⟩

theorem Fields.step_unknown {ids : List Int16} {L R : Type} (fields : Fields ids L R)
    {f : Int16 × Wire} (hf : f.1 ∉ ids) {s : L} {r : Except Fault L} :
    fields.Step (fields.Stores rt) f s r ↔ Wire.SkippableField f ∧ r = .ok s := by
  constructor
  · rintro (h | ⟨-, hskip, rfl⟩)
    · exact absurd (fields.id_mem_of_stores h) hf
    · exact ⟨hskip, rfl⟩
  · rintro ⟨hskip, rfl⟩
    exact Or.inr ⟨hf, hskip, rfl⟩

theorem Fields.step_known {ids : List Int16} {L R : Type} (fields : Fields ids L R)
    {f : Int16 × Wire} (hf : f.1 ∈ ids) {s : L} {r : Except Fault L} :
    fields.Step (fields.Stores rt) f s r ↔ fields.Stores rt f.1 f.2 s r := by
  constructor
  · rintro (h | ⟨hunknown, -, -⟩)
    · exact h
    · exact absurd hf hunknown
  · exact Or.inl

theorem Fields.step_commute {ids : List Int16} {L R : Type} (fields : Fields ids L R)
    {f g : Int16 × Wire} (h : f.1 ∈ ids → g.1 ∈ ids → f.1 ≠ g.1) :
    Folds.Commute (fields.Step (fields.Stores rt)) f g := by
  intro s s₁ s₂ hf hg
  by_cases hfk : f.1 ∈ ids
  · by_cases hgk : g.1 ∈ ids
    · rw [fields.step_known hfk] at hf
      rw [fields.step_known hgk] at hg
      obtain ⟨t, ht, ht'⟩ := fields.stores_commute (h hfk hgk) hf hg
      exact ⟨t, Or.inl ht, Or.inl ht'⟩
    · obtain ⟨hskip, heq⟩ := (fields.step_unknown hgk).mp hg
      obtain rfl := Except.ok.inj heq
      exact ⟨s, Or.inr ⟨hgk, hskip, rfl⟩, hf⟩
  · obtain ⟨hskip, heq⟩ := (fields.step_unknown hfk).mp hf
    obtain rfl := Except.ok.inj heq
    exact ⟨s₂, hg, Or.inr ⟨hfk, hskip, rfl⟩⟩

/-! ## Numbers that a table does not have -/

theorem Fields.laterAt_unknown {ids : List Int16} {L R : Type} : (fields : Fields ids L R) →
    ∀ {k : Int16} {w w' : Wire}, k ∉ ids → fields.LaterAt k w w' → w' = w
  | .nil, _, _, _, _, h => h.symm
  | .field id _ _ _ rest _, k, _, _, hk, h => by
    rw [List.mem_cons, not_or] at hk
    rw [Fields.LaterAt, if_neg hk.1] at h
    exact rest.laterAt_unknown hk.2 h

theorem Variants.laterAt_unknown {υ : Type} {ids : List Int16} {guards : List (υ → Bool)} :
    (variants : Variants υ ids guards) → ∀ {k : Int16} {w w' : Wire}, k ∉ ids →
    variants.LaterAt k w w' → w' = w
  | .nil, _, _, _, _, h => h.symm
  | .variant id _ _ _ _ rest _ _, k, _, _, hk, h => by
    rw [List.mem_cons, not_or] at hk
    rw [Variants.LaterAt, if_neg hk.1] at h
    exact rest.laterAt_unknown hk.2 h

/-! ## All fields of a struct -/

theorem map_fst_of_forall₂ {R : Int16 → Wire → Wire → Prop} {ws ws' : List (Int16 × Wire)}
    (h : List.Forall₂ (fun f f' => f'.1 = f.1 ∧ R f.1 f.2 f'.2) ws ws') :
    ws'.map Prod.fst = ws.map Prod.fst := by
  induction h with
  | nil => rfl
  | cons hf _ ih => rw [List.map_cons, List.map_cons, hf.1, ih]

theorem Fields.folds_evolves {ids : List Int16} {L R : Type} (fields : Fields ids L R)
    (hlater : ∀ {k : Int16} {w w' : Wire} {s s' : L}, fields.Stores rt k w s (.ok s') →
      fields.LaterAt k w w' → fields.Stores rt k w' s (.ok s'))
    (hsame : ∀ {k : Int16} {w w' : Wire}, k ∉ ids → fields.LaterAt k w w' → w' = w)
    {ws ws' : List (Int16 × Wire)} {s s' : L} (hnodup : (ws.map Prod.fst).Nodup)
    (hevolves : fields.Evolves fields.LaterAt ws ws')
    (h : Folds (fields.Step (fields.Stores rt)) ws s (.ok s')) :
    Folds (fields.Step (fields.Stores rt)) ws' s (.ok s') := by
  obtain ⟨kept, added, hkept, hadded, hperm⟩ := hevolves
  have hids : (kept.map Prod.fst).Nodup := by
    rw [map_fst_of_forall₂ hkept]
    exact hnodup
  have hrewritten : Folds (fields.Step (fields.Stores rt)) kept s (.ok s') := by
    refine h.forall₂ (R := fun f f' => f'.1 = f.1 ∧ fields.LaterAt f.1 f.2 f'.2) ?_ hkept
    rintro ⟨k, w⟩ ⟨k', w'⟩ t t' ⟨rfl, hw⟩ (hstores | ⟨hunknown, hskip, heq⟩)
    · exact Or.inl (hlater hstores hw)
    · obtain rfl := hsame hunknown hw
      exact Or.inr ⟨hunknown, hskip, heq⟩
  have hextended : Folds (fields.Step (fields.Stores rt)) (kept ++ added) s (.ok s') :=
    hrewritten.append (Folds.of_forall_idle
      (fun f hf t => (fields.step_unknown (hadded f hf).1).mpr ⟨(hadded f hf).2, rfl⟩) s')
  refine hextended.perm hperm.symm (List.pairwise_append.mpr ⟨?_, ?_, ?_⟩)
  · refine (List.pairwise_map.mp hids).imp fun hne => ⟨?_, ?_⟩
    · exact fields.step_commute fun _ _ => hne
    · exact fields.step_commute fun _ _ => hne.symm
  · refine List.pairwise_of_forall_mem_list fun f hf g hg => ⟨?_, ?_⟩
    · exact fields.step_commute fun hmem => absurd hmem (hadded f hf).1
    · exact fields.step_commute fun hmem => absurd hmem (hadded g hg).1
  · refine fun f hf g hg => ⟨?_, ?_⟩
    · exact fields.step_commute fun _ hmem => absurd hmem (hadded g hg).1
    · exact fields.step_commute fun hmem => absurd hmem (hadded g hg).1

/-! ## One field of a union -/

theorem Variants.step_later {υ : Type} {ids : List Int16} {guards : List (υ → Bool)}
    (variants : Variants υ ids guards)
    (hlater : ∀ {k : Int16} {w w' : Wire} {u : υ}, variants.Picks rt k w (.ok u) →
      variants.LaterAt k w w' → variants.Picks rt k w' (.ok u))
    (hsame : ∀ {k : Int16} {w w' : Wire}, k ∉ ids → variants.LaterAt k w w' → w' = w)
    {f f' : Int16 × Wire} {s s' : Option υ × Int32}
    (hf : f'.1 = f.1 ∧ variants.LaterAt f.1 f.2 f'.2)
    (h : variants.Step rt (variants.Picks rt) f s (.ok s')) :
    variants.Step rt (variants.Picks rt) f' s (.ok s') := by
  obtain ⟨k, w⟩ := f
  obtain ⟨k', w'⟩ := f'
  obtain ⟨rfl, hw⟩ := hf
  rcases h with ⟨picked, hpicks, heq⟩ | ⟨hunknown, hskip, heq⟩
  · obtain ⟨u, rfl, -⟩ := bind_eq_ok heq.symm
    exact Or.inl ⟨.ok u, hlater hpicks hw, heq⟩
  · obtain rfl := hsame hunknown hw
    exact Or.inr ⟨hunknown, hskip, heq⟩

/-! ## Any value -/

mutual

theorem Serial.decodes_later {α : Type} : (serial : Serial α) → ∀ {w w' : Wire} {a : α},
    serial.Decodes rt w (.ok a) → serial.Later w w' → serial.Decodes rt w' (.ok a)
  | .bool, _, _, _, h, hw => hw ▸ h
  | .i8, _, _, _, h, hw => hw ▸ h
  | .i16, _, _, _, h, hw => hw ▸ h
  | .i32, _, _, _, h, hw => hw ▸ h
  | .i64, _, _, _, h, hw => hw ▸ h
  | .double, _, _, _, h, hw => hw ▸ h
  | .string, _, _, _, h, hw => hw ▸ h
  | .bytes, _, _, _, h, hw => hw ▸ h
  | .enumeration _ _ _, _, _, _, h, hw => hw ▸ h
  | .vec _ elem, _, _, _, h, hw => by
    obtain ⟨ty, ws, ws', rfl, rfl, hws⟩ := hw
    obtain ⟨_, _, heq, hlen, hcollects⟩ := h
    cases heq
    refine ⟨ty, ws', rfl, ?_, ?_⟩
    · rw [← hws.length_eq]
      exact hlen
    · exact hcollects.forall₂ (fun _ _ _ hlater hv => elem.decodes_later hv hlater) hws
  | .marker _ _ _, _, _, _, h, hw => by
    obtain ⟨ws, ws', rfl, rfl, hws⟩ := hw
    obtain ⟨_, -, -, heq⟩ := h
    exact ⟨ws', rfl, hws, heq⟩
  | .struct _ fields _ _ _, _, _, _, h, hw => by
    obtain ⟨ws, ws', rfl, rfl, hnodup, hevolves⟩ := hw
    obtain ⟨_, stored, heq, hfolds, hresult⟩ := h
    cases heq
    obtain ⟨r, hr, -⟩ := map_eq_ok hresult.symm
    obtain ⟨locals, rfl, -⟩ := bind_eq_ok hr
    exact ⟨ws', _, rfl, fields.folds_evolves (fun hs hw => fields.stores_later hs hw)
      (fun hk hw => fields.laterAt_unknown hk hw) hnodup hevolves hfolds, hresult⟩
  | .union _ variants _, _, _, _, h, hw => by
    obtain ⟨ws, ws', rfl, rfl, hws⟩ := hw
    obtain ⟨_, received, heq, hfolds, hresult⟩ := h
    cases heq
    obtain ⟨locals, rfl, -⟩ := bind_eq_ok hresult.symm
    refine ⟨ws', _, rfl, hfolds.forall₂ ?_ hws, hresult⟩
    intro f f' s s' hf hstep
    exact variants.step_later (fun hp hw => variants.picks_later hp hw)
      (fun hk hw => variants.laterAt_unknown hk hw) hf hstep

theorem Fields.stores_later {ids : List Int16} {L R : Type} : (fields : Fields ids L R) →
    ∀ {k : Int16} {w w' : Wire} {s s' : L}, fields.Stores rt k w s (.ok s') →
    fields.LaterAt k w w' → fields.Stores rt k w' s (.ok s')
  | .nil, _, _, _, _, _, h, _ => h.elim
  | .field id _ _ serial rest _, k, w, w', (slot, locals), _, h, hw => by
    rw [Fields.Stores] at h ⊢
    rw [Fields.LaterAt] at hw
    by_cases hk : k = id
    · rw [if_pos hk] at h hw ⊢
      obtain ⟨value, hvalue, heq⟩ := h
      obtain ⟨v, rfl, -⟩ := map_eq_ok heq.symm
      exact ⟨.ok v, serial.decodes_later hvalue hw, heq⟩
    · rw [if_neg hk] at h hw ⊢
      obtain ⟨stored, hstored, heq⟩ := h
      obtain ⟨s', rfl, -⟩ := map_eq_ok heq.symm
      exact ⟨.ok s', rest.stores_later hstored hw, heq⟩

theorem Variants.picks_later {υ : Type} {ids : List Int16} {guards : List (υ → Bool)} :
    (variants : Variants υ ids guards) → ∀ {k : Int16} {w w' : Wire} {u : υ},
    variants.Picks rt k w (.ok u) → variants.LaterAt k w w' → variants.Picks rt k w' (.ok u)
  | .nil, _, _, _, _, h, _ => h.elim
  | .variant id _ serial inject _ rest _ _, k, w, w', _, h, hw => by
    rw [Variants.Picks] at h ⊢
    rw [Variants.LaterAt] at hw
    by_cases hk : k = id
    · rw [if_pos hk] at h hw ⊢
      obtain ⟨value, hvalue, heq⟩ := h
      obtain ⟨v, rfl, -⟩ := map_eq_ok heq.symm
      exact ⟨.ok v, serial.decodes_later hvalue hw, heq⟩
    · rw [if_neg hk] at h hw ⊢
      exact rest.picks_later h hw

end

/-! ## Values of this version -/

theorem Variants.id_mem {υ : Type} {ids : List Int16} {guards : List (υ → Bool)} :
    (variants : Variants υ ids guards) → ∀ {u : υ}, ∀ f ∈ variants.encode u, f.1 ∈ ids
  | .nil, _, _, h => by cases h
  | .variant id _ _ _ project rest _ _, u, f, h => by
    rw [Variants.encode] at h
    cases hproject : project u with
    | none =>
      rw [hproject] at h
      exact List.mem_cons_of_mem id (rest.id_mem f h)
    | some value =>
      rw [hproject] at h
      rw [List.mem_singleton.mp h]
      exact List.mem_cons_self

mutual

/-- What is written may be what a later version writes. -/
theorem Serial.later_refl {α : Type} : (serial : Serial α) → ∀ a : α,
    serial.Later (serial.encode a) (serial.encode a)
  | .bool, _ => rfl
  | .i8, _ => rfl
  | .i16, _ => rfl
  | .i32, _ => rfl
  | .i64, _ => rfl
  | .double, _ => rfl
  | .string, _ => rfl
  | .bytes, _ => rfl
  | .enumeration _ _ _, _ => rfl
  | .vec _ elem, xs => by
    refine ⟨elem.ttype, _, _, rfl, rfl, List.forall₂_same.mpr fun w hw => ?_⟩
    obtain ⟨x, -, rfl⟩ := List.mem_map.mp hw
    exact elem.later_refl x
  | .marker _ _ _, _ => ⟨[], [], rfl, rfl, List.forall_mem_nil _⟩
  | .struct _ fields view _ _, a => by
    refine ⟨_, _, rfl, rfl, fields.encode_nodup (view a), _, [], List.forall₂_same.mpr ?_,
      List.forall_mem_nil _, by rw [List.append_nil]⟩
    exact fun f hf => ⟨rfl, fields.laterAt_encode (view a) f hf⟩
  | .union _ variants _, a =>
    ⟨_, _, rfl, rfl, List.forall₂_same.mpr fun f hf => ⟨rfl, variants.laterAt_encode a f hf⟩⟩

theorem Fields.laterAt_encode {ids : List Int16} {L R : Type} : (fields : Fields ids L R) →
    ∀ values : R, ∀ f ∈ fields.encode values, fields.LaterAt f.1 f.2 f.2
  | .nil, _, _, h => by cases h
  | .field id name presence serial rest fresh, (stored, values), f, h => by
    have hrest : f ∈ rest.encode values → (Fields.field id name presence serial rest fresh).LaterAt
        f.1 f.2 f.2 := by
      intro hf
      rw [Fields.LaterAt, if_neg fun (hid : f.1 = id) => fresh.2 (hid ▸ rest.id_mem f hf)]
      exact rest.laterAt_encode values f hf
    rw [Fields.encode] at h
    cases hpresent : presence.present stored with
    | none =>
      rw [hpresent] at h
      exact hrest h
    | some value =>
      rw [hpresent] at h
      rcases List.mem_cons.mp h with rfl | h
      · rw [Fields.LaterAt, if_pos rfl]
        exact serial.later_refl value
      · exact hrest h

theorem Variants.laterAt_encode {υ : Type} {ids : List Int16} {guards : List (υ → Bool)} :
    (variants : Variants υ ids guards) → ∀ u : υ, ∀ f ∈ variants.encode u,
    variants.LaterAt f.1 f.2 f.2
  | .nil, _, _, h => by cases h
  | .variant id _ serial _ project rest _ fresh, u, f, h => by
    rw [Variants.encode] at h
    cases hproject : project u with
    | none =>
      rw [hproject] at h
      rw [Variants.LaterAt, if_neg fun (hid : f.1 = id) => fresh.2 (hid ▸ rest.id_mem f h)]
      exact rest.laterAt_encode u f h
    | some value =>
      rw [hproject] at h
      rw [List.mem_singleton.mp h, Variants.LaterAt, if_pos rfl]
      exact serial.later_refl value

end

end QueryEngine.ParquetParser
