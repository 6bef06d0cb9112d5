import Mathlib.Data.List.Forall2
import QueryEngine.Library.CountedLoop

/-! # Traversing a list with an operation that may raise

`l.mapM f` returns exactly when `f` does on every element, and then element by element.
`l.filterMapM f` drops the elements that `f` maps to nothing: two passes are one pass with the
composition `andThen`, and the lists of a partition can be traversed one by one.
-/
namespace QueryEngine.Library
set_option autoImplicit false
set_option maxHeartbeats 250000

variable {ε α β γ : Type}

theorem mapM_cons_eq (f : α → Except ε β) (a : α) (l : List α) :
    (a :: l).mapM f = (do let b ← f a; let bs ← l.mapM f; pure (b :: bs)) := List.mapM_cons

theorem mapM_ok_iff {f : α → Except ε β} {l : List α} {bs : List β} :
    l.mapM f = .ok bs ↔ List.Forall₂ (fun a b => f a = .ok b) l bs := by
  induction l generalizing bs with
  | nil =>
    rw [List.mapM_nil, pure_eq, List.forall₂_nil_left_iff]
    exact ⟨fun h => (Except.ok.inj h).symm, fun h => by rw [h]⟩
  | cons a l ih =>
    rw [mapM_cons_eq, List.forall₂_cons_left_iff]
    constructor
    · intro h
      obtain ⟨b, hb, h⟩ := bind_eq_ok h
      obtain ⟨bs', hbs, h⟩ := bind_eq_ok h
      cases h
      exact ⟨b, bs', hb, ih.mp hbs, rfl⟩
    · rintro ⟨b, bs', hb, hbs, rfl⟩
      rw [hb, ok_bind, ih.mpr hbs]
      rfl

theorem mapM_of_forall {f : α → Except ε β} {l : List α} (h : ∀ a ∈ l, ∃ b, f a = .ok b) :
    ∃ bs, l.mapM f = .ok bs := by
  induction l with
  | nil => exact ⟨[], rfl⟩
  | cons a l ih =>
    obtain ⟨b, hb⟩ := h a List.mem_cons_self
    obtain ⟨bs, hbs⟩ := ih fun x hx => h x (List.mem_cons_of_mem a hx)
    exact ⟨b :: bs, by rw [mapM_cons_eq, hb, ok_bind, hbs]; rfl⟩

theorem mapM_error {f : α → Except ε β} {l : List α} {e : ε} (h : l.mapM f = .error e) :
    ∃ a ∈ l, f a = .error e := by
  induction l with
  | nil => cases h
  | cons a l ih =>
    rw [mapM_cons_eq] at h
    rcases bind_eq_error h with ha | ⟨b, -, h⟩
    · exact ⟨a, List.mem_cons_self, ha⟩
    · rcases bind_eq_error h with hl | ⟨bs, -, h⟩
      · obtain ⟨x, hx, hfx⟩ := ih hl
        exact ⟨x, List.mem_cons_of_mem a hx, hfx⟩
      · cases h

theorem exists_of_forall₂_mem {R : α → β → Prop} {l : List α} {bs : List β}
    (h : List.Forall₂ R l bs) {a : α} (ha : a ∈ l) : ∃ b ∈ bs, R a b := by
  induction h with
  | nil => cases ha
  | cons hab _ ih =>
    rcases List.mem_cons.mp ha with rfl | ha
    · exact ⟨_, List.mem_cons_self, hab⟩
    · obtain ⟨b, hb, hR⟩ := ih ha
      exact ⟨b, List.mem_cons_of_mem _ hb, hR⟩

theorem map_eq_of_forall₂ {R : α → β → Prop} {l : List α} {bs : List β} {f : α → γ} {g : β → γ}
    (h : List.Forall₂ R l bs) (hR : ∀ a b, R a b → f a = g b) : l.map f = bs.map g := by
  induction h with
  | nil => rfl
  | cons hab _ ih => rw [List.map_cons, List.map_cons, hR _ _ hab, ih]

theorem forall_of_forall₂ {R : α → β → Prop} {p : β → Prop} {l : List α} {bs : List β}
    (h : List.Forall₂ R l bs) (hR : ∀ a b, R a b → p b) : ∀ b ∈ bs, p b := by
  induction h with
  | nil => simp
  | cons hab _ ih => simpa using ⟨hR _ _ hab, ih⟩

theorem mapM_agree {f g : α → Except ε β} {l : List α} {bs : List β} (hf : l.mapM f = .ok bs)
    (hg : l.mapM g = .ok bs) : ∀ a ∈ l, f a = g a := by
  have hpairs := mapM_ok_iff.mp hf
  have hpairs' := mapM_ok_iff.mp hg
  clear hf hg
  induction hpairs with
  | nil => simp
  | cons ha _ ih =>
    obtain ⟨ha', htail⟩ := List.forall₂_cons.mp hpairs'
    intro a hmem
    obtain rfl | hmem := List.mem_cons.mp hmem
    · rw [ha, ha']
    · exact ih htail a hmem

theorem mapM_of_agree {f g : α → Except ε β} {l : List α} {bs : List β}
    (hfg : ∀ a ∈ l, ∀ b, f a = .ok b → g a = .ok b) (h : l.mapM f = .ok bs) :
    l.mapM g = .ok bs := by
  rw [mapM_ok_iff] at h ⊢
  induction h with
  | nil => exact .nil
  | @cons a b l bs hb _ ih =>
    have htail := fun x hx => hfg x (List.mem_cons_of_mem a hx)
    exact .cons (hfg a List.mem_cons_self b hb) (ih htail)

theorem mapM_bind_of_ok {f : α → Except ε β} {g : β → Except ε γ} {l : List α} {bs : List β}
    (h : List.Forall₂ (fun a b => f a = .ok b) l bs) :
    l.mapM (fun a => f a >>= g) = bs.mapM g := by
  induction h with
  | nil => rfl
  | cons hab _ ih => rw [mapM_cons_eq, mapM_cons_eq, hab, ok_bind, ih]

/-- Two splits of one list: the first one comes later, at the same place, or earlier. -/
theorem append_cons_compare {pre pre' post post' : List α} {a b : α}
    (h : pre ++ a :: post = pre' ++ b :: post') : b ∈ pre ∨ a = b ∨ a ∈ pre' := by
  obtain ⟨l, hl, hr⟩ | ⟨l, hl, hr⟩ := List.append_eq_append_iff.mp h
  · cases l with
    | nil => exact Or.inr (Or.inl (by simpa using congrArg List.head? hr))
    | cons c l =>
      rw [List.cons_append, List.cons.injEq] at hr
      exact Or.inr (Or.inr (by simp [hl, hr.1]))
  · cases l with
    | nil => exact Or.inr (Or.inl (by simpa using (congrArg List.head? hr).symm))
    | cons c l =>
      rw [List.cons_append, List.cons.injEq] at hr
      exact Or.inl (by simp [hl, hr.1])

/-! ## Dropping elements -/

@[elab_as_elim]
theorem outcome_cases {motive : Except ε (Option β) → Prop} (x : Except ε (Option β))
    (raise : ∀ e, motive (.error e)) (drop : motive (.ok none))
    (keep : ∀ b, motive (.ok (some b))) : motive x := by
  obtain e | _ | b := x
  · exact raise e
  · exact drop
  · exact keep b

/-- First `f`, then `g` on what is left. -/
def andThen (f : α → Except ε (Option β)) (g : β → Except ε (Option γ)) (a : α) :
    Except ε (Option γ) := do
  match ← f a with
  | none => pure none
  | some b => g b

theorem andThen_of_none {f : α → Except ε (Option β)} {a : α} (h : f a = .ok none)
    (g : β → Except ε (Option γ)) : andThen f g a = .ok none := by
  rw [andThen, h]
  rfl

theorem andThen_of_some {f : α → Except ε (Option β)} {a : α} {b : β} (h : f a = .ok (some b))
    (g : β → Except ε (Option γ)) : andThen f g a = g b := by
  rw [andThen, h]
  rfl

theorem andThen_of_error {f : α → Except ε (Option β)} {a : α} {e : ε} (h : f a = .error e)
    (g : β → Except ε (Option γ)) : andThen f g a = .error e := by
  rw [andThen, h]
  rfl

theorem andThen_eq_some {f : α → Except ε (Option β)} {g : β → Except ε (Option γ)} {a : α} {c : γ}
    (h : andThen f g a = .ok (some c)) : ∃ b, f a = .ok (some b) ∧ g b = .ok (some c) := by
  obtain ⟨o, ho, h⟩ := bind_eq_ok h
  match o with
  | none => simp at h
  | some b => exact ⟨b, ho, h⟩

theorem andThen_eq_error {f : α → Except ε (Option β)} {g : β → Except ε (Option γ)} {a : α}
    {e : ε} (h : andThen f g a = .error e) :
    f a = .error e ∨ ∃ b, f a = .ok (some b) ∧ g b = .error e := by
  obtain hf | ⟨o, ho, h⟩ := bind_eq_error h
  · exact Or.inl hf
  · match o with
    | none => simp at h
    | some b => exact Or.inr ⟨b, ho, h⟩

theorem andThen_of_agree {f : α → Except ε (Option β)} {g g' : β → Except ε (Option γ)}
    (hgg' : ∀ b o, g b = .ok o → g' b = .ok o) {a : α} {o : Option γ}
    (h : andThen f g a = .ok o) : andThen f g' a = .ok o := by
  obtain ⟨o', ho', h⟩ := bind_eq_ok h
  match o' with
  | none =>
    rw [andThen_of_none ho', ← h]
    rfl
  | some b =>
    rw [andThen_of_some ho']
    exact hgg' b o h

theorem andThen_assoc {δ : Type} (f : α → Except ε (Option β)) (g : β → Except ε (Option γ))
    (k : γ → Except ε (Option δ)) : andThen (andThen f g) k = andThen f (andThen g k) := by
  funext a
  cases h : f a using outcome_cases with
  | raise e => rw [andThen_of_error (andThen_of_error h g), andThen_of_error h]
  | drop => rw [andThen_of_none (andThen_of_none h g), andThen_of_none h]
  | keep b => simp [andThen, h]

theorem andThen_some (f : α → Except ε (Option β)) : andThen f (fun b => .ok (some b)) = f := by
  funext a
  cases h : f a using outcome_cases with
  | raise e => exact andThen_of_error h _
  | drop => exact andThen_of_none h _
  | keep b => exact andThen_of_some h _

theorem filterMapM_cons_eq (f : α → Except ε (Option β)) (a : α) (l : List α) :
    (a :: l).filterMapM f = (do let o ← f a; let bs ← l.filterMapM f; pure (o.toList ++ bs)) := by
  rw [List.filterMapM_cons]
  cases f a using outcome_cases with
  | raise e => rfl
  | drop =>
    show l.filterMapM f = _
    cases l.filterMapM f <;> rfl
  | keep b => rfl

theorem filterMapM_cons_ok {f : α → Except ε (Option β)} {a : α} {l : List α} {bs : List β}
    (h : (a :: l).filterMapM f = .ok bs) :
    ∃ o bs', f a = .ok o ∧ l.filterMapM f = .ok bs' ∧ bs = o.toList ++ bs' := by
  rw [filterMapM_cons_eq] at h
  obtain ⟨o, ho, h⟩ := bind_eq_ok h
  obtain ⟨bs', hbs, h⟩ := bind_eq_ok h
  cases h
  exact ⟨o, bs', ho, hbs, rfl⟩

theorem filterMapM_cons_of_ok {f : α → Except ε (Option β)} {a : α} {l : List α} {o : Option β}
    {bs : List β} (ha : f a = .ok o) (hl : l.filterMapM f = .ok bs) :
    (a :: l).filterMapM f = .ok (o.toList ++ bs) := by
  rw [filterMapM_cons_eq, ha, ok_bind, hl]
  rfl

theorem filterMapM_of_forall {f : α → Except ε (Option β)} {l : List α}
    (h : ∀ a ∈ l, ∃ o, f a = .ok o) : ∃ bs, l.filterMapM f = .ok bs := by
  induction l with
  | nil => exact ⟨[], rfl⟩
  | cons a l ih =>
    obtain ⟨o, ho⟩ := h a List.mem_cons_self
    obtain ⟨bs, hbs⟩ := ih fun x hx => h x (List.mem_cons_of_mem a hx)
    exact ⟨_, filterMapM_cons_of_ok ho hbs⟩

theorem filterMapM_ok_forall {f : α → Except ε (Option β)} {l : List α} {bs : List β}
    (h : l.filterMapM f = .ok bs) : ∀ a ∈ l, ∃ o, f a = .ok o := by
  induction l generalizing bs with
  | nil =>
    intro a ha
    cases ha
  | cons x l ih =>
    obtain ⟨o, bs', ho, hbs, -⟩ := filterMapM_cons_ok h
    intro a ha
    rcases List.mem_cons.mp ha with rfl | ha
    · exact ⟨o, ho⟩
    · exact ih hbs a ha

theorem filterMapM_error_iff {f : α → Except ε (Option β)} {l : List α} :
    (∃ e, l.filterMapM f = .error e) ↔ ∃ a ∈ l, ∃ e, f a = .error e := by
  constructor
  · rintro ⟨e, he⟩
    by_contra hno
    obtain ⟨bs, hbs⟩ := filterMapM_of_forall (f := f) (l := l) fun a ha => by
      cases hf : f a with
      | error x => exact absurd ⟨a, ha, x, hf⟩ hno
      | ok o => exact ⟨o, rfl⟩
    simp [he] at hbs
  · rintro ⟨a, ha, e, he⟩
    cases hl : l.filterMapM f with
    | error x => exact ⟨x, rfl⟩
    | ok bs =>
      obtain ⟨o, ho⟩ := filterMapM_ok_forall hl a ha
      simp [he] at ho

theorem exists_of_mem_filterMapM {f : α → Except ε (Option β)} {l : List α} {bs : List β}
    (h : l.filterMapM f = .ok bs) {b : β} (hb : b ∈ bs) : ∃ a ∈ l, f a = .ok (some b) := by
  induction l generalizing bs with
  | nil =>
    cases h
    cases hb
  | cons x l ih =>
    obtain ⟨o, bs', ho, hbs, rfl⟩ := filterMapM_cons_ok h
    rcases List.mem_append.mp hb with hb | hb
    · rw [Option.mem_toList] at hb
      rw [hb] at ho
      exact ⟨x, List.mem_cons_self, ho⟩
    · obtain ⟨a, ha, hfa⟩ := ih hbs hb
      exact ⟨a, List.mem_cons_of_mem x ha, hfa⟩

theorem filterMapM_of_agree {f g : α → Except ε (Option β)} {l : List α} {bs : List β}
    (hfg : ∀ a ∈ l, ∀ o, f a = .ok o → g a = .ok o) (h : l.filterMapM f = .ok bs) :
    l.filterMapM g = .ok bs := by
  induction l generalizing bs with
  | nil => exact h
  | cons a l ih =>
    obtain ⟨o, bs', ho, hbs, rfl⟩ := filterMapM_cons_ok h
    have htail := ih (fun x hx => hfg x (List.mem_cons_of_mem a hx)) hbs
    exact filterMapM_cons_of_ok (hfg a List.mem_cons_self o ho) htail

theorem filterMapM_append {f : α → Except ε (Option β)} {l l' : List α} {bs bs' : List β}
    (h : l.filterMapM f = .ok bs) (h' : l'.filterMapM f = .ok bs') :
    (l ++ l').filterMapM f = .ok (bs ++ bs') := by
  induction l generalizing bs with
  | nil =>
    cases h
    exact h'
  | cons a l ih =>
    obtain ⟨o, cs, ho, hcs, rfl⟩ := filterMapM_cons_ok h
    rw [List.cons_append, List.append_assoc]
    exact filterMapM_cons_of_ok ho (ih hcs)

/-- **Two passes are one pass.** -/
theorem filterMapM_andThen {f : α → Except ε (Option β)} {g : β → Except ε (Option γ)}
    {l : List α} {bs : List β} {cs : List γ} (hf : l.filterMapM f = .ok bs)
    (hg : bs.filterMapM g = .ok cs) : l.filterMapM (andThen f g) = .ok cs := by
  induction l generalizing bs cs with
  | nil =>
    cases hf
    exact hg
  | cons a l ih =>
    obtain ⟨o, bs', ho, hbs, rfl⟩ := filterMapM_cons_ok hf
    cases o with
    | none => exact filterMapM_cons_of_ok (andThen_of_none ho g) (ih hbs hg)
    | some b =>
      obtain ⟨o', cs', ho', hcs, rfl⟩ := filterMapM_cons_ok hg
      exact filterMapM_cons_of_ok ((andThen_of_some ho g).trans ho') (ih hbs hcs)

theorem filterMapM_of_filter {f : β → Except ε (Option γ)} (p : α → Bool) (row : α → β)
    (g : α → γ) {l : List α}
    (h : ∀ a ∈ l, f (row a) = .ok (if p a then some (g a) else none)) :
    (l.map row).filterMapM f = .ok ((l.filter p).map g) := by
  induction l with
  | nil => rfl
  | cons a l ih =>
    have htail := ih fun x hx => h x (List.mem_cons_of_mem a hx)
    rw [List.map_cons, filterMapM_cons_of_ok (h a List.mem_cons_self) htail]
    by_cases hp : p a = true
    · rw [List.filter_cons_of_pos hp, if_pos hp]
      rfl
    · rw [List.filter_cons_of_neg hp, if_neg hp]
      rfl

theorem filterMapM_of_map {f : β → Except ε (Option γ)} (row : α → β) (g : α → γ) {l : List α}
    (h : ∀ a ∈ l, f (row a) = .ok (some (g a))) : (l.map row).filterMapM f = .ok (l.map g) := by
  have hfilter := filterMapM_of_filter (fun _ => true) row g h
  rwa [List.filter_eq_self.mpr fun a _ => rfl] at hfilter

end QueryEngine.Library
