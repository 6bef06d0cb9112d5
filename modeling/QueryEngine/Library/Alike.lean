import QueryEngine.Library.PullMachine

/-! # Outcomes that agree

Two outcomes are alike when both raise, whatever they raise, or both return and what they return
is related. Sequencing keeps outcomes alike, and so do traversals; two machines whose pending
responses are alike answer every run of calls alike, calls after an exception included.
-/
namespace QueryEngine.Library
set_option autoImplicit false
set_option maxHeartbeats 250000

variable {ε α β γ δ : Type}

/-- Both return, with related results, or both raise. -/
inductive Alike (R : α → β → Prop) : Except ε α → Except ε β → Prop
  | ok {a : α} {b : β} (h : R a b) : Alike R (.ok a) (.ok b)
  | error (e e' : ε) : Alike R (.error e) (.error e')

namespace Alike

theorem refl {R : α → α → Prop} (hR : ∀ a, R a a) (x : Except ε α) : Alike R x x := by
  cases x with
  | ok a => exact .ok (hR a)
  | error e => exact .error e e

theorem trans {R : α → β → Prop} {S : β → γ → Prop} {T : α → γ → Prop} {x : Except ε α}
    {y : Except ε β} {z : Except ε γ} (h : Alike R x y) (h' : Alike S y z)
    (hT : ∀ a b c, R a b → S b c → T a c) : Alike T x z := by
  cases h with
  | ok h =>
    cases h' with
    | ok h' => exact .ok (hT _ _ _ h h')
  | error e e' =>
    cases h' with
    | error e₁ e₂ => exact .error e e₂

theorem bind {R : α → β → Prop} {S : γ → δ → Prop} {x : Except ε α} {y : Except ε β}
    (h : Alike R x y) {f : α → Except ε γ} {g : β → Except ε δ}
    (hfg : ∀ a b, R a b → Alike S (f a) (g b)) : Alike S (x >>= f) (y >>= g) := by
  cases h with
  | ok h => exact hfg _ _ h
  | error e e' => exact .error e e'

theorem map {R : α → β → Prop} {S : γ → δ → Prop} {x : Except ε α} {y : Except ε β}
    (h : Alike R x y) {f : α → γ} {g : β → δ} (hfg : ∀ a b, R a b → S (f a) (g b)) :
    Alike S (f <$> x) (g <$> y) := by
  cases h with
  | ok h => exact .ok (hfg _ _ h)
  | error e e' => exact .error e e'

theorem mono {R S : α → β → Prop} {x : Except ε α} {y : Except ε β} (h : Alike R x y)
    (hRS : ∀ a b, R a b → S a b) : Alike S x y := by
  cases h with
  | ok h => exact .ok (hRS _ _ h)
  | error e e' => exact .error e e'

/-- `mono`, with what the related results are results of. -/
theorem imp {R S : α → β → Prop} {x : Except ε α} {y : Except ε β} (h : Alike R x y)
    (hRS : ∀ a b, x = .ok a → y = .ok b → R a b → S a b) : Alike S x y := by
  cases h with
  | ok h => exact .ok (hRS _ _ rfl rfl h)
  | error e e' => exact .error e e'

/-- Two alike runs either both raise or both return related results. -/
theorem elim {R : α → β → Prop} {x : Except ε α} {y : Except ε β} {C : Prop} (h : Alike R x y)
    (hraise : ∀ e e', x = .error e → y = .error e' → C)
    (hok : ∀ a b, x = .ok a → y = .ok b → R a b → C) : C := by
  cases h with
  | ok h => exact hok _ _ rfl rfl h
  | error e e' => exact hraise e e' rfl rfl

theorem raises_iff {R : α → β → Prop} {x : Except ε α} {y : Except ε β} (h : Alike R x y) :
    (∃ e, x = .error e) ↔ ∃ e, y = .error e := by
  cases h with
  | ok h => simp
  | error e e' => simp

theorem of_raises_iff {R : α → β → Prop} {x : Except ε α} {y : Except ε β}
    (hraise : (∃ e, x = .error e) ↔ ∃ e, y = .error e)
    (hR : ∀ a b, x = .ok a → y = .ok b → R a b) : Alike R x y := by
  cases x with
  | ok a =>
    cases y with
    | ok b => exact .ok (hR a b rfl rfl)
    | error e =>
      obtain ⟨e', he'⟩ := hraise.mpr ⟨e, rfl⟩
      cases he'
  | error e =>
    obtain ⟨e', rfl⟩ := hraise.mp ⟨e, rfl⟩
    exact .error e e'

theorem ok_inv {R : α → β → Prop} {a : α} {b : β}
    (h : Alike R (.ok a : Except ε α) (.ok b)) : R a b := by
  cases h with
  | ok h => exact h

end Alike

/-! ## Traversals -/

theorem optionRel_mono {R S : α → β → Prop} {o : Option α} {o' : Option β} (h : Option.Rel R o o')
    (hRS : ∀ a b, R a b → S a b) : Option.Rel S o o' := by
  cases h with
  | none => exact .none
  | some h => exact .some (hRS _ _ h)

theorem optionRel_isSome {R : α → β → Prop} {o : Option α} {o' : Option β}
    (h : Option.Rel R o o') : o.isSome ↔ o'.isSome := by
  cases h with
  | none => rfl
  | some h => simp

theorem optionRel_trans {R : α → β → Prop} {S : β → γ → Prop} {T : α → γ → Prop} {o : Option α}
    {o' : Option β} {o'' : Option γ} (h : Option.Rel R o o') (h' : Option.Rel S o' o'')
    (hT : ∀ a b c, R a b → S b c → T a c) : Option.Rel T o o'' := by
  cases h with
  | none =>
    cases h' with
    | none => exact .none
  | some h =>
    cases h' with
    | some h' => exact .some (hT _ _ _ h h')

theorem mapM_alike {R : γ → δ → Prop} {f : α → Except ε γ} {g : β → Except ε δ} {l : List α}
    {l' : List β} (h : List.Forall₂ (fun a b => Alike R (f a) (g b)) l l') :
    Alike (List.Forall₂ R) (l.mapM f) (l'.mapM g) := by
  induction h with
  | nil => exact .ok .nil
  | cons hab _ ih =>
    rw [mapM_cons_eq, mapM_cons_eq]
    exact hab.bind fun c d hcd => ih.bind fun cs ds hcs => .ok (.cons hcd hcs)

theorem andThen_alike {α' β' γ' : Type} {R : β → β' → Prop} {S : γ → γ' → Prop}
    {f : α → Except ε (Option β)} {f' : α' → Except ε (Option β')}
    {g : β → Except ε (Option γ)} {g' : β' → Except ε (Option γ')} {a : α} {a' : α'}
    (h : Alike (Option.Rel R) (f a) (f' a'))
    (hg : ∀ b b', R b b' → Alike (Option.Rel S) (g b) (g' b')) :
    Alike (Option.Rel S) (andThen f g a) (andThen f' g' a') := by
  refine h.bind fun o o' ho => ?_
  cases ho with
  | none => exact .ok .none
  | some hb => exact hg _ _ hb

/-! ## Machines -/

theorem filterMap_passOn_alike {α' β' : Type} {R : β → β' → Prop}
    {g : α → Except ε (Option β)} {g' : α' → Except ε (Option β')} {l : List α} {l' : List α'}
    (h : List.Forall₂ (fun a a' => Alike (Option.Rel R) (g a) (g' a')) l l') :
    List.Forall₂ (Alike R) ((l.map .ok).filterMap (passOn g))
      ((l'.map .ok).filterMap (passOn g')) := by
  rw [List.filterMap_map, List.filterMap_map]
  refine List.rel_filterMap (R := fun a a' => Alike (Option.Rel R) (g a) (g' a')) ?_ h
  intro a a' ha
  simp only [Function.comp_apply, passOn]
  generalize g a = x at ha ⊢
  generalize g' a' = y at ha ⊢
  cases ha with
  | error e e' => exact .some (.error e e')
  | ok ho =>
    cases ho with
    | none => exact .none
    | some hb => exact .some (.ok hb)

theorem answersTo_alike {R : α → β → Prop} {l : List (Except ε α)} {l' : List (Except ε β)}
    (h : List.Forall₂ (Alike R) l l') (k : ℕ) :
    List.Forall₂ (Alike (Option.Rel R)) (answersTo l k) (answersTo l' k) := by
  have hnone : Alike (Option.Rel R) (.ok none : Except ε (Option α)) (.ok none) := .ok .none
  induction k with
  | zero => simp [answersTo]
  | succ k ih =>
    rw [answersTo_succ, answersTo_succ]
    refine List.rel_append ih ?_
    have hdrop := List.forall₂_drop k h
    refine .cons ?_ .nil
    generalize l.drop k = rest at hdrop ⊢
    generalize l'.drop k = rest' at hdrop ⊢
    cases hdrop with
    | nil => exact hnone
    | cons hab _ =>
      cases hab with
      | ok hab => exact .ok (.some hab)
      | error e e' => exact .error e e'

end QueryEngine.Library
