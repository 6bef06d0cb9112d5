import Mathlib.Data.List.Forall2
import Mathlib.Data.List.Perm.Basic
import Mathlib.Tactic.Common

/-! # Folds that stop at the first error

A list of events is folded into a state by a relation that says what each event may do to it. The
fold ends with the last event or with the first error, whatever comes after. Events that never
change a state may be put anywhere, and events that commute in any order.
-/
namespace QueryEngine.Library
set_option autoImplicit false
set_option maxHeartbeats 250000

variable {A S ε : Type}

inductive Folds (step : A → S → Except ε S → Prop) : List A → S → Except ε S → Prop
  | done (s : S) : Folds step [] s (.ok s)
  | next {a : A} {as : List A} {s s' : S} {r : Except ε S} (first : step a s (.ok s'))
      (rest : Folds step as s' r) : Folds step (a :: as) s r
  | stop {a : A} {as : List A} {s : S} {e : ε} (first : step a s (.error e)) :
      Folds step (a :: as) s (.error e)

namespace Folds
variable {step : A → S → Except ε S → Prop} {as bs : List A} {s s' : S} {r : Except ε S} {e : ε}

theorem append (h : Folds step as s (.ok s')) (h' : Folds step bs s' r) :
    Folds step (as ++ bs) s r := by
  generalize hr : (Except.ok s' : Except ε S) = r' at h
  induction h with
  | done s =>
    obtain rfl := Except.ok.inj hr
    exact h'
  | next first rest ih => exact .next first (ih hr)
  | stop first => cases hr

theorem split (h : Folds step (as ++ bs) s r) :
    (∃ s', Folds step as s (.ok s') ∧ Folds step bs s' r) ∨
      ∃ e, r = .error e ∧ Folds step as s (.error e) := by
  induction as generalizing s with
  | nil => exact Or.inl ⟨s, .done s, h⟩
  | cons a as ih =>
    cases h with
    | next first rest =>
      obtain ⟨s', h₁, h₂⟩ | ⟨e, rfl, h₁⟩ := ih rest
      · exact Or.inl ⟨s', .next first h₁, h₂⟩
      · exact Or.inr ⟨e, rfl, .next first h₁⟩
    | stop first => exact Or.inr ⟨_, rfl, .stop first⟩

theorem map {T : Type} {step' : A → T → Except ε T → Prop} (g : S → T)
    (hstep : ∀ a ∈ as, ∀ s r, step a s r → step' a (g s) (g <$> r)) (h : Folds step as s r) :
    Folds step' as (g s) (g <$> r) := by
  induction h with
  | done s => exact .done (g s)
  | @next a as s s' r first rest ih =>
    exact .next (hstep a List.mem_cons_self s _ first)
      (ih fun b hb => hstep b (List.mem_cons_of_mem a hb))
  | @stop a as s e first => exact .stop (hstep a List.mem_cons_self s _ first)

theorem forall₂ {R : A → A → Prop} (hstep : ∀ a b s s', R a b → step a s (.ok s') →
    step b s (.ok s')) (h : Folds step as s (.ok s')) (hR : List.Forall₂ R as bs) :
    Folds step bs s (.ok s') := by
  induction hR generalizing s with
  | nil => exact h
  | cons hab hR ih =>
    cases h with
    | next first rest => exact .next (hstep _ _ _ _ hab first) (ih rest)

/-! ## Every event of a fold -/

theorem each {a : A} (h : Folds step as s (.ok s')) (ha : a ∈ as) :
    ∃ s₁ s₂, step a s₁ (.ok s₂) := by
  induction as generalizing s with
  | nil => cases ha
  | cons b as ih =>
    cases h with
    | next first rest =>
      rcases List.mem_cons.mp ha with rfl | ha
      · exact ⟨_, _, first⟩
      · exact ih rest ha

theorem failing (h : Folds step as s (.error e)) : ∃ a ∈ as, ∃ s₁, step a s₁ (.error e) := by
  generalize hr : (Except.error e : Except ε S) = r at h
  induction h with
  | done s => cases hr
  | @next a as s s' r first rest ih =>
    obtain ⟨b, hb, hstep⟩ := ih hr
    exact ⟨b, List.mem_cons_of_mem a hb, hstep⟩
  | @stop a as s e first =>
    obtain rfl := Except.error.inj hr
    exact ⟨a, List.mem_cons_self, s, first⟩

/-! ## Events that do nothing -/

theorem of_forall_idle (h : ∀ a ∈ as, ∀ s, step a s (.ok s)) (s : S) :
    Folds step as s (.ok s) := by
  induction as with
  | nil => exact .done s
  | cons a as ih =>
    exact .next (h a List.mem_cons_self s) (ih fun b hb => h b (List.mem_cons_of_mem a hb))

/-! ## Events that commute -/

/-- Two events whose changes do not depend on which comes first. -/
def Commute (step : A → S → Except ε S → Prop) (a b : A) : Prop :=
  ∀ s s₁ s₂, step a s (.ok s₁) → step b s₁ (.ok s₂) →
    ∃ t, step b s (.ok t) ∧ step a t (.ok s₂)

theorem perm (h : Folds step as s (.ok s')) (hperm : as.Perm bs)
    (hcommute : as.Pairwise fun a b => Commute step a b ∧ Commute step b a) :
    Folds step bs s (.ok s') := by
  induction hperm generalizing s with
  | nil => exact h
  | cons a hperm ih =>
    cases h with
    | next first rest => exact .next first (ih rest (List.pairwise_cons.mp hcommute).2)
  | swap a b l =>
    cases h with
    | next first rest =>
      cases rest with
      | next second rest =>
        have hpair := (List.pairwise_cons.mp hcommute).1 a List.mem_cons_self
        obtain ⟨t, ht, ht'⟩ := hpair.1 _ _ _ first second
        exact .next ht (.next ht' rest)
  | trans h₁ h₂ ih₁ ih₂ =>
    refine ih₂ (ih₁ h hcommute) (h₁.pairwise hcommute fun {a b} hab => ⟨hab.2, hab.1⟩)

end Folds

/-! ## A value for each event -/

inductive Collects {B : Type} (value : A → Except ε B → Prop) : List A → Except ε (List B) → Prop
  | nil : Collects value [] (.ok [])
  | cons {a : A} {as : List A} {b : B} {r : Except ε (List B)} (first : value a (.ok b))
      (rest : Collects value as r) : Collects value (a :: as) ((b :: ·) <$> r)
  | stop {a : A} {as : List A} {e : ε} (first : value a (.error e)) :
      Collects value (a :: as) (.error e)

theorem Collects.forall₂ {B : Type} {value : A → Except ε B → Prop} {R : A → A → Prop}
    {as as' : List A} {bs : List B} (hvalue : ∀ a a' b, R a a' → value a (.ok b) → value a' (.ok b))
    (h : Collects value as (.ok bs)) (hR : List.Forall₂ R as as') :
    Collects value as' (.ok bs) := by
  induction hR generalizing bs with
  | nil => exact h
  | cons haa hR ih =>
    generalize hr : (Except.ok bs : Except ε (List B)) = r at h
    cases h with
    | @cons _ _ b r first rest =>
      cases r with
      | error e => cases hr
      | ok bs' =>
        obtain rfl := Except.ok.inj hr
        exact .cons (hvalue _ _ b haa first) (ih rest)
    | stop first => cases hr

theorem Collects.each {B : Type} {value : A → Except ε B → Prop} {as : List A} {bs : List B} {a : A}
    (h : Collects value as (.ok bs)) (ha : a ∈ as) : ∃ b, value a (.ok b) := by
  induction as generalizing bs with
  | nil => cases ha
  | cons c as ih =>
    generalize hr : (Except.ok bs : Except ε (List B)) = r at h
    cases h with
    | @cons _ _ b r first rest =>
      rcases List.mem_cons.mp ha with rfl | ha
      · exact ⟨b, first⟩
      · cases r with
        | error e => cases hr
        | ok bs' => exact ih rest ha
    | stop first => cases hr

theorem Collects.failing {B : Type} {value : A → Except ε B → Prop} {as : List A} {e : ε}
    (h : Collects value as (.error e)) : ∃ a ∈ as, value a (.error e) := by
  generalize hr : (Except.error e : Except ε (List B)) = r at h
  induction h with
  | nil => cases hr
  | @cons a as b r first rest ih =>
    cases r with
    | ok bs => cases hr
    | error e' =>
      obtain rfl := Except.error.inj hr
      obtain ⟨c, hc, hvalue⟩ := ih rfl
      exact ⟨c, List.mem_cons_of_mem a hc, hvalue⟩
  | @stop a as e' first =>
    obtain rfl := Except.error.inj hr
    exact ⟨a, List.mem_cons_self, first⟩

theorem collects_map {B : Type} {value : A → Except ε B → Prop} {image : B → A} {bs : List B}
    (h : ∀ b ∈ bs, value (image b) (.ok b)) : Collects value (bs.map image) (.ok bs) := by
  induction bs with
  | nil => exact .nil
  | cons b bs ih =>
    exact .cons (h b List.mem_cons_self) (ih fun c hc => h c (List.mem_cons_of_mem b hc))

end QueryEngine.Library
