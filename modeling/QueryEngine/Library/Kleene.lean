import Mathlib.Tactic.Common

/-! # Kleene's strong three-valued logic

A truth value is an `Option Bool`; `none` is the unknown. A connective is decided as soon as one
operand decides it, whatever the unknown stands for: learning what was unknown never changes an
answer that was already decided.
-/
namespace QueryEngine.Library.Kleene
set_option autoImplicit false
set_option maxHeartbeats 250000

def and : Option Bool → Option Bool → Option Bool
  | some false, _ => some false
  | _, some false => some false
  | some true, some true => some true
  | _, _ => none

def or : Option Bool → Option Bool → Option Bool
  | some true, _ => some true
  | _, some true => some true
  | some false, some false => some false
  | _, _ => none

def not : Option Bool → Option Bool
  | some b => some (!b)
  | none => none

@[simp] theorem and_some (a b : Bool) : and (some a) (some b) = some (a && b) := by
  cases a <;> cases b <;> rfl

@[simp] theorem or_some (a b : Bool) : or (some a) (some b) = some (a || b) := by
  cases a <;> cases b <;> rfl

theorem and_comm (a b : Option Bool) : and a b = and b a := by
  rcases a with _ | _ | _ <;> rcases b with _ | _ | _ <;> rfl

theorem or_comm (a b : Option Bool) : or a b = or b a := by
  rcases a with _ | _ | _ <;> rcases b with _ | _ | _ <;> rfl

theorem and_eq_true_iff (a b : Option Bool) :
    and a b = some true ↔ a = some true ∧ b = some true := by
  rcases a with _ | _ | _ <;> rcases b with _ | _ | _ <;> simp [and]

theorem and_isSome {a b : Option Bool} (ha : a.isSome) (hb : b.isSome) : (and a b).isSome := by
  obtain ⟨x, rfl⟩ := Option.isSome_iff_exists.mp ha
  obtain ⟨y, rfl⟩ := Option.isSome_iff_exists.mp hb
  rw [and_some]
  rfl

theorem or_isSome {a b : Option Bool} (ha : a.isSome) (hb : b.isSome) : (or a b).isSome := by
  obtain ⟨x, rfl⟩ := Option.isSome_iff_exists.mp ha
  obtain ⟨y, rfl⟩ := Option.isSome_iff_exists.mp hb
  rw [or_some]
  rfl

/-! ## Knowing more -/

/-- `b` knows what `a` knows. -/
def Informs {α : Type} (a b : Option α) : Prop := ∀ x, a = some x → b = some x

section Informs
variable {α β : Type} {a b : Option α}

theorem Informs.none (b : Option α) : Informs none b := by
  intro x hx
  simp at hx

theorem Informs.refl (a : Option α) : Informs a a := fun _ hx => hx

theorem Informs.trans {c : Option α} (h : Informs a b) (h' : Informs b c) : Informs a c :=
  fun x hx => h' x (h x hx)

theorem Informs.unknown_or_eq (h : Informs a b) : a = .none ∨ a = b := by
  cases a with
  | none => exact Or.inl rfl
  | some x => exact Or.inr (h x rfl).symm

theorem Informs.map (h : Informs a b) (f : α → β) : Informs (a.map f) (b.map f) := by
  obtain rfl | rfl := h.unknown_or_eq
  · exact Informs.none _
  · exact Informs.refl _

end Informs

theorem not_informs {a b : Option Bool} (h : Informs a b) : Informs (not a) (not b) := by
  obtain rfl | rfl := h.unknown_or_eq
  · exact Informs.none _
  · exact Informs.refl _

theorem and_informs_left {a b : Option Bool} (h : Informs a b) (c : Option Bool) :
    Informs (and a c) (and b c) := by
  obtain rfl | rfl := h.unknown_or_eq
  · rcases c with _ | _ | _
    · exact Informs.none _
    · rw [and_comm, and_comm b]
      exact Informs.refl (some false)
    · exact Informs.none _
  · exact Informs.refl _

theorem or_informs_left {a b : Option Bool} (h : Informs a b) (c : Option Bool) :
    Informs (or a c) (or b c) := by
  obtain rfl | rfl := h.unknown_or_eq
  · rcases c with _ | _ | _
    · exact Informs.none _
    · exact Informs.none _
    · rw [or_comm, or_comm b]
      exact Informs.refl (some true)
  · exact Informs.refl _

/-- **The connectives are monotone in what is known.** -/
theorem and_informs {a b c d : Option Bool} (h : Informs a b) (h' : Informs c d) :
    Informs (and a c) (and b d) := by
  have hright := and_informs_left h' b
  rw [and_comm c, and_comm d] at hright
  exact (and_informs_left h c).trans hright

theorem or_informs {a b c d : Option Bool} (h : Informs a b) (h' : Informs c d) :
    Informs (or a c) (or b d) := by
  have hright := or_informs_left h' b
  rw [or_comm c, or_comm d] at hright
  exact (or_informs_left h c).trans hright

/-! ## Formulas -/

/-- Formulas over atoms of any kind. -/
inductive Formula (ι : Type)
  | const (b : Bool)
  | atom (i : ι)
  | not (f : Formula ι)
  | and (f g : Formula ι)
  | or (f g : Formula ι)

namespace Formula
variable {ι : Type}

/-- One line of the truth table. -/
def value (τ : ι → Option Bool) : Formula ι → Option Bool
  | const b => some b
  | atom i => τ i
  | not f => Kleene.not (f.value τ)
  | and f g => Kleene.and (f.value τ) (g.value τ)
  | or f g => Kleene.or (f.value τ) (g.value τ)

def atoms : Formula ι → List ι
  | const _ => []
  | atom i => [i]
  | not f => f.atoms
  | and f g => f.atoms ++ g.atoms
  | or f g => f.atoms ++ g.atoms

end Formula

end QueryEngine.Library.Kleene
