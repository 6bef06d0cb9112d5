import Mathlib.Data.List.Basic
import Mathlib.Tactic.Common

/-! # Counted loops that may stop with an exception

Sequencing in `Except`: what a sequence that returned, or raised, says about its parts.
`forLoop n body s` is `for (i = 0; i < n; i++) body(i)` over an explicit state `s`, where a body
that raises ends the loop at once. The rules below peel the last round, carry an invariant to the
end, and read a loop over the positions of a list as a fold.
-/
namespace QueryEngine.Library
set_option autoImplicit false
set_option maxHeartbeats 250000

variable {ε σ α β : Type}

/-! ## Sequencing -/

@[simp] theorem ok_bind (a : α) (f : α → Except ε β) : (Except.ok a >>= f) = f a := rfl

@[simp] theorem error_bind (e : ε) (f : α → Except ε β) : (Except.error e >>= f) = .error e := rfl

@[simp] theorem map_ok (f : α → β) (a : α) : (f <$> (Except.ok a : Except ε α)) = .ok (f a) := rfl

@[simp] theorem map_error (f : α → β) (e : ε) :
    (f <$> (Except.error e : Except ε α)) = .error e := rfl

@[simp] theorem pure_eq (a : α) : (pure a : Except ε α) = .ok a := rfl

@[simp] theorem throw_eq (e : ε) : (throw e : Except ε α) = .error e := rfl

theorem error_iff_not_ok (x : Except ε α) : (∃ e, x = .error e) ↔ ¬ ∃ a, x = .ok a := by
  cases x with
  | error e => simp
  | ok a => simp

theorem bind_eq_ok {x : Except ε α} {f : α → Except ε β} {b : β} (h : (x >>= f) = .ok b) :
    ∃ a, x = .ok a ∧ f a = .ok b := by
  cases x with
  | error e => cases h
  | ok a => exact ⟨a, rfl, h⟩

theorem bind_eq_error {x : Except ε α} {f : α → Except ε β} {e : ε} (h : (x >>= f) = .error e) :
    x = .error e ∨ ∃ a, x = .ok a ∧ f a = .error e := by
  cases x with
  | error e' => cases h; exact Or.inl rfl
  | ok a => exact Or.inr ⟨a, rfl, h⟩

theorem bind_error_of_first {x : Except ε α} (h : ∃ e, x = .error e) (f : α → Except ε β) :
    ∃ e, (x >>= f) = .error e := by
  obtain ⟨e, rfl⟩ := h
  exact ⟨e, rfl⟩

theorem bind_error_of_second (x : Except ε α) {f : α → Except ε β}
    (h : ∀ a, ∃ e, f a = .error e) : ∃ e, (x >>= f) = .error e := by
  cases x with
  | error e => exact ⟨e, rfl⟩
  | ok a => exact h a

theorem map_eq_ok {x : Except ε α} {f : α → β} {b : β} (h : f <$> x = .ok b) :
    ∃ a, x = .ok a ∧ f a = b := by
  cases x with
  | error e => cases h
  | ok a => exact ⟨a, rfl, Except.ok.inj h⟩

theorem map_eq_error {x : Except ε α} {f : α → β} {e : ε} (h : f <$> x = .error e) :
    x = .error e := by
  cases x with
  | error e' => cases h; rfl
  | ok a => cases h

/-! ## Loops -/

/-- `for (i = 0; i < n; i++)`: the state after `n` rounds, or the exception of the first round
that raises. -/
def forLoop (n : ℕ) (body : ℕ → σ → Except ε σ) (s : σ) : Except ε σ :=
  match n with
  | 0 => .ok s
  | n + 1 =>
      match forLoop n body s with
      | .error e => .error e
      | .ok s' => body n s'

theorem forLoop_succ_ok {n : ℕ} {body : ℕ → σ → Except ε σ} {s s' : σ}
    (h : forLoop n body s = .ok s') : forLoop (n + 1) body s = body n s' := by
  rw [forLoop, h]

theorem forLoop_succ_error {n : ℕ} {body : ℕ → σ → Except ε σ} {s : σ} {e : ε}
    (h : forLoop n body s = .error e) : forLoop (n + 1) body s = .error e := by
  rw [forLoop, h]

theorem forLoop_total {n : ℕ} {body : ℕ → σ → Except ε σ} {s : σ} (Inv : ℕ → σ → Prop)
    (start : Inv 0 s)
    (round : ∀ i < n, ∀ t, Inv i t → ∃ t', body i t = .ok t' ∧ Inv (i + 1) t') :
    ∃ s', forLoop n body s = .ok s' ∧ Inv n s' := by
  induction n with
  | zero => exact ⟨s, rfl, start⟩
  | succ n ih =>
    obtain ⟨t, ht, hinv⟩ := ih (fun i hi => round i (by omega))
    obtain ⟨t', ht', hinv'⟩ := round n (by omega) t hinv
    exact ⟨t', by rw [forLoop_succ_ok ht, ht'], hinv'⟩

theorem forLoop_foldl {l : List α} {body : ℕ → σ → Except ε σ} {f : σ → α → σ}
    (hbody : ∀ i (hi : i < l.length) s, body i s = .ok (f s l[i])) (s : σ) :
    forLoop l.length body s = .ok (l.foldl f s) := by
  have hprefix : ∀ n ≤ l.length, forLoop n body s = .ok ((l.take n).foldl f s) := by
    intro n hn
    induction n with
    | zero => rfl
    | succ n ih =>
      have hlt : n < l.length := by omega
      rw [forLoop_succ_ok (ih (by omega)), hbody n hlt, List.take_succ_eq_append_getElem hlt,
        List.foldl_append]
      rfl
  have h := hprefix l.length (Nat.le_refl _)
  rwa [List.take_length] at h

end QueryEngine.Library
