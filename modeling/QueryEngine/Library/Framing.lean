import Mathlib.Data.List.Basic
import Mathlib.Tactic.Common

/-! # Texts that can be read off the front of a longer text

A piece of a text is found again where something marks its end: a word ends at the first separator,
a quoted piece at the first quote after which the text can go on. What can follow a piece is a
predicate on the rest of the text, so a rendering of trees is read back node by node.
-/
namespace QueryEngine.Library
set_option autoImplicit false
set_option maxHeartbeats 250000

variable {A : Type}

/-! ## Words -/

/-- A piece without separators. -/
def IsWord (separators w : List A) : Prop := w ≠ [] ∧ ∀ c ∈ w, c ∉ separators

theorem isWord_of_all [DecidableEq A] {separators w : List A} (hne : w ≠ [])
    (h : (w.all fun c => !separators.contains c) = true) : IsWord separators w := by
  refine ⟨hne, fun c hc => ?_⟩
  simpa using List.all_eq_true.mp h c hc

/-- The rest of the text is empty or begins with a separator. -/
def Stops (separators s : List A) : Prop := ∀ c ∈ s.head?, c ∈ separators

theorem stops_nil (separators : List A) : Stops separators [] := by
  intro c hc
  simp at hc

theorem stops_cons {separators : List A} {c : A} (h : c ∈ separators) (s : List A) :
    Stops separators (c :: s) := by
  intro a ha
  simp at ha
  exact ha ▸ h

theorem IsWord.head_ne {separators w s t : List A} {q : A} (hw : IsWord separators w)
    (hq : q ∈ separators) : w ++ s ≠ q :: t := by
  intro h
  cases w with
  | nil => exact hw.1 rfl
  | cons c w =>
    rw [List.cons_append, List.cons.injEq] at h
    exact hw.2 c List.mem_cons_self (h.1 ▸ hq)

/-- A word ends at the first separator. -/
theorem word_append_cancel {separators v w s t : List A} (hv : ∀ c ∈ v, c ∉ separators)
    (hw : ∀ c ∈ w, c ∉ separators) (hs : Stops separators s) (ht : Stops separators t)
    (h : v ++ s = w ++ t) : v = w ∧ s = t := by
  induction v generalizing w with
  | nil =>
    cases w with
    | nil => exact ⟨rfl, h⟩
    | cons c w =>
      rw [List.nil_append, List.cons_append] at h
      exact absurd (hs c (by simp [h])) (hw c List.mem_cons_self)
  | cons c v ih =>
    cases w with
    | nil =>
      rw [List.nil_append, List.cons_append] at h
      exact absurd (ht c (by simp [← h])) (hv c List.mem_cons_self)
    | cons d w =>
      rw [List.cons_append, List.cons_append, List.cons.injEq] at h
      have hrest := ih (fun a ha => hv a (List.mem_cons_of_mem c ha))
        (fun a ha => hw a (List.mem_cons_of_mem d ha)) h.2
      exact ⟨by rw [h.1, hrest.1], hrest.2⟩

/-! ## Quoted pieces -/

/-- No quote inside the piece is followed by something that could follow the closing quote. -/
def ClosesLast (q : A) (Next : List A → Prop) (v : List A) : Prop :=
  ∀ a u rest, v = a ++ q :: u → ¬ Next (u ++ q :: rest)

/-- A quoted piece ends at the first quote after which the text can go on. -/
theorem quoted_append_cancel {q : A} {Next : List A → Prop} {v w s t : List A}
    (hv : ClosesLast q Next v) (hw : ClosesLast q Next w) (hs : Next s) (ht : Next t)
    (h : v ++ q :: s = w ++ q :: t) : v = w ∧ s = t := by
  obtain ⟨l, hl, hr⟩ | ⟨l, hl, hr⟩ := List.append_eq_append_iff.mp h
  · cases l with
    | nil => simpa [eq_comm] using And.intro hl hr
    | cons c u =>
      rw [List.cons_append, List.cons.injEq] at hr
      exact absurd (hr.2 ▸ hs) (hw v u t (by rw [hl, ← hr.1]))
  · cases l with
    | nil => simpa [eq_comm] using And.intro hl hr
    | cons c u =>
      rw [List.cons_append, List.cons.injEq] at hr
      exact absurd (hr.2 ▸ ht) (hv w u s (by rw [hl, ← hr.1]))

/-- What comes before the first `q` of a text lies inside any piece that ends at a `q`. -/
theorem isPrefixOf_of_append [BEq A] [LawfulBEq A] {q : A} {p s u rest : List A} (hp : q ∉ p)
    (h : p ++ s = u ++ q :: rest) : p.isPrefixOf u = true := by
  rw [List.isPrefixOf_iff_prefix]
  obtain ⟨l, hl, -⟩ | ⟨l, hl, hr⟩ := List.append_eq_append_iff.mp h
  · exact ⟨l, hl.symm⟩
  · cases l with
    | nil => exact ⟨[], by simpa using hl⟩
    | cons c l =>
      rw [List.cons_append, List.cons.injEq] at hr
      exact absurd (by rw [hl, hr.1]; simp) hp

end QueryEngine.Library
