import QueryEngine.Proof.Physical.Project

/-! # Operators as serving machines

Every operator responds, batch by batch of its scan, with what `Plan.step` makes of that batch.
The proof follows the tree: the scan serves its list, a filter and a projection serve what passes
their step, and `BufferedExec.next` serves what passes `nonEmpty` and stays at its end.
-/
namespace QueryEngine
open Library
set_option autoImplicit false
set_option maxHeartbeats 250000

variable {F σ : Type}

/-! ## BufferedExec -/

namespace BufferedExec

theorem loop_eq_skipLoop (pull : σ → Call σ (Option (RecordBatch F))) (k : ℕ) (s : σ) :
    loop pull k ⟨false, s⟩ =
      (skipLoop pull nonEmpty k s).map fun out => (out.1, ⟨ended out.1, out.2⟩) := by
  induction k generalizing s with
  | zero => rfl
  | succ k ih =>
    rw [loop, skipLoop]
    cases pull s using call_cases with
    | running => rfl
    | raised e s' => rfl
    | finished s' => rfl
    | value batch s' =>
      by_cases hpos : batch.rowCount > 0
      · simp [hpos, nonEmpty, ended]
      · simp [hpos, nonEmpty, ih]

/-- What is pending behind a buffer: nothing once it is exhausted. -/
def Buffered (R : σ → List (Java (RecordBatch F)) → Prop) (self : Fields σ)
    (l : List (Java (RecordBatch F))) : Prop :=
  (self.exhausted = true ∧ l = []) ∨ (self.exhausted = false ∧ Passed R nonEmpty self.fields l)

variable {pull : ℕ → σ → Call σ (Option (RecordBatch F))} {N : ℕ}
  {R : σ → List (Java (RecordBatch F)) → Prop}

theorem next_of_exhausted {self : Fields σ} (h : self.exhausted = true) (fuel : ℕ) :
    next pull fuel self = some (.ok none, self) := by
  rw [next, if_pos h]

theorem next_of_running {s : σ} (fuel : ℕ) :
    next pull fuel ⟨false, s⟩ =
      (skipLoop (pull fuel) nonEmpty fuel s).map fun out => (out.1, ⟨ended out.1, out.2⟩) :=
  loop_eq_skipLoop (pull fuel) fuel s

theorem buffered_after {s : σ} {l : List (Java (RecordBatch F))}
    (h : Passed R nonEmpty s l.tail) : Buffered R ⟨ended (answer l), s⟩ l.tail := by
  match l with
  | [] => exact Or.inl ⟨rfl, rfl⟩
  | .error e :: rest => exact Or.inr ⟨rfl, h⟩
  | .ok batch :: rest => exact Or.inr ⟨rfl, h⟩

/-- **`next` serves the non-empty responses of `pull`.** -/
theorem serves (hpull : Serves pull N R) : Serves (next pull) N (Buffered R) where
  sound := by
    rintro ⟨exhausted, s⟩ l n r self' (⟨hex, rfl⟩ | ⟨hex, hl⟩) hnext
    · rw [next_of_exhausted hex] at hnext
      obtain ⟨rfl, rfl⟩ := Prod.mk.inj (Option.some.inj hnext)
      exact ⟨rfl, Or.inl ⟨hex, rfl⟩⟩
    · obtain rfl : exhausted = false := hex
      rw [next_of_running, Option.map_eq_some_iff] at hnext
      obtain ⟨⟨r', s'⟩, hrun, hout⟩ := hnext
      obtain ⟨rfl, rfl⟩ := Prod.mk.inj hout
      obtain ⟨hr, hs'⟩ := (hpull.skipLoop nonEmpty).sound hl hrun
      refine ⟨hr, ?_⟩
      rw [hr]
      exact buffered_after hs'
  total := by
    rintro ⟨exhausted, s⟩ l n (⟨hex, -⟩ | ⟨hex, hl⟩) hn
    · exact ⟨_, _, next_of_exhausted hex n⟩
    · obtain rfl : exhausted = false := hex
      obtain ⟨r, s', hrun⟩ := (hpull.skipLoop nonEmpty).total hl hn
      exact ⟨r, ⟨ended r, s'⟩, by rw [next_of_running, hrun]; rfl⟩
  short := by
    rintro ⟨exhausted, s⟩ l (⟨-, rfl⟩ | ⟨-, hl⟩)
    · exact Nat.zero_le N
    · exact hl.short hpull

end BufferedExec

/-! ## The three pulls -/

theorem MemoryScanExec.serves (batches : List (RecordBatch F)) :
    Serves (fun _ => MemoryScanExec.pull batches) batches.length
      (fun index l => l = (batches.drop index).map .ok) where
  sound := by
    rintro index l n r index' rfl hpull
    rw [MemoryScanExec.pull] at hpull
    cases hget : batches[index]? with
    | none =>
      rw [hget, Option.some.injEq, Prod.mk.injEq] at hpull
      obtain ⟨rfl, rfl⟩ := hpull
      have hnil : batches.drop index = [] :=
        List.drop_eq_nil_of_le (List.getElem?_eq_none_iff.mp hget)
      simp [hnil, answer]
    | some batch =>
      rw [hget, Option.some.injEq, Prod.mk.injEq] at hpull
      obtain ⟨rfl, rfl⟩ := hpull
      obtain ⟨hlt, rfl⟩ := List.getElem?_eq_some_iff.mp hget
      rw [List.drop_eq_getElem_cons hlt, List.map_cons]
      exact ⟨rfl, rfl⟩
  total := by
    rintro index l n rfl -
    rw [MemoryScanExec.pull]
    cases batches[index]? with
    | none => exact ⟨_, _, rfl⟩
    | some batch => exact ⟨_, _, rfl⟩
  short := by
    rintro index l rfl
    simp

section Stages
variable [JavaDouble F] {m : ℕ → σ → Call σ (Option (RecordBatch F))} {N : ℕ}
  {R : σ → List (Java (RecordBatch F)) → Prop}

theorem FilterExec.loop_eq_skipLoop (childNext : σ → Call σ (Option (RecordBatch F)))
    (schema : Schema) (predicate : Expr F) (k : ℕ) (s : σ) :
    FilterExec.loop childNext schema predicate k s =
      skipLoop childNext (FilterExec.select schema predicate) k s := by
  induction k generalizing s with
  | zero => rfl
  | succ k ih =>
    rw [FilterExec.loop, skipLoop]
    cases childNext s using call_cases with
    | running => rfl
    | raised e s' => rfl
    | finished s' => rfl
    | value batch s' =>
      cases hsel : FilterExec.select schema predicate batch using outcome_cases with
      | raise e => simp [hsel]
      | drop => simp [hsel, ih]
      | keep out => simp [hsel]

theorem FilterExec.serves (hm : Serves m N R) (schema : Schema) (predicate : Expr F) :
    Serves (fun n => FilterExec.loop (m n) schema predicate n) N
      (Passed R (FilterExec.select schema predicate)) := by
  have hloop : (fun n => FilterExec.loop (m n) schema predicate n) =
      fun n s => skipLoop (m n) (FilterExec.select schema predicate) n s := by
    funext n s
    exact FilterExec.loop_eq_skipLoop (m n) schema predicate n s
  rw [hloop]
  exact hm.skipLoop (FilterExec.select schema predicate)

theorem ProjectExec.pull_eq_skipLoop (childNext : σ → Call σ (Option (RecordBatch F)))
    (schema : Schema) (projections : List (Projection F)) (k : ℕ) (s : σ) :
    ProjectExec.pull childNext schema projections s =
      skipLoop childNext (fun b => some <$> ProjectExec.compute schema projections b) (k + 1)
        s := by
  rw [ProjectExec.pull, skipLoop]
  cases childNext s using call_cases with
  | running => rfl
  | raised e s' => rfl
  | finished s' => rfl
  | value batch s' =>
    cases hcomp : ProjectExec.compute schema projections batch with
    | error e => simp [hcomp]
    | ok out => simp [hcomp]

theorem ProjectExec.serves (hm : Serves m N R) (schema : Schema)
    (projections : List (Projection F)) :
    Serves (fun n => ProjectExec.pull (m n) schema projections) N
      (Passed R fun b => some <$> ProjectExec.compute schema projections b) where
  sound := by
    rintro s l n r s' ⟨pending, hR, rfl⟩ hpull
    rw [ProjectExec.pull_eq_skipLoop (m n) schema projections 0 s] at hpull
    exact skipLoop_sound hm hR hpull
  total := by
    rintro s l n ⟨pending, hR, rfl⟩ hn
    rw [ProjectExec.pull_eq_skipLoop (m n) schema projections pending.length s]
    exact skipLoop_total hm _ hR hn (Nat.lt_succ_self _)
  short := fun h => h.short hm

end Stages

/-! ## Trees -/

namespace Plan
variable [JavaDouble F]

def responses (p : Plan F) (batches : List (RecordBatch F)) : List (Java (RecordBatch F)) :=
  (batches.map .ok).filterMap (passOn p.step)

theorem exec_schema (p : Plan F) : p.exec.schema = p.schema := by
  induction p with
  | memoryScan schema batches => rfl
  | filter child predicate ih => exact ih
  | project schema child projections ih => rfl

theorem serves_stage {child : Plan F} {m : ℕ → σ → Call σ (Option (RecordBatch F))} {N : ℕ}
    {batches : List (RecordBatch F)} {R : σ → List (Java (RecordBatch F)) → Prop} {s : σ}
    {g : RecordBatch F → Java (Option (RecordBatch F))}
    (hpull : Serves m N (Passed R g)) (hstart : R s (child.responses batches)) :
    ∃ R', Serves (BufferedExec.next m) N R' ∧
      R' ⟨false, s⟩
        ((batches.map .ok).filterMap (passOn (andThen child.step (andThen g nonEmpty)))) := by
  refine ⟨_, BufferedExec.serves hpull, Or.inr ⟨rfl, _, ⟨_, hstart, rfl⟩, ?_⟩⟩
  rw [filterMap_passOn_andThen, responses, filterMap_passOn_andThen]

/-- **A tree serves the responses to the batches of its scan.** -/
theorem exec_serves (p : Plan F) :
    ∃ R, Serves p.exec.next p.sourceBatches.length R ∧
      R p.exec.start (p.responses p.sourceBatches) := by
  induction p with
  | memoryScan schema batches =>
    refine ⟨_, BufferedExec.serves (MemoryScanExec.serves batches), Or.inr ⟨rfl, ?_⟩⟩
    exact ⟨_, rfl, rfl⟩
  | filter child predicate ih =>
    obtain ⟨R, hserves, hstart⟩ := ih
    have hpull : Serves (FilterExec.subclass child.exec predicate).pull child.sourceBatches.length
        (Passed R (FilterExec.select child.schema predicate)) := by
      rw [← exec_schema]
      exact FilterExec.serves hserves child.exec.schema predicate
    exact serves_stage hpull hstart
  | project schema child projections ih =>
    obtain ⟨R, hserves, hstart⟩ := ih
    exact serves_stage (ProjectExec.serves hserves schema projections) hstart

end Plan

end QueryEngine
