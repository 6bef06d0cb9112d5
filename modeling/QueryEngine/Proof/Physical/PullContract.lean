import QueryEngine.Abstract.CallLog
import QueryEngine.Proof.Physical.Contracts
import QueryEngine.Proof.Physical.Instruments

/-! # The pull contract

For any responses of a subclass, the calls of `next()` deliver the non-empty batches before the
first `null`, then `null` for ever without another pull. In a tree this means that a child which has
answered `null` is not called again: the recorded tree keeps, above every child, a flag that is
unset only as long as the child's log holds no `null`.
-/
namespace QueryEngine
open Library
set_option autoImplicit false
set_option maxHeartbeats 250000

variable {F : Type}

/-! ## Arbitrary responses -/

/-- A `pull` that answers from a sequence of responses; its field counts the pulls. -/
def streamPull (responses : ℕ → Option (RecordBatch F)) (_ : ℕ) (pulls : ℕ) :
    Call ℕ (Option (RecordBatch F)) :=
  some (.ok (responses pulls), pulls + 1)

/-- The batches with at least one row among the first `n` responses. -/
def delivered (responses : ℕ → Option (RecordBatch F)) (n : ℕ) : List (RecordBatch F) :=
  ((List.range n).filterMap responses).filter fun b => b.rowCount > 0

section Stream
variable {responses : ℕ → Option (RecordBatch F)}

theorem delivered_succ_of_null {n : ℕ} (h : responses n = none) :
    delivered responses (n + 1) = delivered responses n := by
  simp [delivered, List.range_succ, h]

theorem delivered_succ_of_empty {n : ℕ} {b : RecordBatch F} (h : responses n = some b)
    (hb : ¬ b.rowCount > 0) : delivered responses (n + 1) = delivered responses n := by
  simp [delivered, List.range_succ, h, hb]

theorem delivered_succ_of_rows {n : ℕ} {b : RecordBatch F} (h : responses n = some b)
    (hb : b.rowCount > 0) : delivered responses (n + 1) = delivered responses n ++ [b] := by
  simp [delivered, List.range_succ, h, hb]

/-- What one run of the loop, from `i` pulls on, leaves: `m + 1` pulls, none of them after a
`null`, and the answer to the last. -/
structure Stopped (responses : ℕ → Option (RecordBatch F)) (i m : ℕ)
    (r : Java (Option (RecordBatch F))) : Prop where
  before : ∀ j < m, responses j ≠ none
  last : r = .ok (responses m)
  batches : delivered responses (m + 1) = delivered responses i ++ (responses m).toList

theorem skipLoop_stream {fuel k i : ℕ} {r : Java (Option (RecordBatch F))} {j : ℕ}
    (hi : ∀ m < i, responses m ≠ none)
    (h : skipLoop (streamPull responses fuel) nonEmpty k i = some (r, j)) :
    ∃ m, j = m + 1 ∧ Stopped responses i m r := by
  induction k generalizing i with
  | zero => simp [skipLoop] at h
  | succ k ih =>
    rw [skipLoop, streamPull] at h
    cases hres : responses i with
    | none =>
      simp only [hres, Option.some.injEq, Prod.mk.injEq] at h
      obtain ⟨rfl, rfl⟩ := h
      refine ⟨i, rfl, hi, by rw [hres], ?_⟩
      rw [delivered_succ_of_null hres, hres]
      simp
    | some b =>
      have hnext : ∀ m < i + 1, responses m ≠ none := by
        intro m hm
        by_cases hmi : m = i
        · simp [hmi, hres]
        · exact hi m (by omega)
      by_cases hb : b.rowCount > 0
      · simp only [hres, nonEmpty, hb, if_true, Option.some.injEq, Prod.mk.injEq] at h
        obtain ⟨rfl, rfl⟩ := h
        refine ⟨i, rfl, hi, by rw [hres], ?_⟩
        rw [delivered_succ_of_rows hres hb, hres]
        simp
      · simp only [hres, nonEmpty, hb, if_false] at h
        obtain ⟨m, hj, hstop⟩ := ih hnext h
        refine ⟨m, hj, hstop.before, hstop.last, ?_⟩
        rw [hstop.batches, delivered_succ_of_empty hres hb]

/-- **The contract of `next()`** after calls that answered `rs`. -/
structure PullContract (responses : ℕ → Option (RecordBatch F))
    (rs : List (Java (Option (RecordBatch F)))) (state : BufferedExec.Fields ℕ) : Prop where
  /-- The batches delivered, each once and in order, and then `null`s: some exactly when the
  operator is exhausted. -/
  answers : ∃ nulls, (0 < nulls ↔ state.exhausted = true) ∧
    rs = (delivered responses state.fields).map (fun b => .ok (some b)) ++
      List.replicate nulls (.ok none)
  /-- No response before the last pull was `null`. -/
  before : ∀ i, i + 1 < state.fields → responses i ≠ none
  /-- The operator is exhausted as soon as a response was `null`. -/
  exhausted : state.exhausted = true ↔ ∃ i < state.fields, responses i = none
  /-- From then on `null` is returned and nothing is pulled. -/
  stays : state.exhausted = true → ∀ fuel,
    BufferedExec.next (streamPull responses) fuel state = some (.ok none, state)

theorem PullContract.start (responses : ℕ → Option (RecordBatch F)) :
    PullContract responses [] ⟨false, 0⟩ where
  answers := ⟨0, by simp, rfl⟩
  before := by simp
  exhausted := by simp
  stays := by simp

/-- One more call of an exhausted operator. -/
theorem PullContract.again {rs : List (Java (Option (RecordBatch F)))} {pulls : ℕ}
    (h : PullContract responses rs ⟨true, pulls⟩) :
    PullContract responses (rs ++ [.ok none]) ⟨true, pulls⟩ := by
  obtain ⟨nulls, -, hrs⟩ := h.answers
  refine ⟨⟨nulls + 1, by simp, ?_⟩, h.before, h.exhausted, h.stays⟩
  rw [hrs, List.append_assoc, ← List.replicate_succ']

theorem PullContract.answers_of_running {rs : List (Java (Option (RecordBatch F)))} {pulls : ℕ}
    (h : PullContract responses rs ⟨false, pulls⟩) :
    rs = (delivered responses pulls).map fun b => .ok (some b) := by
  obtain ⟨nulls, hnulls, hrs⟩ := h.answers
  have hzero : nulls = 0 := by
    by_contra hne
    exact absurd (hnulls.mp (by omega)) (by simp)
  rw [hrs, hzero, List.replicate_zero, List.append_nil]

/-- One call of an operator that is not exhausted, from what its loop leaves. -/
theorem PullContract.stop {rs : List (Java (Option (RecordBatch F)))} {pulls m : ℕ}
    {r : Java (Option (RecordBatch F))} (h : PullContract responses rs ⟨false, pulls⟩)
    (hstop : Stopped responses pulls m r) :
    PullContract responses (rs ++ [r]) ⟨ended r, m + 1⟩ := by
  have hrs := h.answers_of_running
  have hdelivered := hstop.batches
  rw [hstop.last]
  match hres : responses m with
  | none =>
    rw [hres, Option.toList_none, List.append_nil] at hdelivered
    refine ⟨⟨1, by simp [ended], ?_⟩, ?_, ?_, fun hex => ?_⟩
    · rw [hdelivered, hrs]
      rfl
    · exact fun i hi => hstop.before i (Nat.lt_of_succ_lt_succ hi)
    · simp only [ended, true_iff]
      exact ⟨m, by omega, hres⟩
    · exact BufferedExec.next_of_exhausted hex
  | some b =>
    rw [hres, Option.toList_some] at hdelivered
    refine ⟨⟨0, by simp [ended], ?_⟩, ?_, ?_, ?_⟩
    · rw [hdelivered, hrs]
      simp
    · exact fun i hi => hstop.before i (Nat.lt_of_succ_lt_succ hi)
    · simp only [ended, Bool.false_eq_true, false_iff, not_exists, not_and]
      intro i hi
      by_cases him : i = m
      · simp [him, hres]
      · exact hstop.before i (by omega)
    · simp [ended]

theorem PullContract.call {rs : List (Java (Option (RecordBatch F)))}
    {state state' : BufferedExec.Fields ℕ} {fuel : ℕ} {r : Java (Option (RecordBatch F))}
    (h : PullContract responses rs state)
    (hcall : BufferedExec.next (streamPull responses) fuel state = some (r, state')) :
    PullContract responses (rs ++ [r]) state' := by
  obtain ⟨exhausted, pulls⟩ := state
  match exhausted with
  | true =>
    rw [h.stays rfl fuel, Option.some.injEq, Prod.mk.injEq] at hcall
    obtain ⟨rfl, rfl⟩ := hcall
    exact h.again
  | false =>
    have hrunning : ∀ m < pulls, responses m ≠ none := by
      intro m hm hnull
      exact absurd (h.exhausted.mpr ⟨m, hm, hnull⟩) (by simp)
    rw [BufferedExec.next_of_running, Option.map_eq_some_iff] at hcall
    obtain ⟨⟨r', j⟩, hrun, hout⟩ := hcall
    obtain ⟨rfl, rfl⟩ := Prod.mk.inj hout
    obtain ⟨m, rfl, hstop⟩ := skipLoop_stream hrunning hrun
    exact h.stop hstop

theorem PullContract.of_calls {rs : List (Java (Option (RecordBatch F)))}
    {state : BufferedExec.Fields ℕ}
    (h : Calls (BufferedExec.next (streamPull responses)) ⟨false, 0⟩ rs state) :
    PullContract responses rs state :=
  h.invariant (PullContract responses) (PullContract.start responses)
    fun _ _ _ _ _ hs hcall => hs.call hcall

end Stream

/-! ## Logs -/

/-- One more answer to a log without `null`. -/
theorem endsAtNull_append {answers : List (Java (Option (RecordBatch F)))}
    (h : .ok none ∉ answers) (r : Java (Option (RecordBatch F))) : EndsAtNull (answers ++ [r]) := by
  intro pre post heq
  obtain rfl | ⟨post', x, rfl⟩ := post.eq_nil_or_concat
  · rfl
  · rw [List.concat_eq_append, ← List.cons_append, ← List.append_assoc] at heq
    have hlog := (List.append_inj' heq rfl).1
    simp [hlog] at h

/-- A child's log under the flag of its parent: no `null` yet, or a `null` as the last answer. -/
def AskedUntilNull (answers : List (Java (Option (RecordBatch F)))) : Bool → Prop
  | false => .ok none ∉ answers
  | true => EndsAtNull answers

theorem AskedUntilNull.endsAtNull {answers : List (Java (Option (RecordBatch F)))}
    {exhausted : Bool} (h : AskedUntilNull answers exhausted) : EndsAtNull answers := by
  match exhausted, h with
  | true, h => exact h
  | false, h =>
    rintro pre post rfl
    simp [AskedUntilNull] at h

theorem AskedUntilNull.append {answers : List (Java (Option (RecordBatch F)))}
    (h : AskedUntilNull answers false) (r : Java (Option (RecordBatch F))) :
    AskedUntilNull (answers ++ [r]) (ended r) := by
  cases r using outcome_cases with
  | raise x => simpa [ended, AskedUntilNull] using h
  | drop => exact endsAtNull_append h (.ok none)
  | keep batch => simpa [ended, AskedUntilNull] using h

/-! ## One call of a recorded tree -/

theorem recording_next {sub : Subclass F} {fuel : ℕ} {s s' : Recorded F sub.State}
    {r : Java (Option (RecordBatch F))} (h : (recording sub).next fuel s = some (r, s')) :
    BufferedExec.next sub.pull fuel s.self = some (r, s'.self) ∧
      s'.answers = s.answers ++ [r] := by
  obtain ⟨⟨r', self'⟩, hnext, hout⟩ := Option.map_eq_some_iff.mp h
  obtain ⟨rfl, rfl⟩ := Prod.mk.inj hout
  exact ⟨hnext, rfl⟩

/-- The logs of a recorded tree, as an instrument. -/
def recordings : Instrument F where
  exec := recording
  strip _ := Recorded.self
  schema_eq _ := rfl
  strip_start _ := rfl
  strip_next _ _ _ := (Option.map_map _ _ _).trans Option.map_id'

namespace Plan
variable [JavaDouble F]

/-- The invariant of a recorded tree. -/
def Orderly (p : Plan F) (s : p.recorded.State) : Prop :=
  recordings.Throughout (fun _ _ _ => True)
    (fun child exhausted t => AskedUntilNull (child.answers t) exhausted) p s

theorem next_answers {p : Plan F} {fuel : ℕ} {s s' : p.recorded.State}
    {r : Java (Option (RecordBatch F))} (h : p.recorded.next fuel s = some (r, s')) :
    p.answers s' = p.answers s ++ [r] := by
  match p with
  | memoryScan _ _ => exact (recording_next h).2
  | filter _ _ => exact (recording_next h).2
  | project _ _ _ => exact (recording_next h).2

/-- **Every call keeps a recorded tree orderly.** -/
theorem orderly_next {p : Plan F} {fuel : ℕ} {s s' : p.recorded.State}
    {r : Java (Option (RecordBatch F))} (hs : p.Orderly s)
    (h : p.recorded.next fuel s = some (r, s')) : p.Orderly s' := by
  refine recordings.throughout_next (fun _ _ _ _ _ _ _ => trivial) ?_ hs h
  intro child t x t' ht hcall
  have hanswers : child.answers t' = child.answers t ++ [x] := next_answers hcall
  rw [hanswers]
  exact ht.append x

theorem orderly_start (p : Plan F) : p.Orderly p.recorded.start := by
  refine recordings.throughout_start (fun _ _ => trivial) (fun child => ?_) p
  have hempty : child.answers child.recorded.start = [] := by
    match child with
    | memoryScan _ _ => rfl
    | filter _ _ => rfl
    | project _ _ _ => rfl
  show .ok none ∉ child.answers child.recorded.start
  simp [hempty]

theorem noCallAfterNull_of_orderly {p : Plan F} {s : p.recorded.State} (h : p.Orderly s) :
    p.NoCallAfterNull s := by
  induction p with
  | memoryScan schema batches => trivial
  | filter child predicate ih => exact ⟨h.1.endsAtNull, ih h.2⟩
  | project schema child projections ih => exact ⟨h.1.endsAtNull, ih h.2⟩

end Plan

/-! ## Erasing the logs -/

namespace Plan
variable [JavaDouble F]

theorem erase_eq (p : Plan F) (s : p.recorded.State) : p.erase s = recordings.erase p s := by
  induction p with
  | memoryScan schema batches => rfl
  | filter child predicate ih =>
    exact congrArg (BufferedExec.Fields.mk (Recorded.self s).exhausted) (ih _)
  | project schema child projections ih =>
    exact congrArg (BufferedExec.Fields.mk (Recorded.self s).exhausted) (ih _)

/-- **Every run of a tree is what a recorded run looks like without its logs.** -/
theorem recorded_run (p : Plan F) {rs : List (Java (Option (RecordBatch F)))} {s : p.exec.State}
    (h : Calls p.exec.next p.exec.start rs s) :
    ∃ t, Calls p.recorded.next p.recorded.start rs t ∧ p.erase t = s ∧ p.NoCallAfterNull t := by
  obtain ⟨t, ht, herase, horderly⟩ := recordings.erased_run p (fun _ t => p.Orderly t)
    p.orderly_start (fun _ _ _ _ _ horderly hnext => orderly_next horderly hnext) h
  exact ⟨t, ht, (p.erase_eq t).trans herase, noCallAfterNull_of_orderly horderly⟩

end Plan

/-! ## The contract -/

/-- **The pull contract**, for arbitrary responses and for trees. -/
theorem pull_contract [JavaDouble F] :
    (∀ (responses : ℕ → Option (RecordBatch F)) rs state,
      Calls (BufferedExec.next (streamPull responses)) ⟨false, 0⟩ rs state →
        PullContract responses rs state) ∧
    (∀ (p : Plan F) rs s, Calls p.exec.next p.exec.start rs s →
      ∃ t, Calls p.recorded.next p.recorded.start rs t ∧ p.erase t = s ∧ p.NoCallAfterNull t) :=
  ⟨fun _ _ _ => PullContract.of_calls, fun p _ _ => p.recorded_run⟩

/-- An empty batch, a batch, `null`, and a batch that comes too late. -/
def Sample.responses : ℕ → Option (RecordBatch Unit)
  | 0 => some Sample.noRows
  | 1 => some Sample.first
  | 2 => none
  | _ => some Sample.second

theorem pull_contract_sample :
    PullContract Sample.responses [.ok (some Sample.first), .ok none, .ok none] ⟨true, 3⟩ ∧
    ∃ rs s t, rs.length = 2 ∧ Calls Sample.plan.exec.next Sample.plan.exec.start rs s ∧
      Calls Sample.plan.recorded.next Sample.plan.recorded.start rs t ∧
      Sample.plan.erase t = s ∧ Sample.plan.NoCallAfterNull t := by
  obtain ⟨hstream, htree⟩ := @pull_contract Unit _
  constructor
  · have hfirst : Calls (BufferedExec.next (streamPull Sample.responses)) ⟨false, 0⟩
        [.ok (some Sample.first)] ⟨false, 2⟩ := Calls.call (n := 2) .start rfl
    have hnull : Calls (BufferedExec.next (streamPull Sample.responses)) ⟨false, 0⟩
        [.ok (some Sample.first), .ok none] ⟨true, 3⟩ := Calls.call (n := 2) hfirst rfl
    have hagain : Calls (BufferedExec.next (streamPull Sample.responses)) ⟨false, 0⟩
        [.ok (some Sample.first), .ok none, .ok none] ⟨true, 3⟩ := Calls.call (n := 2) hnull rfl
    exact hstream Sample.responses _ _ hagain
  · have hrun : ∃ rs s, rs.length = 2 ∧ Calls Sample.plan.exec.next Sample.plan.exec.start rs s :=
      ⟨_, _, rfl, Calls.call (n := 2) (Calls.call (n := 2) .start rfl) rfl⟩
    obtain ⟨rs, s, hlen, hcalls⟩ := hrun
    obtain ⟨t, ht, herase, hquiet⟩ := htree Sample.plan rs s hcalls
    exact ⟨rs, s, t, hlen, hcalls, ht, herase, hquiet⟩

end QueryEngine
