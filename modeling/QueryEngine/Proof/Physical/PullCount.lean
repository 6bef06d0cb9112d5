import QueryEngine.Abstract.PullLog
import QueryEngine.Proof.Physical.Contracts
import QueryEngine.Proof.Physical.Instruments

/-! # How often the scan is asked

A tree over `n` batches pulls its scan `n + 1` times and no more. The flag of an operator is set
only when its child's is, down to the scan, and the scan's own flag is set by the one pull that
answers `null`; so as soon as the root has answered `null` the scan has read everything, and once
its flag is set it is not pulled again.
-/
namespace QueryEngine
open Library
set_option autoImplicit false
set_option maxHeartbeats 250000

variable {F : Type}

theorem BufferedExec.next_exhausted {σ : Type} {pull : ℕ → σ → Call σ (Option (RecordBatch F))}
    {fuel : ℕ} {b b' : Fields σ} {r : Java (Option (RecordBatch F))}
    (h : next pull fuel b = some (r, b')) : b'.exhausted = (b.exhausted || ended r) := by
  obtain ⟨exhausted, s⟩ := b
  match exhausted with
  | true =>
    rw [next_of_exhausted rfl, Option.some.injEq, Prod.mk.injEq] at h
    rw [← h.2, Bool.true_or]
  | false =>
    rw [next_of_running, Option.map_eq_some_iff] at h
    obtain ⟨⟨r', s'⟩, -, hout⟩ := h
    obtain ⟨rfl, rfl⟩ := Prod.mk.inj hout
    rw [Bool.false_or]

/-- The log of pulls, as an instrument. -/
def pullMeter : Instrument F where
  exec sub := BufferedExec.exec (metering sub)
  strip _ s := s.map Metered.fields
  schema_eq _ := rfl
  strip_start _ := rfl
  strip_next sub fuel s := by
    refine (BufferedExec.next_map Metered.fields (fun t => ?_) s).symm
    exact ((Option.map_map _ _ _).trans Option.map_id').symm

/-! ## The scan -/

/-- The answers of a scan's `pull` that have read everything: each batch once, in order, and the
`null` at the end. -/
def wholeScan (batches : List (RecordBatch F)) : List (Java (Option (RecordBatch F))) :=
  batches.map (fun b => .ok (some b)) ++ [.ok none]

/-- A scan's log under its flag: the batches before the position, and with the flag all of them and
the `null`. -/
def ReadUpTo (batches : List (RecordBatch F)) (exhausted : Bool) (s : Metered F ℕ) : Prop :=
  if exhausted then s.pulls = wholeScan batches
  else s.pulls = (batches.take s.fields).map (fun b => .ok (some b))

theorem readUpTo_pull {schema : Schema} {batches : List (RecordBatch F)} {fuel : ℕ}
    {s s' : Metered F ℕ} {r : Java (Option (RecordBatch F))} (hs : ReadUpTo batches false s)
    (h : (metering (MemoryScanExec.subclass schema batches)).pull fuel s = some (r, s')) :
    ReadUpTo batches (ended r) s' := by
  have hpulls : s.pulls = (batches.take s.fields).map (fun b => .ok (some b)) := hs
  have hscan : (MemoryScanExec.pull batches s.fields).map
      (fun out => (out.1, (⟨out.2, s.pulls ++ [out.1]⟩ : Metered F ℕ))) = some (r, s') := h
  rw [MemoryScanExec.pull] at hscan
  cases hget : batches[s.fields]? with
  | none =>
    rw [hget] at hscan
    obtain ⟨rfl, rfl⟩ := Prod.mk.inj (Option.some.inj hscan)
    have hall : batches.take s.fields = batches :=
      List.take_of_length_le (List.getElem?_eq_none_iff.mp hget)
    simp [ReadUpTo, ended, wholeScan, hpulls, hall]
  | some batch =>
    rw [hget] at hscan
    obtain ⟨rfl, rfl⟩ := Prod.mk.inj (Option.some.inj hscan)
    simp [ReadUpTo, ended, hpulls, List.take_add_one, hget]

theorem ReadUpTo.initial {batches : List (RecordBatch F)} {exhausted : Bool} {s : Metered F ℕ}
    (h : ReadUpTo batches exhausted s) : s.pulls <+: wholeScan batches := by
  match exhausted with
  | true =>
    rw [show s.pulls = wholeScan batches from h]
  | false =>
    have hpulls : s.pulls = (batches.take s.fields).map (fun b => .ok (some b)) := h
    refine ⟨(batches.drop s.fields).map (fun b => .ok (some b)) ++ [.ok none], ?_⟩
    rw [hpulls, ← List.append_assoc, ← List.map_append, List.take_append_drop, wholeScan]

/-! ## Trees -/

namespace Plan
variable [JavaDouble F]

def exhausted : (p : Plan F) → p.metered.State → Bool
  | memoryScan _ _, s => BufferedExec.Fields.exhausted s
  | filter _ _, s => BufferedExec.Fields.exhausted s
  | project _ _ _, s => BufferedExec.Fields.exhausted s

/-- The invariant of a metered tree: an operator's flag is set only after its child's, and the scan
has read up to its position. -/
def Ledger (p : Plan F) (s : p.metered.State) : Prop :=
  pullMeter.Throughout (fun _ batches t =>
      ReadUpTo batches (BufferedExec.Fields.exhausted t) (BufferedExec.Fields.fields t))
    (fun child exhausted t => exhausted = true → child.exhausted t = true) p s

theorem exhausted_next {p : Plan F} {fuel : ℕ} {s s' : p.metered.State}
    {r : Java (Option (RecordBatch F))} (h : p.metered.next fuel s = some (r, s')) :
    p.exhausted s' = (p.exhausted s || ended r) := by
  match p with
  | memoryScan _ _ => exact BufferedExec.next_exhausted h
  | filter _ _ => exact BufferedExec.next_exhausted h
  | project _ _ _ => exact BufferedExec.next_exhausted h

/-- **Every call keeps the ledger of a metered tree.** -/
theorem ledger_next {p : Plan F} {fuel : ℕ} {s s' : p.metered.State}
    {r : Java (Option (RecordBatch F))} (hs : p.Ledger s)
    (h : p.metered.next fuel s = some (r, s')) : p.Ledger s' := by
  refine pullMeter.throughout_next ?_ ?_ hs h
  · intro schema batches t x t' ht hcall
    exact BufferedExec.next_asks (ReadUpTo batches) (fun _ _ _ => readUpTo_pull) ht hcall
  · intro child t x t' _ hcall hended
    have hflag : child.exhausted t' = (child.exhausted t || ended x) := exhausted_next hcall
    rw [hflag, hended, Bool.or_true]

theorem ledger_start (p : Plan F) : p.Ledger p.metered.start := by
  refine pullMeter.throughout_start ?_ ?_ p
  · exact fun schema batches => rfl
  · exact fun child h => absurd h Bool.false_ne_true

theorem Ledger.initial {p : Plan F} {s : p.metered.State} (h : p.Ledger s) :
    p.scanPulls s <+: wholeScan p.sourceBatches := by
  induction p with
  | memoryScan schema batches => exact ReadUpTo.initial h
  | filter child predicate ih => exact ih h.2
  | project schema child projections ih => exact ih h.2

theorem Ledger.whole {p : Plan F} {s : p.metered.State} (h : p.Ledger s)
    (hs : p.exhausted s = true) : p.scanPulls s = wholeScan p.sourceBatches := by
  induction p with
  | memoryScan schema batches =>
    have hread : ReadUpTo batches (BufferedExec.Fields.exhausted s)
      (BufferedExec.Fields.fields s) := h
    rw [show BufferedExec.Fields.exhausted s = true from hs] at hread
    exact hread
  | filter child predicate ih => exact ih h.2 (h.1 hs)
  | project schema child projections ih => exact ih h.2 (h.1 hs)

/-! ## Runs -/

theorem ledger_of_calls {p : Plan F} {rs : List (Java (Option (RecordBatch F)))}
    {t : p.metered.State} (h : Calls p.metered.next p.metered.start rs t) :
    p.Ledger t ∧ (.ok none ∈ rs → p.exhausted t = true) := by
  refine h.invariant (fun rs t => p.Ledger t ∧ (.ok none ∈ rs → p.exhausted t = true))
    ⟨p.ledger_start, by simp⟩ ?_
  rintro rs t fuel r t' ⟨hledger, hnull⟩ hnext
  refine ⟨ledger_next hledger hnext, fun hmem => ?_⟩
  rw [exhausted_next hnext]
  obtain hmem | hr := List.mem_append.mp hmem
  · rw [hnull hmem, Bool.true_or]
  · rw [← List.mem_singleton.mp hr]
    simp [ended]

/-- The answers of a run: at most one for each source batch, and then `null`s. -/
theorem calls_answers (p : Plan F) {rs : List (Java (Option (RecordBatch F)))} {s : p.exec.State}
    (h : Calls p.exec.next p.exec.start rs s) :
    ∃ results nulls, rs = results ++ List.replicate nulls (.ok none) ∧ .ok none ∉ results ∧
      results.length ≤ p.sourceBatches.length := by
  obtain ⟨R, hserves, hstart⟩ := p.exec_serves
  refine ⟨_, _, hserves.answers hstart h, ?_, ?_⟩
  · intro hmem
    obtain ⟨r, -, hr⟩ := List.mem_map.mp hmem
    cases r with
    | error x => cases hr
    | ok b => cases hr
  · have hshort := hserves.short hstart
    rw [List.length_map, List.length_take]
    omega

end Plan

/-- **Draining terminates and reads each source batch once.** Every call returns; a run has at most
one answer for each source batch before its `null`s; and the pulls of the scan are, from the first
`null` on and for ever, one for each source batch in order and one that found the end. -/
theorem scan_read_once [JavaDouble F] (p : Plan F) :
    (∀ rs s, Calls p.exec.next p.exec.start rs s →
      (∀ fuel, p.sourceBatches.length < fuel → ∃ r s', p.exec.next fuel s = some (r, s')) ∧
      (∃ results nulls, rs = results ++ List.replicate nulls (.ok none) ∧ .ok none ∉ results ∧
        results.length ≤ p.sourceBatches.length) ∧
      ∃ t, Calls p.metered.next p.metered.start rs t ∧ pullMeter.erase p t = s) ∧
    (∀ rs t, Calls p.metered.next p.metered.start rs t →
      p.scanPulls t <+: wholeScan p.sourceBatches ∧
      (.ok none ∈ rs → p.scanPulls t = wholeScan p.sourceBatches ∧
        (p.scanPulls t).length = p.sourceBatches.length + 1)) := by
  constructor
  · intro rs s hs
    obtain ⟨R, hserves, hstart⟩ := p.exec_serves
    obtain ⟨t, ht, herase, -⟩ := pullMeter.erased_run p (fun _ _ => True) trivial
      (fun _ _ _ _ _ _ _ => trivial) hs
    exact ⟨fun fuel hfuel => hserves.total (hserves.calls hstart hs) hfuel, p.calls_answers hs,
      t, ht, herase⟩
  · intro rs t ht
    obtain ⟨hledger, hnull⟩ := Plan.ledger_of_calls ht
    refine ⟨hledger.initial, fun hmem => ?_⟩
    have hwhole := hledger.whole (hnull hmem)
    refine ⟨hwhole, ?_⟩
    rw [hwhole, wholeScan, List.length_append, List.length_map, List.length_singleton]

/-- Three calls on one source batch: the batch, `null`, `null`. -/
theorem scan_read_once_sample :
    ∃ rs s t, rs.length = 3 ∧ .ok none ∈ rs ∧
      Calls Sample.plan.exec.next Sample.plan.exec.start rs s ∧
      Calls Sample.plan.metered.next Sample.plan.metered.start rs t ∧
      pullMeter.erase Sample.plan t = s ∧
      Sample.plan.scanPulls t = [.ok (some Sample.batch), .ok none] := by
  obtain ⟨hruns, hpulls⟩ := scan_read_once Sample.plan
  have hrun : ∃ rs s, rs.length = 3 ∧ .ok none ∈ rs ∧
      Calls Sample.plan.exec.next Sample.plan.exec.start rs s :=
    ⟨_, _, rfl, List.mem_append_right _ (List.mem_singleton_self _), Calls.call (n := 2)
      (Calls.call (n := 2) (Calls.call (n := 2) .start rfl) rfl) rfl⟩
  obtain ⟨rs, s, hlen, hnull, hcalls⟩ := hrun
  obtain ⟨-, -, t, ht, herase⟩ := hruns rs s hcalls
  exact ⟨rs, s, t, hlen, hnull, hcalls, ht, herase, ((hpulls rs t ht).2 hnull).1⟩

end QueryEngine
