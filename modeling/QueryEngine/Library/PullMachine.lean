import QueryEngine.Library.Traversal

/-! # Machines that are pulled

A machine answers one call at a time: a value, nothing more to come, or an exception; a call may
also still be running when its fuel is spent. `Serves m N R` says that a state stands for a list
of pending responses, which the calls answer in order, one each, with nothing after the last.
`skipLoop` asks until an answer is worth returning, and turns pending responses of what it asks
into pending responses of its own. `drain` calls until nothing more comes.
-/
namespace QueryEngine.Library
set_option autoImplicit false
set_option maxHeartbeats 250000

variable {ε σ τ α β : Type}

/-- One call: still running, or an outcome and the next state. -/
abbrev Machine (ε σ β : Type) := ℕ → σ → Option (Except ε (Option β) × σ)

@[elab_as_elim]
theorem call_cases {motive : Option (Except ε (Option β) × σ) → Prop}
    (c : Option (Except ε (Option β) × σ)) (running : motive none)
    (raised : ∀ e s, motive (some (.error e, s))) (finished : ∀ s, motive (some (.ok none, s)))
    (value : ∀ b s, motive (some (.ok (some b), s))) : motive c := by
  obtain _ | ⟨e | _ | b, s⟩ := c
  · exact running
  · exact raised e s
  · exact finished s
  · exact value b s

/-- What a call answers when these responses are pending. -/
def answer : List (Except ε β) → Except ε (Option β)
  | [] => .ok none
  | .error e :: _ => .error e
  | .ok b :: _ => .ok (some b)

/-- The flag for an answer that nothing more comes. -/
def ended : Except ε (Option β) → Bool
  | .ok none => true
  | _ => false

/-- `R s l`: in state `s` the machine is about to respond with `l`. Calls that return do so with
the first pending response, and calls with more fuel than `N` return. -/
structure Serves (m : Machine ε σ β) (N : ℕ) (R : σ → List (Except ε β) → Prop) : Prop where
  sound : ∀ {s l n r s'}, R s l → m n s = some (r, s') → r = answer l ∧ R s' l.tail
  total : ∀ {s l n}, R s l → N < n → ∃ r s', m n s = some (r, s')
  short : ∀ {s l}, R s l → l.length ≤ N

/-! ## Asking until an answer is worth returning -/

/-- What becomes of one response: an exception stays, a value is passed on, refused or skipped. -/
def passOn (g : α → Except ε (Option β)) : Except ε α → Option (Except ε β)
  | .error e => some (.error e)
  | .ok a =>
      match g a with
      | .error e => some (.error e)
      | .ok none => none
      | .ok (some b) => some (.ok b)

theorem passOn_ok_eq_some_iff {g : α → Except ε (Option β)} {a : α} {r : Except ε β} :
    passOn g (.ok a) = some r ↔ g a = some <$> r := by
  cases hg : g a using outcome_cases with
  | raise e => cases r <;> simp [passOn, hg]
  | drop => cases r <;> simp [passOn, hg]
  | keep b => cases r <;> simp [passOn, hg]

/-- **Two stages in a row are one stage.** -/
theorem filterMap_passOn_andThen {γ : Type} (f : α → Except ε (Option β))
    (g : β → Except ε (Option γ)) (l : List (Except ε α)) :
    (l.filterMap (passOn f)).filterMap (passOn g) = l.filterMap (passOn (andThen f g)) := by
  rw [List.filterMap_filterMap]
  refine List.filterMap_congr fun x _ => ?_
  cases x with
  | error e => rfl
  | ok a =>
    cases hf : f a using outcome_cases with
    | raise e => simp only [passOn, hf, andThen_of_error hf]; rfl
    | drop => simp only [passOn, hf, andThen_of_none hf]; rfl
    | keep b => simp only [passOn, hf, andThen_of_some hf]; rfl

/-- What becomes of values that were no exceptions, as outcomes: those that are not skipped. -/
theorem map_filterMap_passOn (g : α → Except ε (Option β)) (l : List α) :
    ((l.map .ok).filterMap (passOn g)).map (some <$> ·) =
      (l.map g).filter fun r => !ended r := by
  induction l with
  | nil => rfl
  | cons a l ih =>
    cases hg : g a using outcome_cases with
    | raise e => simpa [passOn, hg, ended] using ih
    | drop => simpa [passOn, hg, ended] using ih
    | keep b => simpa [passOn, hg, ended] using ih

/-- `while (true)` over `ask`, skipping the values that `g` maps to nothing. -/
def skipLoop (ask : σ → Option (Except ε (Option α) × σ)) (g : α → Except ε (Option β)) :
    ℕ → σ → Option (Except ε (Option β) × σ)
  | 0, _ => none
  | k + 1, s =>
      match ask s with
      | none => none
      | some (.error e, s) => some (.error e, s)
      | some (.ok none, s) => some (.ok none, s)
      | some (.ok (some a), s) =>
          match g a with
          | .error e => some (.error e, s)
          | .ok none => skipLoop ask g k s
          | .ok (some b) => some (.ok (some b), s)

section SkipLoop
variable {m : Machine ε σ α} {N : ℕ} {R : σ → List (Except ε α) → Prop}

def Passed (R : σ → List (Except ε α) → Prop) (g : α → Except ε (Option β)) (s : σ)
    (l : List (Except ε β)) : Prop :=
  ∃ pending, R s pending ∧ l = pending.filterMap (passOn g)

theorem skipLoop_sound (hm : Serves m N R) {g : α → Except ε (Option β)} {n k : ℕ} {s s' : σ}
    {pending : List (Except ε α)} {r : Except ε (Option β)} (hR : R s pending)
    (h : skipLoop (m n) g k s = some (r, s')) :
    r = answer (pending.filterMap (passOn g)) ∧
      Passed R g s' (pending.filterMap (passOn g)).tail := by
  induction k generalizing s pending with
  | zero => cases h
  | succ k ih =>
    rw [skipLoop] at h
    cases hask : m n s with
    | none =>
      simp [hask] at h
    | some out =>
      obtain ⟨x, t⟩ := out
      obtain ⟨hx, ht⟩ := hm.sound hR hask
      rw [hask, hx] at h
      cases pending with
      | nil =>
        cases h
        exact ⟨rfl, [], ht, rfl⟩
      | cons y rest =>
        cases y with
        | error e =>
          cases h
          exact ⟨rfl, rest, ht, rfl⟩
        | ok a =>
          cases hga : g a using outcome_cases with
          | raise e =>
            simp only [answer, hga] at h
            cases h
            simp only [List.filterMap_cons, passOn, hga]
            exact ⟨rfl, rest, ht, rfl⟩
          | drop =>
            simp only [answer, hga] at h
            simp only [List.filterMap_cons, passOn, hga]
            exact ih ht h
          | keep b =>
            simp only [answer, hga] at h
            cases h
            simp only [List.filterMap_cons, passOn, hga]
            exact ⟨rfl, rest, ht, rfl⟩

theorem skipLoop_total (hm : Serves m N R) (g : α → Except ε (Option β)) {n k : ℕ} {s : σ}
    {pending : List (Except ε α)} (hR : R s pending) (hn : N < n) (hk : pending.length < k) :
    ∃ r s', skipLoop (m n) g k s = some (r, s') := by
  induction k generalizing s pending with
  | zero => omega
  | succ k ih =>
    obtain ⟨x, t, hask⟩ := hm.total hR hn
    obtain ⟨hx, ht⟩ := hm.sound hR hask
    rw [skipLoop, hask, hx]
    cases pending with
    | nil => exact ⟨_, _, rfl⟩
    | cons y rest =>
      cases y with
      | error e => exact ⟨_, _, rfl⟩
      | ok a =>
        have hrest : rest.length < k := by
          rw [List.length_cons] at hk
          omega
        simp only [answer]
        cases g a using outcome_cases with
        | raise e => exact ⟨_, _, rfl⟩
        | drop => exact ih ht hrest
        | keep b => exact ⟨_, _, rfl⟩

theorem Passed.short (hm : Serves m N R) {g : α → Except ε (Option β)} {s : σ}
    {l : List (Except ε β)} (h : Passed R g s l) : l.length ≤ N := by
  obtain ⟨pending, hR, rfl⟩ := h
  have hle := List.length_filterMap_le (passOn g) pending
  have hlt := hm.short hR
  omega

/-- **A loop over a serving machine serves what passes.** -/
theorem Serves.skipLoop (hm : Serves m N R) (g : α → Except ε (Option β)) :
    Serves (fun n s => skipLoop (m n) g n s) N (Passed R g) where
  sound := by
    rintro s l n r s' ⟨pending, hR, rfl⟩ h
    exact skipLoop_sound hm hR h
  total := by
    rintro s l n ⟨pending, hR, rfl⟩ hn
    have hlt := hm.short hR
    exact skipLoop_total hm g hR hn (by omega)
  short := fun h => h.short hm

end SkipLoop

/-! ## Draining -/

/-- Calls until nothing more comes, at most `k` times; the first exception ends it. -/
def drain (m : Machine ε σ β) (fuel : ℕ) : ℕ → σ → Option (Except ε (List β))
  | 0, _ => none
  | k + 1, s =>
      match m fuel s with
      | none => none
      | some (.error e, _) => some (.error e)
      | some (.ok none, _) => some (.ok [])
      | some (.ok (some b), s) => (drain m fuel k s).map fun r => (b :: ·) <$> r

def collect : List (Except ε β) → Except ε (List β)
  | [] => .ok []
  | .error e :: _ => .error e
  | .ok b :: l => (b :: ·) <$> collect l

theorem mem_of_collect_error {l : List (Except ε β)} {e : ε} (h : collect l = .error e) :
    .error e ∈ l := by
  induction l with
  | nil => simp [collect] at h
  | cons r l ih =>
    cases r with
    | error e' =>
      rw [collect, Except.error.injEq] at h
      simp [h]
    | ok b => exact List.mem_cons_of_mem _ (ih (map_eq_error h))

theorem collect_map_ok (bs : List β) : collect (bs.map .ok : List (Except ε β)) = .ok bs := by
  induction bs with
  | nil => rfl
  | cons b bs ih =>
    rw [List.map_cons, collect, ih]
    rfl

theorem eq_map_ok_of_collect {l : List (Except ε β)} {bs : List β} (h : collect l = .ok bs) :
    l = bs.map .ok := by
  induction l generalizing bs with
  | nil =>
    rw [← show [] = bs from Except.ok.inj h]
    rfl
  | cons r l ih =>
    cases r with
    | error e => simp [collect] at h
    | ok a =>
      obtain ⟨as, has, rfl⟩ := map_eq_ok h
      rw [ih has]
      rfl

theorem mem_of_collect_ok {l : List (Except ε β)} {bs : List β} (h : collect l = .ok bs) {b : β}
    (hb : b ∈ bs) : .ok b ∈ l := by
  rw [eq_map_ok_of_collect h]
  exact List.mem_map_of_mem hb

section Drain
variable {m : Machine ε σ β} {N : ℕ} {R : σ → List (Except ε β) → Prop}

theorem Serves.drain_sound (hm : Serves m N R) {fuel k : ℕ} {s : σ} {l : List (Except ε β)}
    {r : Except ε (List β)} (hR : R s l) (h : drain m fuel k s = some r) : r = collect l := by
  induction k generalizing s l r with
  | zero => cases h
  | succ k ih =>
    rw [drain] at h
    cases hcall : m fuel s with
    | none =>
      simp [hcall] at h
    | some out =>
      obtain ⟨x, t⟩ := out
      obtain ⟨hx, ht⟩ := hm.sound hR hcall
      rw [hcall, hx] at h
      cases l with
      | nil =>
        cases h
        rfl
      | cons y rest =>
        cases y with
        | error e =>
          cases h
          rfl
        | ok b =>
          obtain ⟨q, hq, rfl⟩ := Option.map_eq_some_iff.mp h
          rw [ih ht hq]
          rfl

theorem Serves.drain_total (hm : Serves m N R) {fuel k : ℕ} {s : σ} {l : List (Except ε β)}
    (hR : R s l) (hn : N < fuel) (hk : l.length < k) : ∃ r, drain m fuel k s = some r := by
  induction k generalizing s l with
  | zero => omega
  | succ k ih =>
    obtain ⟨x, t, hcall⟩ := hm.total hR hn
    obtain ⟨hx, ht⟩ := hm.sound hR hcall
    rw [drain, hcall, hx]
    cases l with
    | nil => exact ⟨_, rfl⟩
    | cons y rest =>
      cases y with
      | error e => exact ⟨_, rfl⟩
      | ok b =>
        have hrest : rest.length < k := by
          rw [List.length_cons] at hk
          omega
        obtain ⟨q, hq⟩ := ih ht hrest
        exact ⟨_, congrArg (Option.map _) hq⟩

end Drain

/-! ## Runs -/

/-- The outcomes of calls that returned, from the first to the last, and the state after them. -/
inductive Calls (m : Machine ε σ β) (start : σ) : List (Except ε (Option β)) → σ → Prop
  | start : Calls m start [] start
  | call {rs : List (Except ε (Option β))} {s s' : σ} {n : ℕ} {r : Except ε (Option β)}
      (hs : Calls m start rs s) (h : m n s = some (r, s')) : Calls m start (rs ++ [r]) s'

theorem Calls.invariant {m : Machine ε σ β} {start s : σ} {rs : List (Except ε (Option β))}
    (h : Calls m start rs s) (Inv : List (Except ε (Option β)) → σ → Prop) (hstart : Inv [] start)
    (hcall : ∀ rs s n r s', Inv rs s → m n s = some (r, s') → Inv (rs ++ [r]) s') : Inv rs s := by
  induction h with
  | start => exact hstart
  | call _ hstep ih => exact hcall _ _ _ _ _ ih hstep

/-- After `k` calls the responses that were pending at the start are pending from the `k`-th on. -/
theorem Serves.calls {m : Machine ε σ β} {N : ℕ} {R : σ → List (Except ε β) → Prop}
    (hm : Serves m N R) {start s : σ} {l : List (Except ε β)} (hR : R start l)
    {rs : List (Except ε (Option β))} (h : Calls m start rs s) : R s (l.drop rs.length) := by
  refine h.invariant (fun rs s => R s (l.drop rs.length)) hR fun rs s n r s' hs hstep => ?_
  have hnext := (hm.sound hs hstep).2
  rw [List.tail_drop] at hnext
  rwa [List.length_append, List.length_singleton]

/-- The answers of `k` calls when these responses are pending at the start: one response each, and
then that nothing more comes. -/
def answersTo (l : List (Except ε β)) (k : ℕ) : List (Except ε (Option β)) :=
  (l.take k).map (some <$> ·) ++ List.replicate (k - l.length) (.ok none)

theorem answersTo_succ (l : List (Except ε β)) (k : ℕ) :
    answersTo l (k + 1) = answersTo l k ++ [answer (l.drop k)] := by
  induction l generalizing k with
  | nil => simp [answersTo, answer, List.replicate_succ']
  | cons r l ih =>
    cases k with
    | zero => cases r <;> simp [answersTo, answer]
    | succ k =>
      have hcons : ∀ n, answersTo (r :: l) (n + 1) = (some <$> r) :: answersTo l n := by
        intro n
        simp [answersTo]
      rw [hcons, hcons, ih, List.drop_succ_cons, List.cons_append]

theorem mem_of_answersTo {l : List (Except ε β)} {k : ℕ} {r : Except ε β}
    (h : some <$> r ∈ answersTo l k) : r ∈ l := by
  obtain hmem | hmem := List.mem_append.mp h
  · obtain ⟨q, hq, hqr⟩ := List.mem_map.mp hmem
    have hsame : q = r := by
      cases q <;> cases r <;> cases hqr <;> rfl
    rw [← hsame]
    exact List.mem_of_mem_take hq
  · have hnull := List.eq_of_mem_replicate hmem
    cases r <;> cases hnull

section Runs
variable {m : Machine ε σ β} {N : ℕ} {R : σ → List (Except ε β) → Prop} {start : σ}
  {l : List (Except ε β)}

/-- **A run answers with the responses that were pending at its start.** -/
theorem Serves.answers (hm : Serves m N R) (hR : R start l) {rs : List (Except ε (Option β))}
    {s : σ} (h : Calls m start rs s) : rs = answersTo l rs.length := by
  induction h with
  | start => simp [answersTo]
  | call hs hstep ih =>
    have hr := (hm.sound (hm.calls hR hs) hstep).1
    rw [List.length_append, List.length_singleton, answersTo_succ, ← ih, hr]

/-- There are runs of every length. -/
theorem Serves.exists_run (hm : Serves m N R) (hR : R start l) (k : ℕ) :
    ∃ rs s, Calls m start rs s ∧ rs.length = k := by
  induction k with
  | zero => exact ⟨[], start, .start, rfl⟩
  | succ k ih =>
    obtain ⟨rs, s, hs, hlen⟩ := ih
    obtain ⟨r, s', hstep⟩ := hm.total (hm.calls hR hs) (Nat.lt_succ_self N)
    exact ⟨rs ++ [r], s', hs.call hstep, by simp [hlen]⟩

/-- **A run long enough shows every response**, and that nothing more comes. -/
theorem Serves.exists_whole_run (hm : Serves m N R) (hR : R start l) :
    ∃ s, Calls m start (l.map (some <$> ·) ++ [.ok none]) s := by
  obtain ⟨rs, s, hs, hlen⟩ := hm.exists_run hR (l.length + 1)
  have hrs := hm.answers hR hs
  rw [hlen, answersTo, List.take_of_length_le (Nat.le_succ _), Nat.add_sub_cancel_left] at hrs
  exact ⟨s, hrs ▸ hs⟩

end Runs

/-! ## What a loop leaves behind -/

/-- Once what is asked has answered that nothing more comes, a loop asks no further: `Inv false`
holds as long as it may ask, and `Inv true` from then on. -/
theorem skipLoop_asks {ask : σ → Option (Except ε (Option α) × σ)}
    (g : α → Except ε (Option β)) (Inv : Bool → σ → Prop)
    (hask : ∀ s r s', Inv false s → ask s = some (r, s') → Inv (ended r) s')
    {k : ℕ} {s s' : σ} {r : Except ε (Option β)} (hs : Inv false s)
    (h : skipLoop ask g k s = some (r, s')) : Inv (ended r) s' := by
  induction k generalizing s with
  | zero => simp [skipLoop] at h
  | succ k ih =>
    rw [skipLoop] at h
    have hkeep := hask s
    cases hcall : ask s using call_cases with
    | running => simp [hcall] at h
    | raised e t =>
      simp only [hcall, Option.some.injEq, Prod.mk.injEq] at h
      obtain ⟨rfl, rfl⟩ := h
      exact hkeep _ _ hs hcall
    | finished t =>
      simp only [hcall, Option.some.injEq, Prod.mk.injEq] at h
      obtain ⟨rfl, rfl⟩ := h
      exact hkeep _ _ hs hcall
    | value a t =>
      have ht := hkeep _ _ hs hcall
      cases hga : g a using outcome_cases with
      | raise e =>
        simp only [hcall, hga, Option.some.injEq, Prod.mk.injEq] at h
        obtain ⟨rfl, rfl⟩ := h
        exact ht
      | drop =>
        simp only [hcall, hga] at h
        exact ih ht h
      | keep b =>
        simp only [hcall, hga, Option.some.injEq, Prod.mk.injEq] at h
        obtain ⟨rfl, rfl⟩ := h
        exact ht

/-- A loop over a machine with a part of the state hidden is the loop with that part hidden. -/
theorem skipLoop_map {ask : σ → Option (Except ε (Option α) × σ)}
    {ask' : τ → Option (Except ε (Option α) × τ)} (g : α → Except ε (Option β)) (f : σ → τ)
    (hask : ∀ s, ask' (f s) = (ask s).map fun out => (out.1, f out.2)) (k : ℕ) (s : σ) :
    skipLoop ask' g k (f s) = (skipLoop ask g k s).map fun out => (out.1, f out.2) := by
  induction k generalizing s with
  | zero => rfl
  | succ k ih =>
    rw [skipLoop, skipLoop, hask s]
    cases ask s using call_cases with
    | running => rfl
    | raised e t => rfl
    | finished t => rfl
    | value a t =>
      cases hga : g a using outcome_cases with
      | raise e => simp [hga]
      | drop => simp [hga, ih]
      | keep b => simp [hga]

end QueryEngine.Library
