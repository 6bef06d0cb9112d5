import QueryEngine.Abstract.Instrument
import QueryEngine.Proof.Physical.Serving

/-! # Instrumented trees

A call of an instrumented tree is, without the additions, a call of the tree, so every run of a tree
is what a run of the instrumented tree looks like without them. What an operator knows of its child
it keeps as long as its flag is unset, for once the flag is set it does not call the child again.
-/
namespace QueryEngine
open Library
set_option autoImplicit false
set_option maxHeartbeats 250000

variable {F : Type}

namespace BufferedExec
variable {σ τ : Type} {pull : ℕ → σ → Call σ (Option (RecordBatch F))}

theorem next_asks {fuel : ℕ} (Inv : Bool → σ → Prop)
    (hpull : ∀ s r s', Inv false s → pull fuel s = some (r, s') → Inv (ended r) s')
    {b b' : Fields σ} {r : Java (Option (RecordBatch F))} (hb : Inv b.exhausted b.fields)
    (h : next pull fuel b = some (r, b')) : Inv b'.exhausted b'.fields := by
  obtain ⟨exhausted, s⟩ := b
  match exhausted with
  | true =>
    rw [next_of_exhausted rfl, Option.some.injEq, Prod.mk.injEq] at h
    rw [← h.2]
    exact hb
  | false =>
    rw [next_of_running, Option.map_eq_some_iff] at h
    obtain ⟨⟨r', s'⟩, hrun, hout⟩ := h
    obtain ⟨rfl, rfl⟩ := Prod.mk.inj hout
    exact skipLoop_asks nonEmpty Inv hpull hb hrun

theorem next_map {pull' : ℕ → τ → Call τ (Option (RecordBatch F))} (f : σ → τ) {fuel : ℕ}
    (hpull : ∀ s, pull' fuel (f s) = (pull fuel s).map fun out => (out.1, f out.2))
    (b : Fields σ) :
    next pull' fuel (b.map f) = (next pull fuel b).map fun out => (out.1, out.2.map f) := by
  obtain ⟨exhausted, s⟩ := b
  match exhausted with
  | true => rfl
  | false =>
    rw [Fields.map, next_of_running, next_of_running, skipLoop_map nonEmpty f hpull, Option.map_map,
      Option.map_map]
    rfl

end BufferedExec

namespace Instrument
variable (I : Instrument F)

/-- A call of one operator over an instrumented child: first without its own addition, then without
those of the child. -/
theorem strip_stage {sub : Subclass F} {τ : Type}
    {pull' : ℕ → τ → Call τ (Option (RecordBatch F))} (f : sub.State → τ) {fuel : ℕ}
    (hpull : ∀ s, pull' fuel (f s) = (sub.pull fuel s).map fun out => (out.1, f out.2))
    (s : (I.exec sub).State) :
    BufferedExec.next pull' fuel ((I.strip sub s).map f) =
      ((I.exec sub).next fuel s).map fun out => (out.1, (I.strip sub out.2).map f) := by
  rw [BufferedExec.next_map f hpull, ← I.strip_next, Option.map_map]
  rfl

variable [JavaDouble F]

theorem execWith_schema (p : Plan F) : (p.execWith I.exec).schema = p.exec.schema := by
  induction p with
  | memoryScan schema batches => exact I.schema_eq _
  | filter child predicate ih => exact (I.schema_eq _).trans ih
  | project schema child projections ih => exact I.schema_eq _

theorem erase_start (p : Plan F) : I.erase p (p.execWith I.exec).start = p.exec.start := by
  induction p with
  | memoryScan schema batches => exact I.strip_start _
  | filter child predicate ih =>
    have hself := congrArg (BufferedExec.Fields.map (I.erase child))
      (I.strip_start (FilterExec.subclass (child.execWith I.exec) predicate))
    exact hself.trans (congrArg (BufferedExec.Fields.mk false) ih)
  | project schema child projections ih =>
    have hself := congrArg (BufferedExec.Fields.map (I.erase child))
      (I.strip_start (ProjectExec.subclass schema (child.execWith I.exec) projections))
    exact hself.trans (congrArg (BufferedExec.Fields.mk false) ih)

/-- **A call of an instrumented tree is a call of the tree.** -/
theorem erase_next (p : Plan F) (fuel : ℕ) (s : (p.execWith I.exec).State) :
    p.exec.next fuel (I.erase p s) =
      ((p.execWith I.exec).next fuel s).map fun out => (out.1, I.erase p out.2) := by
  induction p with
  | memoryScan schema batches => exact (I.strip_next _ fuel s).symm
  | filter child predicate ih =>
    have hpull : ∀ t, (FilterExec.subclass child.exec predicate).pull fuel (I.erase child t) =
        ((FilterExec.subclass (child.execWith I.exec) predicate).pull fuel t).map
          fun out => (out.1, I.erase child out.2) := by
      intro t
      show FilterExec.loop _ child.exec.schema predicate fuel _ =
        (FilterExec.loop _ (child.execWith I.exec).schema predicate fuel t).map _
      rw [FilterExec.loop_eq_skipLoop, FilterExec.loop_eq_skipLoop, execWith_schema]
      exact skipLoop_map _ (I.erase child) ih fuel t
    exact I.strip_stage (I.erase child) hpull s
  | project schema child projections ih =>
    have hpull : ∀ t, (ProjectExec.subclass schema child.exec projections).pull fuel
        (I.erase child t) =
          ((ProjectExec.subclass schema (child.execWith I.exec) projections).pull fuel t).map
            fun out => (out.1, I.erase child out.2) := by
      intro t
      show ProjectExec.pull _ schema projections _ =
        (ProjectExec.pull _ schema projections t).map _
      rw [ProjectExec.pull_eq_skipLoop _ _ _ 0, ProjectExec.pull_eq_skipLoop _ _ _ 0]
      exact skipLoop_map _ (I.erase child) ih 1 t
    exact I.strip_stage (I.erase child) hpull s

/-! ## What an operator knows of its child -/

section Asks
variable {fuel : ℕ} {r : Java (Option (RecordBatch F))} {child : Plan F}
  (Inv : Bool → (child.execWith I.exec).State → Prop)

theorem filter_asks {predicate : Expr F}
    {s s' : (I.exec (FilterExec.subclass (child.execWith I.exec) predicate)).State}
    (hchild : ∀ t x t', Inv false t → (child.execWith I.exec).next fuel t = some (x, t') →
      Inv (ended x) t')
    (hs : Inv (I.strip _ s).exhausted (I.strip _ s).fields)
    (h : (I.exec (FilterExec.subclass (child.execWith I.exec) predicate)).next fuel s =
      some (r, s')) : Inv (I.strip _ s').exhausted (I.strip _ s').fields := by
  have hnext := (I.strip_next _ fuel s).symm.trans (congrArg _ h)
  refine BufferedExec.next_asks Inv (fun t x t' ht hpull => ?_) hs hnext
  have hloop := (FilterExec.loop_eq_skipLoop _ _ predicate fuel t).symm.trans hpull
  exact skipLoop_asks _ Inv hchild ht hloop

theorem project_asks {schema : Schema} {projections : List (Projection F)}
    {s s' : (I.exec (ProjectExec.subclass schema (child.execWith I.exec) projections)).State}
    (hchild : ∀ t x t', Inv false t → (child.execWith I.exec).next fuel t = some (x, t') →
      Inv (ended x) t')
    (hs : Inv (I.strip _ s).exhausted (I.strip _ s).fields)
    (h : (I.exec (ProjectExec.subclass schema (child.execWith I.exec) projections)).next fuel s =
      some (r, s')) : Inv (I.strip _ s').exhausted (I.strip _ s').fields := by
  have hnext := (I.strip_next _ fuel s).symm.trans (congrArg _ h)
  refine BufferedExec.next_asks Inv (fun t x t' ht hpull => ?_) hs hnext
  have hloop := (ProjectExec.pull_eq_skipLoop _ schema projections 0 t).symm.trans hpull
  exact skipLoop_asks _ Inv hchild ht hloop

end Asks

section Throughout
variable {Scan : (schema : Schema) → (batches : List (RecordBatch F)) →
    ((Plan.memoryScan schema batches).execWith I.exec).State → Prop}
  {Link : (child : Plan F) → Bool → (child.execWith I.exec).State → Prop}

variable (Scan Link) in
/-- What an operator knows of its child, the child's own inside included. -/
def Knows (child : Plan F) (exhausted : Bool) (t : (child.execWith I.exec).State) : Prop :=
  Link child exhausted t ∧ I.Throughout Scan Link child t

/-- **Every call keeps** what it keeps at the scan and between every operator and its child. -/
theorem throughout_next {fuel : ℕ}
    (hscan : ∀ schema batches s r s', Scan schema batches s →
      ((Plan.memoryScan schema batches).execWith I.exec).next fuel s = some (r, s') →
      Scan schema batches s')
    (hlink : ∀ child t x t', Link child false t →
      (child.execWith I.exec).next fuel t = some (x, t') → Link child (ended x) t')
    {p : Plan F} {s s' : (p.execWith I.exec).State} {r : Java (Option (RecordBatch F))}
    (hs : I.Throughout Scan Link p s) (h : (p.execWith I.exec).next fuel s = some (r, s')) :
    I.Throughout Scan Link p s' := by
  have hchild : ∀ child : Plan F,
      (∀ t x t', I.Throughout Scan Link child t →
        (child.execWith I.exec).next fuel t = some (x, t') → I.Throughout Scan Link child t') →
      ∀ t x t', I.Knows Scan Link child false t →
        (child.execWith I.exec).next fuel t = some (x, t') →
        I.Knows Scan Link child (ended x) t' :=
    fun child hinside t x t' ht hcall =>
      ⟨hlink child t x t' ht.1 hcall, hinside t x t' ht.2 hcall⟩
  induction p generalizing r with
  | memoryScan schema batches => exact hscan schema batches s r s' hs h
  | filter child predicate ih =>
    exact I.filter_asks (I.Knows Scan Link child) (hchild child fun t x t' ht => ih ht) hs h
  | project schema child projections ih =>
    exact I.project_asks (I.Knows Scan Link child) (hchild child fun t x t' ht => ih ht) hs h

theorem throughout_start
    (hscan : ∀ schema batches,
      Scan schema batches ((Plan.memoryScan schema batches).execWith I.exec).start)
    (hlink : ∀ child, Link child false (child.execWith I.exec).start) (p : Plan F) :
    I.Throughout Scan Link p (p.execWith I.exec).start := by
  induction p with
  | memoryScan schema batches => exact hscan schema batches
  | filter child predicate ih =>
    unfold Throughout
    simp only [Plan.execWith]
    rw [I.strip_start]
    exact ⟨hlink child, ih⟩
  | project schema child projections ih =>
    unfold Throughout
    simp only [Plan.execWith]
    rw [I.strip_start]
    exact ⟨hlink child, ih⟩

end Throughout

/-! ## Runs -/

/-- **Every run of a tree is an instrumented run without the additions**, and what holds at the
start of the instrumented tree and is kept by its calls holds at the end of that run. -/
theorem erased_run (p : Plan F)
    (Inv : List (Java (Option (RecordBatch F))) → (p.execWith I.exec).State → Prop)
    (hstart : Inv [] (p.execWith I.exec).start)
    (hcall : ∀ rs s n r s', Inv rs s → (p.execWith I.exec).next n s = some (r, s') →
      Inv (rs ++ [r]) s')
    {rs : List (Java (Option (RecordBatch F)))} {s : p.exec.State}
    (h : Calls p.exec.next p.exec.start rs s) :
    ∃ t, Calls (p.execWith I.exec).next (p.execWith I.exec).start rs t ∧ I.erase p t = s ∧
      Inv rs t := by
  refine h.invariant (fun rs s => ∃ t, Calls (p.execWith I.exec).next
    (p.execWith I.exec).start rs t ∧ I.erase p t = s ∧ Inv rs t)
    ⟨_, .start, I.erase_start p, hstart⟩ ?_
  rintro rs s n r s' ⟨t, ht, rfl, hinv⟩ hnext
  rw [I.erase_next, Option.map_eq_some_iff] at hnext
  obtain ⟨⟨r', t'⟩, hnext', hout⟩ := hnext
  obtain ⟨rfl, rfl⟩ := Prod.mk.inj hout
  exact ⟨t', ht.call hnext', rfl, hcall rs t n _ t' hinv hnext'⟩

end Instrument

end QueryEngine
