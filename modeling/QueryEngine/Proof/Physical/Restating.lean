import QueryEngine.Proof.Physical.StepsAlike

/-! # Restating predicates and projections

Predicates and projected expressions may be rephrased anywhere in a tree. A predicate need only be
TRUE on the same lines of the truth table, with the same atoms, since a filter drops FALSE and
unknown alike; and as far as any scan can show, that is also necessary.
-/
namespace QueryEngine
open Library ExprEvaluator
set_option autoImplicit false
set_option maxHeartbeats 250000

variable {F : Type}

/-! ## Rephrasing a tree -/

/-- Predicates and projected expressions rephrased, and predicates replaced by ones that are TRUE
on the same lines of the truth table, anywhere in a tree and any number of times. -/
inductive Plan.Rephrases : Plan F → Plan F → Prop
  | refl (p : Plan F) : Rephrases p p
  | trans {p q r : Plan F} (h : Rephrases p q) (h' : Rephrases q r) : Rephrases p r
  | filter {child child' : Plan F} {p q : Expr F} (hc : Rephrases child child')
      (hpq : Expr.Rephrases child.schema p q) : Rephrases (.filter child p) (.filter child' q)
  | keep {ι : Type} (child : Plan F) (σ : ι → Expr F) (f g : Kleene.Formula ι)
      (htrue : ∀ ρ, f.value ρ = some true ↔ g.value ρ = some true)
      (hatoms : ∀ i, i ∈ f.atoms ↔ i ∈ g.atoms) :
      Rephrases (.filter child (Expr.ofFormula σ f)) (.filter child (Expr.ofFormula σ g))
  | project {schema : Schema} {child child' : Plan F} {ps qs : List (Projection F)}
      (hc : Rephrases child child')
      (hps : List.Forall₂ (fun p q => p.name = q.name ∧
        Expr.Rephrases child.schema p.expression q.expression) ps qs) :
      Rephrases (.project schema child ps) (.project schema child' qs)

variable [JavaDouble F]

theorem keepsAlike_of_truth_table {ι : Type} {s : Schema} {σ : ι → Expr F}
    {f g : Kleene.Formula ι} (hatoms : ∀ i, i ∈ f.atoms ↔ i ∈ g.atoms)
    (htrue : ∀ ρ, f.value ρ = some true ↔ g.value ρ = some true)
    (htypes : ∀ i ∈ f.atoms, (σ i).Boolean s) :
    KeepsAlike s (Expr.ofFormula σ f) (Expr.ofFormula σ g) := by
  rintro b rfl
  obtain ⟨τ, hreads⟩ := exists_reads_of_boolean b σ
  exact formulas_alike (fun i hi => hreads i (htypes i hi))
    (fun i hi => hreads i (htypes i ((hatoms i).mpr hi))) (by simp only [hatoms])
    fun k _ => htrue (τ k)

namespace Sample

end Sample

theorem Plan.first_answer {p : Plan F} {b : RecordBatch F} (hp : p.sourceBatches = [b])
    {rs : List (Java (Option (RecordBatch F)))} {s : p.exec.State}
    (hs : Calls p.exec.next p.exec.start rs s) (hlen : rs.length = 1) : rs = [p.step b] := by
  obtain ⟨R, hserves, hstart⟩ := p.exec_serves
  rw [hserves.answers hstart hs, hlen, answersTo_succ, hp]
  cases hstep : p.step b using outcome_cases with
  | raise x => simp [answersTo, responses, passOn, hstep, answer]
  | drop => simp [answersTo, responses, passOn, hstep, answer]
  | keep c => simp [answersTo, responses, passOn, hstep, answer]

theorem Plan.SameAnswers.step {p q : Plan F} (h : SameAnswers p q) {b : RecordBatch F}
    (hp : p.sourceBatches = [b]) (hq : q.sourceBatches = [b]) :
    Alike (Option.Rel RecordBatch.Same) (p.step b) (q.step b) := by
  obtain ⟨rs, s, hs, hlen⟩ := p.exists_calls 1
  obtain ⟨rs', s', hs', hrs⟩ := h.forth rs s hs
  have hlen' : rs'.length = 1 := hrs.length_eq.symm.trans hlen
  rw [first_answer hp hs hlen, first_answer hq hs' hlen'] at hrs
  cases hrs with
  | cons h _ => exact h

namespace Probe

def scan : Plan F := .memoryScan schema [batch]

theorem step_isSome {e : Expr F} (he : e.Boolean schema) {mask : BoolVec}
    (hmask : eval batch e = .ok (.bool mask)) :
    ∃ o, (Plan.filter scan e).step batch = .ok o ∧ (o.isSome ↔ mask.slot 0 = some true) := by
  obtain ⟨t, ht, hbool⟩ := he
  have hbuilt : (Plan.filter scan e).Built :=
    .filter (.memoryScan schema [batch]) (FilterExec.create_of_boolean ht hbool)
  have hkeep : keepRow e (batch.row 0) =
      .ok (if mask.slot 0 = some true then some (batch.row 0) else none) := by
    rw [keepRow, (eval_ok hmask).2 0 (position_iff.mpr rfl), ok_bind, Vector.slot, isTrue_map]
    simp
  have himage : (Plan.filter scan e).image (batch : RecordBatch F).rows =
      .ok (if mask.slot 0 = some true then [batch.row 0] else []) := by
    have hrow : (Plan.filter scan e).imageRow (batch.row 0) =
        .ok (if mask.slot 0 = some true then some (batch.row 0) else none) :=
      (andThen_of_some rfl (keepRow e)).trans hkeep
    refine (filterMapM_cons_of_ok hrow (l := []) rfl).trans ?_
    by_cases htrue : mask.slot 0 = some true
    · rw [if_pos htrue, if_pos htrue]
      rfl
    · rw [if_neg htrue, if_neg htrue]
      rfl
  have hsettles := fun r => hbuilt.settles (b := batch) rfl (r := r)
  cases hstep : (Plan.filter scan e).step batch using outcome_cases with
  | raise x =>
    obtain ⟨row, hrow, hx⟩ := hsettles _ hstep
    obtain ⟨c, hc⟩ := filterMapM_ok_forall himage row hrow
    rw [hx] at hc
    cases hc
  | drop =>
    refine ⟨none, rfl, iff_of_false (by simp) fun htrue => ?_⟩
    have hnil := (hsettles _ hstep).symm.trans himage
    rw [if_pos htrue] at hnil
    cases hnil
  | keep c =>
    refine ⟨some c, rfl, iff_of_true rfl ?_⟩
    obtain ⟨-, hrows, hne⟩ := hsettles _ hstep
    by_contra htrue
    rw [himage, if_neg htrue, Except.ok.injEq] at hrows
    exact hne hrows.symm

end Probe

/-- **Two formulas are interchangeable as predicates if and only if they are TRUE on the same lines
of the truth table and have the same atoms.** -/
theorem filters_alike_iff_truth_table (F : Type) [JavaDouble F] {ι : Type}
    (f g : Kleene.Formula ι) :
    (∀ (c : Plan F) (σ : ι → Expr F), c.Built → c.SourcesConform →
      Alike Plan.SameAnswers (FilterExec.create c (Expr.ofFormula σ f))
        (FilterExec.create c (Expr.ofFormula σ g))) ↔
    (∀ ρ, f.value ρ = some true ↔ g.value ρ = some true) ∧ ∀ i, i ∈ f.atoms ↔ i ∈ g.atoms := by
  classical
  constructor
  · refine fun h => ⟨fun ρ => ?_, fun i => ?_⟩
    · have hboolean : ∀ k : Kleene.Formula ι,
          (Expr.ofFormula (fun i => Probe.truth (ρ i)) k : Expr F).Boolean Probe.schema :=
        fun k => (Expr.boolean_ofFormula_iff _ _ k).mpr fun i _ => Probe.boolean_truth (ρ i)
      have hcreate : ∀ k : Kleene.Formula ι, FilterExec.create (Probe.scan : Plan F)
          (Expr.ofFormula (fun i => Probe.truth (ρ i)) k) =
            .ok (.filter Probe.scan (Expr.ofFormula (fun i => Probe.truth (ρ i)) k)) := by
        intro k
        obtain ⟨t, ht, hbool⟩ := hboolean k
        exact FilterExec.create_of_boolean ht hbool
      have hsrc : (Probe.scan : Plan F).SourcesConform := by
        intro b hb
        rw [List.mem_singleton.mp hb]
        rfl
      have halike := h Probe.scan (fun i => Probe.truth (ρ i)) (.memoryScan _ _) hsrc
      rw [hcreate f, hcreate g] at halike
      have hstep := halike.ok_inv.step (b := Probe.batch) rfl rfl
      obtain ⟨l, hl, hf⟩ := Probe.eval_ofFormula (F := F) (Probe.reads_truth ρ) (Probe.truth_ok ρ) f
      obtain ⟨r, hr, hg⟩ := Probe.eval_ofFormula (F := F) (Probe.reads_truth ρ) (Probe.truth_ok ρ) g
      obtain ⟨o, ho, hosome⟩ := Probe.step_isSome (hboolean f) hl
      obtain ⟨o', ho', hosome'⟩ := Probe.step_isSome (hboolean g) hr
      rw [ho, ho'] at hstep
      rw [← hf, ← hg, ← hosome, ← hosome']
      exact optionRel_isSome hstep.ok_inv
    · have halike := h (.memoryScan Probe.schema []) (Probe.rejected i) (.memoryScan _ _)
        (by rintro b ⟨⟩)
      have hsame := halike.raises_iff
      rw [FilterExec.create_raises_iff, FilterExec.create_raises_iff, not_iff_not,
        Expr.boolean_ofFormula_iff, Expr.boolean_ofFormula_iff] at hsame
      have hnot : ∀ k : Kleene.Formula ι, (∀ j ∈ k.atoms,
          (Probe.rejected i j : Expr F).Boolean (Plan.memoryScan Probe.schema [] : Plan F).schema) ↔
            i ∉ k.atoms := by
        intro k
        constructor
        · exact fun hk hi => (Probe.boolean_rejected_iff i i).mp (hk i hi) rfl
        · refine fun hi j hj => (Probe.boolean_rejected_iff i j).mpr ?_
          rintro rfl
          exact hi hj
      rw [hnot, hnot] at hsame
      exact not_iff_not.mp hsame
  · rintro ⟨htrue, hatoms⟩ c σ hc hsrc
    have hboth : (Expr.ofFormula σ f).Boolean c.schema ↔ (Expr.ofFormula σ g).Boolean c.schema := by
      simp only [Expr.boolean_ofFormula_iff, hatoms]
    refine Alike.of_raises_iff ?_ fun p q hp hq => ?_
    · rw [FilterExec.create_raises_iff, FilterExec.create_raises_iff, hboth]
    · obtain ⟨rfl, hf⟩ := FilterExec.create_ok hp
      obtain ⟨rfl, t, ht, hbool⟩ := FilterExec.create_ok hq
      have hkeeps := keepsAlike_of_truth_table hatoms htrue
        ((Expr.boolean_ofFormula_iff c.schema σ f).mp hf)
      exact ((Plan.StepsAlike.refl hc).filter hkeeps ht hbool).sameAnswers hsrc

end QueryEngine
