import QueryEngine.Library.Alike
import QueryEngine.Proof.Evaluator.Guarantees

/-! # Truth tables

Two formulas of AND, OR and NOT evaluate alike, whatever expressions stand for their atoms, exactly
when their three-valued truth tables are equal and they have the same atoms: an atom that the truth
table does not need may still raise.
-/
namespace QueryEngine
open Library ExprEvaluator
set_option autoImplicit false
set_option maxHeartbeats 250000

variable {F ι : Type}

/-- The formula with an expression written for each atom. -/
def Expr.ofFormula (σ : ι → Expr F) : Kleene.Formula ι → Expr F
  | .const b => .literal (.bool b)
  | .atom i => σ i
  | .not f => .unary .NOT (ofFormula σ f)
  | .and f g => .logical (ofFormula σ f) .AND (ofFormula σ g)
  | .or f g => .logical (ofFormula σ f) .OR (ofFormula σ g)

/-! ## The static type of a formula -/

/-- A predicate that is accepted. -/
def Expr.Boolean (s : Schema) (e : Expr F) : Prop :=
  ∃ t, e.outputType s = .ok t ∧ t.type = .BOOLEAN

theorem Expr.boolean_logical_iff (s : Schema) (l r : Expr F) (op : LogicalOp) :
    (Expr.logical l op r).Boolean s ↔ l.Boolean s ∧ r.Boolean s := by
  constructor
  · rintro ⟨t, ht, -⟩
    obtain ⟨u, w, hu, hw, hub, hwb, -⟩ := outputType_logical_ok ht
    exact ⟨⟨u, hu, hub⟩, w, hw, hwb⟩
  · rintro ⟨⟨u, hu, hub⟩, w, hw, hwb⟩
    refine ⟨⟨.BOOLEAN, u.nullable || w.nullable⟩, ?_, rfl⟩
    rw [outputType, hu, ok_bind, hw, ok_bind, logicalType, if_pos ⟨hub, hwb⟩]

/-- **A formula is accepted exactly where its atoms are.** -/
theorem Expr.boolean_ofFormula_iff (s : Schema) (σ : ι → Expr F) (f : Kleene.Formula ι) :
    (ofFormula σ f).Boolean s ↔ ∀ i ∈ f.atoms, (σ i).Boolean s := by
  induction f with
  | const c => exact iff_of_true ⟨_, rfl, rfl⟩ (by simp [Kleene.Formula.atoms])
  | atom i => simp [Kleene.Formula.atoms, ofFormula]
  | not f ih =>
    rw [Kleene.Formula.atoms, ← ih, ofFormula]
    constructor
    · rintro ⟨t, ht, hbool⟩
      exact ⟨t, (outputType_unary_ok ht).1, hbool⟩
    · rintro ⟨t, ht, hbool⟩
      exact ⟨t, by rw [outputType, ht, ok_bind, unaryType, if_pos hbool], hbool⟩
  | and f g ihf ihg =>
    rw [ofFormula, boolean_logical_iff, ihf, ihg, Kleene.Formula.atoms, List.forall_mem_append]
  | or f g ihf ihg =>
    rw [ofFormula, boolean_logical_iff, ihf, ihg, Kleene.Formula.atoms, List.forall_mem_append]

/-- What the nullability of a formula depends on. -/
def SomeNullable (s : Schema) (σ : ι → Expr F) (atoms : List ι) : Prop :=
  ∃ i ∈ atoms, ∃ t, (σ i).outputType s = .ok t ∧ t.nullable = true

theorem someNullable_append (s : Schema) (σ : ι → Expr F) (l r : List ι) :
    SomeNullable s σ (l ++ r) ↔ SomeNullable s σ l ∨ SomeNullable s σ r := by
  simp only [SomeNullable, List.mem_append, or_and_right, exists_or]

/-- **A formula is nullable exactly where one of its atoms is.** -/
theorem outputType_ofFormula {s : Schema} {σ : ι → Expr F} {f : Kleene.Formula ι}
    (h : ∀ i ∈ f.atoms, (σ i).Boolean s) :
    ∃ n, (Expr.ofFormula σ f).outputType s = .ok ⟨.BOOLEAN, n⟩ ∧
      (n = true ↔ SomeNullable s σ f.atoms) := by
  have htwo : ∀ (op : LogicalOp) (f g : Kleene.Formula ι),
      (∃ n, (Expr.ofFormula σ f).outputType s = .ok ⟨.BOOLEAN, n⟩ ∧
        (n = true ↔ SomeNullable s σ f.atoms)) →
      (∃ n, (Expr.ofFormula σ g).outputType s = .ok ⟨.BOOLEAN, n⟩ ∧
        (n = true ↔ SomeNullable s σ g.atoms)) →
      ∃ n, (Expr.logical (Expr.ofFormula σ f) op (Expr.ofFormula σ g)).outputType s =
        .ok ⟨.BOOLEAN, n⟩ ∧ (n = true ↔ SomeNullable s σ (f.atoms ++ g.atoms)) := by
    rintro op f g ⟨n, hn, hnull⟩ ⟨m, hm, hmull⟩
    refine ⟨n || m, ?_, ?_⟩
    · rw [Expr.outputType, hn, ok_bind, hm, ok_bind, Expr.logicalType, if_pos ⟨rfl, rfl⟩]
    · rw [Bool.or_eq_true, hnull, hmull, someNullable_append]
  induction f with
  | const c => exact ⟨false, rfl, by simp [SomeNullable, Kleene.Formula.atoms]⟩
  | atom i =>
    obtain ⟨⟨type, n⟩, ht, rfl⟩ := h i (List.mem_singleton_self i)
    refine ⟨n, ht, ?_⟩
    simp only [SomeNullable, Kleene.Formula.atoms, List.mem_singleton, exists_eq_left, ht,
      Except.ok.injEq, exists_eq_left']
  | not f ih =>
    obtain ⟨n, hn, hnull⟩ := ih h
    exact ⟨n, by rw [Expr.ofFormula, Expr.outputType, hn, ok_bind, Expr.unaryType, if_pos rfl],
      hnull⟩
  | and f g ihf ihg =>
    exact htwo .AND f g (ihf fun i hi => h i (List.mem_append_left _ hi))
      (ihg fun i hi => h i (List.mem_append_right _ hi))
  | or f g ihf ihg =>
    exact htwo .OR f g (ihf fun i hi => h i (List.mem_append_left _ hi))
      (ihg fun i hi => h i (List.mem_append_right _ hi))

theorem outputType_ofFormula_congr {s : Schema} {σ : ι → Expr F} {f g : Kleene.Formula ι}
    (hf : ∀ i ∈ f.atoms, (σ i).Boolean s) (hg : ∀ i ∈ g.atoms, (σ i).Boolean s)
    (hnull : SomeNullable s σ f.atoms ↔ SomeNullable s σ g.atoms) :
    (Expr.ofFormula σ f).outputType s = (Expr.ofFormula σ g).outputType s := by
  obtain ⟨n, hn, hfn⟩ := outputType_ofFormula hf
  obtain ⟨m, hm, hgm⟩ := outputType_ofFormula hg
  rw [hn, hm, Bool.eq_iff_iff.mpr (hfn.trans (hnull.trans hgm.symm))]

/-! ## Evaluating a formula -/

theorem TypedVec.Tabulates.of_ok {α : Type} {n : ℕ} {s : ℕ → Option α} {r : Java (TypedVec α)}
    (h : TypedVec.Tabulates n (fun i => .ok (s i)) r) :
    ∃ v, r = .ok v ∧ v.size = n ∧ ∀ i < n, v.slot i = s i := by
  obtain ⟨v, hv, hsize, hslots⟩ | ⟨i, -, e, -, he⟩ := h
  · exact ⟨v, hv, hsize, fun i hi => (Except.ok.inj (hslots i hi)).symm⟩
  · cases he

/-- Two masks of `n` slots, related slot by slot. -/
def Masks (n : ℕ) (P : Option Bool → Option Bool → Prop) (v w : Vector F) : Prop :=
  ∃ l r, v = .bool l ∧ w = .bool r ∧ l.size = n ∧ r.size = n ∧ ∀ k < n, P (l.slot k) (r.slot k)

theorem Masks.obsEq {n : ℕ} {v w : Vector F} (h : Masks n Eq v w) : v.ObsEq w := by
  obtain ⟨l, r, rfl, rfl, rfl, hr, hslots⟩ := h
  refine ⟨rfl, hr.symm, fun k hk => ?_⟩
  rw [Vector.slot, Vector.slot, hslots k hk]

section Formulas
variable [JavaDouble F] {b : RecordBatch F} {σ : ι → Expr F} {τ : ℕ → ι → Option Bool}

/-- The atom, where it evaluates, is a mask that shows `τ`. -/
def Reads (b : RecordBatch F) (σ : ι → Expr F) (τ : ℕ → ι → Option Bool) (i : ι) : Prop :=
  ∀ v, eval b (σ i) = .ok v → ∃ mask, v = .bool mask ∧ ∀ k < b.size, mask.slot k = τ k i

/-- The table of the formula once every atom evaluates, or an exception when one raises. -/
def Decided (b : RecordBatch F) (σ : ι → Expr F) (τ : ℕ → ι → Option Bool)
    (f : Kleene.Formula ι) : Prop :=
  (∃ mask, eval b (Expr.ofFormula σ f) = .ok (.bool mask) ∧ mask.size = b.size ∧
      (∀ k < b.size, mask.slot k = f.value (τ k)) ∧
      ∀ i ∈ f.atoms, ∃ v, eval b (σ i) = .ok v) ∨
    ((∃ x, eval b (Expr.ofFormula σ f) = .error x) ∧ ∃ i ∈ f.atoms, ∃ x, eval b (σ i) = .error x)

theorem Decided.logical (op : LogicalOp) {f g h : Kleene.Formula ι} (hf : Decided b σ τ f)
    (hg : Decided b σ τ g)
    (hexpr : Expr.ofFormula σ h = .logical (Expr.ofFormula σ f) op (Expr.ofFormula σ g))
    (hvalue : ∀ ρ, h.value ρ = Interp.connective op (f.value ρ) (g.value ρ))
    (hatoms : h.atoms = f.atoms ++ g.atoms) : Decided b σ τ h := by
  obtain ⟨l, hl, hlsize, hlslots, hlatoms⟩ | ⟨⟨x, hx⟩, i, hi, hraise⟩ := hf
  · obtain ⟨r, hr, hrsize, hrslots, hratoms⟩ | ⟨⟨x, hx⟩, i, hi, hraise⟩ := hg
    · obtain ⟨mask, hmask, hsize, hslots⟩ := (evalLogical_tabulates b op l r hlsize hrsize).of_ok
      refine Or.inl ⟨mask, ?_, hsize, fun k hk => ?_, fun i hi => ?_⟩
      · rw [hexpr, eval, hl, ok_bind, hr, ok_bind]
        simp only [hmask, map_ok]
      · rw [hslots k hk, hlslots k hk, hrslots k hk, hvalue]
      · obtain hi | hi := List.mem_append.mp (hatoms ▸ hi)
        · exact hlatoms i hi
        · exact hratoms i hi
    · refine Or.inr ⟨⟨x, ?_⟩, i, by simp [hatoms, hi], hraise⟩
      rw [hexpr, eval, hl, ok_bind, hx, error_bind]
  · refine Or.inr ⟨⟨x, ?_⟩, i, by simp [hatoms, hi], hraise⟩
    rw [hexpr, eval, hx, error_bind]

/-- **A formula evaluates to its truth table**, line by line, unless an atom raises. -/
theorem eval_formula (f : Kleene.Formula ι) (h : ∀ i ∈ f.atoms, Reads b σ τ i) :
    Decided b σ τ f := by
  induction f with
  | const c =>
    refine Or.inl ⟨.constant ⟨c, b.rowCount, ?_⟩, ?_, rfl, fun k _ => rfl, by
      simp [Kleene.Formula.atoms]⟩
    · exact Vector.positiveLength_of_not_neg b.rowCount_not_neg
    · rw [Expr.ofFormula, eval, evalLiteral, ConstantVector.new_of_not_neg _ b.rowCount_not_neg]
      rfl
  | atom i =>
    cases hv : eval b (σ i) with
    | error x => exact Or.inr ⟨⟨x, hv⟩, i, List.mem_singleton_self i, x, hv⟩
    | ok v =>
      obtain ⟨mask, rfl, hslots⟩ := h i (List.mem_singleton_self i) v hv
      refine Or.inl ⟨mask, hv, (eval_ok hv).1, hslots, fun j hj => ?_⟩
      rw [List.mem_singleton.mp hj]
      exact ⟨_, hv⟩
  | not f ih =>
    obtain ⟨m, hm, hmsize, hmslots, hatoms⟩ | ⟨⟨x, hx⟩, hraise⟩ := ih h
    · obtain ⟨mask, hmask, hsize, hslots⟩ := (evalNot_tabulates b m hmsize).of_ok
      refine Or.inl ⟨mask, ?_, hsize, fun k hk => ?_, hatoms⟩
      · rw [Expr.ofFormula, eval, hm, ok_bind, hmask]
        rfl
      · rw [hslots k hk, hmslots k hk, Kleene.Formula.value]
    · exact Or.inr ⟨⟨x, by rw [Expr.ofFormula, eval, hx, error_bind]⟩, hraise⟩
  | and f g ihf ihg =>
    exact Decided.logical .AND (ihf fun i hi => h i (List.mem_append_left _ hi))
      (ihg fun i hi => h i (List.mem_append_right _ hi)) rfl (fun _ => rfl) rfl
  | or f g ihf ihg =>
    exact Decided.logical .OR (ihf fun i hi => h i (List.mem_append_left _ hi))
      (ihg fun i hi => h i (List.mem_append_right _ hi)) rfl (fun _ => rfl) rfl

theorem exists_reads (b : RecordBatch F) (σ : ι → Expr F) :
    ∃ τ, ∀ i, (∀ v, eval b (σ i) = .ok v → v.type = .BOOLEAN) → Reads b σ τ i := by
  have hatom : ∀ i, ∃ t : ℕ → Option Bool, (∀ v, eval b (σ i) = .ok v → v.type = .BOOLEAN) →
      ∀ v, eval b (σ i) = .ok v → ∃ mask, v = .bool mask ∧ ∀ k < b.size, mask.slot k = t k := by
    intro i
    cases hv : eval b (σ i) with
    | error x => exact ⟨fun _ => none, by simp⟩
    | ok v =>
      by_cases htype : v.type = .BOOLEAN
      · obtain ⟨mask, rfl⟩ := Vector.bool_of_type htype
        exact ⟨mask.slot, by rintro _ _ ⟨⟩; exact ⟨mask, rfl, fun k _ => rfl⟩⟩
      · exact ⟨fun _ => none, fun h => absurd (h v rfl) htype⟩
  choose t ht using hatom
  exact ⟨fun k i => t i k, ht⟩

theorem exists_reads_of_boolean (b : RecordBatch F) (σ : ι → Expr F) :
    ∃ τ, ∀ i, (σ i).Boolean b.schema → Reads b σ τ i := by
  obtain ⟨τ, hreads⟩ := exists_reads b σ
  refine ⟨τ, fun i hi => hreads i fun v hv => ?_⟩
  obtain ⟨t, ht, hbool⟩ := hi
  obtain ⟨u, hu, huv⟩ := typed_of_eval hv
  rw [← huv, ← hbool, Except.ok.inj (hu.symm.trans ht)]

/-- **A formula raises where one of its atoms does**, even if its truth value is decided. -/
theorem formula_raises_iff (f : Kleene.Formula ι) (h : ∀ i ∈ f.atoms, Reads b σ τ i) :
    (∃ x, eval b (Expr.ofFormula σ f) = .error x) ↔
      ∃ i ∈ f.atoms, ∃ x, eval b (σ i) = .error x := by
  obtain ⟨mask, hmask, -, -, hatoms⟩ | ⟨hraise, hatom⟩ := eval_formula f h
  · constructor
    · rintro ⟨x, hx⟩
      rw [hmask] at hx
      cases hx
    · rintro ⟨i, hi, x, hx⟩
      obtain ⟨v, hv⟩ := hatoms i hi
      rw [hv] at hx
      cases hx
  · exact iff_of_true hraise hatom

theorem exists_raising_iff (hraise : ∀ i, ∃ x, eval b (σ i) = .error x) (f : Kleene.Formula ι) :
    (∃ i ∈ f.atoms, ∃ x, eval b (σ i) = .error x) ↔ f.atoms ≠ [] := by
  constructor
  · rintro ⟨i, hi, -⟩
    exact List.ne_nil_of_mem hi
  · intro hne
    obtain ⟨i, hi⟩ := List.exists_mem_of_ne_nil _ hne
    exact ⟨i, hi, hraise i⟩

theorem formula_ok {f : Kleene.Formula ι} (h : ∀ i ∈ f.atoms, Reads b σ τ i) {v : Vector F}
    (hv : eval b (Expr.ofFormula σ f) = .ok v) :
    ∃ mask, v = .bool mask ∧ mask.size = b.size ∧ ∀ k < b.size, mask.slot k = f.value (τ k) := by
  obtain ⟨mask, hmask, hsize, hslots, -⟩ | ⟨⟨x, hx⟩, -⟩ := eval_formula f h
  · exact ⟨mask, Except.ok.inj (hv.symm.trans hmask), hsize, hslots⟩
  · rw [hv] at hx
    cases hx

/-- **Formulas that raise together return together**, related as their values are. -/
theorem formulas_alike {f g : Kleene.Formula ι} (hf : ∀ i ∈ f.atoms, Reads b σ τ i)
    (hg : ∀ i ∈ g.atoms, Reads b σ τ i)
    (hraise : (∃ i ∈ f.atoms, ∃ x, eval b (σ i) = .error x) ↔
      ∃ i ∈ g.atoms, ∃ x, eval b (σ i) = .error x)
    {P : Option Bool → Option Bool → Prop}
    (hP : ∀ k < b.size, P (f.value (τ k)) (g.value (τ k))) :
    Alike (Masks b.size P) (eval b (Expr.ofFormula σ f)) (eval b (Expr.ofFormula σ g)) := by
  refine Alike.of_raises_iff ?_ fun v w hv hw => ?_
  · rw [formula_raises_iff f hf, formula_raises_iff g hg]
    exact hraise
  · obtain ⟨l, rfl, hlsize, hlslots⟩ := formula_ok hf hv
    obtain ⟨r, rfl, hrsize, hrslots⟩ := formula_ok hg hw
    refine ⟨l, r, rfl, rfl, hlsize, hrsize, fun k hk => ?_⟩
    rw [hlslots k hk, hrslots k hk]
    exact hP k hk

end Formulas

/-! ## A row that shows every truth value -/

namespace Probe

/-- The name `n` of a BOOLEAN column that is null. -/
def n : JString := [110]

/-- The name `z` of an INT32 column that is null. -/
def z : JString := [122]

def schema : Schema := ⟨⟨[(n, ⟨n, .BOOLEAN, true⟩), (z, ⟨z, .INT32, true⟩)], by decide⟩, by decide⟩

theorem positive : Vector.positiveLength 1 = .ok () := by decide

theorem window : Vector.validateWindow 0 1 1 = .ok () := by decide

/-- One slot that is null over the value `x`. -/
def nullSlot {α : Type} (x : α) : TypedVec α :=
  .array ⟨⟨[x], Nat.one_lt_two_pow (by decide)⟩, 0, 1, ⟨[0]⟩, positive, window⟩

def nothing : BoolVec := nullSlot false

def noNumber : IntVec := nullSlot 0

def batch : RecordBatch F := ⟨schema, [.bool nothing, .int noNumber], rfl⟩

theorem position_iff {k : ℕ} : k < (batch : RecordBatch F).size ↔ k = 0 := Nat.lt_one_iff

def truth : Option Bool → Expr F
  | some c => .literal (.bool c)
  | none => .columnRef n

theorem eval_truth [JavaDouble F] (t : Option Bool) :
    ∃ mask, eval (batch : RecordBatch F) (truth t) = .ok (.bool mask) ∧ mask.slot 0 = t := by
  cases t with
  | none => exact ⟨nothing, rfl, rfl⟩
  | some c => exact ⟨.constant ⟨c, 1, positive⟩, rfl, rfl⟩

theorem reads_truth [JavaDouble F] (ρ : ι → Option Bool) (i : ι) :
    Reads (batch : RecordBatch F) (fun j => truth (ρ j)) (fun _ => ρ) i := by
  intro v hv
  obtain ⟨mask, hmask, hslot⟩ := eval_truth (F := F) (ρ i)
  rw [hmask, Except.ok.injEq] at hv
  refine ⟨mask, hv.symm, fun k hk => ?_⟩
  rw [position_iff.mp hk]
  exact hslot

theorem truth_ok [JavaDouble F] (ρ : ι → Option Bool) (i : ι) :
    ∃ v, eval (batch : RecordBatch F) (truth (ρ i)) = .ok v := by
  obtain ⟨mask, hmask, -⟩ := eval_truth (F := F) (ρ i)
  exact ⟨_, hmask⟩

theorem eval_ofFormula [JavaDouble F] {σ : ι → Expr F} {ρ : ι → Option Bool}
    (hreads : ∀ i, Reads batch σ (fun _ => ρ) i) (hok : ∀ i, ∃ v, eval batch (σ i) = .ok v)
    (f : Kleene.Formula ι) :
    ∃ mask, eval batch (Expr.ofFormula σ f) = .ok (.bool mask) ∧ mask.slot 0 = f.value ρ := by
  cases hv : eval batch (Expr.ofFormula σ f) with
  | ok v =>
    obtain ⟨mask, rfl, -, hslots⟩ := formula_ok (fun i _ => hreads i) hv
    exact ⟨mask, rfl, hslots 0 (position_iff.mpr rfl)⟩
  | error x =>
    obtain ⟨i, -, y, hy⟩ := (formula_raises_iff f fun i _ => hreads i).mp ⟨x, hv⟩
    obtain ⟨v, hv⟩ := hok i
    rw [hv] at hy
    cases hy

theorem value_eq_of_alike [JavaDouble F] {σ : ι → Expr F} {ρ : ι → Option Bool}
    (hreads : ∀ i, Reads batch σ (fun _ => ρ) i) (hok : ∀ i, ∃ v, eval batch (σ i) = .ok v)
    {f g : Kleene.Formula ι}
    (h : Alike Vector.ObsEq (eval batch (Expr.ofFormula σ f)) (eval batch (Expr.ofFormula σ g))) :
    f.value ρ = g.value ρ := by
  obtain ⟨l, hl, hf⟩ := eval_ofFormula hreads hok f
  obtain ⟨r, hr, hg⟩ := eval_ofFormula hreads hok g
  rw [hl, hr] at h
  have hsize : (Vector.bool l : Vector F).size = 1 := (eval_ok hl).1
  have hslot := h.ok_inv.2.2 0 (by omega)
  rw [Vector.slot, Vector.slot, hf, hg] at hslot
  exact Option.map_injective (fun _ _ => Value.bool.inj) hslot

/-- An expression that is rejected in place of one atom, TRUE in place of the others. -/
def rejected [DecidableEq ι] (i j : ι) : Expr F :=
  if j = i then .unary .NOT (.literal (.int32 0)) else .literal (.bool true)

theorem eval_rejected [JavaDouble F] [DecidableEq ι] (i : ι) :
    ∃ x, eval (batch : RecordBatch F) (rejected i i) = .error x := by
  rw [rejected, if_pos rfl]
  exact ⟨_, rfl⟩

theorem eval_rejected_of_ne [JavaDouble F] [DecidableEq ι] {i j : ι} (h : j ≠ i) :
    eval (batch : RecordBatch F) (rejected i j) =
      .ok (.bool (.constant ⟨true, 1, positive⟩)) := by
  rw [rejected, if_neg h]
  rfl

theorem reads_rejected [JavaDouble F] [DecidableEq ι] (i j : ι) :
    Reads (batch : RecordBatch F) (rejected i) (fun _ _ => some true) j := by
  intro v hv
  by_cases hji : j = i
  · subst hji
    obtain ⟨x, hx⟩ := eval_rejected (F := F) j
    rw [hx] at hv
    cases hv
  · rw [eval_rejected_of_ne hji, Except.ok.injEq] at hv
    exact ⟨_, hv.symm, fun _ _ => rfl⟩

theorem rejected_raises_iff [JavaDouble F] [DecidableEq ι] (f : Kleene.Formula ι) (i : ι) :
    (∃ x, eval (batch : RecordBatch F) (Expr.ofFormula (rejected i) f) = .error x) ↔
      i ∈ f.atoms := by
  rw [formula_raises_iff f fun j _ => reads_rejected i j]
  constructor
  · rintro ⟨j, hj, x, hx⟩
    by_cases hji : j = i
    · exact hji ▸ hj
    · rw [eval_rejected_of_ne hji] at hx
      cases hx
  · exact fun hi => ⟨i, hi, eval_rejected i⟩

theorem boolean_truth (t : Option Bool) : (truth t : Expr F).Boolean schema := by
  cases t with
  | none => exact ⟨_, rfl, rfl⟩
  | some c => exact ⟨_, rfl, rfl⟩

theorem boolean_rejected_iff {ι : Type} [DecidableEq ι] (i j : ι) :
    (rejected i j : Expr F).Boolean schema ↔ j ≠ i := by
  by_cases hji : j = i
  · refine iff_of_false ?_ (not_not.mpr hji)
    rintro ⟨t, ht, -⟩
    rw [rejected, if_pos hji] at ht
    cases ht
  · refine iff_of_true ?_ hji
    rw [rejected, if_neg hji]
    exact ⟨_, rfl, rfl⟩

end Probe

/-! ## Truth tables decide -/

/-- **Two formulas evaluate alike for all expressions in place of their atoms if and only if their
truth tables are equal and they have the same atoms.** -/
theorem eval_alike_iff_truth_table (F : Type) [JavaDouble F] (f g : Kleene.Formula ι) :
    (∀ (b : RecordBatch F) (σ : ι → Expr F),
      (∀ i v, eval b (σ i) = .ok v → v.type = .BOOLEAN) →
      Alike Vector.ObsEq (eval b (Expr.ofFormula σ f)) (eval b (Expr.ofFormula σ g))) ↔
    (∀ ρ, f.value ρ = g.value ρ) ∧ ∀ i, i ∈ f.atoms ↔ i ∈ g.atoms := by
  classical
  constructor
  · refine fun h => ⟨fun ρ => ?_, fun i => ?_⟩
    · have halike := h Probe.batch (fun i => Probe.truth (ρ i)) fun i v hv => by
        obtain ⟨m, rfl, -⟩ := Probe.reads_truth ρ i v hv
        rfl
      exact Probe.value_eq_of_alike (Probe.reads_truth ρ) (Probe.truth_ok ρ) halike
    · have halike := h Probe.batch (Probe.rejected i) fun j v hv => by
        obtain ⟨m, rfl, -⟩ := Probe.reads_rejected i j v hv
        rfl
      rw [← Probe.rejected_raises_iff (F := F) f i, ← Probe.rejected_raises_iff (F := F) g i]
      exact halike.raises_iff
  · rintro ⟨htable, hatoms⟩ b σ htypes
    obtain ⟨τ, hreads⟩ := exists_reads b σ
    exact (formulas_alike (fun i _ => hreads i (htypes i)) (fun i _ => hreads i (htypes i))
      (by simp only [hatoms]) fun k _ => htable (τ k)).mono fun v w => Masks.obsEq

end QueryEngine
