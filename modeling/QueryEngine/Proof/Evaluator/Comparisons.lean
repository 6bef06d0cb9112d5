import QueryEngine.Proof.Evaluator.TruthTables

/-! # Formulas over comparisons

Where all atoms of a formula compare the same two operands, its truth table needs only the four
lines that an order has: unknown, less, equal and greater. Formulas that agree on them, such as
NOT l < r and l >= r, evaluate alike.
-/
namespace QueryEngine
open Library ExprEvaluator
set_option autoImplicit false
set_option maxHeartbeats 250000

variable {F : Type}

/-- The comparison of two expressions. -/
def Expr.compared (l r : Expr F) (op : ComparisonOp) : Expr F := .binary l (.comparison op) r

/-- Every comparison of two operands has the type that one of them has. -/
theorem outputType_compared {s : Schema} {l r : Expr F} {op : ComparisonOp} {t : ExprType}
    (h : (l.compared r op).outputType s = .ok t) (op' : ComparisonOp) :
    (l.compared r op').outputType s = .ok t := by
  obtain ⟨u, hu, h⟩ := bind_eq_ok h
  obtain ⟨w, hw, h⟩ := bind_eq_ok h
  obtain ⟨htype, -, -⟩ := binaryType_ok h
  rw [binaryType_comparison op htype] at h
  rw [Expr.compared, Expr.outputType, hu, ok_bind, hw, ok_bind, binaryType_comparison op' htype, h]

theorem compared_boolean {s : Schema} {l r : Expr F} {op : ComparisonOp} {t : ExprType}
    (h : (l.compared r op).outputType s = .ok t) : t.type = .BOOLEAN := by
  obtain ⟨u, w, -, -, -, -, hyields⟩ := Expr.outputType_binary_ok h
  exact hyields

/-- **Formulas over the comparisons of two operands have one type**, if both read them or
neither. -/
theorem comparisons_type {s : Schema} {l r : Expr F} {f g : Kleene.Formula ComparisonOp}
    {t : ExprType} (h : (Expr.ofFormula (l.compared r) f).outputType s = .ok t)
    (hatoms : f.atoms = [] ↔ g.atoms = []) :
    (Expr.ofFormula (l.compared r) f).outputType s =
      (Expr.ofFormula (l.compared r) g).outputType s := by
  have hother : ∀ {f g : Kleene.Formula ComparisonOp}, (f.atoms = [] ↔ g.atoms = []) →
      ∀ op ∈ f.atoms, ∃ op', op' ∈ g.atoms := by
    intro f g hfg op hop
    exact List.exists_mem_of_ne_nil _ fun hnil => List.ne_nil_of_mem hop (hfg.mpr hnil)
  have hbool : t.type = .BOOLEAN := by
    cases f with
    | const c => cases h; rfl
    | atom op => exact compared_boolean h
    | not f => exact (Expr.outputType_unary_ok h).2
    | and f g => obtain ⟨u, w, -, -, -, -, rfl⟩ := Expr.outputType_logical_ok h; rfl
    | or f g => obtain ⟨u, w, -, -, -, -, rfl⟩ := Expr.outputType_logical_ok h; rfl
  have hf := (Expr.boolean_ofFormula_iff s (l.compared r) f).mp ⟨t, h, hbool⟩
  refine outputType_ofFormula_congr hf (fun op hop => ?_) ⟨?_, ?_⟩
  · obtain ⟨op', hop'⟩ := hother hatoms.symm op hop
    obtain ⟨u, hu, hub⟩ := hf op' hop'
    exact ⟨u, outputType_compared hu op, hub⟩
  · rintro ⟨op, hop, u, hu, hnull⟩
    obtain ⟨op', hop'⟩ := hother hatoms op hop
    exact ⟨op', hop', u, outputType_compared hu op', hnull⟩
  · rintro ⟨op, hop, u, hu, hnull⟩
    obtain ⟨op', hop'⟩ := hother hatoms.symm op hop
    exact ⟨op', hop', u, outputType_compared hu op', hnull⟩

/-! ## One order for six comparisons -/

/-- What an operator answers on operands in this order. -/
def ComparisonOp.holds : ComparisonOp → Ordering → Bool
  | EqEq, o => o == .eq
  | NEq, o => o != .eq
  | LT, o => o == .lt
  | LTEq, o => o != .gt
  | GT, o => o == .gt
  | GTEq, o => o != .lt

theorem order_holds {α : Type} [LT α] [DecidableLT α] [DecidableEq α] (a b : α)
    (hirrefl : ¬ a < a) (hasymm : a < b → ¬ b < a) (htotal : a < b ∨ a = b ∨ b < a) :
    ∃ o : Ordering, ∀ op, Interp.order op a b = ComparisonOp.holds op o := by
  obtain hlt | rfl | hgt := htotal
  · have hne : a ≠ b := by
      rintro rfl
      exact hirrefl hlt
    refine ⟨.lt, fun op => ?_⟩
    cases op <;> simp [Interp.order, ComparisonOp.holds, hlt, hasymm hlt, hne]
  · refine ⟨.eq, fun op => ?_⟩
    cases op <;> simp [Interp.order, ComparisonOp.holds, hirrefl]
  · have hne : a ≠ b := by
      rintro rfl
      exact hirrefl hgt
    have hnlt : ¬ a < b := fun hlt => hasymm hlt hgt
    refine ⟨.gt, fun op => ?_⟩
    cases op <;> simp [Interp.order, ComparisonOp.holds, hgt, hnlt, hne]

/-- The types whose values are compared by a total order. -/
def Scalar.Ordered (t : Scalar) : Prop := t = .INT32 ∨ t = .INT64 ∨ t = .UTF8

theorem string_total (a b : JString) : a < b ∨ a = b ∨ b < a := by
  by_cases hlt : a < b
  · exact Or.inl hlt
  · by_cases hgt : b < a
    · exact Or.inr (Or.inr hgt)
    · exact Or.inr (Or.inl (List.le_antisymm (List.not_lt.mp hgt) (List.not_lt.mp hlt)))

theorem Probe.stringsPresent : (batch : RecordBatch F).StringsPresent := by
  intro v hv i _ h
  obtain rfl | rfl : v = .bool nothing ∨ v = .int noNumber := by simpa [batch] using hv
  all_goals
    obtain ⟨x, -, hx⟩ := Option.map_eq_some_iff.mp h
    cases hx

section Comparisons
variable [JavaDouble F]

theorem compare_holds {x y : Value F} (htype : x.type = y.type) (hordered : x.type.Ordered)
    (hx : x ≠ .utf8 none) (hy : y ≠ .utf8 none) :
    ∃ o : Ordering, ∀ op, Interp.compare op x y = .ok (.bool (ComparisonOp.holds op o)) := by
  cases x with
  | int32 m =>
    cases y <;> cases htype
    next n =>
      obtain ⟨o, ho⟩ := order_holds m.toInt n.toInt (lt_irrefl _) lt_asymm (lt_trichotomy _ _)
      exact ⟨o, fun op => by rw [Interp.compare, ho]⟩
  | int64 m =>
    cases y <;> cases htype
    next n =>
      obtain ⟨o, ho⟩ := order_holds m.toInt n.toInt (lt_irrefl _) lt_asymm (lt_trichotomy _ _)
      exact ⟨o, fun op => by rw [Interp.compare, ho]⟩
  | float64 m => obtain h | h | h := hordered <;> cases h
  | bool m => obtain h | h | h := hordered <;> cases h
  | utf8 s =>
    cases y <;> cases htype
    next t =>
      cases s with
      | none => exact absurd rfl hx
      | some s =>
        cases t with
        | none => exact absurd rfl hy
        | some t =>
          obtain ⟨o, ho⟩ := order_holds s t (List.lt_irrefl s) List.lt_asymm (string_total s t)
          refine ⟨o, fun op => ?_⟩
          rw [← ho op]
          cases op <;> simp [Interp.compare, Interp.orderString, Interp.order]

/-- Unknown as soon as one operand is null, and else an order. -/
theorem lift_compare_holds {t : Scalar} (ht : t.Ordered) {c d : Cell F} (hc : Cell.Fits t c)
    (hd : Cell.Fits t d) :
    ∃ o : Option Ordering, ∀ op,
      Interp.lift (Interp.compare op) c d = .ok ((o.map (ComparisonOp.holds op)).map .bool) := by
  cases c with
  | none => exact ⟨none, fun op => rfl⟩
  | some x =>
    cases d with
    | none => exact ⟨none, fun op => rfl⟩
    | some y =>
      obtain ⟨hxt, hx⟩ := hc x rfl
      obtain ⟨hyt, hy⟩ := hd y rfl
      obtain ⟨o, ho⟩ := compare_holds (hxt.trans hyt.symm) (hxt ▸ ht) hx hy
      refine ⟨some o, fun op => ?_⟩
      rw [Interp.lift, ho]
      rfl

theorem exists_order {b : RecordBatch F} {l r : Expr F} {v w : Vector F}
    (hv : eval b l = .ok v) (hw : eval b r = .ok w) (htype : v.type = w.type)
    (hordered : v.type.Ordered) (hb : v.type = .UTF8 → b.StringsPresent) :
    ∃ o : ℕ → Option Ordering, ∀ k < b.size, ∀ op,
      Interp.lift (Interp.compare op) (v.slot k) (w.slot k) =
        .ok (((o k).map (ComparisonOp.holds op)).map .bool) := by
  have hfits : ∀ {e : Expr F} {u : Vector F}, eval b e = .ok u →
      (u.type = .UTF8 → b.StringsPresent) → ∀ k < b.size, Cell.Fits u.type (u.slot k) := by
    intro e u hu hb k hk
    by_cases hutf8 : u.type = .UTF8
    · obtain ⟨t, ht, htu⟩ := typed_of_eval hu
      rw [← htu]
      exact interp_fits (RecordBatch.row_fits (hb hutf8) hk) ht ((eval_ok hu).2 k hk)
    · refine fun x hx => ⟨Vector.slot_type hx, ?_⟩
      rintro rfl
      exact hutf8 (Vector.slot_type hx).symm
  have hslot : ∀ k, ∃ o : Option Ordering, k < b.size → ∀ op,
      Interp.lift (Interp.compare op) (v.slot k) (w.slot k) =
        .ok ((o.map (ComparisonOp.holds op)).map .bool) := by
    intro k
    by_cases hk : k < b.size
    · obtain ⟨o, ho⟩ := lift_compare_holds hordered (hfits hv hb k hk)
        (htype ▸ hfits hw (htype ▸ hb) k hk)
      exact ⟨o, fun _ => ho⟩
    · exact ⟨none, fun h => absurd h hk⟩
  choose o ho using hslot
  exact ⟨o, ho⟩

theorem eval_compared {b : RecordBatch F} {l r : Expr F} {v w : Vector F} (hv : eval b l = .ok v)
    (hw : eval b r = .ok w) (op : ComparisonOp) :
    eval b (l.compared r op) = ExprEvaluator.compare v op w := by
  rw [Expr.compared, eval, hv, ok_bind, hw, ok_bind]

/-- The six comparisons of the operands show the order `o`, and all of them return or none. -/
def ShowsOrder (b : RecordBatch F) (l r : Expr F) (o : ℕ → Option Ordering) : Prop :=
  (∀ op, Reads b (l.compared r) (fun k op => (o k).map (ComparisonOp.holds op)) op) ∧
    ((∀ op, ∃ v, eval b (l.compared r op) = .ok v) ∨
      ∀ op, ∃ x, eval b (l.compared r op) = .error x)

theorem showsOrder_of_raises {b : RecordBatch F} {l r : Expr F}
    (hraise : ∀ op, ∃ x, eval b (l.compared r op) = .error x) (o : ℕ → Option Ordering) :
    ShowsOrder b l r o := by
  refine ⟨fun op v hv => ?_, Or.inr hraise⟩
  obtain ⟨x, hx⟩ := hraise op
  rw [hv] at hx
  cases hx

theorem showsOrder_of_masks {b : RecordBatch F} {l r : Expr F} {o : ℕ → Option Ordering}
    (hmask : ∀ op, ∃ mask, eval b (l.compared r op) = .ok (.bool mask) ∧
      ∀ k < b.size, mask.slot k = (o k).map (ComparisonOp.holds op)) : ShowsOrder b l r o := by
  refine ⟨fun op v hv => ?_, Or.inl fun op => ?_⟩
  · obtain ⟨mask, hm, hslots⟩ := hmask op
    exact ⟨mask, Except.ok.inj (hv.symm.trans hm), hslots⟩
  · obtain ⟨mask, hm, -⟩ := hmask op
    exact ⟨_, hm⟩

/-- **The six comparisons of two operands show one order.** -/
theorem exists_showsOrder {b : RecordBatch F} {l r : Expr F}
    (hl : ∀ v, eval b l = .ok v → v.type.Ordered ∧ (v.type = .UTF8 → b.StringsPresent)) :
    ∃ o, ShowsOrder b l r o := by
  have hnone : (∀ op, ∃ x, eval b (l.compared r op) = .error x) → ∃ o, ShowsOrder b l r o :=
    fun hraise => ⟨fun _ => none, showsOrder_of_raises hraise _⟩
  cases hv : eval b l with
  | error x => exact hnone fun op => ⟨x, by rw [Expr.compared, eval, hv, error_bind]⟩
  | ok v =>
    cases hw : eval b r with
    | error x =>
      exact hnone fun op => ⟨x, by rw [Expr.compared, eval, hv, ok_bind, hw, error_bind]⟩
    | ok w =>
      by_cases htype : v.type = w.type
      · obtain ⟨o, ho⟩ := exists_order hv hw htype (hl v hv).1 (hl v hv).2
        refine ⟨o, showsOrder_of_masks fun op => ?_⟩
        obtain ⟨u, hu, -, hslots⟩ | ⟨k, hk, x, -, hx⟩ :=
          compare_tabulates op (eval_ok hv).1 (eval_ok hw).1 htype
        · obtain ⟨mask, rfl⟩ := Vector.bool_of_type (compare_type hu).2
          refine ⟨mask, (eval_compared hv hw op).trans hu, fun k hk => ?_⟩
          have hslot := Except.ok.inj ((ho k hk op).symm.trans (hslots k hk))
          exact (Option.map_injective (fun _ _ => Value.bool.inj) hslot).symm
        · cases (ho k hk op).symm.trans hx
      · refine hnone fun op => ?_
        rw [eval_compared hv hw, error_iff_not_ok]
        rintro ⟨u, hu⟩
        exact htype (compare_type hu).1

theorem comparisons_alike {b : RecordBatch F} {l r : Expr F}
    (hl : ∀ v, eval b l = .ok v → v.type.Ordered ∧ (v.type = .UTF8 → b.StringsPresent))
    {f g : Kleene.Formula ComparisonOp}
    (htable : ∀ o : Option Ordering,
      f.value (fun op => o.map op.holds) = g.value fun op => o.map op.holds)
    (hatoms : f.atoms = [] ↔ g.atoms = []) :
    Alike Vector.ObsEq (eval b (Expr.ofFormula (l.compared r) f))
      (eval b (Expr.ofFormula (l.compared r) g)) := by
  obtain ⟨o, hreads, hraise⟩ := exists_showsOrder (r := r) hl
  refine (formulas_alike (fun op _ => hreads op) (fun op _ => hreads op) ?_
    fun k _ => htable (o k)).mono fun v w => Masks.obsEq
  obtain hok | hraise := hraise
  · have hquiet : ∀ k : Kleene.Formula ComparisonOp,
        ¬ ∃ op ∈ k.atoms, ∃ x, eval b (l.compared r op) = .error x := by
      rintro k ⟨op, -, x, hx⟩
      obtain ⟨v, hv⟩ := hok op
      rw [hv] at hx
      cases hx
    exact iff_of_false (hquiet f) (hquiet g)
  · rw [exists_raising_iff hraise, exists_raising_iff hraise]
    exact not_congr hatoms

/-- An operand that compares with 0 in this way. -/
def Probe.side : Option Ordering → Expr F
  | none => .columnRef z
  | some .lt => .literal (.int32 1)
  | some .eq => .literal (.int32 0)
  | some .gt => .literal (.int32 (-1))

theorem Probe.interp_side (o : Option Ordering) (op : ComparisonOp) :
    interp ((batch : RecordBatch F).row 0) (Expr.compared (.literal (.int32 0)) (side o) op) =
      .ok ((o.map (ComparisonOp.holds op)).map .bool) := by
  obtain _ | _ | _ | _ := o <;> cases op <;> rfl

theorem Probe.eval_side (o : Option Ordering) (op : ComparisonOp) :
    ∃ mask, eval (batch : RecordBatch F) (Expr.compared (.literal (.int32 0)) (side o) op) =
      .ok (.bool mask) ∧ mask.slot 0 = o.map (ComparisonOp.holds op) := by
  have htype : ∃ t, (Expr.compared (.literal (.int32 0)) (side o) op : Expr F).outputType
      (batch : RecordBatch F).schema = .ok ⟨.BOOLEAN, t⟩ := by
    obtain _ | _ | _ | _ := o <;> exact ⟨_, rfl⟩
  obtain ⟨t, ht⟩ := htype
  obtain ⟨v, hv, hbool, -, hslots⟩ | ⟨i, hi, x, -, hx⟩ := eval_refines batch _ ht
  · obtain ⟨mask, rfl⟩ := Vector.bool_of_type hbool
    have hslot := Except.ok.inj ((interp_side o op).symm.trans (hslots 0 (position_iff.mpr rfl)))
    exact ⟨mask, hv, (Option.map_injective (fun _ _ => Value.bool.inj) hslot).symm⟩
  · rw [position_iff.mp hi] at hx
    cases (interp_side o op).symm.trans hx

theorem Probe.reads_side (o : Option Ordering) (op : ComparisonOp) :
    Reads (batch : RecordBatch F) (Expr.compared (.literal (.int32 0)) (side o))
      (fun _ op => o.map (ComparisonOp.holds op)) op := by
  intro v hv
  obtain ⟨mask, hmask, hslot⟩ := eval_side (F := F) o op
  rw [hmask, Except.ok.injEq] at hv
  refine ⟨mask, hv.symm, fun k hk => ?_⟩
  rw [position_iff.mp hk]
  exact hslot

end Comparisons

/-- **Two formulas over the comparisons of two operands evaluate alike if and only if they agree on
an unknown order and on the three known ones**, and both read the operands or neither does. -/
theorem comparisons_alike_iff (F : Type) [JavaDouble F] (f g : Kleene.Formula ComparisonOp) :
    (∀ (b : RecordBatch F) (l r : Expr F), b.StringsPresent →
      (∀ v, eval b l = .ok v → v.type.Ordered) →
      Alike Vector.ObsEq (eval b (Expr.ofFormula (l.compared r) f))
        (eval b (Expr.ofFormula (l.compared r) g))) ↔
    (∀ o : Option Ordering, f.value (fun op => o.map op.holds) = g.value fun op => o.map op.holds) ∧
      (f.atoms = [] ↔ g.atoms = []) := by
  constructor
  · refine fun h => ⟨fun o => ?_, ?_⟩
    · have halike := h Probe.batch (.literal (.int32 0)) (Probe.side o) Probe.stringsPresent
        (by rintro _ ⟨⟩; exact Or.inl rfl)
      refine Probe.value_eq_of_alike (Probe.reads_side o) (fun op => ?_) halike
      obtain ⟨m, hm, -⟩ := Probe.eval_side (F := F) o op
      exact ⟨_, hm⟩
    · have halike := h Probe.batch (.literal (.int32 0)) (.unary .NOT (.literal (.int32 0)))
        Probe.stringsPresent (by rintro _ ⟨⟩; exact Or.inl rfl)
      have hraise : ∀ op, ∃ x, eval (Probe.batch : RecordBatch F) (Expr.compared
          (.literal (.int32 0)) (.unary .NOT (.literal (.int32 0))) op) = .error x :=
        fun op => ⟨_, rfl⟩
      have hreads := (showsOrder_of_raises hraise fun _ => none).1
      have hsame := halike.raises_iff
      rw [formula_raises_iff f fun op _ => hreads op, formula_raises_iff g fun op _ => hreads op,
        exists_raising_iff hraise, exists_raising_iff hraise] at hsame
      exact not_iff_not.mp hsame
  · rintro ⟨htable, hatoms⟩ b l r hb hl
    exact comparisons_alike (fun v hv => ⟨hl v hv, fun _ => hb⟩) htable hatoms

end QueryEngine
