import QueryEngine.Proof.Columnar.Batches
import QueryEngine.Proof.Evaluator.Scalars

/-! # The evaluator refines the row interpreter

Two inductions over the expression. `typed_of_eval` reads the static type back from a vector that
`eval` returned. `eval_refines` goes the other way: a well-typed expression evaluates to the table
of the interpreter's answers, or raises what the interpreter raises on some row.
-/
namespace QueryEngine
open Library ExprEvaluator
set_option autoImplicit false
set_option maxHeartbeats 250000

variable {F : Type}

/-! ## Dispatch -/

theorem validateSameLength_ok {l r : Vector F} (h : l.size = r.size) :
    validateSameLength l r = .ok () := by
  have hlen : l.length = r.length := by rw [l.length_eq, r.length_eq, h]
  rw [validateSameLength, if_neg (not_not_intro hlen)]

theorem kernel_toVector {α β γ : Type} {l : TypedVec α} {r : TypedVec β} {n : ℕ} (hl : l.size = n)
    (hr : r.size = n) (default : γ) (f : α → β → Java γ) (wrap : TypedVec γ → Vector F)
    {fa : α → Value F} {fb : β → Value F} {fc : γ → Value F}
    {op : Value F → Value F → Java (Value F)}
    (hsize : ∀ v, (wrap v).size = v.size) (hslot : ∀ v i, (wrap v).slot i = (v.slot i).map fc)
    (hf : ∀ x y, fc <$> f x y = op (fa x) (fb y)) :
    Vector.Tabulates n (fun i => Interp.lift op ((l.slot i).map fa) ((r.slot i).map fb))
      (wrap <$> kernel default f l r) := by
  subst hl
  exact ((kernel_tabulates default f l r hr).toVector hsize hslot).congr
    fun i _ => zipSlot_lift hf (l.slot i) (r.slot i)

section Dispatch
variable [JavaDouble F]

def Scalar.Numeric (t : Scalar) : Prop := t = .INT32 ∨ t = .INT64 ∨ t = .FLOAT64

theorem numeric_tabulates (op : ArithmeticOp) {l r : Vector F} {n : ℕ} (hl : l.size = n)
    (hr : r.size = n) (ht : l.type = r.type) (hnum : l.type.Numeric) :
    Vector.Tabulates n (fun i => Interp.lift (Interp.arith op) (l.slot i) (r.slot i))
      (numeric l op r) := by
  unfold numeric
  rw [validateSameLength_ok (hl.trans hr.symm), ok_bind]
  cases l with
  | int l =>
    cases r <;> try cases ht
    exact kernel_toVector hl hr 0 op.applyInt .int (fun _ => rfl) (fun _ _ => rfl)
      (applyInt_interp op)
  | long l =>
    cases r <;> try cases ht
    exact kernel_toVector hl hr 0 op.applyLong .long (fun _ => rfl) (fun _ _ => rfl)
      (applyLong_interp op)
  | double l =>
    cases r <;> try cases ht
    exact kernel_toVector hl hr JavaDouble.zero op.applyDouble .double (fun _ => rfl)
      (fun _ _ => rfl) (applyDouble_interp op)
  | bool l => rcases hnum with h | h | h <;> cases h
  | utf8 l => rcases hnum with h | h | h <;> cases h

theorem compare_tabulates (op : ComparisonOp) {l r : Vector F} {n : ℕ} (hl : l.size = n)
    (hr : r.size = n) (ht : l.type = r.type) :
    Vector.Tabulates n (fun i => Interp.lift (Interp.compare op) (l.slot i) (r.slot i))
      (ExprEvaluator.compare l op r) := by
  unfold ExprEvaluator.compare
  rw [validateSameLength_ok (hl.trans hr.symm), ok_bind]
  cases l with
  | int l =>
    cases r <;> try cases ht
    exact kernel_toVector hl hr false op.compareInt .bool (fun _ => rfl) (fun _ _ => rfl)
      (compareInt_interp op)
  | long l =>
    cases r <;> try cases ht
    exact kernel_toVector hl hr false op.compareLong .bool (fun _ => rfl) (fun _ _ => rfl)
      (compareLong_interp op)
  | double l =>
    cases r <;> try cases ht
    exact kernel_toVector hl hr false op.compareDouble .bool (fun _ => rfl) (fun _ _ => rfl)
      (compareDouble_interp op)
  | bool l =>
    cases r <;> try cases ht
    exact kernel_toVector hl hr false op.compareBool .bool (fun _ => rfl) (fun _ _ => rfl)
      (compareBool_interp op)
  | utf8 l =>
    cases r <;> try cases ht
    exact kernel_toVector hl hr false op.compareString .bool (fun _ => rfl) (fun _ _ => rfl)
      (compareString_interp op)

theorem numeric_type {op : ArithmeticOp} {l r v : Vector F} (h : numeric l op r = .ok v) :
    l.type = r.type ∧ l.type.Numeric ∧ v.type = l.type := by
  obtain ⟨-, -, h⟩ := bind_eq_ok h
  cases l <;> cases r <;> try cases h
  · obtain ⟨w, -, rfl⟩ := map_eq_ok h
    exact ⟨rfl, Or.inl rfl, rfl⟩
  · obtain ⟨w, -, rfl⟩ := map_eq_ok h
    exact ⟨rfl, Or.inr (Or.inl rfl), rfl⟩
  · obtain ⟨w, -, rfl⟩ := map_eq_ok h
    exact ⟨rfl, Or.inr (Or.inr rfl), rfl⟩

theorem compare_type {op : ComparisonOp} {l r v : Vector F}
    (h : ExprEvaluator.compare l op r = .ok v) : l.type = r.type ∧ v.type = .BOOLEAN := by
  obtain ⟨-, -, h⟩ := bind_eq_ok h
  cases l <;> cases r <;> try cases h
  all_goals
    obtain ⟨w, -, rfl⟩ := map_eq_ok h
    exact ⟨rfl, rfl⟩

end Dispatch

/-! ## Static types of what was evaluated -/

theorem binaryType_arithmetic {s t : ExprType} (op : ArithmeticOp) (h : s.type = t.type)
    (hnum : s.type.Numeric) :
    Expr.binaryType s (.arithmetic op) t = .ok ⟨s.type, s.nullable || t.nullable⟩ := by
  rw [Expr.binaryType]
  simp only [if_pos h]
  rcases hnum with h | h | h <;> rw [h]

theorem binaryType_comparison {s t : ExprType} (op : ComparisonOp) (h : s.type = t.type) :
    Expr.binaryType s (.comparison op) t = .ok ⟨.BOOLEAN, s.nullable || t.nullable⟩ := by
  rw [Expr.binaryType]
  simp only [if_pos h]

/-- The type a binary operator gives its result, from the common type of its operands. -/
def BinaryOp.Yields (op : BinaryOp) (operand result : Scalar) : Prop :=
  match op with
  | .arithmetic _ => operand.Numeric ∧ result = operand
  | .comparison _ => result = .BOOLEAN

theorem binaryType_ok {s t u : ExprType} {op : BinaryOp} (h : Expr.binaryType s op t = .ok u) :
    s.type = t.type ∧ u.nullable = (s.nullable || t.nullable) ∧ op.Yields s.type u.type := by
  unfold Expr.binaryType at h
  cases op with
  | comparison op =>
    simp only at h
    split at h
    next hst => cases h; exact ⟨hst, rfl, rfl⟩
    next => cases h
  | arithmetic op =>
    simp only at h
    split at h
    next hst =>
      split at h
      next hs => cases h; exact ⟨hst, rfl, Or.inl hs, rfl⟩
      next hs => cases h; exact ⟨hst, rfl, Or.inr (Or.inl hs), rfl⟩
      next hs => cases h; exact ⟨hst, rfl, Or.inr (Or.inr hs), rfl⟩
      next => cases h
      next => cases h
    next => cases h

theorem unaryType_ok {s u : ExprType} {op : UnaryOp} (h : Expr.unaryType op s = .ok u) :
    s.type = .BOOLEAN ∧ u = s := by
  rw [Expr.unaryType] at h
  split at h
  next hs => cases h; exact ⟨hs, rfl⟩
  next => cases h

theorem logicalType_ok {s t u : ExprType} {op : LogicalOp} (h : Expr.logicalType s op t = .ok u) :
    s.type = .BOOLEAN ∧ t.type = .BOOLEAN ∧ u = ⟨.BOOLEAN, s.nullable || t.nullable⟩ := by
  rw [Expr.logicalType] at h
  split at h
  next hst => cases h; exact ⟨hst.1, hst.2, rfl⟩
  next => cases h

/-! What an accepted expression says about its parts. -/

namespace Expr

theorem outputType_columnRef_ok {s : Schema} {name : JString} {t : ExprType}
    (ht : (columnRef name : Expr F).outputType s = .ok t) :
    ∃ f, s.field name = .ok f ∧ t = ⟨f.type, f.nullable⟩ := by
  obtain ⟨f, hf, ht⟩ := bind_eq_ok ht
  exact ⟨f, hf, (Except.ok.inj ht).symm⟩

theorem outputType_binary_ok {s : Schema} {left right : Expr F} {op : BinaryOp} {t : ExprType}
    (ht : (binary left op right).outputType s = .ok t) :
    ∃ u w, left.outputType s = .ok u ∧ right.outputType s = .ok w ∧ u.type = w.type ∧
      t.nullable = (u.nullable || w.nullable) ∧ op.Yields u.type t.type := by
  obtain ⟨u, hu, ht⟩ := bind_eq_ok ht
  obtain ⟨w, hw, ht⟩ := bind_eq_ok ht
  exact ⟨u, w, hu, hw, binaryType_ok ht⟩

theorem outputType_unary_ok {s : Schema} {e : Expr F} {op : UnaryOp} {t : ExprType}
    (ht : (unary op e).outputType s = .ok t) : e.outputType s = .ok t ∧ t.type = .BOOLEAN := by
  obtain ⟨u, hu, ht⟩ := bind_eq_ok ht
  obtain ⟨hbool, rfl⟩ := unaryType_ok ht
  exact ⟨hu, hbool⟩

theorem outputType_logical_ok {s : Schema} {left right : Expr F} {op : LogicalOp} {t : ExprType}
    (ht : (logical left op right).outputType s = .ok t) :
    ∃ u w, left.outputType s = .ok u ∧ right.outputType s = .ok w ∧ u.type = .BOOLEAN ∧
      w.type = .BOOLEAN ∧ t = ⟨.BOOLEAN, u.nullable || w.nullable⟩ := by
  obtain ⟨u, hu, ht⟩ := bind_eq_ok ht
  obtain ⟨w, hw, ht⟩ := bind_eq_ok ht
  exact ⟨u, w, hu, hw, logicalType_ok ht⟩

end Expr

theorem evalLiteral_ok (l : Literal F) {n : Int32} (hn : ¬ n < 0) :
    ∃ v, evalLiteral l n = .ok v ∧ v.type = l.type ∧ v.length = n ∧
      ∀ i, v.slot i = some l.value := by
  cases l <;>
    exact ⟨_, by rw [evalLiteral, ConstantVector.new_of_not_neg _ hn]; rfl, rfl, rfl, fun _ => rfl⟩

theorem truth_bool (s : Option Bool) : Interp.truth (s.map (@Value.bool F)) = .ok s := by
  cases s <;> rfl

theorem evalLogical_toVector (b : RecordBatch F) (op : LogicalOp) {l r : BoolVec}
    (hl : l.size = b.size) (hr : r.size = b.size) :
    Vector.Tabulates b.size
      (fun i => Interp.logical op ((Vector.bool l : Vector F).slot i) ((Vector.bool r).slot i))
      (.bool <$> evalLogical b op l r) := by
  refine ((evalLogical_tabulates b op l r hl hr).toVector (fun _ => rfl) (fun _ _ => rfl)).congr
    fun i _ => ?_
  rw [Interp.logical, Vector.slot, Vector.slot, truth_bool, ok_bind, truth_bool]
  rfl

theorem evalNot_toVector (b : RecordBatch F) {v : BoolVec} (hv : v.size = b.size) :
    Vector.Tabulates b.size (fun i => Interp.unary .NOT ((Vector.bool v : Vector F).slot i))
      (.bool <$> evalUnary b .NOT (.bool v)) := by
  refine ((evalNot_tabulates b v hv).toVector (fun _ => rfl) (fun _ _ => rfl)).congr
    fun i _ => ?_
  rw [Interp.unary, Vector.slot, truth_bool]
  rfl

section Evaluator
variable [JavaDouble F]

/-- **Dynamic typing implies static typing.** -/
theorem typed_of_eval {b : RecordBatch F} {e : Expr F} {v : Vector F} (h : eval b e = .ok v) :
    ∃ t, e.outputType b.schema = .ok t ∧ t.type = v.type := by
  induction e generalizing v with
  | columnRef name =>
    obtain ⟨f, hf, ht, -⟩ := b.field_of_vectorOf h
    exact ⟨⟨f.type, f.nullable⟩, by rw [Expr.outputType, hf]; rfl, ht.symm⟩
  | literal l =>
    obtain ⟨w, hw, ht, -⟩ := evalLiteral_ok l b.rowCount_not_neg
    rw [eval, hw] at h
    cases h
    exact ⟨⟨l.type, false⟩, rfl, ht.symm⟩
  | binary left op right ihl ihr =>
    obtain ⟨x, hx, h⟩ := bind_eq_ok h
    obtain ⟨y, hy, h⟩ := bind_eq_ok h
    obtain ⟨s, hs, hst⟩ := ihl hx
    obtain ⟨t, ht, htt⟩ := ihr hy
    rw [Expr.outputType, hs, ok_bind, ht, ok_bind]
    cases op with
    | arithmetic op =>
      obtain ⟨heq, hnum, hv⟩ := numeric_type h
      refine ⟨_, binaryType_arithmetic op (by rw [hst, htt, heq]) (hst ▸ hnum), ?_⟩
      exact hst.trans hv.symm
    | comparison op =>
      obtain ⟨heq, hv⟩ := compare_type h
      exact ⟨_, binaryType_comparison op (by rw [hst, htt, heq]), hv.symm⟩
  | unary op e ih =>
    obtain ⟨x, hx, h⟩ := bind_eq_ok h
    obtain ⟨s, hs, hst⟩ := ih hx
    obtain ⟨w, hw, rfl⟩ := map_eq_ok h
    cases op
    cases x <;> try cases hw
    have hbool : s.type = .BOOLEAN := hst
    refine ⟨s, ?_, hst⟩
    rw [Expr.outputType, hs, ok_bind, Expr.unaryType, if_pos hbool]
  | logical left op right ihl ihr =>
    obtain ⟨x, hx, h⟩ := bind_eq_ok h
    obtain ⟨y, hy, h⟩ := bind_eq_ok h
    obtain ⟨s, hs, hst⟩ := ihl hx
    obtain ⟨t, ht, htt⟩ := ihr hy
    cases x <;> try cases h
    cases y <;> try cases h
    obtain ⟨w, -, rfl⟩ := map_eq_ok h
    refine ⟨⟨.BOOLEAN, s.nullable || t.nullable⟩, ?_, rfl⟩
    rw [Expr.outputType, hs, ok_bind, ht, ok_bind, Expr.logicalType, if_pos ⟨hst, htt⟩]

/-! ## Tables of well-typed expressions -/

/-- What `eval` may do to an expression of a known type: return the table of the interpreter's
answers, as a vector of that type, or raise what the interpreter raises on some row. -/
def Refines (b : RecordBatch F) (e : Expr F) (t : Scalar) : Prop :=
  (∃ v, eval b e = .ok v ∧ v.type = t ∧ v.size = b.size ∧
      ∀ i < b.size, interp (b.row i) e = .ok (v.slot i)) ∨
    (∃ i < b.size, ∃ x, eval b e = .error x ∧ interp (b.row i) e = .error x)

theorem Refines.of_tabulates {b : RecordBatch F} {e : Expr F} {t : Scalar}
    {g : ℕ → Java (Cell F)} {r : Java (Vector F)} (h : Vector.Tabulates b.size g r)
    (hr : eval b e = r) (ht : ∀ v, r = .ok v → v.type = t)
    (hg : ∀ i < b.size, interp (b.row i) e = g i) : Refines b e t := by
  rcases h with ⟨v, hv, hsize, hs⟩ | ⟨i, hi, x, hx, hgx⟩
  · exact Or.inl ⟨v, hr.trans hv, ht v hv, hsize, fun i hi => (hg i hi).trans (hs i hi)⟩
  · exact Or.inr ⟨i, hi, x, hr.trans hx, (hg i hi).trans hgx⟩

/-- The step of the induction over operators with two operands: a raising operand is decided at
once, so only two tables have to be combined. -/
theorem Refines.two {b : RecordBatch F} {l r e : Expr F} {s t u : Scalar}
    (k : Vector F → Vector F → Java (Vector F)) (ki : Cell F → Cell F → Java (Cell F))
    (hl : Refines b l s) (hr : Refines b r t)
    (heval : eval b e = do let x ← eval b l; let y ← eval b r; k x y)
    (hinterp : ∀ i, interp (b.row i) e = do
      let x ← interp (b.row i) l; let y ← interp (b.row i) r; ki x y)
    (hk : ∀ x y, x.type = s → y.type = t → x.size = b.size → y.size = b.size →
      Vector.Tabulates b.size (fun i => ki (x.slot i) (y.slot i)) (k x y) ∧
        ∀ v, k x y = .ok v → v.type = u) : Refines b e u := by
  rcases hl with ⟨x, hx, hxt, hxs, hxi⟩ | ⟨i, hi, exn, hx, hxi⟩
  · rcases hr with ⟨y, hy, hyt, hys, hyi⟩ | ⟨i, hi, exn, hy, hyi⟩
    · rw [hx, ok_bind, hy, ok_bind] at heval
      obtain ⟨htab, htype⟩ := hk x y hxt hyt hxs hys
      refine Refines.of_tabulates htab heval htype fun i hi => ?_
      rw [hinterp, hxi i hi, ok_bind, hyi i hi, ok_bind]
    · rw [hx, ok_bind, hy, error_bind] at heval
      exact Or.inr ⟨i, hi, exn, heval, by rw [hinterp, hxi i hi, ok_bind, hyi, error_bind]⟩
  · rw [hx, error_bind] at heval
    exact Or.inr ⟨i, hi, exn, heval, by rw [hinterp, hxi, error_bind]⟩

/-- **A well-typed expression evaluates to the table of the row interpreter.** -/
theorem eval_refines (b : RecordBatch F) (e : Expr F) {t : ExprType}
    (ht : e.outputType b.schema = .ok t) : Refines b e t.type := by
  induction e generalizing t with
  | columnRef name =>
    obtain ⟨f, hf, rfl⟩ := Expr.outputType_columnRef_ok ht
    obtain ⟨v, hv, htype, hmem, hlookup⟩ := b.vectorOf_of_field hf
    refine Or.inl ⟨v, hv, htype, b.size_of_mem hmem, fun i _ => ?_⟩
    rw [interp, b.row_cell i hlookup]
  | literal l =>
    cases ht
    obtain ⟨v, hv, htype, hlen, hslot⟩ := evalLiteral_ok l b.rowCount_not_neg
    refine Or.inl ⟨v, hv, htype, by rw [Vector.size, hlen, RecordBatch.size], fun i _ => ?_⟩
    rw [interp, hslot i]
  | binary left op right ihl ihr =>
    obtain ⟨s, u, hs, hu, hsu, -, hop⟩ := Expr.outputType_binary_ok ht
    cases op with
    | arithmetic op =>
      refine Refines.two (fun x y => numeric x op y) (Interp.lift (Interp.arith op)) (ihl hs)
        (ihr hu) rfl (fun _ => rfl) fun x y hx hy hxs hys => ⟨?_, fun v hv => ?_⟩
      · exact numeric_tabulates op hxs hys (by rw [hx, hy, hsu]) (hx ▸ hop.1)
      · rw [(numeric_type hv).2.2, hx, hop.2]
    | comparison op =>
      refine Refines.two (fun x y => ExprEvaluator.compare x op y)
        (Interp.lift (Interp.compare op)) (ihl hs) (ihr hu) rfl (fun _ => rfl)
        fun x y hx hy hxs hys => ⟨?_, fun v hv => ?_⟩
      · exact compare_tabulates op hxs hys (by rw [hx, hy, hsu])
      · exact (compare_type hv).2.trans hop.symm
  | unary op e ih =>
    obtain ⟨hs, hbool⟩ := Expr.outputType_unary_ok ht
    cases op
    rcases ih hs with ⟨x, hx, hxt, hxs, hxi⟩ | ⟨i, hi, exn, hx, hxi⟩
    · rw [hbool] at hxt ⊢
      cases x <;> try cases hxt
      refine Refines.of_tabulates (evalNot_toVector b hxs) (by rw [eval, hx]; rfl) ?_ ?_
      · intro v hv
        obtain ⟨w, -, rfl⟩ := map_eq_ok hv
        rfl
      · intro i hi
        rw [interp, hxi i hi, ok_bind]
    · exact Or.inr ⟨i, hi, exn, by rw [eval, hx, error_bind], by rw [interp, hxi, error_bind]⟩
  | logical left op right ihl ihr =>
    obtain ⟨s, u, hs, hu, hsb, hub, rfl⟩ := Expr.outputType_logical_ok ht
    refine Refines.two _ (Interp.logical op) (ihl hs) (ihr hu) (by rw [eval]) (fun _ => rfl) ?_
    intro x y hx hy hxs hys
    rw [hsb] at hx
    rw [hub] at hy
    cases x <;> try cases hx
    cases y <;> try cases hy
    refine ⟨evalLogical_toVector b op hxs hys, fun v hv => ?_⟩
    obtain ⟨w, -, rfl⟩ := map_eq_ok hv
    rfl

/-! ## What callers use -/

theorem eval_ok {b : RecordBatch F} {e : Expr F} {v : Vector F} (h : eval b e = .ok v) :
    v.size = b.size ∧ ∀ i < b.size, interp (b.row i) e = .ok (v.slot i) := by
  obtain ⟨t, ht, -⟩ := typed_of_eval h
  rcases eval_refines b e ht with ⟨w, hw, -, hs, hi⟩ | ⟨i, -, x, hx, -⟩
  · rw [h] at hw
    cases hw
    exact ⟨hs, hi⟩
  · simp [h] at hx

theorem eval_error_iff {b : RecordBatch F} {e : Expr F} {t : ExprType}
    (ht : e.outputType b.schema = .ok t) :
    (∃ x, eval b e = .error x) ↔ ∃ i < b.size, ∃ x, interp (b.row i) e = .error x := by
  constructor
  · rintro ⟨x, hx⟩
    rcases eval_refines b e ht with ⟨v, hv, -⟩ | ⟨i, hi, y, -, hy⟩
    · simp [hx] at hv
    · exact ⟨i, hi, y, hy⟩
  · rintro ⟨i, hi, x, hx⟩
    rcases eval_refines b e ht with ⟨v, -, -, -, hv⟩ | ⟨_, _, y, hy, -⟩
    · simp [hv i hi] at hx
    · exact ⟨y, hy⟩

/-- **A simulation of rows is a simulation of evaluations**: where every row of `b'` answers like
the row of `b` that it comes from, so does every slot. -/
theorem eval_transfer {b b' : RecordBatch F} {e : Expr F} {t : ExprType}
    (ht : e.outputType b'.schema = .ok t) (origin : ℕ → ℕ) (R : Cell F → Cell F → Prop)
    (hin : ∀ k < b'.size, origin k < b.size)
    (hrow : ∀ k < b'.size, ∀ c, interp (b.row (origin k)) e = .ok c →
      ∃ c', interp (b'.row k) e = .ok c' ∧ R c' c) {v : Vector F} (hv : eval b e = .ok v) :
    ∃ v', eval b' e = .ok v' ∧ v'.type = t.type ∧ v'.size = b'.size ∧
      ∀ k < b'.size, R (v'.slot k) (v.slot (origin k)) := by
  obtain ⟨-, hslots⟩ := eval_ok hv
  obtain ⟨v', hv', htype, hsize, hslots'⟩ | ⟨k, hk, x, -, hx⟩ := eval_refines b' e ht
  · refine ⟨v', hv', htype, hsize, fun k hk => ?_⟩
    obtain ⟨c', hc', hR⟩ := hrow k hk _ (hslots (origin k) (hin k hk))
    rw [hslots' k hk] at hc'
    rwa [Except.ok.inj hc']
  · obtain ⟨c', hc', -⟩ := hrow k hk _ (hslots (origin k) (hin k hk))
    simp [hx] at hc'

end Evaluator

end QueryEngine
