import QueryEngine.Proof.Evaluator.Soundness

/-! # Which failure an evaluation reports

A row fails exactly where one of its sub-expressions divides by zero or orders two booleans
(`interp_error_iff`). Over a batch the evaluator works node by node, so what it raises is decided by
the first node, in evaluation order, that fails on any row (`eval_outcome`).
-/
namespace QueryEngine
open Library ExprEvaluator
set_option autoImplicit false
set_option maxHeartbeats 250000

variable {F : Type}

theorem Expr.subexprs_self (e : Expr F) : e ∈ e.subexprs := by
  cases e <;> simp [Expr.subexprs]

variable [JavaDouble F]

/-! ## One node on one row -/

/-- The node fails by itself on the row, and this is what it raises. -/
def NodeFault (row : Row F) (e : Expr F) (x : JavaException) : Prop :=
  (x = .arithmetic ∧ DividesByZero row e) ∨
    ((∃ op : ComparisonOp, x = op.booleansNotSupported) ∧ OrdersBooleans row e)

theorem NodeFault.raises {row : Row F} {e : Expr F} {x : JavaException} (h : NodeFault row e x) :
    ∃ y, interp row e = .error y := by
  rcases h with ⟨-, hd⟩ | ⟨-, ho⟩
  · cases e with
    | binary left op right =>
      rcases op with op | op
      · cases op <;> try cases hd
        all_goals
          rename_i hex
          obtain ⟨a, ha, hb⟩ := hex
          refine ⟨.arithmetic, ?_⟩
          rw [interp, ha, ok_bind, hb, ok_bind]
          rfl
      · cases hd
    | _ => cases hd
  · cases e with
    | binary left op right =>
      rcases op with op | op
      · cases ho
      · obtain ⟨hne, hne', a, b, ha, hb⟩ := ho
        rw [interp, ha, ok_bind, hb, ok_bind]
        cases op with
        | EqEq => exact absurd rfl hne
        | NEq => exact absurd rfl hne'
        | _ => exact ⟨_, rfl⟩
    | _ => cases ho

theorem binary_node_error {s : Schema} {row : Row F} (hrow : row.Fits s) {left right : Expr F}
    {op : BinaryOp} {t : ExprType} (ht : (Expr.binary left op right).outputType s = .ok t)
    {a b : Cell F} (ha : interp row left = .ok a) (hb : interp row right = .ok b)
    {x : JavaException} (h : interp row (.binary left op right) = .error x) :
    NodeFault row (.binary left op right) x := by
  obtain ⟨u, w, hu, hw, huw, -, hop⟩ := Expr.outputType_binary_ok ht
  rw [interp, ha, ok_bind, hb, ok_bind] at h
  obtain ⟨y, z, rfl, rfl, hyzx⟩ := lift_error h
  have hy := interp_fits hrow hu ha y rfl
  have hz := interp_fits hrow hw hb z rfl
  have hyz : y.type = z.type := by rw [hy.1, hz.1, huw]
  cases op with
  | arithmetic op =>
    obtain ⟨rfl, rfl, hex⟩ := arith_error hyz (hy.1 ▸ hop.1) hyzx
    refine Or.inl ⟨rfl, ?_⟩
    obtain ⟨n, rfl, rfl⟩ | ⟨n, rfl, rfl⟩ := hex
    · exact Or.inl ⟨n, ha, hb⟩
    · exact Or.inr ⟨n, ha, hb⟩
  | comparison op =>
    obtain ⟨rfl, hne, hne', p, q, rfl, rfl⟩ := compare_error hyz hy.2 hz.2 hyzx
    exact Or.inr ⟨⟨op, rfl⟩, hne, hne', p, q, ha, hb⟩

theorem unary_node_ok {s : Schema} {row : Row F} (hrow : row.Fits s) {e : Expr F} {op : UnaryOp}
    {t : ExprType} (ht : (Expr.unary op e).outputType s = .ok t) {a : Cell F}
    (ha : interp row e = .ok a) : ∃ c, interp row (.unary op e) = .ok c := by
  obtain ⟨hu, hb⟩ := Expr.outputType_unary_ok ht
  have hfa := interp_fits hrow hu ha
  rw [hb] at hfa
  obtain ⟨d, hd, -⟩ := unary_ok op hfa
  exact ⟨d, by rw [interp, ha, ok_bind, hd]⟩

theorem logical_node_ok {s : Schema} {row : Row F} (hrow : row.Fits s) {left right : Expr F}
    {op : LogicalOp} {t : ExprType} (ht : (Expr.logical left op right).outputType s = .ok t)
    {a b : Cell F} (ha : interp row left = .ok a) (hb : interp row right = .ok b) :
    ∃ c, interp row (.logical left op right) = .ok c := by
  obtain ⟨u, w, hu, hw, hub, hwb, rfl⟩ := Expr.outputType_logical_ok ht
  have hfa := interp_fits hrow hu ha
  have hfb := interp_fits hrow hw hb
  rw [hub] at hfa
  rw [hwb] at hfb
  obtain ⟨r, hr, -⟩ := logical_ok op hfa hfb
  exact ⟨r, by rw [interp, ha, ok_bind, hb, ok_bind, hr]⟩

/-! ## All nodes on one row -/

/-- An operation on two operands that raises: an operand did, or both are there. -/
theorem operands_error {row : Row F} {left right : Expr F} {f : Cell F → Cell F → Java (Cell F)}
    {x : JavaException}
    (hl : interp row left = .error x → ∃ n ∈ left.subexprs, NodeFault row n x)
    (hr : interp row right = .error x → ∃ n ∈ right.subexprs, NodeFault row n x)
    (h : (do let a ← interp row left; let b ← interp row right; f a b) = .error x) :
    (∃ n ∈ left.subexprs ++ right.subexprs, NodeFault row n x) ∨
      ∃ a b, interp row left = .ok a ∧ interp row right = .ok b := by
  obtain hleft | ⟨a, ha, h⟩ := bind_eq_error h
  · obtain ⟨n, hn, hf⟩ := hl hleft
    exact Or.inl ⟨n, List.mem_append_left _ hn, hf⟩
  · obtain hright | ⟨b, hb, -⟩ := bind_eq_error h
    · obtain ⟨n, hn, hf⟩ := hr hright
      exact Or.inl ⟨n, List.mem_append_right _ hn, hf⟩
    · exact Or.inr ⟨a, b, ha, hb⟩

theorem interp_error {s : Schema} {row : Row F} (hrow : row.Fits s) {e : Expr F} {t : ExprType}
    (ht : e.outputType s = .ok t) {x : JavaException} (h : interp row e = .error x) :
    ∃ n ∈ e.subexprs, NodeFault row n x := by
  induction e generalizing t with
  | columnRef name => cases h
  | literal l => cases h
  | binary left op right ihl ihr =>
    obtain ⟨u, w, hu, hw, -⟩ := Expr.outputType_binary_ok ht
    obtain ⟨n, hn, hf⟩ | ⟨a, b, ha, hb⟩ := operands_error (ihl hu) (ihr hw) h
    · exact ⟨n, List.mem_append_left _ hn, hf⟩
    · exact ⟨_, Expr.subexprs_self _, binary_node_error hrow ht ha hb h⟩
  | unary op e ih =>
    obtain ⟨hu, -⟩ := Expr.outputType_unary_ok ht
    obtain he | ⟨a, ha, -⟩ := bind_eq_error h
    · obtain ⟨n, hn, hf⟩ := ih hu he
      exact ⟨n, List.mem_append_left _ hn, hf⟩
    · obtain ⟨c, hc⟩ := unary_node_ok hrow ht ha
      simp [hc] at h
  | logical left op right ihl ihr =>
    obtain ⟨u, w, hu, hw, -⟩ := Expr.outputType_logical_ok ht
    obtain ⟨n, hn, hf⟩ | ⟨a, b, ha, hb⟩ := operands_error (ihl hu) (ihr hw) h
    · exact ⟨n, List.mem_append_left _ hn, hf⟩
    · obtain ⟨c, hc⟩ := logical_node_ok hrow ht ha hb
      simp [hc] at h

theorem interp_error_of_subexpr {row : Row F} {e n : Expr F} (hn : n ∈ e.subexprs)
    (h : ∃ x, interp row n = .error x) : ∃ x, interp row e = .error x := by
  induction e with
  | columnRef name =>
    obtain rfl : n = _ := by simpa [Expr.subexprs] using hn
    exact h
  | literal l =>
    obtain rfl : n = _ := by simpa [Expr.subexprs] using hn
    exact h
  | binary left op right ihl ihr =>
    simp only [Expr.subexprs, List.mem_append, List.mem_singleton] at hn
    obtain (hn | hn) | rfl := hn
    · exact bind_error_of_first (ihl hn) _
    · exact bind_error_of_second _ fun a => bind_error_of_first (ihr hn) _
    · exact h
  | unary op e ih =>
    simp only [Expr.subexprs, List.mem_append, List.mem_singleton] at hn
    obtain hn | rfl := hn
    · exact bind_error_of_first (ih hn) _
    · exact h
  | logical left op right ihl ihr =>
    simp only [Expr.subexprs, List.mem_append, List.mem_singleton] at hn
    obtain (hn | hn) | rfl := hn
    · exact bind_error_of_first (ihl hn) _
    · exact bind_error_of_second _ fun a => bind_error_of_first (ihr hn) _
    · exact h

/-- **A row fails exactly where a sub-expression divides by zero or orders two booleans.** -/
theorem interp_error_iff {s : Schema} {row : Row F} (hrow : row.Fits s) {e : Expr F} {t : ExprType}
    (ht : e.outputType s = .ok t) :
    (∃ x, interp row e = .error x) ↔
      ∃ n ∈ e.subexprs, DividesByZero row n ∨ OrdersBooleans row n := by
  constructor
  · rintro ⟨x, hx⟩
    obtain ⟨n, hn, hf⟩ := interp_error hrow ht hx
    exact ⟨n, hn, hf.imp And.right And.right⟩
  · rintro ⟨n, hn, hd | ho⟩
    · exact interp_error_of_subexpr hn (NodeFault.raises (Or.inl ⟨rfl, hd⟩))
    · exact interp_error_of_subexpr hn (NodeFault.raises (Or.inr ⟨⟨.LT, rfl⟩, ho⟩))

/-! ## All nodes on all rows -/

/-- The node fails by itself on no row of the batch. -/
def Quiet (b : RecordBatch F) (n : Expr F) : Prop :=
  ∀ i < b.size, ¬ DividesByZero (b.row i) n ∧ ¬ OrdersBooleans (b.row i) n

/-- The first node, in evaluation order, that fails on some row explains `x`. -/
def FirstFault (b : RecordBatch F) (nodes : List (Expr F)) (x : JavaException) : Prop :=
  ∃ pre n post, nodes = pre ++ n :: post ∧ (∀ d ∈ pre, Quiet b d) ∧
    ∃ i < b.size, NodeFault (b.row i) n x

theorem FirstFault.append {b : RecordBatch F} {nodes : List (Expr F)} {x : JavaException}
    (h : FirstFault b nodes x) (rest : List (Expr F)) : FirstFault b (nodes ++ rest) x := by
  obtain ⟨pre, n, post, rfl, hq, hn⟩ := h
  exact ⟨pre, n, post ++ rest, by simp, hq, hn⟩

theorem FirstFault.prepend {b : RecordBatch F} {nodes quiet : List (Expr F)} {x : JavaException}
    (h : FirstFault b nodes x) (hquiet : ∀ d ∈ quiet, Quiet b d) :
    FirstFault b (quiet ++ nodes) x := by
  obtain ⟨pre, n, post, rfl, hq, hn⟩ := h
  refine ⟨quiet ++ pre, n, post, by simp, fun d hd => ?_, hn⟩
  rcases List.mem_append.mp hd with hd | hd
  · exact hquiet d hd
  · exact hq d hd

/-- Either nothing fails anywhere and a vector is returned, or the first failure is raised. -/
def Outcome (b : RecordBatch F) (e : Expr F) : Prop :=
  (∃ v, eval b e = .ok v ∧ ∀ n ∈ e.subexprs, Quiet b n) ∨
    (∃ x, eval b e = .error x ∧ FirstFault b e.subexprs x)

theorem quiet_of_ok {b : RecordBatch F} {e : Expr F}
    (h : ∀ i < b.size, ∃ c, interp (b.row i) e = .ok c) : Quiet b e := by
  intro i hi
  obtain ⟨c, hc⟩ := h i hi
  constructor
  · intro hd
    obtain ⟨y, hy⟩ := NodeFault.raises (Or.inl ⟨rfl, hd⟩)
    simp [hc] at hy
  · intro ho
    obtain ⟨y, hy⟩ := NodeFault.raises (Or.inr ⟨⟨.LT, rfl⟩, ho⟩)
    simp [hc] at hy

theorem Outcome.node {b : RecordBatch F} {e : Expr F} {t : ExprType}
    (ht : e.outputType b.schema = .ok t) {operands : List (Expr F)}
    (hsub : e.subexprs = operands ++ [e]) (hquiet : ∀ d ∈ operands, Quiet b d)
    (hnode : ∀ i < b.size, ∀ x, interp (b.row i) e = .error x → NodeFault (b.row i) e x) :
    Outcome b e := by
  rcases eval_refines b e ht with ⟨v, hv, -, -, hi⟩ | ⟨i, hi, x, hx, hxi⟩
  · refine Or.inl ⟨v, hv, fun n hn => ?_⟩
    rw [hsub, List.mem_append, List.mem_singleton] at hn
    rcases hn with hn | rfl
    · exact hquiet n hn
    · exact quiet_of_ok fun i hi' => ⟨_, hi i hi'⟩
  · exact Or.inr ⟨x, hx, operands, e, [], hsub, hquiet, i, hi, hnode i hi x hxi⟩

/-- A node with two operands: the left one is first to fail, or the right one, or the node. -/
theorem Outcome.two {b : RecordBatch F} {e left right : Expr F} {t : ExprType}
    {f : Vector F → Vector F → Java (Vector F)} (ht : e.outputType b.schema = .ok t)
    (hsub : e.subexprs = left.subexprs ++ right.subexprs ++ [e])
    (heval : eval b e = do let x ← eval b left; let y ← eval b right; f x y)
    (hl : Outcome b left) (hr : Outcome b right)
    (hnode : ∀ i < b.size, ∀ c d x, interp (b.row i) left = .ok c →
      interp (b.row i) right = .ok d → interp (b.row i) e = .error x →
        NodeFault (b.row i) e x) : Outcome b e := by
  obtain ⟨y, hy, hql⟩ | ⟨x, hx, hf⟩ := hl
  · obtain ⟨z, hz, hqr⟩ | ⟨x, hx, hf⟩ := hr
    · refine Outcome.node ht hsub (fun d hd => ?_) fun i hi x hx => ?_
      · exact (List.mem_append.mp hd).elim (hql d) (hqr d)
      · exact hnode i hi _ _ x ((eval_ok hy).2 i hi) ((eval_ok hz).2 i hi) hx
    · refine Or.inr ⟨x, by rw [heval, hy, ok_bind, hx, error_bind], ?_⟩
      rw [hsub]
      exact (hf.prepend hql).append [e]
  · refine Or.inr ⟨x, by rw [heval, hx, error_bind], ?_⟩
    rw [hsub]
    exact (hf.append right.subexprs).append [e]

/-- **The evaluator raises the first failure in evaluation order, and nothing else.** -/
theorem eval_outcome {b : RecordBatch F} (hb : b.StringsPresent) {e : Expr F} {t : ExprType}
    (ht : e.outputType b.schema = .ok t) : Outcome b e := by
  induction e generalizing t with
  | columnRef name =>
    exact Outcome.node ht (List.nil_append _).symm (by simp) fun i _ x hx => by cases hx
  | literal l =>
    exact Outcome.node ht (List.nil_append _).symm (by simp) fun i _ x hx => by cases hx
  | binary left op right ihl ihr =>
    obtain ⟨u, w, hu, hw, -⟩ := Expr.outputType_binary_ok ht
    refine Outcome.two ht rfl (by rw [eval]) (ihl hu) (ihr hw) fun i hi c d x hc hd hx => ?_
    exact binary_node_error (RecordBatch.row_fits hb hi) ht hc hd hx
  | unary op e ih =>
    obtain ⟨hu, -⟩ := Expr.outputType_unary_ok ht
    obtain ⟨y, hy, hq⟩ | ⟨x, hx, hf⟩ := ih hu
    · refine Outcome.node ht rfl hq fun i hi x hx => ?_
      obtain ⟨c, hc⟩ := unary_node_ok (RecordBatch.row_fits hb hi) ht ((eval_ok hy).2 i hi)
      simp [hc] at hx
    · exact Or.inr ⟨x, by rw [eval, hx, error_bind], hf.append _⟩
  | logical left op right ihl ihr =>
    obtain ⟨u, w, hu, hw, -⟩ := Expr.outputType_logical_ok ht
    refine Outcome.two ht rfl (by rw [eval]) (ihl hu) (ihr hw) fun i hi c d x hc hd hx => ?_
    obtain ⟨r, hr⟩ := logical_node_ok (RecordBatch.row_fits hb hi) ht hc hd
    simp [hr] at hx

end QueryEngine
