import QueryEngine.Abstract.Faults
import QueryEngine.Proof.Evaluator.Refinement

/-! # Soundness of the static types

On a row that fits the schema, a well-typed expression has a value of its type or null, is never
null when its type says so, and can fail only by an integer division by zero or by ordering two
booleans.
-/
namespace QueryEngine
open Library ExprEvaluator
set_option autoImplicit false
set_option maxHeartbeats 250000

variable {F : Type}

/-! ## Rows of a batch -/

theorem Vector.slot_type {v : Vector F} {i : ℕ} {x : Value F} (h : v.slot i = some x) :
    x.type = v.type := by
  cases v <;>
    · obtain ⟨y, -, rfl⟩ := Option.map_eq_some_iff.mp h
      rfl

theorem RecordBatch.row_fits {b : RecordBatch F} (h : b.StringsPresent) {i : ℕ} (hi : i < b.size) :
    (b.row i).Fits b.schema := by
  intro f hf x hx
  obtain ⟨v, -, ht, hmem, hlookup⟩ := b.vectorOf_of_field (Schema.field_of_mem hf)
  rw [b.row_cell i hlookup] at hx
  refine ⟨(Vector.slot_type hx).trans ht, ?_⟩
  rintro rfl
  exact h v hmem i hi hx

theorem RecordBatch.requiredPresent_iff (b : RecordBatch F) :
    b.RequiredPresent ↔ ∀ i < b.size, (b.row i).Required b.schema := by
  constructor
  · intro h i hi f hf hnull
    obtain ⟨k, hk⟩ := List.getElem?_of_mem hf
    obtain ⟨v, hv, -, hcolumn⟩ := b.getElem_column hk
    rw [b.row_cell i ((lookup_eq_some_iff b.columns_nodup f.name v).mpr hcolumn)]
    exact h k f v hk hv hnull i hi
  · intro h k f v hk hv hnull i hi
    obtain ⟨w, hw, -, hcolumn⟩ := b.getElem_column hk
    obtain rfl : v = w := Option.some.inj (hv.symm.trans hw)
    rw [← b.row_cell i ((lookup_eq_some_iff b.columns_nodup f.name v).mpr hcolumn)]
    exact h i hi f (List.mem_of_getElem? hk) hnull

/-! ## Operations on values of known types -/

section Values
variable [JavaDouble F]

theorem arith_ok {op : ArithmeticOp} {a b c : Value F} (hab : a.type = b.type)
    (h : Interp.arith op a b = .ok c) : c.type = a.type ∧ c ≠ .utf8 none := by
  cases a <;> cases b <;> cases hab <;> try cases h
  all_goals
    obtain ⟨x, -, hx⟩ := bind_eq_ok h
    cases hx
    exact ⟨rfl, by simp⟩

theorem compare_ok {op : ComparisonOp} {a b c : Value F} (h : Interp.compare op a b = .ok c) :
    c.type = .BOOLEAN ∧ c ≠ .utf8 none := by
  cases a <;> cases b <;> try cases h
  · exact ⟨rfl, by simp⟩
  · exact ⟨rfl, by simp⟩
  all_goals
    obtain ⟨x, -, hx⟩ := bind_eq_ok h
    cases hx
    exact ⟨rfl, by simp⟩

theorem arithInt_error {op : ArithmeticOp} {x y : ℤ} {e : JavaException}
    (h : Interp.arithInt op x y = .error e) : op = .Divide ∧ y = 0 ∧ e = .arithmetic := by
  cases op <;> try cases h
  rw [Interp.arithInt] at h
  split at h
  next hy => cases h; exact ⟨rfl, hy, rfl⟩
  next => cases h

theorem arith_error {op : ArithmeticOp} {a b : Value F} {e : JavaException}
    (hab : a.type = b.type) (hnum : a.type.Numeric) (h : Interp.arith op a b = .error e) :
    e = .arithmetic ∧ op = .Divide ∧
      ((∃ n, a = .int32 n ∧ b = .int32 0) ∨ (∃ n, a = .int64 n ∧ b = .int64 0)) := by
  cases a with
  | int32 x =>
    cases b <;> cases hab
    rcases bind_eq_error h with h | ⟨z, -, h⟩
    · obtain ⟨rfl, hy, rfl⟩ := arithInt_error h
      exact ⟨rfl, rfl, Or.inl ⟨x, rfl, by rw [(int32_toInt_eq_zero _).mp hy]⟩⟩
    · cases h
  | int64 x =>
    cases b <;> cases hab
    rcases bind_eq_error h with h | ⟨z, -, h⟩
    · obtain ⟨rfl, hy, rfl⟩ := arithInt_error h
      exact ⟨rfl, rfl, Or.inr ⟨x, rfl, by rw [(int64_toInt_eq_zero _).mp hy]⟩⟩
    · cases h
  | float64 x => cases b <;> cases hab; cases op <;> cases h
  | bool x => rcases hnum with h | h | h <;> cases h
  | utf8 x => rcases hnum with h | h | h <;> cases h

theorem compare_error {op : ComparisonOp} {a b : Value F} {e : JavaException}
    (hab : a.type = b.type) (ha : a ≠ .utf8 none) (hb : b ≠ .utf8 none)
    (h : Interp.compare op a b = .error e) :
    e = op.booleansNotSupported ∧ op ≠ .EqEq ∧ op ≠ .NEq ∧
      ∃ x y, a = .bool x ∧ b = .bool y := by
  cases a with
  | int32 x => cases b <;> cases hab; cases h
  | int64 x => cases b <;> cases hab; cases h
  | float64 x => cases b <;> cases hab; cases op <;> cases h
  | bool x =>
    cases b <;> cases hab
    rcases bind_eq_error h with h | ⟨z, -, h⟩
    · cases op <;> cases h <;> exact ⟨rfl, by simp, by simp, _, _, rfl, rfl⟩
    · cases h
  | utf8 x =>
    cases b with
    | utf8 y =>
      cases x with
      | none => exact absurd rfl ha
      | some x =>
        cases y with
        | none => exact absurd rfl hb
        | some y => cases op <;> cases h
    | _ => cases hab

end Values

theorem truth_ok {c : Cell F} (h : Cell.Fits .BOOLEAN c) :
    ∃ s, Interp.truth c = .ok s ∧ c = s.map .bool := by
  cases c with
  | none => exact ⟨none, rfl, rfl⟩
  | some x =>
    have hx := (h x rfl).1
    cases x <;> cases hx
    exact ⟨some _, rfl, rfl⟩

theorem fits_bool (s : Option Bool) : Cell.Fits .BOOLEAN (s.map (@Value.bool F)) := by
  intro x hx
  obtain ⟨y, -, rfl⟩ := Option.map_eq_some_iff.mp hx
  exact ⟨rfl, by simp⟩

theorem unary_ok (op : UnaryOp) {c : Cell F} (h : Cell.Fits .BOOLEAN c) :
    ∃ d, Interp.unary op c = .ok d ∧ Cell.Fits .BOOLEAN d ∧ (c.isSome → d.isSome) := by
  obtain ⟨s, hs, rfl⟩ := truth_ok h
  cases op
  refine ⟨_, by rw [Interp.unary, hs]; rfl, fits_bool _, ?_⟩
  cases s <;> simp [Kleene.not]

theorem logical_ok (op : LogicalOp) {c d : Cell F} (hc : Cell.Fits .BOOLEAN c)
    (hd : Cell.Fits .BOOLEAN d) :
    ∃ r, Interp.logical op c d = .ok r ∧ Cell.Fits .BOOLEAN r ∧
      (c.isSome → d.isSome → r.isSome) := by
  obtain ⟨s, hs, rfl⟩ := truth_ok hc
  obtain ⟨t, ht, rfl⟩ := truth_ok hd
  refine ⟨_, by rw [Interp.logical, hs, ok_bind, ht]; rfl, fits_bool _, fun h h' => ?_⟩
  rw [Option.isSome_map] at h h' ⊢
  cases op with
  | AND => exact Kleene.and_isSome h h'
  | OR => exact Kleene.or_isSome h h'

/-! ## The interpreter on well-typed expressions -/

theorem lift_ok {f : Value F → Value F → Java (Value F)} {a b c : Cell F}
    (h : Interp.lift f a b = .ok c) :
    (c = none ∧ (a = none ∨ b = none)) ∨
      ∃ x y z, a = some x ∧ b = some y ∧ c = some z ∧ f x y = .ok z := by
  cases a with
  | none => cases h; exact Or.inl ⟨rfl, Or.inl rfl⟩
  | some x =>
    cases b with
    | none => cases h; exact Or.inl ⟨rfl, Or.inr rfl⟩
    | some y =>
      obtain ⟨z, hz, hc⟩ := bind_eq_ok h
      cases hc
      exact Or.inr ⟨x, y, z, rfl, rfl, rfl, hz⟩

theorem lift_error {f : Value F → Value F → Java (Value F)} {a b : Cell F} {e : JavaException}
    (h : Interp.lift f a b = .error e) :
    ∃ x y, a = some x ∧ b = some y ∧ f x y = .error e := by
  cases a with
  | none => cases h
  | some x =>
    cases b with
    | none => cases h
    | some y =>
      rcases bind_eq_error h with h | ⟨z, -, h⟩
      · exact ⟨x, y, rfl, rfl, h⟩
      · cases h

section Interpreter
variable [JavaDouble F]

/-- **Type preservation**: an answer of the interpreter has the static type. -/
theorem interp_fits {s : Schema} {row : Row F} (hrow : row.Fits s) {e : Expr F} {t : ExprType}
    (ht : e.outputType s = .ok t) {c : Cell F} (h : interp row e = .ok c) :
    Cell.Fits t.type c := by
  induction e generalizing t c with
  | columnRef name =>
    obtain ⟨f, hf, rfl⟩ := Expr.outputType_columnRef_ok ht
    cases h
    obtain ⟨hmem, rfl⟩ := (s.field_ok_iff name f).mp hf
    exact hrow f hmem
  | literal l =>
    cases ht
    cases h
    intro x hx
    cases hx
    cases l <;> exact ⟨rfl, by simp [Literal.value]⟩
  | binary left op right ihl ihr =>
    obtain ⟨u, w, hu, hw, huw, -, hop⟩ := Expr.outputType_binary_ok ht
    obtain ⟨a, ha, h⟩ := bind_eq_ok h
    obtain ⟨b, hb, h⟩ := bind_eq_ok h
    have hfa := ihl hu ha
    have hfb := ihr hw hb
    rcases lift_ok h with ⟨rfl, -⟩ | ⟨x, y, z, rfl, rfl, rfl, hz⟩
    · intro x hx
      cases hx
    · have hxy : x.type = y.type := by rw [(hfa x rfl).1, (hfb y rfl).1, huw]
      intro z' hz'
      cases hz'
      cases op with
      | arithmetic op =>
        obtain ⟨hzt, hz0⟩ := arith_ok hxy hz
        exact ⟨by rw [hzt, (hfa x rfl).1, hop.2], hz0⟩
      | comparison op =>
        obtain ⟨hzt, hz0⟩ := compare_ok hz
        exact ⟨hzt.trans hop.symm, hz0⟩
  | unary op e ih =>
    obtain ⟨hu, hb⟩ := Expr.outputType_unary_ok ht
    obtain ⟨a, ha, h⟩ := bind_eq_ok h
    have hfa := ih hu ha
    rw [hb] at hfa ⊢
    obtain ⟨d, hd, hfit, -⟩ := unary_ok op hfa
    rw [hd] at h
    cases h
    exact hfit
  | logical left op right ihl ihr =>
    obtain ⟨u, w, hu, hw, hub, hwb, rfl⟩ := Expr.outputType_logical_ok ht
    obtain ⟨a, ha, h⟩ := bind_eq_ok h
    obtain ⟨b, hb, h⟩ := bind_eq_ok h
    have hfa := ihl hu ha
    have hfb := ihr hw hb
    rw [hub] at hfa
    rw [hwb] at hfb
    obtain ⟨r, hr, hfit, -⟩ := logical_ok op hfa hfb
    rw [hr] at h
    cases h
    exact hfit

/-- **Nullability soundness**: an expression that is declared non-nullable is never null. -/
theorem interp_required {s : Schema} {row : Row F} (hrow : row.Fits s) (hreq : row.Required s)
    {e : Expr F} {t : ExprType} (ht : e.outputType s = .ok t) (hn : t.nullable = false)
    {c : Cell F} (h : interp row e = .ok c) : c.isSome := by
  induction e generalizing t c with
  | columnRef name =>
    obtain ⟨f, hf, rfl⟩ := Expr.outputType_columnRef_ok ht
    cases h
    obtain ⟨hmem, rfl⟩ := (s.field_ok_iff name f).mp hf
    exact hreq f hmem hn
  | literal l =>
    cases h
    rfl
  | binary left op right ihl ihr =>
    obtain ⟨u, w, hu, hw, -, hnull, -⟩ := Expr.outputType_binary_ok ht
    rw [hnull, Bool.or_eq_false_iff] at hn
    obtain ⟨a, ha, h⟩ := bind_eq_ok h
    obtain ⟨b, hb, h⟩ := bind_eq_ok h
    have hsa := ihl hu hn.1 ha
    have hsb := ihr hw hn.2 hb
    rcases lift_ok h with ⟨rfl, rfl | rfl⟩ | ⟨x, y, z, -, -, rfl, -⟩
    · cases hsa
    · cases hsb
    · rfl
  | unary op e ih =>
    obtain ⟨hu, hb⟩ := Expr.outputType_unary_ok ht
    obtain ⟨a, ha, h⟩ := bind_eq_ok h
    have hfa := interp_fits hrow hu ha
    rw [hb] at hfa
    obtain ⟨d, hd, -, hsome⟩ := unary_ok op hfa
    rw [hd] at h
    cases h
    exact hsome (ih hu hn ha)
  | logical left op right ihl ihr =>
    obtain ⟨u, w, hu, hw, hub, hwb, rfl⟩ := Expr.outputType_logical_ok ht
    rw [Bool.or_eq_false_iff] at hn
    obtain ⟨a, ha, h⟩ := bind_eq_ok h
    obtain ⟨b, hb, h⟩ := bind_eq_ok h
    have hfa := interp_fits hrow hu ha
    have hfb := interp_fits hrow hw hb
    rw [hub] at hfa
    rw [hwb] at hfb
    obtain ⟨r, hr, -, hsome⟩ := logical_ok op hfa hfb
    rw [hr] at h
    cases h
    exact hsome (ihl hu hn.1 ha) (ihr hw hn.2 hb)

end Interpreter

end QueryEngine
