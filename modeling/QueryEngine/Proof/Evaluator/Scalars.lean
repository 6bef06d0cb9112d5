import QueryEngine.Proof.Evaluator.Kernels

/-! # The operator overloads against the row interpreter

Each `apply` and `compare` overload, on values of its type, is the interpreter's operation: machine
arithmetic is integer arithmetic wrapped, and `compareTo` has the sign of the order on code units.
-/
namespace QueryEngine
open Library
set_option autoImplicit false
set_option maxHeartbeats 250000

variable {α β γ F : Type}

section Overloads
variable [JavaDouble F]

/-! ## Arithmetic -/

theorem int32_ofInt_tdiv (a b : Int32) : Int32.ofInt (a.toInt.tdiv b.toInt) = a / b := by
  rw [← Int32.toInt_inj, Int32.toInt_ofInt, Int32.toInt_div]

theorem int64_ofInt_tdiv (a b : Int64) : Int64.ofInt (a.toInt.tdiv b.toInt) = a / b := by
  rw [← Int64.toInt_inj, Int64.toInt_ofInt, Int64.toInt_div]

theorem int32_toInt_eq_zero (b : Int32) : b.toInt = 0 ↔ b = 0 := by
  rw [← Int32.toInt_inj, Int32.toInt_zero]

theorem int64_toInt_eq_zero (b : Int64) : b.toInt = 0 ↔ b = 0 := by
  rw [← Int64.toInt_inj, Int64.toInt_zero]

theorem applyInt_interp (op : ArithmeticOp) (a b : Int32) :
    (Value.int32 <$> op.applyInt a b : Java (Value F)) = Interp.arith op (.int32 a) (.int32 b) := by
  cases op with
  | Subtract => simp [ArithmeticOp.applyInt, Interp.arith, Interp.arithInt]
  | Add => simp [ArithmeticOp.applyInt, Interp.arith, Interp.arithInt]
  | Multiply => simp [ArithmeticOp.applyInt, Interp.arith, Interp.arithInt]
  | Divide =>
    by_cases hb : b = 0
    · simp [ArithmeticOp.applyInt, Interp.arith, Interp.arithInt, hb]
    · have hb' : ¬ b.toInt = 0 := fun h => hb ((int32_toInt_eq_zero b).mp h)
      simp [ArithmeticOp.applyInt, Interp.arith, Interp.arithInt, hb, hb', int32_ofInt_tdiv]

theorem applyLong_interp (op : ArithmeticOp) (a b : Int64) :
    (Value.int64 <$> op.applyLong a b : Java (Value F)) =
      Interp.arith op (.int64 a) (.int64 b) := by
  cases op with
  | Subtract => simp [ArithmeticOp.applyLong, Interp.arith, Interp.arithInt]
  | Add => simp [ArithmeticOp.applyLong, Interp.arith, Interp.arithInt]
  | Multiply => simp [ArithmeticOp.applyLong, Interp.arith, Interp.arithInt]
  | Divide =>
    by_cases hb : b = 0
    · simp [ArithmeticOp.applyLong, Interp.arith, Interp.arithInt, hb]
    · have hb' : ¬ b.toInt = 0 := fun h => hb ((int64_toInt_eq_zero b).mp h)
      simp [ArithmeticOp.applyLong, Interp.arith, Interp.arithInt, hb, hb', int64_ofInt_tdiv]

theorem applyDouble_interp (op : ArithmeticOp) (a b : F) :
    Value.float64 <$> op.applyDouble a b = Interp.arith op (.float64 a) (.float64 b) := by
  cases op <;> rfl

/-! ## Comparison -/

theorem compareInt_interp (op : ComparisonOp) (a b : Int32) :
    (Value.bool <$> op.compareInt a b : Java (Value F)) =
      Interp.compare op (.int32 a) (.int32 b) := by
  cases op <;>
    simp [ComparisonOp.compareInt, Interp.compare, Interp.order, Int32.toInt_inj,
      Int32.lt_iff_toInt_lt, Int32.le_iff_toInt_le]

theorem compareLong_interp (op : ComparisonOp) (a b : Int64) :
    (Value.bool <$> op.compareLong a b : Java (Value F)) =
      Interp.compare op (.int64 a) (.int64 b) := by
  cases op <;>
    simp [ComparisonOp.compareLong, Interp.compare, Interp.order, Int64.toInt_inj,
      Int64.lt_iff_toInt_lt, Int64.le_iff_toInt_le]

theorem compareDouble_interp (op : ComparisonOp) (a b : F) :
    Value.bool <$> op.compareDouble a b = Interp.compare op (.float64 a) (.float64 b) := by
  cases op <;> rfl

theorem compareBool_interp (op : ComparisonOp) (a b : Bool) :
    (Value.bool <$> op.compareBool a b : Java (Value F)) =
      Interp.compare op (.bool a) (.bool b) := by
  cases op <;> rfl

theorem compareTo_swap : ∀ a b : JString, compareTo b a = -compareTo a b
  | [], [] => rfl
  | [], b :: bs => by simp [compareTo]
  | a :: as, [] => by simp [compareTo]
  | a :: as, b :: bs => by
      rw [compareTo, compareTo]
      by_cases h : a = b
      · rw [if_pos h, if_pos h.symm]
        exact compareTo_swap as bs
      · rw [if_neg h, if_neg (Ne.symm h)]
        omega

theorem compareTo_neg_iff : ∀ a b : JString, compareTo a b < 0 ↔ a < b
  | [], [] => by simp [compareTo]
  | [], b :: bs => by
      simp only [compareTo, List.length_nil, List.length_cons, List.nil_lt_cons, iff_true]
      omega
  | a :: as, [] => by
      simp only [compareTo, List.length_nil, List.length_cons, List.not_lt_nil, iff_false]
      omega
  | a :: as, b :: bs => by
      rw [compareTo, List.cons_lt_cons_iff]
      by_cases h : a = b
      · subst h
        rw [if_pos rfl, compareTo_neg_iff as bs]
        simp
      · rw [if_neg h]
        have hlt : a < b ↔ a.toNat < b.toNat := UInt16.lt_iff_toNat_lt
        simp only [h, false_and, or_false, hlt]
        omega

theorem compareTo_pos_iff (a b : JString) : compareTo a b > 0 ↔ b < a := by
  rw [← compareTo_neg_iff b a, compareTo_swap a b]
  omega

theorem compareString_interp (op : ComparisonOp) (a b : Option JString) :
    (Value.bool <$> op.compareString a b : Java (Value F)) =
      Interp.compare op (.utf8 a) (.utf8 b) := by
  rcases a with _ | a
  · rcases b with _ | b <;> cases op <;> rfl
  · rcases b with _ | b
    · cases op <;> rfl
    · have hle : compareTo a b ≤ 0 ↔ ¬ b < a := by rw [← compareTo_pos_iff]; omega
      have hge : compareTo a b ≥ 0 ↔ ¬ a < b := by rw [← compareTo_neg_iff]; omega
      cases op with
      | EqEq => rfl
      | NEq => rfl
      | LT => simp [ComparisonOp.compareString, ComparisonOp.compareToRef, Interp.compare,
          Interp.orderString, Interp.order, compareTo_neg_iff]
      | LTEq => simp [ComparisonOp.compareString, ComparisonOp.compareToRef, Interp.compare,
          Interp.orderString, Interp.order, hle]
      | GT => simp [ComparisonOp.compareString, ComparisonOp.compareToRef, Interp.compare,
          Interp.orderString, Interp.order, compareTo_pos_iff]
      | GTEq => simp [ComparisonOp.compareString, ComparisonOp.compareToRef, Interp.compare,
          Interp.orderString, Interp.order, hge]

end Overloads

/-! ## From scalars to slots -/

theorem zipSlot_lift {f : α → β → Java γ} {op : Value F → Value F → Java (Value F)}
    {fa : α → Value F} {fb : β → Value F} {fc : γ → Value F}
    (h : ∀ x y, fc <$> f x y = op (fa x) (fb y)) (a : Option α) (b : Option β) :
    Option.map fc <$> ExprEvaluator.zipSlot f a b = Interp.lift op (a.map fa) (b.map fb) := by
  cases a with
  | none => rfl
  | some x =>
    cases b with
    | none => rfl
    | some y =>
      have hxy := h x y
      simp only [ExprEvaluator.zipSlot, Option.map_some, Interp.lift, ← hxy]
      cases f x y <;> rfl

end QueryEngine
