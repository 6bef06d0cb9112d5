import QueryEngine.Library.Traversal
import QueryEngine.Proof.Evaluator.FaultOrder

/-! # What the evaluator guarantees

The three contracts between `outputType`, `eval` and the row interpreter: slot-by-slot agreement,
agreement of static and dynamic types, and the exact condition under which a type-checked
expression is never rejected at run time. The sample batch is the one on which each contract is
seen at work.
-/
namespace QueryEngine
open Library ExprEvaluator
set_option autoImplicit false
set_option maxHeartbeats 250000

/-! ## A sample batch -/

/-- A degenerate interpretation of `double`, for samples that hold none. -/
instance unitDouble : JavaDouble Unit where
  zero := ()
  sub _ _ := ()
  add _ _ := ()
  div _ _ := ()
  mul _ _ := ()
  eq _ _ := true
  ne _ _ := false
  lt _ _ := false
  le _ _ := true
  gt _ _ := false
  ge _ _ := true

namespace Sample

/-- The name `d` of an INT32 column. -/
def d : JString := [100]

/-- The name `f` of a BOOLEAN column. -/
def f : JString := [102]

def schema : Schema := ⟨⟨[(d, ⟨d, .INT32, true⟩), (f, ⟨f, .BOOLEAN, false⟩)], by decide⟩, by decide⟩

theorem two_positive : Vector.positiveLength 2 = .ok () := by decide

/-- The window `[1, 3)` of `{9, 7, 0}`, with a null bit at the 0. -/
def distances : Vector Unit :=
  .int (.array ⟨⟨[9, 7, 0], by decide⟩, 1, 2, ⟨[2]⟩, by decide, by decide⟩)

def flags : Vector Unit := .bool (.constant ⟨true, 2, by decide⟩)

/-- Two rows: `d` is 7 and null (over a junk 0), `f` is true twice. -/
def batch : RecordBatch Unit := ⟨schema, [distances, flags], by decide⟩

theorem stringsPresent : batch.StringsPresent := by
  unfold RecordBatch.StringsPresent
  decide

/-- `1 / d`. -/
def inverse : Expr Unit :=
  .binary (.literal (.int32 1)) (.arithmetic .Divide) (.columnRef d)

/-- `f < f`. -/
def ordered : Expr Unit := .binary (.columnRef f) (.comparison .LT) (.columnRef f)

end Sample

variable {F : Type} [JavaDouble F]

/-! ## Agreement with the row interpreter -/

theorem length_of_eval {b : RecordBatch F} {e : Expr F} {v : Vector F} (h : eval b e = .ok v) :
    v.length = b.rowCount := by
  rw [v.length_eq, b.rowCount_eq, (eval_ok h).1]

/-- **Vectorised evaluation refines the row interpreter.** -/
theorem eval_agrees_with_interp (b : RecordBatch F) (hb : b.StringsPresent) (e : Expr F)
    {t : ExprType} (ht : e.outputType b.schema = .ok t) :
    (∀ v, eval b e = .ok v → v.length = b.rowCount ∧
      ∀ i < b.size, v.observe (Int32.ofNat i) = interp (b.row i) e) ∧
    ((∃ x, eval b e = .error x) ↔ ∃ i < b.size, ∃ x, interp (b.row i) e = .error x) ∧
    (∀ i < b.size, (∃ x, interp (b.row i) e = .error x) ↔
      ∃ n ∈ e.subexprs, DividesByZero (b.row i) n ∨ OrdersBooleans (b.row i) n) := by
  refine ⟨fun v hv => ⟨length_of_eval hv, fun i hi => ?_⟩, eval_error_iff ht, fun i hi => ?_⟩
  · obtain ⟨hsize, hslots⟩ := eval_ok hv
    rw [hslots i hi, v.observe_ofNat (hsize ▸ hi)]
  · exact interp_error_iff (RecordBatch.row_fits hb hi) ht

theorem eval_agrees_with_interp_sample :
    (∀ v, eval Sample.batch Sample.inverse = .ok v → v.length = Sample.batch.rowCount ∧
      ∀ i < Sample.batch.size,
        v.observe (Int32.ofNat i) = interp (Sample.batch.row i) Sample.inverse) ∧
    ((∃ x, eval Sample.batch Sample.inverse = .error x) ↔
      ∃ i < Sample.batch.size, ∃ x, interp (Sample.batch.row i) Sample.inverse = .error x) ∧
    (∀ i < Sample.batch.size, (∃ x, interp (Sample.batch.row i) Sample.inverse = .error x) ↔
      ∃ n ∈ Sample.inverse.subexprs,
        DividesByZero (Sample.batch.row i) n ∨ OrdersBooleans (Sample.batch.row i) n) :=
  eval_agrees_with_interp Sample.batch Sample.stringsPresent Sample.inverse
    (show Sample.inverse.outputType Sample.batch.schema = .ok ⟨.INT32, true⟩ by decide)

/-! ## Agreement of static and dynamic types -/

/-- **What `eval` returns has the type `outputType` announces; what it rejects, `eval` rejects.** -/
theorem eval_typed_iff_accepted (b : RecordBatch F) (e : Expr F) :
    (∀ v, eval b e = .ok v →
      ∃ t, e.outputType b.schema = .ok t ∧ t.type = v.type ∧ v.length = b.rowCount) ∧
    ((∃ x, e.outputType b.schema = .error x) → ∃ x, eval b e = .error x) := by
  constructor
  · intro v hv
    obtain ⟨t, ht, htype⟩ := typed_of_eval hv
    exact ⟨t, ht, htype, length_of_eval hv⟩
  · rintro ⟨x, hx⟩
    cases hv : eval b e with
    | error y => exact ⟨y, rfl⟩
    | ok v =>
      obtain ⟨t, ht, -⟩ := typed_of_eval hv
      simp [hx] at ht

theorem eval_typed_iff_accepted_sample :
    (∀ v, eval Sample.batch Sample.inverse = .ok v →
      ∃ t, Sample.inverse.outputType Sample.batch.schema = .ok t ∧ t.type = v.type ∧
        v.length = Sample.batch.rowCount) ∧
    ((∃ x, Sample.inverse.outputType Sample.batch.schema = .error x) →
      ∃ x, eval Sample.batch Sample.inverse = .error x) :=
  eval_typed_iff_accepted Sample.batch Sample.inverse

/-! ## Progress -/

/-- The evaluation returns, or stops at an integer division by a zero that is present. -/
def Progresses (b : RecordBatch F) (e : Expr F) : Prop :=
  (∃ v, eval b e = .ok v) ∨
    (eval b e = .error .arithmetic ∧ ∃ i < b.size, ∃ n ∈ e.subexprs, DividesByZero (b.row i) n)

/-- No node orders two booleans on a row before another node has divided by zero. -/
def NoBooleanOrderFirst (b : RecordBatch F) (e : Expr F) : Prop :=
  ∀ pre n post, e.subexprs = pre ++ n :: post → (∃ i < b.size, OrdersBooleans (b.row i) n) →
    ∃ d ∈ pre, ∃ i < b.size, DividesByZero (b.row i) d

theorem not_divides_and_orders {row row' : Row F} {n : Expr F} (hd : DividesByZero row n)
    (ho : OrdersBooleans row' n) : False := by
  cases n with
  | binary left op right =>
    cases op with
    | arithmetic op => exact ho
    | comparison op => exact hd
  | _ => exact hd

/-- **A type-checked expression progresses exactly when no ordering of booleans comes first.** -/
theorem progress_iff (b : RecordBatch F) (hb : b.StringsPresent) (e : Expr F) {t : ExprType}
    (ht : e.outputType b.schema = .ok t) : Progresses b e ↔ NoBooleanOrderFirst b e := by
  constructor
  · intro hp pre n post hsub ⟨i, hi, ho⟩
    have hmem : n ∈ e.subexprs := by rw [hsub]; simp
    rcases eval_outcome hb ht with ⟨v, hv, hq⟩ | ⟨x, hx, pre', n', post', hsub', hq, j, hj, hf⟩
    · exact absurd ho (hq n hmem i hi).2
    · rcases hp with ⟨v, hv⟩ | ⟨harith, -⟩
      · simp [hx] at hv
      · rw [hx] at harith
        cases harith
        have hd : DividesByZero (b.row j) n' := by
          obtain ⟨-, hd⟩ | ⟨⟨op, hop⟩, -⟩ := hf
          · exact hd
          · simp [ComparisonOp.booleansNotSupported] at hop
        -- the failing node stands before `n`, at `n`, or after it
        obtain hn' | rfl | hn := append_cons_compare (hsub.symm.trans hsub')
        · exact ⟨n', hn', j, hj, hd⟩
        · exact (not_divides_and_orders hd ho).elim
        · exact absurd ho (hq n hn i hi).2
  · intro hfirst
    rcases eval_outcome hb ht with ⟨v, hv, -⟩ | ⟨x, hx, pre, n, post, hsub, hq, i, hi, hf⟩
    · exact Or.inl ⟨v, hv⟩
    · rcases hf with ⟨rfl, hd⟩ | ⟨-, ho⟩
      · exact Or.inr ⟨hx, i, hi, n, by rw [hsub]; simp, hd⟩
      · obtain ⟨d, hd, j, hj, hdz⟩ := hfirst pre n post hsub ⟨i, hi, ho⟩
        exact absurd hdz (hq d hd j hj).1

theorem progress_iff_sample :
    Progresses Sample.batch Sample.inverse ↔ NoBooleanOrderFirst Sample.batch Sample.inverse :=
  progress_iff Sample.batch Sample.stringsPresent Sample.inverse
    (show Sample.inverse.outputType Sample.batch.schema = .ok ⟨.INT32, true⟩ by decide)

/-- `f < f` over a BOOLEAN column type-checks and is rejected at run time. -/
theorem ordered_booleans_rejected :
    Sample.ordered.outputType Sample.batch.schema = .ok ⟨.BOOLEAN, false⟩ ∧
      Sample.batch.StringsPresent ∧
      eval Sample.batch Sample.ordered = .error ComparisonOp.LT.booleansNotSupported ∧
      ¬ Progresses Sample.batch Sample.ordered := by
  have hrun : eval Sample.batch Sample.ordered = .error ComparisonOp.LT.booleansNotSupported := rfl
  refine ⟨by decide, Sample.stringsPresent, hrun, ?_⟩
  rintro (⟨v, hv⟩ | ⟨harith, -⟩)
  · simp [hrun] at hv
  · simp [hrun, ComparisonOp.booleansNotSupported] at harith

end QueryEngine
