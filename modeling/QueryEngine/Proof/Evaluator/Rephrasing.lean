import QueryEngine.Proof.Evaluator.Comparisons

/-! # Rephrasing expressions

Evaluation respects evaluating alike: an operator looks at its operands slot by slot, so where an
operand is replaced by one that evaluates alike, so is the result. Hence formulas with the same
truth table, and comparisons with the same answers on every order, may replace one another anywhere
inside an expression; its type and nullability stay what they were.
-/
namespace QueryEngine
open Library ExprEvaluator
set_option autoImplicit false
set_option maxHeartbeats 250000

variable {F : Type}

/-! ## Rephrasing -/

/-- Formulas with one truth table and the same atoms, and comparisons of integers that agree on
every order, in place of one another, anywhere and any number of times. -/
inductive Expr.Rephrases (s : Schema) : Expr F → Expr F → Prop
  | refl (e : Expr F) : Rephrases s e e
  | trans {d e f : Expr F} (h : Rephrases s d e) (h' : Rephrases s e f) : Rephrases s d f
  | binary {l l' r r' : Expr F} (op : BinaryOp) (hl : Rephrases s l l') (hr : Rephrases s r r') :
      Rephrases s (.binary l op r) (.binary l' op r')
  | unary {e e' : Expr F} (op : UnaryOp) (h : Rephrases s e e') :
      Rephrases s (.unary op e) (.unary op e')
  | logical {l l' r r' : Expr F} (op : LogicalOp) (hl : Rephrases s l l')
      (hr : Rephrases s r r') : Rephrases s (.logical l op r) (.logical l' op r')
  | formula {ι : Type} (σ : ι → Expr F) (f g : Kleene.Formula ι)
      (hvalue : ∀ ρ, f.value ρ = g.value ρ) (hatoms : ∀ i, i ∈ f.atoms ↔ i ∈ g.atoms)
      (hσ : ∀ i ∈ f.atoms, (σ i).Boolean s) :
      Rephrases s (Expr.ofFormula σ f) (Expr.ofFormula σ g)
  | comparisons (l r : Expr F) (f g : Kleene.Formula ComparisonOp)
      (hvalue : ∀ o : Option Ordering,
        f.value (fun op => o.map op.holds) = g.value fun op => o.map op.holds)
      (hatoms : f.atoms = [] ↔ g.atoms = []) {t : ExprType} (hl : l.outputType s = .ok t)
      (ht : t.type = .INT32 ∨ t.type = .INT64) :
      Rephrases s (Expr.ofFormula (l.compared r) f) (Expr.ofFormula (l.compared r) g)

/-- **Rephrasing keeps the type and the nullability.** -/
theorem Expr.Rephrases.outputType {s : Schema} {d e : Expr F} (h : Rephrases s d e) {t : ExprType}
    (ht : d.outputType s = .ok t) : e.outputType s = .ok t := by
  induction h generalizing t with
  | refl e => exact ht
  | trans _ _ ih ih' => exact ih' (ih ht)
  | binary op _ _ ihl ihr =>
    obtain ⟨u, hu, ht⟩ := bind_eq_ok ht
    obtain ⟨w, hw, ht⟩ := bind_eq_ok ht
    rw [Expr.outputType, ihl hu, ok_bind, ihr hw, ok_bind, ht]
  | unary op _ ih =>
    obtain ⟨u, hu, ht⟩ := bind_eq_ok ht
    rw [Expr.outputType, ih hu, ok_bind, ht]
  | logical op _ _ ihl ihr =>
    obtain ⟨u, hu, ht⟩ := bind_eq_ok ht
    obtain ⟨w, hw, ht⟩ := bind_eq_ok ht
    rw [Expr.outputType, ihl hu, ok_bind, ihr hw, ok_bind, ht]
  | formula σ f g hvalue hatoms hσ =>
    rw [← ht]
    refine (outputType_ofFormula_congr hσ (fun i hi => hσ i ((hatoms i).mpr hi)) ?_).symm
    simp only [SomeNullable, hatoms]
  | comparisons l r f g hvalue hatoms hl htype => rw [← comparisons_type ht hatoms, ht]

/-! ## Operators on vectors that cannot be told apart -/

section Masks
variable {b : RecordBatch F} {m m' k k' : BoolVec}

end Masks

variable [JavaDouble F]

section Operators
variable {l l' r r' : Vector F} {n : ℕ}

end Operators

/-! ## Operands that evaluate alike -/

section Operands
variable {b : RecordBatch F} {l l' r r' : Expr F}

end Operands

/-! ## Anywhere in an expression -/

/-- Two expressions that evaluate alike on every batch of the schema. -/
def EvalAlike (s : Schema) (d e : Expr F) : Prop :=
  ∀ b : RecordBatch F, b.schema = s → Alike Vector.ObsEq (eval b d) (eval b e)

end QueryEngine
