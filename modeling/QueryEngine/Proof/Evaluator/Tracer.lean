import QueryEngine.Abstract.Occurrences
import QueryEngine.Proof.Evaluator.Guarantees

/-! # The tracer agrees with the evaluator

`traceRecursive` appends one step for every node of its expression, in post-order. The invariant
says where they land: after `offset` earlier steps, the step of the node at a path has the number
`offset` plus the number of that path. So the size of the list after a child is traced is the number
of the child's own step, whatever the shape of the tree and however often a subtree is repeated.
-/
namespace QueryEngine
open Library ExprEvaluator ExprPrinter ExprTracer
set_option autoImplicit false
set_option maxHeartbeats 250000

variable {F : Type} [JavaDouble F] [DoubleText F]

/-! ## The step of a node -/

/-- The step of the node at `path`, after `offset` earlier steps. -/
structure StepOf (b : RecordBatch F) (e : Expr F) (offset : ℕ) (path : List ℕ)
    (s : TraceStep F) : Prop where
  node : e.nodeAt path = some s.expr
  result : eval b s.expr = .ok s.resultVector
  description : s.description = formatStepDescription s.expr
  number : s.stepNumber = offset + e.number path
  inputs : s.inputStepNumbers =
    (List.range (getChildren s.expr).length).map fun i => offset + e.number (path ++ [i])
  earlier : ∀ n ∈ s.inputStepNumbers, n < s.stepNumber

/-- The steps of a whole expression: one for each node, in post-order. -/
def Traced (b : RecordBatch F) (e : Expr F) (offset : ℕ) (steps : List (TraceStep F)) : Prop :=
  List.Forall₂ (StepOf b e offset) e.postOrder steps

/-- A step of a child is a step of the parent. -/
theorem StepOf.lift {b : RecordBatch F} {e c : Expr F} {i offset offset' : ℕ} {path : List ℕ}
    {s : TraceStep F} (hc : (getChildren e)[i]? = some c)
    (hnumber : ∀ p, (c.nodeAt p).isSome → offset + e.number (i :: p) = offset' + c.number p)
    (h : StepOf b c offset' path s) : StepOf b e offset (i :: path) s where
  node := by rw [Expr.nodeAt_cons hc, h.node]
  result := h.result
  description := h.description
  number := by rw [h.number, hnumber path (by rw [h.node]; rfl)]
  inputs := by
    rw [h.inputs]
    refine List.map_congr_left fun j hj => ?_
    have hlt := List.mem_range.mp hj
    rw [List.cons_append, hnumber]
    rw [Expr.nodeAt_append h.node, List.getElem?_eq_getElem hlt]
    rfl
  earlier := h.earlier

theorem Traced.lift {b : RecordBatch F} {e c : Expr F} {i offset offset' : ℕ}
    {steps : List (TraceStep F)} (hc : (getChildren e)[i]? = some c)
    (hnumber : ∀ p, (c.nodeAt p).isSome → offset + e.number (i :: p) = offset' + c.number p)
    (h : Traced b c offset' steps) :
    List.Forall₂ (StepOf b e offset) (c.postOrder.map (List.cons i)) steps :=
  List.forall₂_map_left_iff.mpr (h.imp fun _ _ => StepOf.lift hc hnumber)

theorem Traced.length {b : RecordBatch F} {e : Expr F} {offset : ℕ} {steps : List (TraceStep F)}
    (h : Traced b e offset steps) : e.postOrder.length = steps.length := h.length_eq

/-! ## What a call appends -/

/-- A call raises what `eval` raises, or returns what it returns and appends the steps. -/
def Appends (b : RecordBatch F) (e : Expr F) (steps : List (TraceStep F))
    (r : Java (Vector F × List (TraceStep F))) : Prop :=
  (∃ x, eval b e = .error x ∧ r = .error x) ∨
    ∃ v new, eval b e = .ok v ∧ r = .ok (v, steps ++ new) ∧ Traced b e steps.length new

/-- The end of a call: the steps below the node are there, and its own step comes last. -/
theorem addStep_appends {b : RecordBatch F} {e : Expr F} {steps new : List (TraceStep F)}
    {paths : List (List ℕ)} {inputs : List ℕ} (hp : e.postOrder = paths ++ [[]])
    (hnew : List.Forall₂ (StepOf b e steps.length) paths new)
    (hinputs : inputs =
      (List.range (getChildren e).length).map fun i => steps.length + e.number [i])
    (hearlier : ∀ n ∈ inputs, n ≤ steps.length + new.length) :
    Appends b e steps (addStep b e inputs (steps ++ new)) := by
  rw [addStep]
  cases hv : eval b e with
  | error x => exact Or.inl ⟨x, hv, rfl⟩
  | ok v =>
    have hnumber : (steps ++ new).length + 1 = steps.length + e.number [] := by
      rw [e.number_nil, hp, List.length_append, List.length_append, hnew.length_eq, Nat.add_assoc]
      rfl
    refine Or.inr ⟨v, new ++ [_], hv, by rw [← List.append_assoc]; rfl, ?_⟩
    rw [Traced, hp]
    refine List.rel_append hnew (List.Forall₂.cons ?_ List.Forall₂.nil)
    refine ⟨rfl, hv, rfl, hnumber, hinputs, fun n hn => ?_⟩
    show n < (steps ++ new).length + 1
    rw [List.length_append]
    exact Nat.lt_succ_of_le (hearlier n hn)

theorem Appends.leaf {b : RecordBatch F} {e : Expr F} (hc : getChildren e = [])
    (hp : e.postOrder = [[]]) (steps : List (TraceStep F)) :
    Appends b e steps (addStep b e [] steps) := by
  have h : Appends b e steps (addStep b e [] (steps ++ [])) :=
    addStep_appends hp List.Forall₂.nil (by rw [hc]; rfl) (by simp)
  rwa [List.append_nil] at h

theorem Appends.one {b : RecordBatch F} {e c : Expr F} {k : Vector F → Java (Vector F)}
    (hc : getChildren e = [c]) (hp : e.postOrder = c.postOrder.map (List.cons 0) ++ [[]])
    (heval : eval b e = (eval b c >>= k)) {steps : List (TraceStep F)}
    (h : Appends b c steps (traceRecursive b c steps)) :
    Appends b e steps (do
      let traced ← traceRecursive b c steps
      addStep b e [traced.2.length] traced.2) := by
  obtain ⟨x, hx, ht⟩ | ⟨u, new, -, ht, hnew⟩ := h
  · exact Or.inl ⟨x, by rw [heval, hx, error_bind], by rw [ht, error_bind]⟩
  · have hfirst : ∀ p, (c.nodeAt p).isSome →
        steps.length + e.number (0 :: p) = steps.length + c.number p :=
      fun p hnode => by rw [Expr.number_first hp hnode]
    have hroot := hfirst [] rfl
    rw [c.number_nil, hnew.length] at hroot
    rw [ht, ok_bind]
    refine addStep_appends hp (hnew.lift (by rw [hc]; rfl) hfirst) ?_ ?_
    · rw [hc, List.length_append, ← hroot]
      rfl
    · simp

theorem Appends.two {b : RecordBatch F} {e left right : Expr F}
    {k : Vector F → Vector F → Java (Vector F)} (hc : getChildren e = [left, right])
    (hp : e.postOrder = left.postOrder.map (List.cons 0) ++
      (right.postOrder.map (List.cons 1) ++ [[]]))
    (heval : eval b e = do let u ← eval b left; let w ← eval b right; k u w)
    {steps : List (TraceStep F)} (hl : Appends b left steps (traceRecursive b left steps))
    (hr : ∀ steps, Appends b right steps (traceRecursive b right steps)) :
    Appends b e steps (do
      let first ← traceRecursive b left steps
      let second ← traceRecursive b right first.2
      addStep b e [first.2.length, second.2.length] second.2) := by
  obtain ⟨x, hx, ht⟩ | ⟨u, new, hu, ht, hnew⟩ := hl
  · exact Or.inl ⟨x, by rw [heval, hx, error_bind], by rw [ht, error_bind]⟩
  · rw [ht, ok_bind]
    obtain ⟨x, hx, ht'⟩ | ⟨w, new', -, ht', hnew'⟩ := hr (steps ++ new)
    · exact Or.inl ⟨x, by rw [heval, hu, ok_bind, hx, error_bind], by rw [ht', error_bind]⟩
    · have hfirst : ∀ p, (left.nodeAt p).isSome →
          steps.length + e.number (0 :: p) = steps.length + left.number p :=
        fun p hnode => by rw [Expr.number_first hp hnode]
      have hsecond : ∀ p, (right.nodeAt p).isSome →
          steps.length + e.number (1 :: p) = (steps ++ new).length + right.number p :=
        fun p hnode => by
          rw [Expr.number_second hp hnode, hnew.length, List.length_append, Nat.add_assoc]
      have hleft := hfirst [] rfl
      have hright := hsecond [] rfl
      rw [left.number_nil, hnew.length, ← List.length_append] at hleft
      rw [right.number_nil, hnew'.length, ← List.length_append] at hright
      rw [ht', ok_bind, List.append_assoc]
      rw [← List.append_assoc] at hp
      refine addStep_appends hp (List.rel_append (hnew.lift (by rw [hc]; rfl) hfirst)
        (hnew'.lift (by rw [hc]; rfl) hsecond)) ?_ ?_
      · rw [hc, ← hleft, ← List.append_assoc, ← hright]
        rfl
      · simp

/-- **A call of the tracer against the evaluator.** -/
theorem traceRecursive_appends (b : RecordBatch F) (e : Expr F) (steps : List (TraceStep F)) :
    Appends b e steps (traceRecursive b e steps) := by
  induction e generalizing steps with
  | columnRef name => exact Appends.leaf rfl rfl steps
  | literal l => exact Appends.leaf rfl rfl steps
  | binary left op right ihl ihr => exact Appends.two rfl rfl rfl (ihl steps) ihr
  | unary op e ih => exact Appends.one rfl rfl rfl (ih steps)
  | logical left op right ihl ihr => exact Appends.two rfl rfl rfl (ihl steps) ihr

/-! ## The report -/

/-- **The tracer agrees with the evaluator**: the same exceptions, the same result, and one step for
each node, in post-order, wired to the steps of the node's children. -/
theorem trace_agrees (e : Expr F) (b : RecordBatch F) :
    (∀ x, trace e b = .error x ↔ eval b e = .error x) ∧
    (∀ path, path ∈ e.postOrder ↔ (e.nodeAt path).isSome) ∧ e.postOrder.Nodup ∧
    ∀ report, trace e b = .ok report →
      eval b e = .ok report.finalResult ∧ report.steps.length = e.postOrder.length ∧
      ∀ k path, e.postOrder[k]? = some path → ∃ s, report.steps[k]? = some s ∧
        e.nodeAt path = some s.expr ∧ eval b s.expr = .ok s.resultVector ∧
        s.stepNumber = k + 1 ∧ s.stepNumber = e.number path ∧
        s.inputStepNumbers =
          (List.range (getChildren s.expr).length).map (fun i => e.number (path ++ [i])) ∧
        ∀ n ∈ s.inputStepNumbers, n < s.stepNumber := by
  refine ⟨fun x => ?_, e.mem_postOrder_iff, e.postOrder_nodup, fun report hreport => ?_⟩
  · obtain ⟨y, hy, ht⟩ | ⟨v, new, hv, ht, -⟩ := traceRecursive_appends b e []
    · rw [trace, ht, hy, error_bind, Except.error.injEq, Except.error.injEq]
    · rw [trace, ht, hv, ok_bind]
      exact iff_of_false (by simp) (by simp)
  · obtain ⟨y, -, ht⟩ | ⟨v, new, hv, ht, htraced⟩ := traceRecursive_appends b e []
    · rw [trace, ht] at hreport
      cases hreport
    · rw [trace, ht] at hreport
      cases hreport
      refine ⟨hv, htraced.length.symm, fun k path hk => ?_⟩
      obtain ⟨hlt, hpath⟩ := List.getElem?_eq_some_iff.mp hk
      have hlt' : k < new.length := htraced.length ▸ hlt
      have hstep : StepOf b e 0 e.postOrder[k] new[k] :=
        (List.forall₂_iff_get.mp htraced).2 k hlt hlt'
      have hnumber : e.number e.postOrder[k] = k + 1 := by
        rw [Expr.number, e.postOrder_nodup.idxOf_getElem k hlt]
      have hinputs := hstep.inputs
      rw [hpath] at hstep hnumber hinputs
      simp only [Nat.zero_add] at hinputs
      have hown : new[k].stepNumber = e.number path := by rw [hstep.number, Nat.zero_add]
      exact ⟨new[k], List.getElem?_eq_getElem hlt', hstep.node, hstep.result,
        hown.trans hnumber, hown, hinputs, hstep.earlier⟩

instance unitText : DoubleText Unit where
  valueOf _ := []

/-- `1 / d + 1 / d`: the repeated subtree is traced twice, and the sum reads both results. -/
example :
    (fun report => report.steps.map TraceStep.inputStepNumbers) <$>
      trace (.binary Sample.inverse (.arithmetic .Add) Sample.inverse) Sample.batch =
    .ok [[], [], [1, 2], [], [], [4, 5], [3, 6]] := rfl

end QueryEngine
