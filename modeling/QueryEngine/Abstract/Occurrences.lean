import QueryEngine.Model.ExprTracer

/-! # The nodes of an expression

Equal subtrees may occur more than once, so a node is named by its path from the root: the list of
child positions to take. `postOrder` lists every node once, children before their parent and the
left subtree before the right one.
-/
namespace QueryEngine
open ExprPrinter
set_option autoImplicit false
set_option maxHeartbeats 250000

namespace Expr
variable {F : Type}

/-- The subexpression at the end of a path, if the path stays in the tree. -/
def nodeAt (e : Expr F) : List ℕ → Option (Expr F)
  | [] => some e
  | i :: p =>
      match (getChildren e)[i]? with
      | none => none
      | some c => c.nodeAt p

def postOrder : Expr F → List (List ℕ)
  | columnRef _ | literal _ => [[]]
  | binary left _ right =>
      left.postOrder.map (List.cons 0) ++ (right.postOrder.map (List.cons 1) ++ [[]])
  | unary _ e => e.postOrder.map (List.cons 0) ++ [[]]
  | logical left _ right =>
      left.postOrder.map (List.cons 0) ++ (right.postOrder.map (List.cons 1) ++ [[]])

/-- Induction over the children: a node has none, one or two. -/
@[elab_as_elim]
theorem children_induction {motive : Expr F → Prop}
    (leaf : ∀ e, getChildren e = [] → e.postOrder = [[]] → motive e)
    (one : ∀ e c, getChildren e = [c] → e.postOrder = c.postOrder.map (List.cons 0) ++ [[]] →
      motive c → motive e)
    (two : ∀ e left right, getChildren e = [left, right] →
      e.postOrder = left.postOrder.map (List.cons 0) ++
        (right.postOrder.map (List.cons 1) ++ [[]]) →
      motive left → motive right → motive e) (e : Expr F) : motive e := by
  induction e with
  | columnRef name => exact leaf _ rfl rfl
  | literal l => exact leaf _ rfl rfl
  | binary left op right ihl ihr => exact two _ left right rfl rfl ihl ihr
  | unary op e ih => exact one _ e rfl rfl ih
  | logical left op right ihl ihr => exact two _ left right rfl rfl ihl ihr

@[simp] theorem nodeAt_nil (e : Expr F) : e.nodeAt [] = some e := rfl

theorem nodeAt_cons {e c : Expr F} {i : ℕ} (h : (getChildren e)[i]? = some c) (path : List ℕ) :
    e.nodeAt (i :: path) = c.nodeAt path := by
  rw [nodeAt, h]

theorem nodeAt_cons_of_none {e : Expr F} {i : ℕ} (h : (getChildren e)[i]? = none)
    (path : List ℕ) : e.nodeAt (i :: path) = none := by
  rw [nodeAt, h]

/-- The path to a node, prolonged by a child position, leads to that child. -/
theorem nodeAt_append {e s : Expr F} {path : List ℕ} (h : e.nodeAt path = some s) (i : ℕ) :
    e.nodeAt (path ++ [i]) = (getChildren s)[i]? := by
  induction path generalizing e with
  | nil =>
    obtain rfl : e = s := Option.some.inj h
    cases hc : (getChildren e)[i]? with
    | none => exact nodeAt_cons_of_none hc []
    | some c => exact nodeAt_cons hc []
  | cons j path ih =>
    cases hc : (getChildren e)[j]? with
    | none => simp [nodeAt_cons_of_none hc] at h
    | some c =>
      rw [nodeAt_cons hc] at h
      rw [List.cons_append, nodeAt_cons hc, ih h]

/-! ## Every node once -/

/-- **The post-order lists the nodes of the tree.** -/
theorem mem_postOrder_iff (e : Expr F) (path : List ℕ) :
    path ∈ e.postOrder ↔ (e.nodeAt path).isSome := by
  induction e using children_induction generalizing path with
  | leaf e hc hp =>
    match path with
    | [] => simp [hp]
    | i :: path => simp [hp, nodeAt, hc]
  | one e c hc hp ih =>
    match path with
    | [] => simp [hp]
    | 0 :: path => simp [hp, nodeAt, hc, ih]
    | (i + 1) :: path => simp [hp, nodeAt, hc]
  | two e left right hc hp ihl ihr =>
    match path with
    | [] => simp [hp]
    | 0 :: path => simp [hp, nodeAt, hc, ihl]
    | 1 :: path => simp [hp, nodeAt, hc, ihr]
    | (i + 2) :: path => simp [hp, nodeAt, hc]

/-- **No node is listed twice.** -/
theorem postOrder_nodup (e : Expr F) : e.postOrder.Nodup := by
  have hcons : ∀ i : ℕ, Function.Injective (List.cons i) := fun i _ _ h => (List.cons.inj h).2
  induction e using children_induction with
  | leaf e hc hp => simp [hp]
  | one e c hc hp ih =>
    rw [hp, List.nodup_append]
    refine ⟨ih.map (hcons 0), List.nodup_singleton [], ?_⟩
    simp
  | two e left right hc hp ihl ihr =>
    rw [hp, List.nodup_append, List.nodup_append]
    refine ⟨ihl.map (hcons 0), ⟨ihr.map (hcons 1), List.nodup_singleton [], ?_⟩, ?_⟩
    · simp
    · intro p hleft q hq
      obtain ⟨p, -, rfl⟩ := List.mem_map.mp hleft
      rintro rfl
      simp at hq

/-! ## Numbers -/

/-- The number of a node, counted from 1 in post-order. -/
def number (e : Expr F) (path : List ℕ) : ℕ := e.postOrder.idxOf path + 1

theorem idxOf_map_cons (i : ℕ) (path : List ℕ) (paths : List (List ℕ)) :
    (paths.map (List.cons i)).idxOf (i :: path) = paths.idxOf path := by
  induction paths with
  | nil => rfl
  | cons p paths ih =>
    by_cases hp : p = path
    · simp [hp]
    · rw [List.map_cons, List.idxOf_cons_ne _ (by simpa using hp), List.idxOf_cons_ne _ hp, ih]

theorem idxOf_last {paths : List (List ℕ)} {path : List ℕ} (h : path ∉ paths) :
    (paths ++ [path]).idxOf path = paths.length := by
  rw [List.idxOf_append_of_notMem h, List.idxOf_cons_self, Nat.add_zero]

/-- The root comes last. -/
theorem number_nil (e : Expr F) : e.number [] = e.postOrder.length := by
  induction e using children_induction with
  | leaf e hc hp => simp [number, hp]
  | one e c hc hp ih =>
    rw [number, hp, idxOf_last (by simp)]
    simp
  | two e left right hc hp ihl ihr =>
    rw [number, hp, ← List.append_assoc, idxOf_last (by simp), List.length_append]
    simp [Nat.add_assoc]

/-- The nodes of the first subtree keep their numbers. -/
theorem number_first {e c : Expr F} {rest : List (List ℕ)}
    (hp : e.postOrder = c.postOrder.map (List.cons 0) ++ rest) {path : List ℕ}
    (h : (c.nodeAt path).isSome) : e.number (0 :: path) = c.number path := by
  have hmem := List.mem_map_of_mem (f := List.cons 0) ((c.mem_postOrder_iff path).mpr h)
  rw [number, hp, List.idxOf_append_of_mem hmem, idxOf_map_cons, number]

/-- The nodes of the second subtree are numbered after those of the first one. -/
theorem number_second {e left right : Expr F}
    (hp : e.postOrder = left.postOrder.map (List.cons 0) ++
      (right.postOrder.map (List.cons 1) ++ [[]])) {path : List ℕ}
    (h : (right.nodeAt path).isSome) :
    e.number (1 :: path) = left.postOrder.length + right.number path := by
  have hmem := List.mem_map_of_mem (f := List.cons 1) ((right.mem_postOrder_iff path).mpr h)
  rw [number, hp, List.idxOf_append_of_notMem (by simp), List.length_map,
    List.idxOf_append_of_mem hmem, idxOf_map_cons, number, Nat.add_assoc]

end Expr

end QueryEngine
