import QueryEngine.Abstract.SlotView

/-! # Where an expression can fail on a row

The two run-time failures of a well-typed expression, as conditions on the operands that the row
interpreter finds: an integer division whose divisor is a zero, and an order comparison of two
booleans, both operands being present. `subexprs` lists an expression's nodes in the order in which
they are evaluated: operands first, left before right.
-/
namespace QueryEngine
open Library
set_option autoImplicit false
set_option maxHeartbeats 250000

variable {F : Type}

def Expr.subexprs : Expr F → List (Expr F)
  | .columnRef name => [.columnRef name]
  | .literal l => [.literal l]
  | .binary left op right => left.subexprs ++ right.subexprs ++ [.binary left op right]
  | .unary op e => e.subexprs ++ [.unary op e]
  | .logical left op right => left.subexprs ++ right.subexprs ++ [.logical left op right]

section Rows
variable [JavaDouble F] (row : Row F)

def DividesByZero : Expr F → Prop
  | .binary left (.arithmetic .Divide) right =>
      (∃ a, interp row left = .ok (some (.int32 a)) ∧
        interp row right = .ok (some (.int32 0))) ∨
      (∃ a, interp row left = .ok (some (.int64 a)) ∧
        interp row right = .ok (some (.int64 0)))
  | _ => False

def OrdersBooleans : Expr F → Prop
  | .binary left (.comparison op) right =>
      op ≠ .EqEq ∧ op ≠ .NEq ∧ ∃ x y, interp row left = .ok (some (.bool x)) ∧
        interp row right = .ok (some (.bool y))
  | _ => False

end Rows

/-! ## Rows that fit a schema -/

def Value.type : Value F → Scalar
  | .int32 _ => .INT32
  | .int64 _ => .INT64
  | .float64 _ => .FLOAT64
  | .bool _ => .BOOLEAN
  | .utf8 _ => .UTF8

/-- A cell of a type, whose string, if it is one, is not the null reference. -/
def Cell.Fits (t : Scalar) (c : Cell F) : Prop :=
  ∀ x, c = some x → x.type = t ∧ x ≠ .utf8 none

def Row.Fits (s : Schema) (row : Row F) : Prop :=
  ∀ f ∈ s.fieldsList, Cell.Fits f.type (row.cell f.name)

def Row.Required (s : Schema) (row : Row F) : Prop :=
  ∀ f ∈ s.fieldsList, f.nullable = false → (row.cell f.name).isSome

namespace RecordBatch

/-- The valid UTF8 slots of the batch hold strings, not null references. -/
def StringsPresent (b : RecordBatch F) : Prop :=
  ∀ v ∈ b.vectors, ∀ i < b.size, v.slot i ≠ some (.utf8 none)

/-- The columns that the batch's schema declares non-nullable hold no null slot. -/
def RequiredPresent (b : RecordBatch F) : Prop :=
  ∀ (k : ℕ) (f : Field) (v : Vector F), b.schema.fieldsList[k]? = some f →
    b.vectors[k]? = some v → f.nullable = false →
    ∀ i < b.size, (v.slot i).isSome

end RecordBatch

end QueryEngine
