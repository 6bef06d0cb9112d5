import QueryEngine.Library.Kleene
import QueryEngine.Model.Expression

/-! # The row interpreter

What an expression means on one row, stated without vectors: a row gives every column name an
optional value, `none` being SQL's null. Integer arithmetic is that of `ℤ` wrapped to the width of
the type, strings are ordered by their code units, and the connectives are Kleene's. Operands are
always both evaluated, left before right, and an operation looks at values only when no operand is
null. An ill-typed operation fails as a failed cast.
-/
namespace QueryEngine
open Library
set_option autoImplicit false
set_option maxHeartbeats 250000

inductive Value (F : Type)
  | int32 (n : Int32)
  | int64 (n : Int64)
  | float64 (d : F)
  | bool (b : Bool)
  | utf8 (s : Option JString)
  deriving DecidableEq

/-- A cell is null or holds a value. -/
abbrev Cell (F : Type) := Option (Value F)

/-- The named cells of a row, in column order. -/
abbrev Row (F : Type) := List (JString × Cell F)

namespace Row
variable {F : Type}

def cell (row : Row F) (name : JString) : Cell F := (row.lookup name).join

end Row

namespace Interp
variable {F : Type} [JavaDouble F]

def arithInt (op : ArithmeticOp) (x y : ℤ) : Java ℤ :=
  match op with
  | .Subtract => .ok (x - y)
  | .Add => .ok (x + y)
  | .Divide => if y = 0 then .error .arithmetic else .ok (x.tdiv y)
  | .Multiply => .ok (x * y)

def arith (op : ArithmeticOp) : Value F → Value F → Java (Value F)
  | .int32 a, .int32 b => do return .int32 (Int32.ofInt (← arithInt op a.toInt b.toInt))
  | .int64 a, .int64 b => do return .int64 (Int64.ofInt (← arithInt op a.toInt b.toInt))
  | .float64 a, .float64 b => do return .float64 (← op.applyDouble a b)
  | _, _ => .error .classCast

/-- The comparison operators over any decidable order. -/
def order {α : Type} [LT α] [DecidableLT α] [DecidableEq α] (op : ComparisonOp) (a b : α) : Bool :=
  match op with
  | .EqEq => decide (a = b)
  | .NEq => decide (a ≠ b)
  | .LT => decide (a < b)
  | .LTEq => decide (¬ b < a)
  | .GT => decide (b < a)
  | .GTEq => decide (¬ a < b)

def orderBool (op : ComparisonOp) (a b : Bool) : Java Bool :=
  match op with
  | .EqEq => .ok (a == b)
  | .NEq => .ok (a != b)
  | op => .error op.booleansNotSupported

/-- Strings, with the null references that a slot may hold: they can only be told apart. -/
def orderString (op : ComparisonOp) (a b : Option JString) : Java Bool :=
  match op, a, b with
  | .EqEq, a, b => .ok (decide (a = b))
  | .NEq, a, b => .ok (decide (a ≠ b))
  | op, some a, some b => .ok (order op a b)
  | _, _, _ => .error .nullPointer

def compare (op : ComparisonOp) : Value F → Value F → Java (Value F)
  | .int32 a, .int32 b => .ok (.bool (order op a.toInt b.toInt))
  | .int64 a, .int64 b => .ok (.bool (order op a.toInt b.toInt))
  | .float64 a, .float64 b => do return .bool (← op.compareDouble a b)
  | .bool a, .bool b => do return .bool (← orderBool op a b)
  | .utf8 a, .utf8 b => do return .bool (← orderString op a b)
  | _, _ => .error .classCast

def binary : BinaryOp → Value F → Value F → Java (Value F)
  | .arithmetic op, a, b => arith op a b
  | .comparison op, a, b => compare op a b

/-- Null as soon as one operand is. -/
def lift (f : Value F → Value F → Java (Value F)) : Cell F → Cell F → Java (Cell F)
  | some a, some b => do return some (← f a b)
  | _, _ => .ok none

def truth : Cell F → Java (Option Bool)
  | none => .ok none
  | some (.bool b) => .ok (some b)
  | _ => .error .classCast

def connective : LogicalOp → Option Bool → Option Bool → Option Bool
  | .AND => Kleene.and
  | .OR => Kleene.or

def logical (op : LogicalOp) (a b : Cell F) : Java (Cell F) := do
  let x ← truth a
  let y ← truth b
  return (connective op x y).map .bool

def unary (op : UnaryOp) (a : Cell F) : Java (Cell F) := do
  let x ← truth a
  match op with
  | .NOT => return (Kleene.not x).map .bool

end Interp

variable {F : Type}

def Literal.value : Literal F → Value F
  | .int32 n => .int32 n
  | .int64 n => .int64 n
  | .float64 d => .float64 d
  | .str s => .utf8 (some s)
  | .bool b => .bool b

def interp [JavaDouble F] (row : Row F) : Expr F → Java (Cell F)
  | .columnRef name => .ok (row.cell name)
  | .literal l => .ok (some l.value)
  | .binary left op right => do
      let a ← interp row left
      let b ← interp row right
      Interp.lift (Interp.binary op) a b
  | .unary op e => do
      let a ← interp row e
      Interp.unary op a
  | .logical left op right => do
      let a ← interp row left
      let b ← interp row right
      Interp.logical op a b

end QueryEngine
