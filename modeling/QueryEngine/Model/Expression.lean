import Mathlib.Data.Finset.Lattice.Lemmas
import QueryEngine.Model.Schema

/-! # Expressions and their static types (`org.kogu.queryengine.expression`)

The expression trees, the per-operator `apply` and `compare` overloads of the two operator enums,
`outputType`, the type an expression has over a schema, and `collectReferences`, the column names it
reads. A string literal is a reference that the null checker of the build keeps from being `null`.
-/
namespace QueryEngine
set_option autoImplicit false
set_option maxHeartbeats 250000

/-! ## Operators -/

inductive ArithmeticOp
  | Subtract | Add | Divide | Multiply
  deriving DecidableEq

namespace ArithmeticOp

def token : ArithmeticOp → JString
  | Subtract => jstr "-"
  | Add => jstr "+"
  | Divide => jstr "/"
  | Multiply => jstr "*"

def applyInt : ArithmeticOp → Int32 → Int32 → Java Int32
  | Subtract, a, b => .ok (a - b)
  | Add, a, b => .ok (a + b)
  | Divide, a, b => if b = 0 then .error .arithmetic else .ok (a / b)
  | Multiply, a, b => .ok (a * b)

def applyLong : ArithmeticOp → Int64 → Int64 → Java Int64
  | Subtract, a, b => .ok (a - b)
  | Add, a, b => .ok (a + b)
  | Divide, a, b => if b = 0 then .error .arithmetic else .ok (a / b)
  | Multiply, a, b => .ok (a * b)

def applyDouble {F : Type} [JavaDouble F] : ArithmeticOp → F → F → Java F
  | Subtract, a, b => .ok (JavaDouble.sub a b)
  | Add, a, b => .ok (JavaDouble.add a b)
  | Divide, a, b => .ok (JavaDouble.div a b)
  | Multiply, a, b => .ok (JavaDouble.mul a b)

end ArithmeticOp

inductive ComparisonOp
  | EqEq | NEq | LT | LTEq | GT | GTEq
  deriving DecidableEq

namespace ComparisonOp

def token : ComparisonOp → JString
  | EqEq => jstr "=="
  | NEq => jstr "!="
  | LT => jstr "<"
  | LTEq => jstr "<="
  | GT => jstr ">"
  | GTEq => jstr ">="

def name : ComparisonOp → JString
  | EqEq => jstr "EqEq"
  | NEq => jstr "NEq"
  | LT => jstr "LT"
  | LTEq => jstr "LTEq"
  | GT => jstr "GT"
  | GTEq => jstr "GTEq"

def compareInt : ComparisonOp → Int32 → Int32 → Java Bool
  | EqEq, a, b => .ok (decide (a = b))
  | NEq, a, b => .ok (decide (a ≠ b))
  | LT, a, b => .ok (decide (a < b))
  | LTEq, a, b => .ok (decide (a ≤ b))
  | GT, a, b => .ok (decide (a > b))
  | GTEq, a, b => .ok (decide (a ≥ b))

def compareLong : ComparisonOp → Int64 → Int64 → Java Bool
  | EqEq, a, b => .ok (decide (a = b))
  | NEq, a, b => .ok (decide (a ≠ b))
  | LT, a, b => .ok (decide (a < b))
  | LTEq, a, b => .ok (decide (a ≤ b))
  | GT, a, b => .ok (decide (a > b))
  | GTEq, a, b => .ok (decide (a ≥ b))

def compareDouble {F : Type} [JavaDouble F] : ComparisonOp → F → F → Java Bool
  | EqEq, a, b => .ok (JavaDouble.eq a b)
  | NEq, a, b => .ok (JavaDouble.ne a b)
  | LT, a, b => .ok (JavaDouble.lt a b)
  | LTEq, a, b => .ok (JavaDouble.le a b)
  | GT, a, b => .ok (JavaDouble.gt a b)
  | GTEq, a, b => .ok (JavaDouble.ge a b)

def booleansNotSupported (op : ComparisonOp) : JavaException :=
  .unsupportedOperation (jstr "compare(boolean, boolean) not supported for " ++ op.name)

def compareBool : ComparisonOp → Bool → Bool → Java Bool
  | EqEq, a, b => .ok (a == b)
  | NEq, a, b => .ok (a != b)
  | LT, _, _ => .error LT.booleansNotSupported
  | LTEq, _, _ => .error LTEq.booleansNotSupported
  | GT, _, _ => .error GT.booleansNotSupported
  | GTEq, _, _ => .error GTEq.booleansNotSupported

/-- `left.compareTo(right)` on references: `null` on either side is dereferenced. -/
def compareToRef : Option JString → Option JString → Java ℤ
  | some a, some b => .ok (compareTo a b)
  | _, _ => .error .nullPointer

/-- `compare(String, String)`; equality goes through `Objects.equals`, which accepts `null`. -/
def compareString : ComparisonOp → Option JString → Option JString → Java Bool
  | EqEq, a, b => .ok (decide (a = b))
  | NEq, a, b => .ok (decide (a ≠ b))
  | LT, a, b => do return decide ((← compareToRef a b) < 0)
  | LTEq, a, b => do return decide ((← compareToRef a b) ≤ 0)
  | GT, a, b => do return decide ((← compareToRef a b) > 0)
  | GTEq, a, b => do return decide ((← compareToRef a b) ≥ 0)

end ComparisonOp

/-- The sealed interface `Expr.BinaryOp`. -/
inductive BinaryOp
  | arithmetic (op : ArithmeticOp)
  | comparison (op : ComparisonOp)
  deriving DecidableEq

def BinaryOp.token : BinaryOp → JString
  | .arithmetic op => op.token
  | .comparison op => op.token

inductive UnaryOp
  | NOT
  deriving DecidableEq

def UnaryOp.name : UnaryOp → JString
  | .NOT => jstr "NOT"

inductive LogicalOp
  | AND | OR
  deriving DecidableEq

def LogicalOp.name : LogicalOp → JString
  | .AND => jstr "AND"
  | .OR => jstr "OR"

/-! ## Trees -/

inductive Literal (F : Type)
  | int32 (intVal : Int32)
  | int64 (longVal : Int64)
  | float64 (floatVal : F)
  | str (value : JString)
  | bool (value : Bool)

def Literal.type {F : Type} : Literal F → Scalar
  | .int32 _ => .INT32
  | .int64 _ => .INT64
  | .float64 _ => .FLOAT64
  | .str _ => .UTF8
  | .bool _ => .BOOLEAN

/-- The sealed interface `Expr`. -/
inductive Expr (F : Type)
  | columnRef (name : JString)
  | literal (l : Literal F)
  | binary (left : Expr F) (op : BinaryOp) (right : Expr F)
  | unary (op : UnaryOp) (e : Expr F)
  | logical (left : Expr F) (op : LogicalOp) (right : Expr F)

/-! ## Static types -/

structure ExprType where
  type : Scalar
  nullable : Bool
  deriving DecidableEq

namespace Expr
variable {F : Type}

def cannotCompare (op : ComparisonOp) (left right : Scalar) : JavaException :=
  .typeMismatch (jstr "Cannot compare operands for " ++ op.token ++ jstr ": left type " ++
    left.name ++ jstr ", right type " ++ right.name)

def cannotApply (op : ArithmeticOp) (left right : Scalar) : JavaException :=
  .typeMismatch (jstr "Cannot apply " ++ op.token ++ jstr " to operands: left type " ++
    left.name ++ jstr ", right type " ++ right.name)

/-- `BinaryExpr.outputType` after the operand types are known. -/
def binaryType (leftType : ExprType) (op : BinaryOp) (rightType : ExprType) : Java ExprType :=
  let typeEquals := leftType.type = rightType.type
  let nullable := leftType.nullable || rightType.nullable
  match op with
  | .comparison op =>
      if typeEquals then .ok ⟨.BOOLEAN, nullable⟩
      else .error (cannotCompare op leftType.type rightType.type)
  | .arithmetic op =>
      if typeEquals then
        match leftType.type with
        | .INT32 | .INT64 | .FLOAT64 => .ok ⟨leftType.type, nullable⟩
        | .BOOLEAN | .UTF8 => .error (cannotApply op leftType.type rightType.type)
      else .error (cannotApply op leftType.type rightType.type)

/-- `UnaryExpr.outputType` after the operand type is known. -/
def unaryType (op : UnaryOp) (operandType : ExprType) : Java ExprType :=
  if operandType.type = .BOOLEAN then .ok operandType
  else .error (.typeMismatch (jstr "Cannot apply " ++ op.name ++ jstr ": operand type " ++
    operandType.type.name ++ jstr ", expected BOOLEAN"))

/-- `LogicalExpr.outputType` after the operand types are known. -/
def logicalType (leftType : ExprType) (op : LogicalOp) (rightType : ExprType) : Java ExprType :=
  if leftType.type = .BOOLEAN ∧ rightType.type = .BOOLEAN then
    .ok ⟨.BOOLEAN, leftType.nullable || rightType.nullable⟩
  else .error (.typeMismatch (jstr "Cannot apply " ++ op.name ++ jstr ": left type " ++
    leftType.type.name ++ jstr ", right type " ++ rightType.type.name ++
    jstr ", expected BOOLEAN operands"))

def outputType (schema : Schema) : Expr F → Java ExprType
  | columnRef name => do
      let f ← schema.field name
      return ⟨f.type, f.nullable⟩
  | literal l => .ok ⟨l.type, false⟩
  | binary left op right => do
      let leftType ← left.outputType schema
      let rightType ← right.outputType schema
      binaryType leftType op rightType
  | unary op e => do
      let operandType ← e.outputType schema
      unaryType op operandType
  | logical left op right => do
      let leftType ← left.outputType schema
      let rightType ← right.outputType schema
      logicalType leftType op rightType

/-! ## References -/

/-- `collectReferences(out)`: the set after the call. -/
def collectReferences : Expr F → Finset JString → Finset JString
  | columnRef name, out => insert name out
  | literal _, out => out
  | binary left _ right, out => right.collectReferences (left.collectReferences out)
  | unary _ e, out => e.collectReferences out
  | logical left _ right, out => right.collectReferences (left.collectReferences out)

/-- What `collectReferences` fills an empty set with. -/
def references (e : Expr F) : Finset JString := e.collectReferences ∅

theorem collectReferences_eq (e : Expr F) (out : Finset JString) :
    e.collectReferences out = e.references ∪ out := by
  have hboth : ∀ (left right : Expr F) (out : Finset JString),
      (∀ out, left.collectReferences out = left.references ∪ out) →
      (∀ out, right.collectReferences out = right.references ∪ out) →
      right.collectReferences (left.collectReferences out) =
        right.collectReferences (left.collectReferences ∅) ∪ out := by
    intro left right out hl hr
    rw [hr, hr (left.collectReferences ∅), hl out, hl ∅, Finset.union_empty, Finset.union_assoc]
  induction e generalizing out with
  | columnRef name => exact Finset.insert_eq name out
  | literal l => exact (Finset.empty_union out).symm
  | binary left op right ihl ihr => exact hboth left right out ihl ihr
  | unary op e ih => exact ih out
  | logical left op right ihl ihr => exact hboth left right out ihl ihr

@[simp] theorem references_columnRef (name : JString) :
    (columnRef name : Expr F).references = {name} := rfl

@[simp] theorem references_literal (l : Literal F) : (literal l).references = ∅ := rfl

@[simp] theorem references_binary (left : Expr F) (op : BinaryOp) (right : Expr F) :
    (binary left op right).references = right.references ∪ left.references := by
  rw [references, collectReferences, collectReferences_eq right]
  rfl

@[simp] theorem references_unary (op : UnaryOp) (e : Expr F) :
    (unary op e).references = e.references := rfl

@[simp] theorem references_logical (left : Expr F) (op : LogicalOp) (right : Expr F) :
    (logical left op right).references = right.references ∪ left.references := by
  rw [references, collectReferences, collectReferences_eq right]
  rfl

end Expr

end QueryEngine
