import QueryEngine.Model.ExprEvaluator

/-! # Printing and tracing (`ExprPrinter`, `ExprTracer`)

The infix text of an expression, its tree drawn with one node on a line, and the tracer, which
evaluates every node once more after it has traced the children and notes the result as a numbered
step. `ArrayList` sizes are natural numbers: no tree has `2^31` nodes. The text a `double` prints as
is left uninterpreted.
-/
namespace QueryEngine
open Library
set_option autoImplicit false
set_option maxHeartbeats 250000

/-- `String.valueOf(double)`. -/
class DoubleText (F : Type) where
  valueOf : F → JString

namespace ExprPrinter
variable {F : Type}

def toInfix [DoubleText F] : Expr F → JString
  | .columnRef name => name
  | .literal (.int32 val) => jstr (toString val.toInt)
  | .literal (.int64 val) => jstr (toString val.toInt) ++ jstr "L"
  | .literal (.float64 val) => DoubleText.valueOf val
  | .literal (.str val) => jstr "'" ++ val ++ jstr "'"
  | .literal (.bool b) => jstr (if b then "true" else "false")
  | .binary left op right =>
      jstr "(" ++ toInfix left ++ jstr " " ++ op.token ++ jstr " " ++ toInfix right ++ jstr ")"
  | .unary op e => jstr "(" ++ op.name ++ jstr " " ++ toInfix e ++ jstr ")"
  | .logical left op right =>
      jstr "(" ++ toInfix left ++ jstr " " ++ op.name ++ jstr " " ++ toInfix right ++ jstr ")"

def getChildren : Expr F → List (Expr F)
  | .columnRef _ | .literal _ => []
  | .binary left _ right => [left, right]
  | .unary _ e => [e]
  | .logical left _ right => [left, right]

/-- `base` of `formatNode`. -/
def baseText [DoubleText F] : Expr F → JString
  | .columnRef name => jstr "ColumnRef(" ++ name ++ jstr ")"
  | .literal (.int32 val) => jstr "Literal(" ++ jstr (toString val.toInt) ++ jstr ")"
  | .literal (.int64 val) => jstr "Literal(" ++ jstr (toString val.toInt) ++ jstr "L)"
  | .literal (.float64 val) => jstr "Literal(" ++ DoubleText.valueOf val ++ jstr ")"
  | .literal (.str val) => jstr "Literal('" ++ val ++ jstr "')"
  | .literal (.bool b) => jstr "Literal(" ++ jstr (if b then "true" else "false") ++ jstr ")"
  | .binary _ op _ => jstr "BinaryExpr(" ++ op.token ++ jstr ")"
  | .unary op _ => jstr "UnaryExpr(" ++ op.name ++ jstr ")"
  | .logical _ op _ => jstr "LogicalExpr(" ++ op.name ++ jstr ")"

/-- What `formatNode` writes behind `base`; a missing message is concatenated as `null`. -/
def typeText (expr : Expr F) : Option Schema → JString
  | some schema =>
      match expr.outputType schema with
      | .ok type => jstr " -> " ++ type.type.name
      | .error e => jstr " -> [type error: " ++ e.getMessage.getD (jstr "null") ++ jstr "]"
  | none => []

def formatNode [DoubleText F] (expr : Expr F) (schema : Option Schema) : JString :=
  baseText expr ++ typeText expr schema

/-- What `renderTree` appends; the loop over the children is written out for each kind of node. -/
def renderTree [DoubleText F] (lineSeparator : JString) (schema : Option Schema) (expr : Expr F)
    (ownPrefix childPrefix : JString) : JString :=
  ownPrefix ++ formatNode expr schema ++ lineSeparator ++
    match expr with
    | .columnRef _ | .literal _ => []
    | .binary left _ right | .logical left _ right =>
        renderTree lineSeparator schema left (childPrefix ++ jstr "├── ")
            (childPrefix ++ jstr "│   ") ++
          renderTree lineSeparator schema right (childPrefix ++ jstr "└── ")
            (childPrefix ++ jstr "    ")
    | .unary _ e =>
        renderTree lineSeparator schema e (childPrefix ++ jstr "└── ") (childPrefix ++ jstr "    ")

/-- `printTree(expr, schema)`; the line separator is that of the platform. -/
def printTree [DoubleText F] (lineSeparator : JString) (expr : Expr F) (schema : Option Schema) :
    JString :=
  stripTrailing (renderTree lineSeparator schema expr [] [])

end ExprPrinter

namespace ExprTracer
variable {F : Type}

structure TraceStep (F : Type) where
  stepNumber : ℕ
  expr : Expr F
  description : JString
  inputStepNumbers : List ℕ
  resultVector : Vector F

structure TraceReport (F : Type) where
  rootExpr : Expr F
  batch : RecordBatch F
  finalResult : Vector F
  steps : List (TraceStep F)

open ExprPrinter (toInfix)

def formatStepDescription [DoubleText F] : Expr F → JString
  | .columnRef name => jstr "EVAL ColumnRef(\"" ++ name ++ jstr "\")"
  | .literal lit => jstr "EVAL Literal: " ++ toInfix (.literal lit)
  | .binary left op right =>
      jstr "EVAL BinaryExpr " ++ op.token ++ jstr " (" ++ toInfix left ++ jstr " " ++ op.token ++
        jstr " " ++ toInfix right ++ jstr ")"
  | .unary op e => jstr "EVAL UnaryExpr " ++ op.name ++ jstr " (" ++ toInfix e ++ jstr ")"
  | .logical left op right =>
      jstr "EVAL LogicalExpr " ++ op.name ++ jstr " (" ++ toInfix left ++ jstr " " ++ op.name ++
        jstr " " ++ toInfix right ++ jstr ")"

variable [JavaDouble F] [DoubleText F]

/-- The end of `traceRecursive`: evaluate the node and append its step. -/
def addStep (batch : RecordBatch F) (expr : Expr F) (inputSteps : List ℕ)
    (steps : List (TraceStep F)) : Java (Vector F × List (TraceStep F)) := do
  let evaluated ← ExprEvaluator.eval batch expr
  let stepNum := steps.length + 1
  let desc := formatStepDescription expr
  return (evaluated, steps ++ [⟨stepNum, expr, desc, inputSteps, evaluated⟩])

/-- `traceRecursive(expr, batch, steps)`: the result, and the list as the call leaves it. -/
def traceRecursive (batch : RecordBatch F) (expr : Expr F) (steps : List (TraceStep F)) :
    Java (Vector F × List (TraceStep F)) :=
  match expr with
  | .columnRef _ | .literal _ => addStep batch expr [] steps
  | .binary left _ right => do
      let (_, steps) ← traceRecursive batch left steps
      let leftStep := steps.length
      let (_, steps) ← traceRecursive batch right steps
      let rightStep := steps.length
      addStep batch expr [leftStep, rightStep] steps
  | .unary _ e => do
      let (_, steps) ← traceRecursive batch e steps
      addStep batch expr [steps.length] steps
  | .logical left _ right => do
      let (_, steps) ← traceRecursive batch left steps
      let leftStep := steps.length
      let (_, steps) ← traceRecursive batch right steps
      let rightStep := steps.length
      addStep batch expr [leftStep, rightStep] steps

def trace (expr : Expr F) (batch : RecordBatch F) : Java (TraceReport F) := do
  let (finalResult, steps) ← traceRecursive batch expr []
  return ⟨expr, batch, finalResult, steps⟩

end ExprTracer

end QueryEngine
