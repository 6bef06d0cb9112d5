import Mathlib.Algebra.Order.Ring.Rat
import QueryEngine.Library.OrderedMap
import QueryEngine.Model.Java

/-! # The graduation query (`org.kogu.queryengine.lesson1.Main`)

The average fare of the trips over a distance, by passenger count and in descending order: once over
row objects with stream collectors, once over column arrays with an accumulator of two `int`s. A
`HashMap` promises no iteration order, so the order is a parameter. An average is the exact quotient
of the accumulated sum and count.
-/
namespace QueryEngine.Lesson1
open Library
set_option autoImplicit false
set_option maxHeartbeats 250000

def require (predicate : Bool) (message : JString) : Java Unit :=
  if predicate then .ok () else .error (.illegalArgument message)

/-! ## Trips and results -/

def Trip.validate (passengerCount tripDistance fareAmount : Int32) : Java Unit := do
  require (tripDistance > 0) (jstr "tripDistance >= 0")
  require (passengerCount > 0) (jstr "passengerCount >= 0")
  require (fareAmount > 0) (jstr "fareAmount >= 0")

structure Trip where
  passengerCount : Int32
  tripDistance : Int32
  fareAmount : Int32
  valid : Trip.validate passengerCount tripDistance fareAmount = .ok ()

def Trip.new (passengerCount tripDistance fareAmount : Int32) : Java Trip :=
  match h : Trip.validate passengerCount tripDistance fareAmount with
  | .error e => .error e
  | .ok () => .ok ⟨passengerCount, tripDistance, fareAmount, h⟩

structure Result where
  passengerCount : Int32
  avgFare : ℚ
  deriving DecidableEq

/-- `sorted(Comparator.comparing(Result::avgFare).reversed())`, a stable sort. -/
def sorted (results : List Result) : List Result :=
  results.mergeSort fun a b => decide (b.avgFare ≤ a.avgFare)

/-! ## Library classes -/

/-- The order in which a `HashMap` iterates over keys that were inserted in a given order. -/
structure IterationOrder where
  order : List Int32 → List Int32
  perm : ∀ keys, (order keys).Perm keys

def entrySet {V : Type} (iteration : IterationOrder) (m : OrderedMap Int32 V) : List (Int32 × V) :=
  (iteration.order m.keys).filterMap fun k => (m.get k).map fun v => (k, v)

/-- A `Collector`: a container, what it takes in, and what it gives out. -/
structure Collector (α A R : Type) where
  supplier : A
  accumulator : A → α → A
  finisher : A → R

/-- `Collectors.averagingInt(mapper)`: a sum and a count, both `long`. -/
def averagingInt {α : Type} (mapper : α → Int32) : Collector α (Int64 × Int64) ℚ where
  supplier := (0, 0)
  accumulator a t := (a.1 + (mapper t).toInt64, a.2 + 1)
  finisher a := if a.2 = 0 then 0 else (a.1.toInt : ℚ) / a.2.toInt

/-- `Collectors.groupingBy(classifier, downstream)`: one container for each key. -/
def groupingBy {α A R : Type} (classifier : α → Int32) (downstream : Collector α A R)
    (items : List α) : OrderedMap Int32 R :=
  let containers : OrderedMap Int32 A := items.foldl (fun m t => m.put (classifier t)
    (downstream.accumulator ((m.get (classifier t)).getD downstream.supplier) t)) .empty
  containers.mapValues downstream.finisher

def merge {V : Type} (m : OrderedMap Int32 V) (key : Int32) (value : V) (remapping : V → V → V) :
    OrderedMap Int32 V :=
  match m.get key with
  | none => m.put key value
  | some old => m.put key (remapping old value)

/-! ## Rows -/

def rowEval (iteration : IterationOrder) (trips : List Trip) (minimumDistance : Int32) :
    List Result :=
  let collect := groupingBy Trip.passengerCount (averagingInt Trip.fareAmount)
    (trips.filter fun t => t.tripDistance > minimumDistance)
  sorted ((entrySet iteration collect).map fun entry => ⟨entry.1, entry.2⟩)

/-! ## Columns -/

structure SumCount where
  sum : Int32
  count : Int32

namespace SumCount

def new (fareAmount : Int32) : SumCount := ⟨fareAmount, 1⟩

/-- `add(SumCount other)`, which answers the receiver. -/
def add (self other : SumCount) : SumCount := ⟨self.sum + other.sum, self.count + other.count⟩

def average (s : SumCount) : ℚ := (s.sum.toInt : ℚ) / s.count.toInt

end SumCount

def columnRound (tripDistances passengerCounts fareAmounts : JArray Int32)
    (minimumDistance : Int32) (i : Int32) (collect : OrderedMap Int32 SumCount) :
    Java (OrderedMap Int32 SumCount) := do
  if (← tripDistances.get i) > minimumDistance then
    let passengerCount ← passengerCounts.get i
    let fareAmount ← fareAmounts.get i
    pure (merge collect passengerCount (SumCount.new fareAmount) SumCount.add)
  else pure collect

def columnEval (iteration : IterationOrder)
    (tripDistances passengerCounts fareAmounts : JArray Int32) (minimumDistance : Int32) :
    Java (List Result) := do
  require (tripDistances.length == passengerCounts.length &&
    tripDistances.length == fareAmounts.length) (jstr "same length of each column array")
  let collect ← forInt tripDistances.length
    (columnRound tripDistances passengerCounts fareAmounts minimumDistance) .empty
  return sorted ((entrySet iteration collect).map fun kv => ⟨kv.1, kv.2.average⟩)

def column (property : Trip → Int32) (trips : JArray Trip) : JArray Int32 where
  elems := trips.elems.map property
  size_lt := by
    rw [List.length_map]
    exact trips.size_lt

end QueryEngine.Lesson1
