import Mathlib.Algebra.Order.Field.Rat
import Mathlib.Tactic.Ring
import QueryEngine.Model.Lesson1

/-! # The two evaluations of the graduation query

Both build a map whose entry under a passenger count is accumulated from the matching trips with
that count: a sum of `long`s over rows, a sum of `int`s over columns. The `long` never wraps. The
`int` does as soon as the fares of one passenger count exceed `2^31 - 1`, and that is the only way
in which the evaluations can differ.
-/
namespace QueryEngine.Lesson1
open Library
set_option autoImplicit false
set_option maxHeartbeats 250000

/-! ## What is asked for -/

/-- The trips that `WHERE` keeps and `GROUP BY` puts under a passenger count. -/
def group (trips : List Trip) (minimumDistance passengerCount : Int32) : List Trip :=
  (trips.filter fun t => t.tripDistance > minimumDistance).filter fun t =>
    t.passengerCount = passengerCount

def totalFare (ts : List Trip) : ℤ := (ts.map fun t => t.fareAmount.toInt).sum

/-- The exact average. -/
def meanFare (ts : List Trip) : ℚ := (totalFare ts : ℚ) / ts.length

/-- The average that a sum of width 32 gives. -/
def wrappedMean (ts : List Trip) : ℚ := ((Int32.ofInt (totalFare ts)).toInt : ℚ) / ts.length

theorem Trip.fareAmount_pos (t : Trip) : 0 < t.fareAmount.toInt := by
  have hvalid := t.valid
  by_cases hd : t.tripDistance > 0
  · by_cases hp : t.passengerCount > 0
    · by_cases hf : t.fareAmount > 0
      · exact Int32.lt_iff_toInt_lt.mp hf
      · simp [Trip.validate, require, hd, hp, hf] at hvalid
    · simp [Trip.validate, require, hd, hp] at hvalid
  · simp [Trip.validate, require, hd] at hvalid

theorem totalFare_cons (t : Trip) (ts : List Trip) :
    totalFare (t :: ts) = t.fareAmount.toInt + totalFare ts := by
  rw [totalFare, List.map_cons, List.sum_cons]
  rfl

theorem totalFare_bounds (ts : List Trip) :
    (ts.length : ℤ) ≤ totalFare ts ∧ totalFare ts ≤ ts.length * (2 ^ 31 - 1) := by
  induction ts with
  | nil => simp [totalFare]
  | cons t ts ih =>
    have hpos := t.fareAmount_pos
    have hlt := t.fareAmount.toInt_lt
    rw [totalFare_cons, List.length_cons, Nat.cast_add, Nat.cast_one]
    constructor
    · omega
    · have hmul : ((ts.length : ℤ) + 1) * (2 ^ 31 - 1) =
          ts.length * (2 ^ 31 - 1) + (2 ^ 31 - 1) := by
        ring
      omega

theorem group_length_le (trips : List Trip) (minimumDistance k : Int32) :
    (group trips minimumDistance k).length ≤ trips.length :=
  ((List.filter_sublist).trans List.filter_sublist).length_le

/-! ## From a map to the answers -/

section Answers
variable {V : Type} (iteration : IterationOrder) (m : OrderedMap Int32 V)

theorem mem_entrySet (k : Int32) (v : V) : (k, v) ∈ entrySet iteration m ↔ m.get k = some v := by
  rw [entrySet, List.mem_filterMap]
  constructor
  · rintro ⟨k', -, h⟩
    obtain ⟨v', hv', h⟩ := Option.map_eq_some_iff.mp h
    obtain ⟨rfl, rfl⟩ := Prod.mk.inj h
    exact hv'
  · intro h
    have hk : k ∈ m.keys := by
      rw [← m.get_isSome_iff, h]
      rfl
    exact ⟨k, (iteration.perm m.keys).mem_iff.mpr hk, by rw [h]; rfl⟩

theorem entrySet_keys : (entrySet iteration m).map Prod.fst = iteration.order m.keys := by
  have hall : ∀ ks : List Int32, (∀ k ∈ ks, (m.get k).isSome) →
      (ks.filterMap fun k => (m.get k).map fun v => (k, v)).map Prod.fst = ks := by
    intro ks hks
    induction ks with
    | nil => rfl
    | cons k ks ih =>
      obtain ⟨v, hv⟩ := Option.isSome_iff_exists.mp (hks k List.mem_cons_self)
      have htail := ih fun x hx => hks x (List.mem_cons_of_mem k hx)
      simp [hv, htail]
  apply hall
  intro k hk
  exact (m.get_isSome_iff k).mpr ((iteration.perm m.keys).mem_iff.mp hk)

def answersOf (average : V → ℚ) : List Result :=
  sorted ((entrySet iteration m).map fun e => ⟨e.1, average e.2⟩)

theorem mem_answersOf (average : V → ℚ) (r : Result) :
    r ∈ answersOf iteration m average ↔
      ∃ v, m.get r.passengerCount = some v ∧ r.avgFare = average v := by
  rw [answersOf, sorted, List.mem_mergeSort, List.mem_map]
  constructor
  · rintro ⟨⟨k, v⟩, he, rfl⟩
    exact ⟨v, (mem_entrySet iteration m k v).mp he, rfl⟩
  · rintro ⟨v, hv, havg⟩
    refine ⟨(r.passengerCount, v), (mem_entrySet iteration m _ v).mpr hv, ?_⟩
    rw [← havg]

theorem answersOf_once (average : V → ℚ) :
    ((answersOf iteration m average).map Result.passengerCount).Nodup := by
  have hperm : ((answersOf iteration m average).map Result.passengerCount).Perm m.keys := by
    have hsort := (List.mergeSort_perm ((entrySet iteration m).map fun e =>
      (⟨e.1, average e.2⟩ : Result)) fun a b => decide (b.avgFare ≤ a.avgFare)).map
        Result.passengerCount
    rw [List.map_map] at hsort
    have hkeys : (entrySet iteration m).map (Result.passengerCount ∘ fun e =>
        (⟨e.1, average e.2⟩ : Result)) = iteration.order m.keys := entrySet_keys iteration m
    rw [hkeys] at hsort
    exact hsort.trans (iteration.perm m.keys)
  exact hperm.nodup_iff.mpr m.nodup

/-- No later answer has a greater average. -/
def Descending (results : List Result) : Prop :=
  results.Pairwise fun a b => b.avgFare ≤ a.avgFare

theorem answersOf_descending (average : V → ℚ) : Descending (answersOf iteration m average) := by
  have hsort := @List.pairwise_mergeSort Result (fun a b => decide (b.avgFare ≤ a.avgFare))
    (fun a b c hab hbc => by
      simp only [decide_eq_true_eq] at hab hbc ⊢
      exact hbc.trans hab)
    (fun a b => by
      simp only [Bool.or_eq_true, decide_eq_true_eq]
      exact le_total b.avgFare a.avgFare)
    ((entrySet iteration m).map fun e => ⟨e.1, average e.2⟩)
  exact hsort.imp fun h => by simpa using h

end Answers

/-! ## Accumulators -/

theorem foldl_getD {α A : Type} (f : A → α → A) (d : A) (l : List α) :
    l.foldl (fun o a => some (f (o.getD d) a)) none =
      if l = [] then none else some (l.foldl f d) := by
  have hsome : ∀ (l : List α) (a : A),
      l.foldl (fun o x => some (f (o.getD d) x)) (some a) = some (l.foldl f a) := by
    intro l
    induction l with
    | nil => exact fun a => rfl
    | cons x l ih => exact fun a => ih (f a x)
  match l with
  | [] => rfl
  | x :: l =>
    rw [if_neg (by simp)]
    exact hsome l (f d x)

theorem toInt64_eq (x : Int32) : x.toInt64 = Int64.ofInt x.toInt := by
  rw [← x.toInt_toInt64, Int64.ofInt_toInt]

/-- An accumulator that stands for a sum and a count, after the trips `ts`. -/
theorem foldl_sum_count {A : Type} (add : A → Trip → A) (stands : ℤ → ℕ → A)
    (hadd : ∀ s c t, add (stands s c) t = stands (s + t.fareAmount.toInt) (c + 1))
    (ts : List Trip) : ts.foldl add (stands 0 0) = stands (totalFare ts) ts.length := by
  have hall : ∀ (ts : List Trip) s c,
      ts.foldl add (stands s c) = stands (s + totalFare ts) (c + ts.length) := by
    intro ts
    induction ts with
    | nil => simp [totalFare]
    | cons t ts ih =>
      intro s c
      rw [List.foldl_cons, hadd, ih, totalFare_cons, List.length_cons, Int.add_assoc,
        Nat.add_assoc, Nat.add_comm 1]
  have h := hall ts 0 0
  rwa [Int.zero_add, Nat.zero_add] at h

theorem averagingInt_fold (ts : List Trip) :
    ts.foldl (averagingInt Trip.fareAmount).accumulator (Int64.ofInt 0, Int64.ofNat 0) =
      (Int64.ofInt (totalFare ts), Int64.ofNat ts.length) := by
  apply foldl_sum_count _ fun s c => (Int64.ofInt s, Int64.ofNat c)
  intro s c t
  rw [Int64.ofInt_add, ← toInt64_eq, Int64.ofNat_add]
  rfl

theorem sumCount_fold (ts : List Trip) :
    ts.foldl (fun (a : SumCount) t => a.add (SumCount.new t.fareAmount)) ⟨0, 0⟩ =
      ⟨Int32.ofInt (totalFare ts), Int32.ofNat ts.length⟩ := by
  apply foldl_sum_count _ fun s c => (⟨Int32.ofInt s, Int32.ofNat c⟩ : SumCount)
  intro s c t
  rw [Int32.ofInt_add, Int32.ofInt_toInt, Int32.ofNat_add]
  rfl

/-! ## The rows -/

theorem groupingBy_get {trips : List Trip} (hlen : trips.length < 2 ^ 31)
    (minimumDistance k : Int32) :
    (groupingBy Trip.passengerCount (averagingInt Trip.fareAmount)
      (trips.filter fun t => t.tripDistance > minimumDistance)).get k =
      if group trips minimumDistance k = [] then none
      else some (meanFare (group trips minimumDistance k)) := by
  rw [groupingBy, OrderedMap.get_mapValues, OrderedMap.get_foldl_put Trip.passengerCount
    fun o t => (averagingInt Trip.fareAmount).accumulator
      (o.getD (averagingInt Trip.fareAmount).supplier) t]
  show (((group trips minimumDistance k).foldl _ none).map _) = _
  rw [foldl_getD (averagingInt Trip.fareAmount).accumulator]
  have hsize := group_length_le trips minimumDistance k
  generalize group trips minimumDistance k = ts at hsize
  by_cases hts : ts = []
  · simp [hts]
  · have hpos : 0 < ts.length := List.length_pos_iff.mpr hts
    obtain ⟨hlow, hhigh⟩ := totalFare_bounds ts
    have hsum : (Int64.ofInt (totalFare ts)).toInt = totalFare ts :=
      Int64.toInt_ofInt_of_le (by omega) (by omega)
    have hcount : (Int64.ofNat ts.length).toInt = ts.length :=
      Int64.toInt_ofNat_of_lt (by omega)
    have hne : Int64.ofNat ts.length ≠ 0 := by
      intro h0
      rw [h0] at hcount
      have hzero : (0 : Int64).toInt = 0 := rfl
      omega
    rw [if_neg hts, if_neg hts]
    show some ((averagingInt Trip.fareAmount).finisher (ts.foldl _ (Int64.ofInt 0, Int64.ofNat 0)))
      = _
    rw [averagingInt_fold, averagingInt]
    simp only [hne, if_false, hsum, hcount]
    rw [meanFare, Int.cast_natCast]

/-! ## The columns -/

theorem merge_eq_put (m : OrderedMap Int32 SumCount) (t : Trip) :
    merge m t.passengerCount (SumCount.new t.fareAmount) SumCount.add =
      m.put t.passengerCount
        (((m.get t.passengerCount).getD ⟨0, 0⟩).add (SumCount.new t.fareAmount)) := by
  match h : m.get t.passengerCount with
  | none =>
    have hnew : (⟨0, 0⟩ : SumCount).add (SumCount.new t.fareAmount) =
        SumCount.new t.fareAmount := by
      rw [SumCount.add, SumCount.new, Int32.zero_add, Int32.zero_add]
    rw [merge, h, Option.getD_none, hnew]
  | some old => rw [merge, h, Option.getD_some]

def columnMap (trips : List Trip) (minimumDistance : Int32) : OrderedMap Int32 SumCount :=
  (trips.filter fun t => t.tripDistance > minimumDistance).foldl (fun m t =>
    m.put t.passengerCount
      (((m.get t.passengerCount).getD ⟨0, 0⟩).add (SumCount.new t.fareAmount))) .empty

theorem columnLoop_ok (trips : JArray Trip) (minimumDistance : Int32) :
    forInt (column Trip.tripDistance trips).length
      (columnRound (column Trip.tripDistance trips) (column Trip.passengerCount trips)
        (column Trip.fareAmount trips) minimumDistance) .empty =
      .ok (columnMap trips.elems minimumDistance) := by
  have hget : ∀ (property : Trip → Int32) i (hi : i < trips.elems.length),
      (column property trips).get (Int32.ofNat i) = .ok (property trips.elems[i]) := by
    intro property i hi
    have hlen : i < (column property trips).elems.length := by
      rw [column, List.length_map]
      exact hi
    rw [JArray.get_ofNat _ hlen]
    simp [column]
  have hcount : (column Trip.tripDistance trips).length.toNatClampNeg = trips.elems.length := by
    rw [JArray.length_toNatClampNeg, column, List.length_map]
  rw [forInt, hcount, columnMap, List.foldl_filter]
  apply forLoop_foldl
  intro i hi m
  rw [columnRound, hget _ i hi, ok_bind, hget _ i hi, ok_bind, hget _ i hi, ok_bind]
  by_cases hd : trips.elems[i].tripDistance > minimumDistance
  · simp [hd, merge_eq_put]
  · simp [hd]

theorem columnMap_get (trips : List Trip) (minimumDistance k : Int32) :
    (columnMap trips minimumDistance).get k =
      if group trips minimumDistance k = [] then none
      else some ⟨Int32.ofInt (totalFare (group trips minimumDistance k)),
        Int32.ofNat (group trips minimumDistance k).length⟩ := by
  rw [columnMap, OrderedMap.get_foldl_put Trip.passengerCount
    fun (o : Option SumCount) t => (o.getD ⟨0, 0⟩).add (SumCount.new t.fareAmount)]
  show (group trips minimumDistance k).foldl _ none = _
  rw [foldl_getD fun (a : SumCount) (t : Trip) => a.add (SumCount.new t.fareAmount)]
  rw [← sumCount_fold]

theorem columnEval_ok (iteration : IterationOrder) (trips : JArray Trip) (minimumDistance : Int32) :
    columnEval iteration (column Trip.tripDistance trips) (column Trip.passengerCount trips)
      (column Trip.fareAmount trips) minimumDistance =
      .ok (answersOf iteration (columnMap trips.elems minimumDistance) SumCount.average) := by
  have hlen : ∀ f g : Trip → Int32, (column f trips).length = (column g trips).length := by
    intro f g
    simp [JArray.length, column]
  rw [columnEval, hlen Trip.passengerCount Trip.tripDistance,
    hlen Trip.fareAmount Trip.tripDistance, columnLoop_ok]
  simp [require, answersOf]

/-! ## Both -/

/-- What the two evaluations owe the query. -/
structure Agreement (trips : List Trip) (minimumDistance : Int32) (rows columns : List Result) :
    Prop where
  same : ∀ r, r ∈ rows ↔ r ∈ columns
  content : ∀ r, r ∈ rows ↔ group trips minimumDistance r.passengerCount ≠ [] ∧
    r.avgFare = meanFare (group trips minimumDistance r.passengerCount)
  once : (rows.map Result.passengerCount).Nodup ∧ (columns.map Result.passengerCount).Nodup
  descending : Descending rows ∧ Descending columns

variable (trips : JArray Trip) (minimumDistance : Int32)

theorem mem_rowEval (iteration : IterationOrder) (r : Result) :
    r ∈ rowEval iteration trips.elems minimumDistance ↔
      group trips.elems minimumDistance r.passengerCount ≠ [] ∧
        r.avgFare = meanFare (group trips.elems minimumDistance r.passengerCount) := by
  have hmem := mem_answersOf iteration (groupingBy Trip.passengerCount
    (averagingInt Trip.fareAmount)
    (trips.elems.filter fun t => t.tripDistance > minimumDistance)) id r
  rw [groupingBy_get trips.size_lt] at hmem
  refine hmem.trans ?_
  by_cases hg : group trips.elems minimumDistance r.passengerCount = []
  · simp [hg]
  · simp [hg]

theorem mem_columns (iteration : IterationOrder) (r : Result) :
    r ∈ answersOf iteration (columnMap trips.elems minimumDistance) SumCount.average ↔
      group trips.elems minimumDistance r.passengerCount ≠ [] ∧
        r.avgFare = wrappedMean (group trips.elems minimumDistance r.passengerCount) := by
  rw [mem_answersOf, columnMap_get]
  have hsize := group_length_le trips.elems minimumDistance r.passengerCount
  have hlen := trips.size_lt
  have hcount : (Int32.ofNat (group trips.elems minimumDistance r.passengerCount).length).toInt =
      (group trips.elems minimumDistance r.passengerCount).length := toInt_ofNat (by omega)
  by_cases hg : group trips.elems minimumDistance r.passengerCount = []
  · simp [hg]
  · simp [hg, SumCount.average, wrappedMean, hcount]

theorem wrappedMean_eq_iff {ts : List Trip} (hne : ts ≠ []) :
    wrappedMean ts = meanFare ts ↔ totalFare ts ≤ 2 ^ 31 - 1 := by
  have hpos : (ts.length : ℚ) ≠ 0 := by
    rw [Nat.cast_ne_zero]
    exact fun h => hne (List.length_eq_zero_iff.mp h)
  rw [wrappedMean, meanFare, div_left_inj' hpos, Int.cast_inj]
  have hlow := (totalFare_bounds ts).1
  constructor
  · intro h
    have hlt := (Int32.ofInt (totalFare ts)).toInt_lt
    omega
  · intro h
    exact Int32.toInt_ofInt_of_le (by omega) (by omega)

/-- Both evaluations return, and agree with the query and with each other. -/
def EvaluationsAgree (iteration iteration' : IterationOrder) (trips : JArray Trip)
    (minimumDistance : Int32) : Prop :=
  ∃ columns, columnEval iteration' (column Trip.tripDistance trips)
      (column Trip.passengerCount trips) (column Trip.fareAmount trips) minimumDistance =
      .ok columns ∧
    Agreement trips.elems minimumDistance (rowEval iteration trips.elems minimumDistance) columns

theorem not_agree_of_overflow (iteration iteration' : IterationOrder) {k : Int32}
    (hk : 2 ^ 31 - 1 < totalFare (group trips.elems minimumDistance k)) :
    ¬ EvaluationsAgree iteration iteration' trips minimumDistance := by
  rintro ⟨columns, hcolumns, hagree⟩
  rw [columnEval_ok, Except.ok.injEq] at hcolumns
  have hne : group trips.elems minimumDistance k ≠ [] := by
    intro hnil
    rw [hnil] at hk
    simp [totalFare] at hk
  -- the answer of the rows for `k` would have to be one of the columns' answers
  have hrow := (mem_rowEval trips minimumDistance iteration
    ⟨k, meanFare (group trips.elems minimumDistance k)⟩).mpr ⟨hne, rfl⟩
  rw [hagree.same, ← hcolumns, mem_columns] at hrow
  have hle := (wrappedMean_eq_iff hne).mp hrow.2.symm
  omega

/-- **The evaluations agree exactly when no group's fares exceed an `int`.** -/
theorem evaluations_agree_iff (iteration iteration' : IterationOrder) :
    EvaluationsAgree iteration iteration' trips minimumDistance ↔
      ∀ k, totalFare (group trips.elems minimumDistance k) ≤ 2 ^ 31 - 1 := by
  constructor
  · intro hagree k
    by_contra hk
    have hover : 2 ^ 31 - 1 < totalFare (group trips.elems minimumDistance k) := by omega
    exact not_agree_of_overflow trips minimumDistance iteration iteration' hover hagree
  · intro hle
    refine ⟨_, columnEval_ok iteration' trips minimumDistance, ?_, ?_, ⟨?_, ?_⟩, ⟨?_, ?_⟩⟩
    · intro r
      rw [mem_rowEval, mem_columns]
      refine and_congr_right fun hne => ?_
      rw [(wrappedMean_eq_iff hne).mpr (hle r.passengerCount)]
    · exact mem_rowEval trips minimumDistance iteration
    · exact answersOf_once iteration _ id
    · exact answersOf_once iteration' _ SumCount.average
    · exact answersOf_descending iteration _ id
    · exact answersOf_descending iteration' _ SumCount.average

/-- Iteration in insertion order, as one `HashMap` might do it. -/
def insertionOrder : IterationOrder := ⟨id, fun _ => List.Perm.refl _⟩

/-- Two valid trips of one passenger whose fares add up to `2^31`. -/
def dearTrips : JArray Trip :=
  ⟨[⟨1, 1, 2147483647, by decide⟩, ⟨1, 1, 1, by decide⟩], by decide⟩

theorem dear_trips_disagree : ¬ EvaluationsAgree insertionOrder insertionOrder dearTrips 0 :=
  not_agree_of_overflow dearTrips 0 insertionOrder insertionOrder
    (show 2 ^ 31 - 1 < totalFare (group dearTrips.elems 0 1) by decide)

end QueryEngine.Lesson1
