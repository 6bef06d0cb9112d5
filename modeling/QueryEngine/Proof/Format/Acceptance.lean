import QueryEngine.Library.Thrift.CompactImage
import QueryEngine.Model.ParquetFormat
import QueryEngine.Proof.Format.Evolution

/-! # Which structs and unions are accepted

The fields of a struct may come in any number: the last of each number counts, and what decides is
whether every required number came at all. A union wants one field, and trusts that it knows it.
-/
namespace QueryEngine.ParquetParser
open Library Library.Thrift
set_option autoImplicit false
set_option maxHeartbeats 250000

variable {σ : Type} {i : TInputProtocol σ} {Shows : σ → List Token → ℕ → Prop} {rt : Runtime}

/-! ## Which variables are set -/

/-- A field that is taken whatever the variables hold: a known one with a value of its type, or an
unknown one that can be skipped. -/
def Fields.Readable (rt : Runtime) {ids : List Int16} {L R : Type} (fields : Fields ids L R)
    (f : Int16 × Wire) : Prop :=
  ∀ s, ∃ s', fields.Step (fields.Stores rt) f s (.ok s')

def Serial.ReadsField (rt : Runtime) {α : Type} : Serial α → Int16 × Wire → Prop
  | .struct _ fields _ _ _, f => fields.Readable rt f
  | _, _ => False

def Fields.isSet {ids : List Int16} {L R : Type} : Fields ids L R → L → Int16 → Bool
  | .nil, _, _ => false
  | .field id _ _ _ rest _, (slot, locals), k =>
      if k = id then slot.isSome else rest.isSet locals k

/-- The path of the first required field whose number was not given. -/
def Fields.firstMissing {ids : List Int16} {L R : Type} :
    Fields ids L R → (Int16 → Bool) → Option String
  | .nil, _ => none
  | .field id _ (.required path) _ rest _, given =>
      if given id then rest.firstMissing given else some path
  | .field _ _ .optional _ rest _, given => rest.firstMissing given

theorem Fields.firstMissing_congr {ids : List Int16} {L R : Type} : (fields : Fields ids L R) →
    ∀ {given given' : Int16 → Bool}, (∀ k ∈ ids, given k = given' k) →
    fields.firstMissing given = fields.firstMissing given'
  | .nil, _, _, _ => rfl
  | .field id _ (.required path) _ rest _, given, given', h => by
    rw [Fields.firstMissing, Fields.firstMissing, h id List.mem_cons_self,
      rest.firstMissing_congr fun k hk => h k (List.mem_cons_of_mem id hk)]
  | .field id _ .optional _ rest _, given, given', h =>
    rest.firstMissing_congr fun k hk => h k (List.mem_cons_of_mem id hk)

/-- The numbers of a table's rest are not its first. -/
theorem Fields.isSet_rest {α L R : Type} {ids : List Int16} {id : Int16} (name : String)
    (presence : Presence) (serial : Serial α) (rest : Fields ids L R) (fresh : 0 ≤ id ∧ id ∉ ids)
    (slot : Option α) (locals : L) {k : Int16} (hk : k ∈ ids) :
    (Fields.field id name presence serial rest fresh).isSet (slot, locals) k =
      rest.isSet locals k := by
  rw [Fields.isSet, if_neg]
  intro hid
  rw [hid] at hk
  exact fresh.2 hk

/-- What the code after the loop makes of the variables. -/
theorem Fields.finish_outcome (rt : Runtime) {ids : List Int16} {L R : Type} :
    (fields : Fields ids L R) → ∀ s : L,
    (∃ path, fields.firstMissing (fields.isSet s) = some path ∧
      fields.finish rt s = .error (.error (rt.missingRequiredField path))) ∨
    (fields.firstMissing (fields.isSet s) = none ∧ ∃ values, fields.finish rt s = .ok values)
  | .nil, _ => Or.inr ⟨rfl, (), rfl⟩
  | .field id name (.required path) serial rest fresh, (slot, locals) => by
    rw [Fields.firstMissing, Fields.isSet, if_pos rfl, rest.firstMissing_congr fun k hk =>
      Fields.isSet_rest name (.required path) serial rest fresh slot locals hk]
    cases slot with
    | none => exact Or.inl ⟨path, rfl, rfl⟩
    | some value =>
      rw [Fields.finish_required]
      rcases rest.finish_outcome rt locals with ⟨p, hp, hfinish⟩ | ⟨hnone, values, hfinish⟩
      · exact Or.inl ⟨p, hp, by rw [hfinish]; rfl⟩
      · exact Or.inr ⟨hnone, (value, values), by rw [hfinish]; rfl⟩
  | .field id name .optional serial rest fresh, (slot, locals) => by
    rw [Fields.firstMissing, rest.firstMissing_congr fun k hk =>
      Fields.isSet_rest name .optional serial rest fresh slot locals hk, Fields.finish_optional]
    rcases rest.finish_outcome rt locals with ⟨p, hp, hfinish⟩ | ⟨hnone, values, hfinish⟩
    · exact Or.inl ⟨p, hp, by rw [hfinish]; rfl⟩
    · exact Or.inr ⟨hnone, (slot, values), by rw [hfinish]; rfl⟩

/-! ## Numbers given twice -/

theorem Fields.folds_readable {ids : List Int16} {L R : Type} (fields : Fields ids L R)
    {ws : List (Int16 × Wire)} (hws : ∀ f ∈ ws, fields.Readable rt f) (s : L) :
    ∃ s', Folds (fields.Step (fields.Stores rt)) ws s (.ok s') := by
  induction ws generalizing s with
  | nil => exact ⟨s, .done s⟩
  | cons f ws ih =>
    obtain ⟨s₁, first⟩ := hws f List.mem_cons_self s
    obtain ⟨s', rest⟩ := ih (fun g hg => hws g (List.mem_cons_of_mem f hg)) s₁
    exact ⟨s', .next first rest⟩

/-- A field that a union takes: one of its variants, or a field that can be skipped. -/
def Variants.Readable (rt : Runtime) {υ : Type} {ids : List Int16} {guards : List (υ → Bool)}
    (variants : Variants υ ids guards) (f : Int16 × Wire) : Prop :=
  (∃ u, variants.Picks rt f.1 f.2 (.ok u)) ∨ (f.1 ∉ ids ∧ Wire.SkippableField f)

theorem countField_ofNat (rt : Runtime) {n : ℕ} (h : n + 1 < 2 ^ 31) :
    countField rt (Int32.ofNat n) = .ok (Int32.ofNat (n + 1)) := by
  have hmax : Int32.ofNat n ≠ Int32.maxValue := by
    intro heq
    have hn := Int32.toInt_ofNat_of_lt (Nat.lt_of_succ_lt h)
    rw [heq, Int32.toInt_maxValue] at hn
    omega
  rw [countField, if_neg fun hand => hmax hand.1, Int32.ofNat_add]
  rfl

/-- Every field of a union is counted, whether it is known or not, and the first known is kept. -/
theorem Variants.folds_readable {υ : Type} {ids : List Int16} {guards : List (υ → Bool)}
    (variants : Variants υ ids guards) {ws : List (Int16 × Wire)}
    (hws : ∀ f ∈ ws, variants.Readable rt f) (ret : Option υ) {n : ℕ}
    (hn : n + ws.length < 2 ^ 31) : ∃ ret',
    Folds (variants.Step rt (variants.Picks rt)) ws (ret, Int32.ofNat n)
      (.ok (ret', Int32.ofNat (n + ws.length))) := by
  induction ws generalizing ret n with
  | nil => exact ⟨ret, .done _⟩
  | cons f ws ih =>
    rw [List.length_cons] at hn
    have hcount := countField_ofNat rt (n := n) (by omega)
    have hlen : n + 1 + ws.length = n + (f :: ws).length := by
      rw [List.length_cons]
      omega
    have htail := fun g hg => hws g (List.mem_cons_of_mem f hg)
    rcases hws f List.mem_cons_self with ⟨u, hu⟩ | ⟨hid, hskip⟩
    · obtain ⟨ret', rest⟩ := ih htail (ret.or (some u)) (n := n + 1) (by omega)
      rw [hlen] at rest
      exact ⟨ret', .next (Or.inl ⟨.ok u, hu, by rw [hcount]; rfl⟩) rest⟩
    · obtain ⟨ret', rest⟩ := ih htail ret (n := n + 1) (by omega)
      rw [hlen] at rest
      exact ⟨ret', .next (Or.inr ⟨hid, hskip, by rw [hcount]; rfl⟩) rest⟩

/-- What a union makes of fields that can all be read. -/
def Variants.Outcome (rt : Runtime) {υ : Type} {ids : List Int16} {guards : List (υ → Bool)}
    (variants : Variants υ ids guards) (name : String) :
    List (Int16 × Wire) → Except Fault υ → Prop
  | [], r => r = .error (.error (.protocol .invalidData
      ("received empty union from remote " ++ name)))
  | [f], r => (∃ u, variants.Picks rt f.1 f.2 (.ok u) ∧ r = .ok u) ∨
      (f.1 ∉ ids ∧ r = .error (.panic "return value should have been constructed"))
  | _ :: _ :: _, r => r = .error (.error (.protocol .invalidData
      ("received multiple fields for union from remote " ++ name)))

theorem unionResult_many {υ : Type} (name : String) (ret : Option υ) {n : ℕ} (h : 2 ≤ n)
    (hn : n < 2 ^ 31) : unionResult name (ret, Int32.ofNat n) = .error (.error
      (.protocol .invalidData ("received multiple fields for union from remote " ++ name))) := by
  have hzero : Int32.ofNat n ≠ 0 := by
    rw [Ne, ← Int32.toInt_inj, Int32.toInt_ofNat_of_lt hn, Int32.toInt_zero]
    omega
  have hone : 1 < Int32.ofNat n := by
    rw [Int32.lt_iff_toInt_lt, Int32.toInt_ofNat_of_lt hn, Int32.toInt_one]
    omega
  unfold unionResult
  simp only
  rw [if_neg hzero, if_pos hone]

/-- **A union is read if and only if it holds one field and its number is known; a lone unknown
field, which the loop counted, is taken for a value that was never stored.** -/
theorem Serial.union_outcome (hi : i.Documented Shows) {υ : Type} {ids : List Int16}
    {guards : List (υ → Bool)} (name : String) (variants : Variants υ ids guards)
    (covered : ∀ a, (guards.any fun guard => guard a) = true) (ws : List (Int16 × Wire))
    (hws : ∀ f ∈ ws, variants.Readable rt f) (hlen : ws.length < 2 ^ 31)
    (hw : (Wire.struct ws).width < rt.rounds) : ∃ r, variants.Outcome rt name ws r ∧
      Consumes Shows ((Serial.union name variants covered).readFromInProtocol i rt)
        (Wire.struct ws).tokens r := by
  have hread : ∀ {received}, Folds (variants.Step rt (variants.Picks rt)) ws (none, 0) received →
      Consumes Shows ((Serial.union name variants covered).readFromInProtocol i rt)
        (Wire.struct ws).tokens (received >>= unionResult name) :=
    fun hfolds => Serial.read_consumes hi _ ⟨ws, _, rfl, hfolds, rfl⟩ hw
  have hone : countField rt 0 = .ok 1 := countField_ofNat rt (n := 0) (by decide)
  match ws with
  | [] => exact ⟨_, rfl, hread (.done _)⟩
  | [f] =>
    rcases hws f List.mem_cons_self with ⟨u, hu⟩ | ⟨hid, hskip⟩
    · have hfolds : Folds (variants.Step rt (variants.Picks rt)) [f] (none, 0)
          (.ok (some u, 1)) := .next (Or.inl ⟨.ok u, hu, by rw [hone]; rfl⟩) (.done _)
      exact ⟨.ok u, Or.inl ⟨u, hu, rfl⟩, hread hfolds⟩
    · have hfolds : Folds (variants.Step rt (variants.Picks rt)) [f] (none, 0)
          (.ok (none, 1)) := .next (Or.inr ⟨hid, hskip, by rw [hone]; rfl⟩) (.done _)
      exact ⟨_, Or.inr ⟨hid, rfl⟩, hread hfolds⟩
  | f :: g :: ws =>
    obtain ⟨ret, hfolds⟩ := variants.folds_readable hws none (n := 0) (by omega)
    refine ⟨_, rfl, ?_⟩
    rw [Nat.zero_add] at hfolds
    have hmany := hread hfolds
    change Consumes Shows _ _ (unionResult name (ret, Int32.ofNat (f :: g :: ws).length)) at hmany
    rw [unionResult_many name ret (by simp) hlen] at hmany
    exact hmany

/-! ## Key and value -/

namespace Sample

def runtime : Runtime where
  rounds := 32
  overflowChecks := true
  missingFieldId _ := .protocol .unknown "missing field id"
  missingRequiredField path := .protocol .unknown ("missing required field " ++ path)

end Sample

/-- A unit of time from a later version. -/
theorem union_outcome_sample : Consumes Compact.Shows
    (TimeUnit.serial.readFromInProtocol (Compact.input true) Sample.runtime)
    (Wire.struct [(4, .struct [])]).tokens
    (.error (.panic "return value should have been constructed")) := by
  have hunion : ∃ r, _ ∧ Consumes Compact.Shows
      (TimeUnit.serial.readFromInProtocol (Compact.input true) Sample.runtime)
      (Wire.struct [(4, .struct [])]).tokens r :=
    Serial.union_outcome (Compact.input_documented true) "TimeUnit" _ _ [(4, .struct [])]
      (List.forall_mem_singleton.mpr (Or.inr ⟨by decide, by decide,
        .struct 63 [] (List.forall_mem_nil _) (List.forall_mem_nil _)⟩)) (by decide) (by decide)
  obtain ⟨r, ⟨u, hpicks, -⟩ | ⟨-, rfl⟩, hread⟩ := hunion
  · exact absurd (Variants.id_mem_of_picks _ hpicks) (by decide)
  · exact hread

end QueryEngine.ParquetParser
