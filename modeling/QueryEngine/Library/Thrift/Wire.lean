import Mathlib.Algebra.Group.Nat.Defs
import Mathlib.Data.List.Basic
import Mathlib.Tactic.Common

/-! # Values on a Thrift wire

What a Thrift protocol transports: scalars, byte strings, structs of numbered fields, lists, sets
and maps. A value is presented token by token, the way a protocol object is called, and nothing in
it names a field.
-/
namespace QueryEngine.Library.Thrift
set_option autoImplicit false
set_option maxHeartbeats 250000

inductive TType
  | stop | bool | i08 | double | i16 | i32 | i64 | string | struct | map | set | list
  deriving DecidableEq

inductive Sequence
  | list | set
  deriving DecidableEq

def Sequence.ttype : Sequence → TType
  | .list => .list
  | .set => .set

/-- The bytes of a text. -/
def utf8 (s : String) : List UInt8 := s.toUTF8.data.toList

/-- A double is its bits, and a text is its UTF-8 bytes. -/
inductive Wire
  | bool (b : Bool)
  | i08 (n : Int8)
  | i16 (n : Int16)
  | i32 (n : Int32)
  | i64 (n : Int64)
  | double (bits : UInt64)
  | binary (bytes : List UInt8)
  | struct (fields : List (Int16 × Wire))
  | sequence (kind : Sequence) (elem : TType) (elems : List Wire)
  | map (key value : TType) (entries : List (Wire × Wire))

/-- A size is what the sender says it is, in 32 bits. -/
inductive Token
  | bool (b : Bool)
  | i08 (n : Int8)
  | i16 (n : Int16)
  | i32 (n : Int32)
  | i64 (n : Int64)
  | double (bits : UInt64)
  | binary (bytes : List UInt8)
  | structBegin
  | structEnd
  | fieldBegin (ty : TType) (id : Int16)
  | fieldEnd
  | fieldStop
  | sequenceBegin (kind : Sequence) (elem : TType) (size : Int32)
  | sequenceEnd (kind : Sequence)
  | mapBegin (key value : TType) (size : Int32)
  | mapEnd

theorem size_nonneg {n : ℕ} (h : n < 2 ^ 31) : 0 ≤ Int32.ofNat n := by
  rw [Int32.le_iff_toInt_le, Int32.toInt_ofNat_of_lt h, Int32.toInt_zero]
  exact Int.natCast_nonneg n

namespace Wire

def ttype : Wire → TType
  | .bool _ => .bool
  | .i08 _ => .i08
  | .i16 _ => .i16
  | .i32 _ => .i32
  | .i64 _ => .i64
  | .double _ => .double
  | .binary _ => .string
  | .struct _ => .struct
  | .sequence kind _ _ => kind.ttype
  | .map _ _ _ => .map

theorem ttype_ne_stop (w : Wire) : w.ttype ≠ .stop := by
  cases w with
  | sequence kind elem elems => cases kind <;> exact TType.noConfusion
  | _ => exact TType.noConfusion

mutual

def tokens : Wire → List Token
  | .bool b => [.bool b]
  | .i08 n => [.i08 n]
  | .i16 n => [.i16 n]
  | .i32 n => [.i32 n]
  | .i64 n => [.i64 n]
  | .double bits => [.double bits]
  | .binary bytes => [.binary bytes]
  | .struct fields => .structBegin :: (fieldTokens fields ++ [.fieldStop, .structEnd])
  | .sequence kind elem elems =>
      .sequenceBegin kind elem (Int32.ofNat elems.length) ::
        (elemTokens elems ++ [.sequenceEnd kind])
  | .map key value entries =>
      .mapBegin key value (Int32.ofNat entries.length) :: (entryTokens entries ++ [.mapEnd])

def fieldTokens : List (Int16 × Wire) → List Token
  | [] => []
  | (id, w) :: fields => .fieldBegin w.ttype id :: (w.tokens ++ .fieldEnd :: fieldTokens fields)

def elemTokens : List Wire → List Token
  | [] => []
  | w :: elems => w.tokens ++ elemTokens elems

def entryTokens : List (Wire × Wire) → List Token
  | [] => []
  | (key, value) :: entries => key.tokens ++ (value.tokens ++ entryTokens entries)

end

mutual

/-- The most fields that any struct of the value has. -/
def width : Wire → ℕ
  | .struct fields => max fields.length (fieldWidth fields)
  | .sequence _ _ elems => elemWidth elems
  | .map _ _ entries => entryWidth entries
  | _ => 0

def fieldWidth : List (Int16 × Wire) → ℕ
  | [] => 0
  | (_, w) :: fields => max w.width (fieldWidth fields)

def elemWidth : List Wire → ℕ
  | [] => 0
  | w :: elems => max w.width (elemWidth elems)

def entryWidth : List (Wire × Wire) → ℕ
  | [] => 0
  | (key, value) :: entries => max (max key.width value.width) (entryWidth entries)

end

theorem width_le_of_mem_fields {fields : List (Int16 × Wire)} {f : Int16 × Wire}
    (h : f ∈ fields) : f.2.width ≤ fieldWidth fields := by
  induction fields with
  | nil => cases h
  | cons g fields ih =>
    rw [fieldWidth]
    rcases List.mem_cons.mp h with rfl | h
    · exact Nat.le_max_left _ _
    · exact Nat.le_trans (ih h) (Nat.le_max_right _ _)

theorem width_le_of_mem_elems {elems : List Wire} {w : Wire} (h : w ∈ elems) :
    w.width ≤ elemWidth elems := by
  induction elems with
  | nil => cases h
  | cons v elems ih =>
    rw [elemWidth]
    rcases List.mem_cons.mp h with rfl | h
    · exact Nat.le_max_left _ _
    · exact Nat.le_trans (ih h) (Nat.le_max_right _ _)

/-- Values that can be passed over: nested no deeper than a bound, every byte string a text, no
number negative, and sequences and maps of the types and the sizes that their headers can say. -/
inductive Skippable : ℕ → Wire → Prop
  | bool (n : ℕ) (b : Bool) : Skippable (n + 1) (.bool b)
  | i08 (n : ℕ) (k : Int8) : Skippable (n + 1) (.i08 k)
  | i16 (n : ℕ) (k : Int16) : Skippable (n + 1) (.i16 k)
  | i32 (n : ℕ) (k : Int32) : Skippable (n + 1) (.i32 k)
  | i64 (n : ℕ) (k : Int64) : Skippable (n + 1) (.i64 k)
  | double (n : ℕ) (bits : UInt64) : Skippable (n + 1) (.double bits)
  | text (n : ℕ) (s : String) (size : (utf8 s).length < 2 ^ 31) :
      Skippable (n + 1) (.binary (utf8 s))
  | struct (n : ℕ) (fields : List (Int16 × Wire)) (natural : ∀ f ∈ fields, 0 ≤ f.1)
      (each : ∀ f ∈ fields, Skippable n f.2) : Skippable (n + 1) (.struct fields)
  | sequence (n : ℕ) (kind : Sequence) (elem : TType) (elems : List Wire)
      (size : elems.length < 2 ^ 31) (typed : ∀ w ∈ elems, w.ttype = elem)
      (each : ∀ w ∈ elems, Skippable n w) : Skippable (n + 1) (.sequence kind elem elems)
  | map (n : ℕ) (key value : TType) (entries : List (Wire × Wire))
      (size : entries.length < 2 ^ 31) (keys : ∀ e ∈ entries, e.1.ttype = key)
      (values : ∀ e ∈ entries, e.2.ttype = value) (eachKey : ∀ e ∈ entries, Skippable n e.1)
      (eachValue : ∀ e ∈ entries, Skippable n e.2) : Skippable (n + 1) (.map key value entries)

/-- A field that is passed over where its number is not known. -/
def SkippableField (f : Int16 × Wire) : Prop := 0 ≤ f.1 ∧ f.2.Skippable 64

end Wire

end QueryEngine.Library.Thrift
