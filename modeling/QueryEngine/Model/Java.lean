import Mathlib.Algebra.Group.Nat.Defs
import Mathlib.Data.Int.Notation
import Mathlib.Data.List.Basic
import Mathlib.Tactic.Common
import QueryEngine.Library.CountedLoop

/-! # The Java ground: exceptions, strings, `int` counters, arrays and bit sets

`int` and `long` are `Int32` and `Int64`. A `String` is its sequence of UTF-16 code units, which is
what `equals` and `compareTo` look at. A `double` is an uninterpreted type with the operations the
engine applies to it. Texts that the virtual machine writes itself (a failed cast, a null
dereference, an array index) are not modelled; texts the engine writes are.
-/
namespace QueryEngine
open Library
set_option autoImplicit false
set_option maxHeartbeats 250000

/-! ## Strings -/

/-- A Java `String`: its UTF-16 code units. -/
abbrev JString := List UInt16

/-- The UTF-16 code units of one character: itself, or a surrogate pair. -/
def utf16 (c : Char) : List UInt16 :=
  if c.toNat < 0x10000 then [UInt16.ofNat c.toNat]
  else [UInt16.ofNat (0xD800 + (c.toNat - 0x10000) / 0x400),
    UInt16.ofNat (0xDC00 + (c.toNat - 0x10000) % 0x400)]

def jstr (s : String) : JString := s.toList.flatMap utf16

/-- `String.compareTo`: the difference of the first code units that differ, else of the lengths. -/
def compareTo : JString → JString → ℤ
  | a :: as, b :: bs => if a = b then compareTo as bs else (a.toNat : ℤ) - b.toNat
  | as, bs => (as.length : ℤ) - bs.length

/-- `Character.isWhitespace`: every such character is a single code unit. -/
def isWhitespace (c : UInt16) : Bool :=
  (9 ≤ c && c ≤ 13) || (28 ≤ c && c ≤ 32) || c == 0x1680 || (0x2000 ≤ c && c ≤ 0x2006) ||
    (0x2008 ≤ c && c ≤ 0x200A) || c == 0x2028 || c == 0x2029 || c == 0x205F || c == 0x3000

/-- `String.stripTrailing`. -/
def stripTrailing (s : JString) : JString := (s.reverse.dropWhile isWhitespace).reverse

/-! ## Exceptions -/

/-- What the engine and the virtual machine under it throw. -/
inductive JavaException
  | illegalArgument (message : JString)
  /-- `Expr.TypeMismatchException`, a subclass of `IllegalArgumentException`. -/
  | typeMismatch (message : JString)
  | indexOutOfBounds
  | nullPointer
  | classCast
  | negativeArraySize
  | arithmetic
  | unsupportedOperation (message : JString)
  deriving DecidableEq

/-- `getMessage()`, where the engine wrote the text. -/
def JavaException.getMessage : JavaException → Option JString
  | .illegalArgument message | .typeMismatch message | .unsupportedOperation message => some message
  | .indexOutOfBounds | .nullPointer | .classCast | .negativeArraySize | .arithmetic => none

abbrev Java := Except JavaException

/-! ## Doubles -/

/-- The `double` operations the engine uses, left uninterpreted. -/
class JavaDouble (F : Type) where
  /-- `0.0`, with which a new `double[]` is filled. -/
  zero : F
  sub : F → F → F
  add : F → F → F
  div : F → F → F
  mul : F → F → F
  eq : F → F → Bool
  ne : F → F → Bool
  lt : F → F → Bool
  le : F → F → Bool
  gt : F → F → Bool
  ge : F → F → Bool

/-! ## `int` counters -/

theorem toInt_ofNat {i : ℕ} (h : i < 2 ^ 31) : (Int32.ofNat i).toInt = i :=
  Int32.toInt_ofNat_of_lt h

theorem toNatClampNeg_ofNat {i : ℕ} (h : i < 2 ^ 31) : (Int32.ofNat i).toNatClampNeg = i :=
  Int32.toNatClampNeg_ofNat_of_lt h

theorem ofNat_not_neg {i : ℕ} (h : i < 2 ^ 31) : ¬ Int32.ofNat i < 0 := by
  rw [Int32.lt_iff_toInt_lt, toInt_ofNat h, Int32.toInt_zero]
  omega

theorem toNatClampNeg_lt (n : Int32) : n.toNatClampNeg < 2 ^ 31 := by
  have h := n.toInt_lt
  rw [Int32.toNatClampNeg]
  omega

theorem toInt_of_not_neg {n : Int32} (h : ¬ n < 0) : n.toInt = n.toNatClampNeg := by
  rw [Int32.lt_iff_toInt_lt, Int32.toInt_zero] at h
  rw [Int32.toNatClampNeg]
  omega

theorem ofNat_toNatClampNeg {n : Int32} (h : ¬ n < 0) : Int32.ofNat n.toNatClampNeg = n :=
  Int32.ofNat_toNatClampNeg n (Int32.not_lt.mp h)

theorem toInt_add_of_bounds {a b : Int32} (hlo : -2147483648 ≤ a.toInt + b.toInt)
    (hhi : a.toInt + b.toInt ≤ 2147483647) : (a + b).toInt = a.toInt + b.toInt := by
  rw [Int32.toInt_add]
  exact Int.bmod_eq_of_le (by omega) (by omega)

theorem toInt_sub_of_bounds {a b : Int32} (hlo : -2147483648 ≤ a.toInt - b.toInt)
    (hhi : a.toInt - b.toInt ≤ 2147483647) : (a - b).toInt = a.toInt - b.toInt := by
  rw [Int32.toInt_sub]
  exact Int.bmod_eq_of_le (by omega) (by omega)

/-- `for (int i = 0; i < n; i++)`. -/
def forInt {σ : Type} (n : Int32) (body : Int32 → σ → Java σ) (s : σ) : Java σ :=
  forLoop n.toNatClampNeg (fun i => body (Int32.ofNat i)) s

/-! ## Arrays -/

/-- A Java array: its length is a nonnegative `int`. -/
structure JArray (α : Type) where
  elems : List α
  size_lt : elems.length < 2 ^ 31

namespace JArray
variable {α : Type}

def length (a : JArray α) : Int32 := Int32.ofNat a.elems.length

/-- `new T[n]`, every slot at the type's default value. -/
def filled (n : Int32) (default : α) : Java (JArray α) :=
  if n < 0 then .error .negativeArraySize
  else .ok ⟨List.replicate n.toNatClampNeg default, by
    rw [List.length_replicate]; exact toNatClampNeg_lt n⟩

def get (a : JArray α) (i : Int32) : Java α :=
  if i < 0 then .error .indexOutOfBounds
  else match a.elems[i.toNatClampNeg]? with
    | some x => .ok x
    | none => .error .indexOutOfBounds

def set (a : JArray α) (i : Int32) (x : α) : Java (JArray α) :=
  if i < 0 ∨ a.elems.length ≤ i.toNatClampNeg then .error .indexOutOfBounds
  else .ok ⟨a.elems.set i.toNatClampNeg x, by rw [List.length_set]; exact a.size_lt⟩

@[simp] theorem length_toNatClampNeg (a : JArray α) : a.length.toNatClampNeg = a.elems.length :=
  toNatClampNeg_ofNat a.size_lt

theorem length_not_neg (a : JArray α) : ¬ a.length < 0 := ofNat_not_neg a.size_lt

theorem length_toInt (a : JArray α) : a.length.toInt = a.elems.length := toInt_ofNat a.size_lt

theorem get_ofNat (a : JArray α) {i : ℕ} (h : i < a.elems.length) :
    a.get (Int32.ofNat i) = .ok a.elems[i] := by
  have hi : i < 2 ^ 31 := Nat.lt_trans h a.size_lt
  rw [get, if_neg (ofNat_not_neg hi), toNatClampNeg_ofNat hi, List.getElem?_eq_getElem h]

theorem set_ofNat (a : JArray α) {i : ℕ} (h : i < a.elems.length) (x : α) :
    ∃ a', a.set (Int32.ofNat i) x = .ok a' ∧ a'.elems = a.elems.set i x := by
  have hi : i < 2 ^ 31 := Nat.lt_trans h a.size_lt
  refine ⟨⟨a.elems.set i x, by rw [List.length_set]; exact a.size_lt⟩, ?_, rfl⟩
  have hc : ¬ (Int32.ofNat i < 0 ∨ a.elems.length ≤ (Int32.ofNat i).toNatClampNeg) := by
    rw [toNatClampNeg_ofNat hi]
    exact fun hor => hor.elim (ofNat_not_neg hi) (by omega)
  rw [set, if_neg hc]
  simp only [toNatClampNeg_ofNat hi]

theorem filled_of_not_neg {n : Int32} (h : ¬ n < 0) (x : α) :
    ∃ a : JArray α, filled n x = .ok a ∧ a.elems = List.replicate n.toNatClampNeg x := by
  refine ⟨_, by rw [filled, if_neg h], rfl⟩

end JArray

/-! ## Bit sets -/

/-- `java.util.BitSet`: the indices of the set bits. -/
structure BitSet where
  bits : List ℕ

namespace BitSet

def empty : BitSet := ⟨[]⟩

def get (s : BitSet) (i : Int32) : Java Bool :=
  if i < 0 then .error .indexOutOfBounds else .ok (decide (i.toNatClampNeg ∈ s.bits))

def set (s : BitSet) (i : Int32) : Java BitSet :=
  if i < 0 then .error .indexOutOfBounds else .ok ⟨i.toNatClampNeg :: s.bits⟩

theorem get_ofNat (s : BitSet) {i : ℕ} (h : i < 2 ^ 31) :
    s.get (Int32.ofNat i) = .ok (decide (i ∈ s.bits)) := by
  rw [get, if_neg (ofNat_not_neg h), toNatClampNeg_ofNat h]

theorem set_ofNat (s : BitSet) {i : ℕ} (h : i < 2 ^ 31) :
    s.set (Int32.ofNat i) = .ok ⟨i :: s.bits⟩ := by
  rw [set, if_neg (ofNat_not_neg h), toNatClampNeg_ofNat h]

end BitSet

end QueryEngine
