import Mathlib.Algebra.Group.Nat.Defs
import Mathlib.Tactic.Common

/-! # Integers of few bytes

A natural number in groups of seven bits, the least significant first, all but the last with the
high bit set; a signed integer as the natural number that interleaves the two signs; and a number
in a fixed count of bytes. What is read of each is what was written, whatever follows.
-/
namespace QueryEngine.Library
set_option autoImplicit false
set_option maxHeartbeats 250000

/-! ## Groups of seven bits -/

/-- There are no more groups than the number says. -/
def writeGroups : ℕ → ℕ → List UInt8
  | 0, n => [UInt8.ofNat n]
  | rounds + 1, n =>
      if n < 128 then [UInt8.ofNat n]
      else UInt8.ofNat (n % 128 + 128) :: writeGroups rounds (n / 128)

def writeVarint (n : ℕ) : List UInt8 := writeGroups n n

/-- At most `limit` groups are read. -/
def readVarint : ℕ → List UInt8 → Option (ℕ × List UInt8)
  | 0, _ => none
  | _ + 1, [] => none
  | limit + 1, b :: bs =>
      if b.toNat < 128 then some (b.toNat, bs)
      else (readVarint limit bs).map fun out => (b.toNat - 128 + 128 * out.1, out.2)

theorem toNat_ofNat_of_lt {n : ℕ} (h : n < 256) : (UInt8.ofNat n).toNat = n := by
  rw [UInt8.toNat_ofNat']
  exact Nat.mod_eq_of_lt h

theorem readVarint_writeGroups {limit rounds n : ℕ} (h : n < 128 ^ (limit + 1))
    (hrounds : n ≤ rounds) (rest : List UInt8) :
    readVarint (limit + 1) (writeGroups rounds n ++ rest) = some (n, rest) := by
  induction rounds generalizing limit n with
  | zero =>
    rw [writeGroups, List.singleton_append, readVarint, toNat_ofNat_of_lt (by omega),
      if_pos (by omega)]
  | succ rounds ih =>
    rw [writeGroups]
    split
    · rename_i hn
      rw [List.singleton_append, readVarint, toNat_ofNat_of_lt (by omega), if_pos hn]
    · rename_i hn
      obtain ⟨limit, rfl⟩ : ∃ m, limit = m + 1 := by
        refine Nat.exists_eq_add_one.mpr (Nat.pos_of_ne_zero ?_)
        rintro rfl
        rw [Nat.zero_add, Nat.pow_one] at h
        exact hn h
      have hsmall : n / 128 < 128 ^ (limit + 1) := by
        rw [Nat.div_lt_iff_lt_mul (by decide), ← Nat.pow_succ]
        exact h
      rw [List.cons_append, readVarint, toNat_ofNat_of_lt (by omega), if_neg (by omega),
        ih hsmall (by omega), Option.map_some]
      congr 2
      omega

theorem readVarint_writeVarint {limit n : ℕ} (h : n < 128 ^ (limit + 1)) (rest : List UInt8) :
    readVarint (limit + 1) (writeVarint n ++ rest) = some (n, rest) :=
  readVarint_writeGroups h (Nat.le_refl n) rest

/-! ## Signed integers -/

def zigzag (n : ℤ) : ℕ := if 0 ≤ n then 2 * n.toNat else 2 * (-n).toNat - 1

def unzigzag (n : ℕ) : ℤ := if n % 2 = 0 then (n / 2 : ℕ) else -((n / 2 : ℕ) + 1)

theorem unzigzag_zigzag (n : ℤ) : unzigzag (zigzag n) = n := by
  unfold zigzag unzigzag
  split <;> split <;> omega

theorem zigzag_lt {n : ℤ} {bound : ℕ} (hlow : -bound ≤ n) (hhigh : n < bound) :
    zigzag n < 2 * bound := by
  unfold zigzag
  split <;> omega

/-! ## A fixed count of bytes -/

def writeFixed : ℕ → ℕ → List UInt8
  | 0, _ => []
  | count + 1, n => UInt8.ofNat n :: writeFixed count (n / 256)

def fixed : List UInt8 → ℕ
  | [] => 0
  | b :: bs => b.toNat + 256 * fixed bs

theorem writeFixed_length (count n : ℕ) : (writeFixed count n).length = count := by
  induction count generalizing n with
  | zero => rfl
  | succ count ih => rw [writeFixed, List.length_cons, ih]

theorem fixed_writeFixed {count n : ℕ} (h : n < 256 ^ count) : fixed (writeFixed count n) = n := by
  induction count generalizing n with
  | zero =>
    rw [Nat.pow_zero] at h
    rw [writeFixed, fixed]
    omega
  | succ count ih =>
    have hsmall : n / 256 < 256 ^ count := by
      rw [Nat.div_lt_iff_lt_mul (by decide), ← Nat.pow_succ]
      exact h
    rw [writeFixed, fixed, ih hsmall, UInt8.toNat_ofNat']
    exact Nat.mod_add_div n 256

end QueryEngine.Library
