import Mathlib.Data.Nat.Digits.Defs

/-! # The footer of a Parquet file (the crate `parquet-parser`)

`usize` values are natural numbers below `2 ^ pointerWidth`, and unchecked arithmetic panics or
wraps with the build profile. A function that may panic answers in `Rust`, one that returns
`anyhow::Result` in `Result`, with the text of the error. The crate `bytes` and the Thrift decoder
are not part of the repository: they are parameters, and `Documented` is what their documentation
says of the two functions that are called.
-/
namespace QueryEngine.ParquetParser
set_option autoImplicit false
set_option maxHeartbeats 250000

inductive Panic
  | overflow | sliceIndex
  deriving DecidableEq

abbrev Rust (α : Type) := Except Panic α

/-- `anyhow::Result`, an error standing for its text. -/
abbrev Result (α : Type) := Except String α

/-! ## The target -/

/-- What the program is compiled for; `std` needs pointers of at least 32 bits. -/
structure Target where
  pointerWidth : ℕ
  wide : 32 ≤ pointerWidth
  overflowChecks : Bool

namespace Target

def add (t : Target) (a b : ℕ) : Rust ℕ :=
  if a + b < 2 ^ t.pointerWidth then .ok (a + b)
  else if t.overflowChecks then .error .overflow
  else .ok ((a + b) % 2 ^ t.pointerWidth)

def sub (t : Target) (a b : ℕ) : Rust ℕ :=
  if b ≤ a then .ok (a - b)
  else if t.overflowChecks then .error .overflow
  else .ok ((a + 2 ^ t.pointerWidth - b) % 2 ^ t.pointerWidth)

/-- `as usize`. -/
def asUsize (t : Target) (n : ℕ) : ℕ := n % 2 ^ t.pointerWidth

end Target

/-- A byte buffer; none is longer than `isize::MAX`. -/
structure Bytes (t : Target) where
  elems : List UInt8
  size_lt : elems.length < 2 ^ (t.pointerWidth - 1)

def Bytes.len {t : Target} (data : Bytes t) : ℕ := data.elems.length

/-- `&bs[start..stop]` on a byte slice. -/
def index (bs : List UInt8) (start stop : ℕ) : Rust (List UInt8) :=
  if start ≤ stop ∧ stop ≤ bs.length then .ok ((bs.drop start).take (stop - start))
  else .error .sliceIndex

/-! ## The crate `bytes` -/

structure BytesCrate (t : Target) where
  /-- `Bytes::slice(start..stop)`. -/
  slice : Bytes t → ℕ → ℕ → Rust (Bytes t)
  /-- `Buf::get_u32_le` on a byte slice. -/
  getU32Le : List UInt8 → Rust UInt32

def littleEndian (bs : List UInt8) : ℕ := Nat.ofDigits 256 (bs.map UInt8.toNat)

/-- `slice` answers the bytes of a range inside the buffer and panics on any other; `get_u32_le`
reads the first four bytes, the least significant first. -/
structure BytesCrate.Documented {t : Target} (lib : BytesCrate t) : Prop where
  slice_inside : ∀ data start stop, start ≤ stop → stop ≤ data.len →
    ∃ out, lib.slice data start stop = .ok out ∧
      out.elems = (data.elems.drop start).take (stop - start)
  slice_outside : ∀ data start stop, ¬ (start ≤ stop ∧ stop ≤ data.len) →
    ∃ panic, lib.slice data start stop = .error panic
  get_u32_le : ∀ bs, 4 ≤ bs.length →
    ∃ n, lib.getU32Le bs = .ok n ∧ n.toNat = littleEndian (bs.take 4)

/-! ## magic.rs -/

/-- `b"PAR1"`. -/
def magic : List UInt8 := [80, 65, 82, 49]

def ensureHeaderFooterMagic {t : Target} (data : Bytes t) : Result Unit :=
  if data.len < 8 || !magic.isPrefixOf data.elems || !magic.isSuffixOf data.elems then
    .error "Magic: not a parquet file"
  else .ok ()

/-! ## thrift.rs -/

section Metadata
variable {t : Target} (lib : BytesCrate t) {α : Type}
  (readFromInProtocol : List UInt8 → Result (α × ℕ))

/-- The decoder answers a value and the position of its cursor. -/
def readThriftMetadata (data : Bytes t) : Rust (Result (α × Bytes t)) :=
  match readFromInProtocol data.elems with
  | .error e => .ok (.error e)
  | .ok (decoded, position) => do
      let remaining ← lib.slice data (t.asUsize position) data.len
      return .ok (decoded, remaining)

/-! ## file_metadata.rs -/

/-- The bytes that are handed to the decoder. -/
def metaBytes (data : Bytes t) : Rust (Bytes t) := do
  let start ← t.sub data.len 8
  let word ← index data.elems start (← t.add start 4)
  let metaLen := t.asUsize (← lib.getU32Le word).toNat
  lib.slice data (← t.sub start metaLen) start

def readFileMetadata (data : Bytes t) : Rust (Result α) := do
  let result ← readThriftMetadata lib readFromInProtocol (← metaBytes lib data)
  return result.map Prod.fst

end Metadata

end QueryEngine.ParquetParser
