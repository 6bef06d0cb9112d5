import Mathlib.Algebra.Group.Int.Defs
import QueryEngine.Library.Thrift.Protocol
import QueryEngine.Library.Varint

/-! # The compact protocol

Integers are written as varints, the number of a field as the distance from the field before it,
and the value of a boolean field in the header of the field. Readers and writers keep the last
number for every open struct. Numbers are added and subtracted in 16 bits, so a build with overflow
checks may panic. What the transport itself reports is only an error.
-/
namespace QueryEngine.Library.Thrift.Compact
set_option autoImplicit false
set_option maxHeartbeats 250000

/-! ## Types on the wire -/

def code : TType → ℕ
  | .stop => 0
  | .bool => 1
  | .i08 => 3
  | .i16 => 4
  | .i32 => 5
  | .i64 => 6
  | .double => 7
  | .string => 8
  | .list => 9
  | .set => 10
  | .map => 11
  | .struct => 12

def ofCode : ℕ → Option TType
  | 0 => some .stop
  | 1 => some .bool
  | 3 => some .i08
  | 4 => some .i16
  | 5 => some .i32
  | 6 => some .i64
  | 7 => some .double
  | 8 => some .string
  | 9 => some .list
  | 10 => some .set
  | 11 => some .map
  | 12 => some .struct
  | _ => none

theorem ofCode_code (ty : TType) : ofCode (code ty) = some ty := by
  cases ty <;> rfl

theorem code_lt (ty : TType) : code ty < 16 := by
  cases ty <;> decide

def boolCode (b : Bool) : ℕ := if b then 1 else 2

/-- Two numbers in one byte. -/
def nibbles (high low : ℕ) : UInt8 := UInt8.ofNat (16 * high + low)

theorem nibbles_high {high low : ℕ} (hhigh : high < 16) (hlow : low < 16) :
    (nibbles high low).toNat / 16 = high := by
  rw [nibbles, toNat_ofNat_of_lt (by omega)]
  omega

theorem nibbles_low {high low : ℕ} (hhigh : high < 16) (hlow : low < 16) :
    (nibbles high low).toNat % 16 = low := by
  rw [nibbles, toNat_ofNat_of_lt (by omega)]
  omega

/-! ## Machine integers -/

/-- A sum or a difference in 16 bits. -/
def checked (overflowChecks : Bool) (message : String) (n : ℤ) : Except Fault Int16 :=
  if overflowChecks ∧ (Int16.ofInt n).toInt ≠ n then .error (.panic message)
  else .ok (Int16.ofInt n)

theorem checked_of_fits (overflowChecks : Bool) (message : String) (n : Int16) :
    checked overflowChecks message n.toInt = .ok n := by
  rw [checked, Int16.ofInt_toInt, if_neg fun h => h.2 rfl]

/-- A varint is decoded in 64 bits. -/
def signed (n : ℕ) : ℤ := unzigzag (n % 2 ^ 64)

theorem signed_zigzag {n : ℤ} (hlow : -2 ^ 63 ≤ n) (hhigh : n < 2 ^ 63) :
    signed (zigzag n) = n := by
  have hlt : zigzag n < 2 ^ 64 := @zigzag_lt n (2 ^ 63) hlow hhigh
  rw [signed, Nat.mod_eq_of_lt hlt, unzigzag_zigzag]

/-! ## Headers -/

def fieldHeader (delta id : Int16) (ty : ℕ) : List UInt8 :=
  if 0 < delta ∧ delta < 15 then [nibbles delta.toNatClampNeg ty]
  else nibbles 0 ty :: writeVarint (zigzag id.toInt)

def listHeader (elem : TType) (size : ℕ) : List UInt8 :=
  if size < 15 then [nibbles size (code elem)]
  else nibbles 15 (code elem) :: writeVarint size

def mapHeader (key value : TType) (size : ℕ) : List UInt8 :=
  if size = 0 then [0] else writeVarint size ++ [nibbles (code key) (code value)]

/-! ## Objects -/

/-- The last number of the open struct and of those around it; and a boolean field whose header is
not written yet, or whose value is known from the header already. -/
structure Context (π : Type) where
  last : Int16
  stack : List Int16
  pending : Option π
  deriving DecidableEq

structure Input where
  bytes : List UInt8
  position : ℕ
  context : Context Bool

structure Output where
  bytes : List UInt8
  context : Context Int16
  deriving DecidableEq

/-! ## Reading -/

section Reading
variable (overflowChecks : Bool)

def parse {α : Type} (parser : List UInt8 → Option (α × List UInt8)) : Run Input α := fun s =>
  match parser s.bytes with
  | some (a, rest) => .ok (a, ⟨rest, s.position + (s.bytes.length - rest.length), s.context⟩)
  | none => .error (.error (.other "failed to fill whole buffer"))

def refuse {α : Type} (kind : ProtocolErrorKind) (message : String) : Run Input α := fun _ =>
  .error (.error (.protocol kind message))

def modifyContext (f : Context Bool → Context Bool) : Run Input Unit := fun s =>
  .ok ((), ⟨s.bytes, s.position, f s.context⟩)

def uncons : List UInt8 → Option (UInt8 × List UInt8)
  | [] => none
  | b :: bs => some (b, bs)

def chunk (n : ℕ) (bs : List UInt8) : Option (List UInt8 × List UInt8) :=
  if n ≤ bs.length then some (bs.take n, bs.drop n) else none

def readStructBegin : Run Input Unit :=
  modifyContext fun c => ⟨0, c.last :: c.stack, c.pending⟩

def readStructEnd : Run Input Unit := fun s =>
  match s.context.stack with
  | last :: stack => .ok ((), ⟨s.bytes, s.position, ⟨last, stack, s.context.pending⟩⟩)
  | [] => .error (.panic "should have previous field ids")

def setLast (id : Int16) : Run Input Int16 := fun s =>
  .ok (id, ⟨s.bytes, s.position, ⟨id, s.context.stack, s.context.pending⟩⟩)

/-- A field's number follows from the last one, unless it is written out. -/
def readFieldId (delta : ℕ) : Run Input Int16 := fun s =>
  if delta = 0 then (parse (readVarint 3) >>= fun n => setLast (Int16.ofInt (signed n))) s
  else
    checked overflowChecks "attempt to add with overflow" (s.context.last.toInt + delta) >>=
      fun id => setLast id s

/-- What the two halves of a header say. -/
def readField (ty delta : ℕ) : Run Input TFieldIdentifier :=
  match ty with
  | 0 => return ⟨.stop, none⟩
  | 1 => do
      modifyContext fun c => ⟨c.last, c.stack, some true⟩
      return ⟨.bool, some (← readFieldId overflowChecks delta)⟩
  | 2 => do
      modifyContext fun c => ⟨c.last, c.stack, some false⟩
      return ⟨.bool, some (← readFieldId overflowChecks delta)⟩
  | n =>
      match ofCode n with
      | some ty => return ⟨ty, some (← readFieldId overflowChecks delta)⟩
      | none => refuse .invalidData "cannot convert into TType"

def readFieldBegin : Run Input TFieldIdentifier := do
  let header ← parse uncons
  readField overflowChecks (header.toNat % 16) (header.toNat / 16)

def readBool : Run Input Bool := fun s =>
  match s.context.pending with
  | some b => .ok (b, ⟨s.bytes, s.position, ⟨s.context.last, s.context.stack, none⟩⟩)
  | none => (do
      let b ← parse uncons
      match b.toNat with
      | 1 => return true
      | 2 => return false
      | _ => refuse .invalidData "cannot convert into bool") s

def readI8 : Run Input Int8 := do return (← parse uncons).toInt8

def readI16 : Run Input Int16 := do return Int16.ofInt (signed (← parse (readVarint 3)))

def readI32 : Run Input Int32 := do return Int32.ofInt (signed (← parse (readVarint 5)))

def readI64 : Run Input Int64 := do return Int64.ofInt (signed (← parse (readVarint 10)))

def readDouble : Run Input UInt64 := do return UInt64.ofNat (fixed (← parse (chunk 8)))

/-- A size is decoded in 32 bits. -/
def readSize : Run Input ℕ := do return (← parse (readVarint 5)) % 2 ^ 32

def readBytes : Run Input (List UInt8) := do
  let n ← readSize
  parse (chunk n)

def readListSize (high : ℕ) : Run Input Int32 :=
  if high = 15 then do return Int32.ofNat (← readSize) else return Int32.ofNat high

def readListBegin : Run Input TListIdentifier := do
  let header ← parse uncons
  match ofCode (header.toNat % 16) with
  | some ty => return ⟨ty, ← readListSize (header.toNat / 16)⟩
  | none => refuse .invalidData "cannot convert into TType"

def readMapTypes (size : ℕ) : Run Input (Option (TType × TType) × Int32) := do
  let header ← parse uncons
  match ofCode (header.toNat / 16), ofCode (header.toNat % 16) with
  | some key, some value => return (some (key, value), Int32.ofNat size)
  | _, _ => refuse .invalidData "cannot convert into TType"

/-- An empty map has no types. -/
def readMapBegin : Run Input (Option (TType × TType) × Int32) := do
  let size ← readSize
  if size = 0 then return (none, 0) else readMapTypes size

/-- A text that is no UTF-8 is an error. -/
def readString : Run Input String := do
  let bytes ← readBytes
  match String.fromUTF8? ⟨bytes.toArray⟩ with
  | some s => return s
  | none => refuse .invalidData "invalid utf-8 sequence"

/-! ## Skipping -/

def skipMany (one : Run Input Unit) : ℕ → Run Input Unit
  | 0 => return ()
  | n + 1 => do
      one
      skipMany one n

def skipFields (one : TType → Run Input Unit) : ℕ → Run Input Unit
  | 0 => throw .fuel
  | n + 1 => do
      let ident ← readFieldBegin overflowChecks
      if ident.fieldType = .stop then return ()
      one ident.fieldType
      skipFields one n

/-- Every field takes a byte at least. -/
def skipStruct (one : TType → Run Input Unit) : Run Input Unit := fun s =>
  skipFields overflowChecks one (s.bytes.length + 1) s

def skip : ℕ → TType → Run Input Unit
  | 0, _ => refuse .depthLimit "cannot parse past TType"
  | _ + 1, .stop => refuse .unknown "cannot skip field type Stop"
  | _ + 1, .bool => do let _ ← readBool
  | _ + 1, .i08 => do let _ ← readI8
  | _ + 1, .i16 => do let _ ← readI16
  | _ + 1, .i32 => do let _ ← readI32
  | _ + 1, .i64 => do let _ ← readI64
  | _ + 1, .double => do let _ ← readDouble
  | _ + 1, .string => do let _ ← readString
  | depth + 1, .struct => do
      readStructBegin
      skipStruct overflowChecks (skip depth)
      readStructEnd
  | depth + 1, .list => do
      let ident ← readListBegin
      skipMany (skip depth ident.elementType) ident.size.toNatClampNeg
  | depth + 1, .set => do
      let ident ← readListBegin
      skipMany (skip depth ident.elementType) ident.size.toNatClampNeg
  | depth + 1, .map => do
      let (types, size) ← readMapBegin
      match types with
      | none => return ()
      | some (key, value) => skipMany (do skip depth key; skip depth value) size.toNatClampNeg

end Reading

def input (overflowChecks : Bool) : TInputProtocol Input where
  readStructBegin := readStructBegin
  readStructEnd := readStructEnd
  readFieldBegin := readFieldBegin overflowChecks
  readFieldEnd := pure ()
  readBool := readBool
  readBytes := readBytes
  readI8 := readI8
  readI16 := readI16
  readI32 := readI32
  readI64 := readI64
  readDouble := readDouble
  readString := readString
  readListBegin := readListBegin
  readListEnd := pure ()
  skip := skip overflowChecks 64

/-! ## Writing -/

section Writing
variable (overflowChecks : Bool)

def append (bytes : List UInt8) : Run Output Unit := fun s =>
  .ok ((), ⟨s.bytes ++ bytes, s.context⟩)

/-- Nothing but a boolean may follow the number of a boolean field. -/
def assertNoPending (p : Run Output Unit) : Run Output Unit := fun s =>
  match s.context.pending with
  | none => p s
  | some _ => .error (.panic "pending bool field was not written")

def writeFieldHeader (id : Int16) (ty : ℕ) : Run Output Unit := fun s =>
  checked overflowChecks "attempt to subtract with overflow"
      (id.toInt - s.context.last.toInt) >>= fun delta =>
    .ok ((), ⟨s.bytes ++ fieldHeader delta id ty, ⟨id, s.context.stack, s.context.pending⟩⟩)

def writeStructBegin : Run Output Unit := fun s =>
  .ok ((), ⟨s.bytes, ⟨0, s.context.last :: s.context.stack, s.context.pending⟩⟩)

def writeStructEnd : Run Output Unit := fun s =>
  match s.context.stack with
  | last :: stack => .ok ((), ⟨s.bytes, ⟨last, stack, s.context.pending⟩⟩)
  | [] => .error (.panic "should have previous field ids")

def writeFieldBegin (ty : TType) (id : Int16) : Run Output Unit := fun s =>
  if ty = .bool then
    match s.context.pending with
    | some _ => .error (.panic "should not have a pending bool while writing another bool")
    | none => .ok ((), ⟨s.bytes, ⟨s.context.last, s.context.stack, some id⟩⟩)
  else writeFieldHeader overflowChecks id (code ty) s

def writeBool (b : Bool) : Run Output Unit := fun s =>
  match s.context.pending with
  | some id =>
      writeFieldHeader overflowChecks id (boolCode b)
        ⟨s.bytes, ⟨s.context.last, s.context.stack, none⟩⟩
  | none => append [UInt8.ofNat (boolCode b)] s

def writeBytes (bytes : List UInt8) : Run Output Unit :=
  append (writeVarint (bytes.length % 2 ^ 32) ++ bytes)

/-- A size above 14 stands behind the header. -/
def writeListBegin (elem : TType) (size : Int32) : Run Output Unit :=
  if size ≤ 14 then append [nibbles (size.toInt % 16).toNat (code elem)]
  else append (nibbles 15 (code elem) :: writeVarint size.toNatClampNeg)

end Writing

def output (overflowChecks : Bool) : TOutputProtocol Output where
  writeStructBegin _ := writeStructBegin
  writeStructEnd := assertNoPending writeStructEnd
  writeFieldBegin _ ty id := writeFieldBegin overflowChecks ty id
  writeFieldEnd := assertNoPending (pure ())
  writeFieldStop := assertNoPending (append [0])
  writeBool := writeBool overflowChecks
  writeBytes := writeBytes
  writeI8 n := append [n.toUInt8]
  writeI16 n := append (writeVarint (zigzag n.toInt))
  writeI32 n := append (writeVarint (zigzag n.toInt))
  writeI64 n := append (writeVarint (zigzag n.toInt))
  writeDouble bits := append (writeFixed 8 bits.toNat)
  writeString s := writeBytes (utf8 s)
  writeListBegin := writeListBegin
  writeListEnd := pure ()

end QueryEngine.Library.Thrift.Compact
