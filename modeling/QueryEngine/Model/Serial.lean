import QueryEngine.Library.Thrift.Protocol

/-! # The generated serialisers (format.rs)

`format.rs` is what the Thrift compiler makes of a list of types, so its `impl TSerializable`
blocks differ in their tables only. A `Serial α` is such a table, and
`readFromInProtocol` and `writeToOutProtocol` are the two functions generated from it: a loop over
the fields that arrive, then a check that none of the required ones is missing. A table carries the
proofs that it is one: no number is negative or given twice, and every value of a type is covered.
-/
namespace QueryEngine.ParquetParser
open Library.Thrift
set_option autoImplicit false
set_option maxHeartbeats 250000

/-! ## Tables -/

/-- A required field has the path that is named when it is missing. -/
inductive Presence
  | required (path : String)
  | optional

@[reducible] def Presence.Val : Presence → Type → Type
  | .required _, α => α
  | .optional, α => Option α

mutual

/-- `zeroSized` is a type whose values take no memory, and a `marker` is a struct without fields. -/
inductive Serial : Type → Type 1
  | bool : Serial Bool
  | i8 : Serial Int8
  | i16 : Serial Int16
  | i32 : Serial Int32
  | i64 : Serial Int64
  | double : Serial UInt64
  | string : Serial String
  | bytes : Serial (List UInt8)
  | enumeration {α : Type} (fromI32 : Int32 → α) (code : α → Int32)
      (from_code : ∀ a, fromI32 (code a) = a) : Serial α
  | vec {α : Type} (zeroSized : Bool) (elem : Serial α) : Serial (List α)
  | marker {α : Type} (name : String) (value : α) (only : ∀ a, value = a) : Serial α
  | struct {α L R : Type} {ids : List Int16} (name : String) (fields : Fields ids L R)
      (view : α → R) (build : R → α) (build_view : ∀ a, build (view a) = a) : Serial α
  | union {α : Type} {ids : List Int16} {guards : List (α → Bool)} (name : String)
      (variants : Variants α ids guards) (covered : ∀ a, (guards.any fun guard => guard a) = true) :
      Serial α

/-- The fields of a struct: their numbers, the variables `f_1`, `f_2`, .. of its reader, and what
the struct stores. -/
inductive Fields : List Int16 → Type → Type → Type 1
  | nil : Fields [] Unit Unit
  | field {α L R : Type} {ids : List Int16} (id : Int16) (name : String) (presence : Presence)
      (serial : Serial α) (rest : Fields ids L R) (fresh : 0 ≤ id ∧ id ∉ ids) :
      Fields (id :: ids) (Option α × L) (presence.Val α × R)

/-- The variants of a union: their numbers, and which values of the union each of them is. -/
inductive Variants : (υ : Type) → List Int16 → List (υ → Bool) → Type 1
  | nil {υ : Type} : Variants υ [] []
  | variant {υ α : Type} {ids : List Int16} {guards : List (υ → Bool)} (id : Int16) (name : String)
      (serial : Serial α) (inject : α → υ) (project : υ → Option α) (rest : Variants υ ids guards)
      (inject_of_project : ∀ u a, project u = some a → inject a = u)
      (fresh : 0 ≤ id ∧ id ∉ ids) :
      Variants υ (id :: ids) ((fun u => (project u).isSome) :: guards)

end

abbrev Fields.required {α L R : Type} {ids : List Int16} (id : Int16) (name path : String)
    (serial : Serial α) (rest : Fields ids L R) (fresh : 0 ≤ id ∧ id ∉ ids := by decide) :
    Fields (id :: ids) (Option α × L) (α × R) :=
  .field id name (.required path) serial rest fresh

abbrev Fields.optional {α L R : Type} {ids : List Int16} (id : Int16) (name : String)
    (serial : Serial α) (rest : Fields ids L R) (fresh : 0 ≤ id ∧ id ∉ ids := by decide) :
    Fields (id :: ids) (Option α × L) (Option α × R) :=
  .field id name .optional serial rest fresh

abbrev Variants.cons {υ α : Type} {ids : List Int16} {guards : List (υ → Bool)} (id : Int16)
    (name : String) (serial : Serial α) (inject : α → υ) (project : υ → Option α)
    (rest : Variants υ ids guards)
    (inject_of_project : ∀ u a, project u = some a → inject a = u := by
      intro u a h; cases u <;> cases h <;> rfl)
    (fresh : 0 ≤ id ∧ id ∉ ids := by decide) :
    Variants υ (id :: ids) ((fun u => (project u).isSome) :: guards) :=
  .variant id name serial inject project rest inject_of_project fresh

/-- The type that a field of this type is announced with. -/
def Serial.ttype {α : Type} : Serial α → TType
  | .bool => .bool
  | .i8 => .i08
  | .i16 => .i16
  | .i32 => .i32
  | .i64 => .i64
  | .double => .double
  | .string => .string
  | .bytes => .string
  | .enumeration _ _ _ => .i32
  | .vec _ _ => .list
  | .marker _ _ _ => .struct
  | .struct _ _ _ _ _ => .struct
  | .union _ _ _ => .struct

/-! ## Reading -/

/-- What the code runs with: the rounds granted to a loop, whether arithmetic is checked, and the
errors that the crate `thrift` makes itself. -/
structure Runtime where
  rounds : ℕ
  overflowChecks : Bool
  missingFieldId : TFieldIdentifier → Error
  missingRequiredField : String → Error

/-- What is documented of the errors: a missing field is named. -/
structure Runtime.Documented (rt : Runtime) : Prop where
  missingRequiredField : ∀ path,
    rt.missingRequiredField path = .protocol .unknown ("missing required field " ++ path)

section Reading
variable {σ : Type} (i : TInputProtocol σ) (rt : Runtime)

/-- `field_id(&field_ident)?`. -/
def fieldId (ident : TFieldIdentifier) : Run σ Int16 :=
  match ident.id with
  | some id => return id
  | none => throw (.error (rt.missingFieldId ident))

/-- The loop that every reader of fields runs, `arm` being the body of its `match`. -/
def fieldLoop {L : Type} (arm : TFieldIdentifier → L → Run σ L) : ℕ → L → Run σ L
  | 0, _ => throw .fuel
  | n + 1, locals => do
      let ident ← i.readFieldBegin
      if ident.fieldType = .stop then return locals
      let locals ← arm ident locals
      i.readFieldEnd
      fieldLoop arm n locals

/-- `Vec::with_capacity(size as usize)`, which no negative size survives. -/
def withCapacity (zeroSized : Bool) (size : Int32) : Run σ Unit :=
  if size < 0 ∧ !zeroSized then throw (.panic "capacity overflow") else return ()

/-- `for _ in 0..n { val.push(elem) }`. -/
def readElems {α : Type} (elem : Run σ α) : ℕ → Run σ (List α)
  | 0 => return []
  | n + 1 => do
      let x ← elem
      let xs ← readElems elem n
      return x :: xs

/-- `received_field_count += 1`. -/
def countField (count : Int32) : Except Fault Int32 :=
  if count = Int32.maxValue ∧ rt.overflowChecks then
    .error (.panic "attempt to add with overflow")
  else .ok (count + 1)

/-- The variables of a reader before its loop. -/
def Fields.locals {ids : List Int16} {L R : Type} : Fields ids L R → L
  | .nil => ()
  | .field _ _ _ _ rest _ => (none, rest.locals)

/-- `verify_required_field_exists(path, &f_k)?`, field by field. -/
def Fields.verify {ids : List Int16} {L R : Type} : Fields ids L R → L → Except Fault Unit
  | .nil, _ => .ok ()
  | .field _ _ (.required path) _ _ _, (none, _) => .error (.error (rt.missingRequiredField path))
  | .field _ _ (.required _) _ rest _, (some _, locals) => rest.verify locals
  | .field _ _ .optional _ rest _, (_, locals) => rest.verify locals

/-- The struct literal, where a required variable is expected to be set. -/
def Fields.assemble {ids : List Int16} {L R : Type} : Fields ids L R → L → Except Fault R
  | .nil, _ => .ok ()
  | .field _ _ (.required _) _ rest _, (some value, locals) => do
      return (value, ← rest.assemble locals)
  | .field _ _ (.required _) _ _ _, (none, _) =>
      .error (.panic "auto-generated code should have checked for presence of required fields")
  | .field _ _ .optional _ rest _, (value, locals) => do
      return (value, ← rest.assemble locals)

/-- The `match` of a struct on the number of a field. -/
def matchField {L : Type} (arm : Int16 → L → Option (Run σ L)) (ident : TFieldIdentifier)
    (locals : L) : Run σ L := do
  match arm (← fieldId rt ident) locals with
  | some store => store
  | none => do
      i.skip ident.fieldType
      return locals

/-- The `match` of a union, with `ret` and `received_field_count`: the first value is kept, and
every field is counted. -/
def matchVariant {υ : Type} (arm : Int16 → Option (Run σ υ)) (ident : TFieldIdentifier)
    (received : Option υ × Int32) : Run σ (Option υ × Int32) := do
  match arm (← fieldId rt ident) with
  | some read => do
      let val ← read
      return (received.1.or (some val), ← countField rt received.2)
  | none => do
      i.skip ident.fieldType
      return (received.1, ← countField rt received.2)

/-- What follows the loop of a union. -/
def unionResult {υ : Type} (name : String) : Option υ × Int32 → Except Fault υ
  | (ret, count) =>
      if count = 0 then
        .error (.error (.protocol .invalidData ("received empty union from remote " ++ name)))
      else if 1 < count then
        .error (.error (.protocol .invalidData
          ("received multiple fields for union from remote " ++ name)))
      else
        match ret with
        | some value => .ok value
        | none => .error (.panic "return value should have been constructed")

mutual

def Serial.readFromInProtocol {α : Type} : Serial α → Run σ α
  | .bool => i.readBool
  | .i8 => i.readI8
  | .i16 => i.readI16
  | .i32 => i.readI32
  | .i64 => i.readI64
  | .double => i.readDouble
  | .string => i.readString
  | .bytes => i.readBytes
  | .enumeration fromI32 _ _ => do return fromI32 (← i.readI32)
  | .vec zeroSized elem => do
      let ident ← i.readListBegin
      withCapacity zeroSized ident.size
      let val ← readElems elem.readFromInProtocol ident.size.toNatClampNeg
      i.readListEnd
      return val
  | .marker _ value _ => do
      i.readStructBegin
      fieldLoop i (fun ident _ => i.skip ident.fieldType) rt.rounds ()
      i.readStructEnd
      return value
  | .struct _ fields _ build _ => do
      i.readStructBegin
      let locals ← fieldLoop i (matchField i rt fun k => fields.arm k) rt.rounds fields.locals
      i.readStructEnd
      fields.verify rt locals
      return build (← fields.assemble locals)
  | .union name variants _ => do
      i.readStructBegin
      let received ← fieldLoop i (matchVariant i rt fun k => variants.arm k) rt.rounds (none, 0)
      i.readStructEnd
      unionResult name received

/-- The arm of the `match` for a field number, if there is one: `f_k = Some(val)`. -/
def Fields.arm {ids : List Int16} {L R : Type} : Fields ids L R → Int16 → L → Option (Run σ L)
  | .nil, _, _ => none
  | .field id _ _ serial rest _, k, (slot, locals) =>
      if k = id then some do return (some (← serial.readFromInProtocol), locals)
      else (rest.arm k locals).map fun store => do return (slot, ← store)

def Variants.arm {υ : Type} {ids : List Int16} {guards : List (υ → Bool)} :
    Variants υ ids guards → Int16 → Option (Run σ υ)
  | .nil, _ => none
  | .variant id _ serial inject _ rest _ _, k =>
      if k = id then some do return inject (← serial.readFromInProtocol)
      else rest.arm k

end

end Reading

/-! ## Writing -/

section Writing
variable {τ : Type} (o : TOutputProtocol τ)

/-- What a struct stores in a field, if anything is to be written. -/
def Presence.present {α : Type} : (p : Presence) → p.Val α → Option α
  | .required _, value => some value
  | .optional, value => value

def writeElems {α : Type} (elem : α → Run τ Unit) : List α → Run τ Unit
  | [] => return ()
  | x :: xs => do
      elem x
      writeElems elem xs

mutual

def Serial.writeToOutProtocol {α : Type} : Serial α → α → Run τ Unit
  | .bool, b => o.writeBool b
  | .i8, n => o.writeI8 n
  | .i16, n => o.writeI16 n
  | .i32, n => o.writeI32 n
  | .i64, n => o.writeI64 n
  | .double, bits => o.writeDouble bits
  | .string, s => o.writeString s
  | .bytes, bs => o.writeBytes bs
  | .enumeration _ code _, a => o.writeI32 (code a)
  | .vec _ elem, xs => do
      o.writeListBegin elem.ttype (Int32.ofNat xs.length)
      writeElems elem.writeToOutProtocol xs
      o.writeListEnd
  | .marker name _ _, _ => do
      o.writeStructBegin name
      o.writeFieldStop
      o.writeStructEnd
  | .struct name fields view _ _, a => do
      o.writeStructBegin name
      fields.write (view a)
      o.writeFieldStop
      o.writeStructEnd
  | .union name variants _, a => do
      o.writeStructBegin name
      variants.write a
      o.writeFieldStop
      o.writeStructEnd

def Fields.write {ids : List Int16} {L R : Type} : Fields ids L R → R → Run τ Unit
  | .nil, _ => return ()
  | .field id name presence serial rest _, (stored, values) => do
      match presence.present stored with
      | some value => do
          o.writeFieldBegin name serial.ttype id
          serial.writeToOutProtocol value
          o.writeFieldEnd
      | none => pure ()
      rest.write values

def Variants.write {υ : Type} {ids : List Int16} {guards : List (υ → Bool)} :
    Variants υ ids guards → υ → Run τ Unit
  | .nil, _ => return ()
  | .variant id name serial _ project rest _ _, u =>
      match project u with
      | some f => do
          o.writeFieldBegin name serial.ttype id
          serial.writeToOutProtocol f
          o.writeFieldEnd
      | none => rest.write u

end

end Writing

end QueryEngine.ParquetParser
