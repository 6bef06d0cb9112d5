import QueryEngine.Library.StoppingFold
import QueryEngine.Model.Serial

/-! # What a serialiser means on the wire

Apart from protocols and loops: a value has an image on the wire, `encode`, and a wire value is read
as a result, `Decodes`. A struct takes its fields one after another, whatever their order; a number
that its table does not have is passed over, and of two fields with one number the later is kept.
`Later` is what a newer writer may make of an older one's value.
-/
namespace QueryEngine.ParquetParser
open Library Library.Thrift
set_option autoImplicit false
set_option maxHeartbeats 250000

/-! ## Images -/

mutual

/-- Every list, text and byte string is short enough for a 32-bit size. -/
def Serial.Fits {α : Type} : Serial α → α → Prop
  | .string, s => (utf8 s).length < 2 ^ 31
  | .bytes, bs => bs.length < 2 ^ 31
  | .vec _ elem, xs => xs.length < 2 ^ 31 ∧ ∀ x ∈ xs, elem.Fits x
  | .struct _ fields view _ _, a => fields.Fits (view a)
  | .union _ variants _, a => variants.Fits a
  | _, _ => True

def Fields.Fits {ids : List Int16} {L R : Type} : Fields ids L R → R → Prop
  | .nil, _ => True
  | .field _ _ presence serial rest _, (stored, values) =>
      (∀ value ∈ presence.present stored, serial.Fits value) ∧ rest.Fits values

def Variants.Fits {υ : Type} {ids : List Int16} {guards : List (υ → Bool)} :
    Variants υ ids guards → υ → Prop
  | .nil, _ => True
  | .variant _ _ serial _ project rest _ _, u =>
      (∀ f ∈ project u, serial.Fits f) ∧ rest.Fits u

end

mutual

def Serial.encode {α : Type} : Serial α → α → Wire
  | .bool, b => .bool b
  | .i8, n => .i08 n
  | .i16, n => .i16 n
  | .i32, n => .i32 n
  | .i64, n => .i64 n
  | .double, bits => .double bits
  | .string, s => .binary (utf8 s)
  | .bytes, bs => .binary bs
  | .enumeration _ code _, a => .i32 (code a)
  | .vec _ elem, xs => .sequence .list elem.ttype (xs.map elem.encode)
  | .marker _ _ _, _ => .struct []
  | .struct _ fields view _ _, a => .struct (fields.encode (view a))
  | .union _ variants _, a => .struct (variants.encode a)

def Fields.encode {ids : List Int16} {L R : Type} : Fields ids L R → R → List (Int16 × Wire)
  | .nil, _ => []
  | .field id _ presence serial rest _, (stored, values) =>
      match presence.present stored with
      | some value => (id, serial.encode value) :: rest.encode values
      | none => rest.encode values

def Variants.encode {υ : Type} {ids : List Int16} {guards : List (υ → Bool)} :
    Variants υ ids guards → υ → List (Int16 × Wire)
  | .nil, _ => []
  | .variant id _ serial _ project rest _ _, u =>
      match project u with
      | some f => [(id, serial.encode f)]
      | none => rest.encode u

end

mutual

/-- The most fields of any struct that is written. -/
def Serial.width {α : Type} : Serial α → ℕ
  | .vec _ elem => elem.width
  | @Serial.struct _ _ _ ids _ fields _ _ _ => max ids.length fields.width
  | .union _ variants _ => max 1 variants.width
  | _ => 0

def Fields.width {ids : List Int16} {L R : Type} : Fields ids L R → ℕ
  | .nil => 0
  | .field _ _ _ serial rest _ => max serial.width rest.width

def Variants.width {υ : Type} {ids : List Int16} {guards : List (υ → Bool)} :
    Variants υ ids guards → ℕ
  | .nil => 0
  | .variant _ _ serial _ _ rest _ _ => max serial.width rest.width

end

/-! ## Results -/

/-- What one field of a struct does to the variables of the reader. -/
def Fields.Step {ids : List Int16} {L R : Type} (_ : Fields ids L R)
    (stores : Int16 → Wire → L → Except Fault L → Prop) (f : Int16 × Wire) (locals : L)
    (r : Except Fault L) : Prop :=
  stores f.1 f.2 locals r ∨ (f.1 ∉ ids ∧ Wire.SkippableField f ∧ r = .ok locals)

/-- What one field of a union does to what was received. -/
def Variants.Step {υ : Type} {ids : List Int16} {guards : List (υ → Bool)} (rt : Runtime)
    (_ : Variants υ ids guards) (picks : Int16 → Wire → Except Fault υ → Prop) (f : Int16 × Wire)
    (received : Option υ × Int32) (r : Except Fault (Option υ × Int32)) : Prop :=
  (∃ picked, picks f.1 f.2 picked ∧ r = do
    let val ← picked
    return (received.1.or (some val), ← countField rt received.2)) ∨
  (f.1 ∉ ids ∧ Wire.SkippableField f ∧ r = do return (received.1, ← countField rt received.2))

/-- What is made of the variables after the loop. -/
def Fields.finish {ids : List Int16} {L R : Type} (rt : Runtime) (fields : Fields ids L R)
    (locals : L) : Except Fault R := do
  fields.verify rt locals
  fields.assemble locals

mutual

def Serial.Decodes {α : Type} (rt : Runtime) : Serial α → Wire → Except Fault α → Prop
  | .bool, w, r => ∃ b, w = .bool b ∧ r = .ok b
  | .i8, w, r => ∃ n, w = .i08 n ∧ r = .ok n
  | .i16, w, r => ∃ n, w = .i16 n ∧ r = .ok n
  | .i32, w, r => ∃ n, w = .i32 n ∧ r = .ok n
  | .i64, w, r => ∃ n, w = .i64 n ∧ r = .ok n
  | .double, w, r => ∃ bits, w = .double bits ∧ r = .ok bits
  | .string, w, r => ∃ s, w = .binary (utf8 s) ∧ r = .ok s
  | .bytes, w, r => ∃ bs, w = .binary bs ∧ r = .ok bs
  | .enumeration fromI32 _ _, w, r => ∃ n, w = .i32 n ∧ r = .ok (fromI32 n)
  | .vec _ elem, w, r => ∃ ty ws, w = .sequence .list ty ws ∧ ws.length < 2 ^ 31 ∧
      Collects (elem.Decodes rt) ws r
  | .marker _ value _, w, r => ∃ ws, w = .struct ws ∧ (∀ f ∈ ws, Wire.SkippableField f) ∧
      r = .ok value
  | .struct _ fields _ build _, w, r => ∃ ws stored, w = .struct ws ∧
      Folds (fields.Step (fields.Stores rt)) ws fields.locals stored ∧
      r = build <$> (stored >>= fields.finish rt)
  | .union name variants _, w, r => ∃ ws received, w = .struct ws ∧
      Folds (variants.Step rt (variants.Picks rt)) ws (none, 0) received ∧
      r = received >>= unionResult name

/-- A field whose number is in the table. -/
def Fields.Stores {ids : List Int16} {L R : Type} (rt : Runtime) :
    Fields ids L R → Int16 → Wire → L → Except Fault L → Prop
  | .nil, _, _, _, _ => False
  | .field id _ _ serial rest _, k, w, (slot, locals), r =>
      if k = id then ∃ value, serial.Decodes rt w value ∧ r = (some ·, locals) <$> value
      else ∃ stored, rest.Stores rt k w locals stored ∧ r = (slot, ·) <$> stored

def Variants.Picks {υ : Type} {ids : List Int16} {guards : List (υ → Bool)} (rt : Runtime) :
    Variants υ ids guards → Int16 → Wire → Except Fault υ → Prop
  | .nil, _, _, _ => False
  | .variant id _ serial inject _ rest _ _, k, w, r =>
      if k = id then ∃ value, serial.Decodes rt w value ∧ r = inject <$> value
      else rest.Picks rt k w r

end

/-! ## Later versions -/

/-- The fields of a struct, possibly rewritten one by one, some added whose numbers are not in the
table, in any order. -/
def Fields.Evolves {ids : List Int16} {L R : Type} (_ : Fields ids L R)
    (laterAt : Int16 → Wire → Wire → Prop) (ws ws' : List (Int16 × Wire)) : Prop :=
  ∃ kept added, List.Forall₂ (fun f f' => f'.1 = f.1 ∧ laterAt f.1 f.2 f'.2) ws kept ∧
    (∀ f ∈ added, f.1 ∉ ids ∧ Wire.SkippableField f) ∧ ws'.Perm (kept ++ added)

mutual

/-- What a writer may send that knows more fields than the table: in every struct, at any depth, it
adds fields of its own and keeps no order. No number is used twice, and a union keeps its
variant. -/
def Serial.Later {α : Type} : Serial α → Wire → Wire → Prop
  | .vec _ elem, w, w' => ∃ ty ws ws', w = .sequence .list ty ws ∧ w' = .sequence .list ty ws' ∧
      List.Forall₂ elem.Later ws ws'
  | .marker _ _ _, w, w' => ∃ ws ws', w = .struct ws ∧ w' = .struct ws' ∧
      ∀ f ∈ ws', Wire.SkippableField f
  | .struct _ fields _ _ _, w, w' => ∃ ws ws', w = .struct ws ∧ w' = .struct ws' ∧
      (ws.map Prod.fst).Nodup ∧ fields.Evolves fields.LaterAt ws ws'
  | .union _ variants _, w, w' => ∃ ws ws', w = .struct ws ∧ w' = .struct ws' ∧
      List.Forall₂ (fun f f' => f'.1 = f.1 ∧ variants.LaterAt f.1 f.2 f'.2) ws ws'
  | _, w, w' => w = w'

def Fields.LaterAt {ids : List Int16} {L R : Type} : Fields ids L R → Int16 → Wire → Wire → Prop
  | .nil, _, w, w' => w = w'
  | .field id _ _ serial rest _, k, w, w' =>
      if k = id then serial.Later w w' else rest.LaterAt k w w'

def Variants.LaterAt {υ : Type} {ids : List Int16} {guards : List (υ → Bool)} :
    Variants υ ids guards → Int16 → Wire → Wire → Prop
  | .nil, _, w, w' => w = w'
  | .variant id _ serial _ _ rest _ _, k, w, w' =>
      if k = id then serial.Later w w' else rest.LaterAt k w w'

end

end QueryEngine.ParquetParser
