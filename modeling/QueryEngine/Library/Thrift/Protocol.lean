import QueryEngine.Library.Thrift.Wire

/-! # Protocol objects

The two traits through which generated code reads and writes, as records of state-passing
functions, and what their documentation promises: a reader takes the tokens of what it is asked
for, a writer appends them. Programs over a protocol are then composed by rules of their own: a
program consumes a word of tokens, or emits one.
-/
namespace QueryEngine.Library.Thrift
set_option autoImplicit false
set_option maxHeartbeats 250000

inductive ProtocolErrorKind
  | unknown | invalidData | negativeSize | sizeLimit | badVersion | notImplemented | depthLimit
  deriving DecidableEq

/-- `thrift::Error`; what the generated code does not construct itself is only a text. -/
inductive Error
  | protocol (kind : ProtocolErrorKind) (message : String)
  | other (message : String)
  deriving DecidableEq

/-- Ways not to return a value; `fuel` is a loop that has not ended within the rounds granted. -/
inductive Fault
  | error (e : Error)
  | panic (message : String)
  | fuel
  deriving DecidableEq

abbrev Run (σ α : Type) := StateT σ (Except Fault) α

structure TFieldIdentifier where
  fieldType : TType
  id : Option Int16

structure TListIdentifier where
  elementType : TType
  size : Int32

structure TInputProtocol (σ : Type) where
  readStructBegin : Run σ Unit
  readStructEnd : Run σ Unit
  readFieldBegin : Run σ TFieldIdentifier
  readFieldEnd : Run σ Unit
  readBool : Run σ Bool
  readBytes : Run σ (List UInt8)
  readI8 : Run σ Int8
  readI16 : Run σ Int16
  readI32 : Run σ Int32
  readI64 : Run σ Int64
  readDouble : Run σ UInt64
  readString : Run σ String
  readListBegin : Run σ TListIdentifier
  readListEnd : Run σ Unit
  skip : TType → Run σ Unit

structure TOutputProtocol (τ : Type) where
  writeStructBegin : String → Run τ Unit
  writeStructEnd : Run τ Unit
  writeFieldBegin : String → TType → Int16 → Run τ Unit
  writeFieldEnd : Run τ Unit
  writeFieldStop : Run τ Unit
  writeBool : Bool → Run τ Unit
  writeBytes : List UInt8 → Run τ Unit
  writeI8 : Int8 → Run τ Unit
  writeI16 : Int16 → Run τ Unit
  writeI32 : Int32 → Run τ Unit
  writeI64 : Int64 → Run τ Unit
  writeDouble : UInt64 → Run τ Unit
  writeString : String → Run τ Unit
  writeListBegin : TType → Int32 → Run τ Unit
  writeListEnd : Run τ Unit

/-! ## Programs that read -/

section Reading
variable {σ α β : Type}

/-- A program that takes exactly the word `ts` from any state that shows it first, and answers `r`.
After a failure there is no state left to speak of. `Shows s ts stop` is what a protocol object in
the state `s` still presents, up to the position `stop`. -/
def Consumes (Shows : σ → List Token → ℕ → Prop) (p : Run σ α) (ts : List Token) :
    Except Fault α → Prop
  | .ok a => ∀ s more stop, Shows s (ts ++ more) stop → ∃ s', p s = .ok (a, s') ∧ Shows s' more stop
  | .error e => ∀ s more stop, Shows s (ts ++ more) stop → p s = .error e

namespace Consumes
variable {Shows : σ → List Token → ℕ → Prop} {p : Run σ α} {f : α → Run σ β} {ts us : List Token}

theorem pure (a : α) : Consumes Shows (Pure.pure a : Run σ α) [] (.ok a) :=
  fun s _ _ h => ⟨s, rfl, h⟩

theorem bind {a : α} {r : Except Fault β} (hp : Consumes Shows p ts (.ok a))
    (hf : Consumes Shows (f a) us r) : Consumes Shows (p >>= f) (ts ++ us) r := by
  have hrun : ∀ s s', p s = .ok (a, s') → (p >>= f) s = f a s' := by
    intro s s' h
    change (p s >>= fun x => f x.1 x.2) = _
    rw [h]
    rfl
  cases r with
  | ok b =>
    intro s more stop h
    rw [List.append_assoc] at h
    obtain ⟨s₁, hs₁, h₁⟩ := hp s _ stop h
    obtain ⟨s₂, hs₂, h₂⟩ := hf s₁ more stop h₁
    exact ⟨s₂, by rw [hrun s s₁ hs₁, hs₂], h₂⟩
  | error e =>
    intro s more stop h
    rw [List.append_assoc] at h
    obtain ⟨s₁, hs₁, h₁⟩ := hp s _ stop h
    rw [hrun s s₁ hs₁]
    exact hf s₁ more stop h₁

/-- What follows may read nothing more. -/
theorem bind_nil {a : α} {r : Except Fault β} (hp : Consumes Shows p ts (.ok a))
    (hf : Consumes Shows (f a) [] r) : Consumes Shows (p >>= f) ts r := by
  have h := hp.bind hf
  rw [List.append_nil] at h
  exact h

/-- What follows a failure is not run, whatever word was left for it. -/
theorem bind_error {e : Fault} (hp : Consumes Shows p ts (.error e)) (us : List Token) :
    Consumes Shows (p >>= f) (ts ++ us) (.error e) := by
  intro s more stop h
  rw [List.append_assoc] at h
  change (p s >>= fun x => f x.1 x.2) = _
  rw [hp s _ stop h]
  rfl

theorem map {r : Except Fault α} (g : α → β) (hp : Consumes Shows p ts r) :
    Consumes Shows (p >>= fun a => Pure.pure (g a)) ts (g <$> r) := by
  cases r with
  | ok a => exact hp.bind_nil (Consumes.pure (g a))
  | error e => simpa using hp.bind_error (f := fun a => Pure.pure (g a)) []

/-- What is settled without reading. -/
theorem lift (r : Except Fault α) : Consumes Shows (liftM r : Run σ α) [] r := by
  cases r with
  | ok a => exact fun s _ _ h => ⟨s, rfl, h⟩
  | error e => exact fun _ _ _ _ => rfl

/-- What follows a program depends on how it ends. -/
theorem seq {r : Except Fault α} {g : α → Except Fault β} (hp : Consumes Shows p ts r)
    (hf : ∀ a, r = .ok a → Consumes Shows (f a) us (g a)) :
    Consumes Shows (p >>= f) (ts ++ us) (r >>= g) := by
  cases r with
  | ok a => exact hp.bind (hf a rfl)
  | error e => exact hp.bind_error us

end Consumes

/-- What is documented of a reader. A stop field may carry any identifier, a list says its size,
and skipping goes to a depth of 64. -/
structure TInputProtocol.Documented (i : TInputProtocol σ) (Shows : σ → List Token → ℕ → Prop) :
    Prop where
  readStructBegin : Consumes Shows i.readStructBegin [.structBegin] (.ok ())
  readStructEnd : Consumes Shows i.readStructEnd [.structEnd] (.ok ())
  readFieldBegin : ∀ ty id, ty ≠ .stop → 0 ≤ id →
    Consumes Shows i.readFieldBegin [.fieldBegin ty id] (.ok ⟨ty, some id⟩)
  readFieldStop : ∃ ident, ident.fieldType = .stop ∧
    Consumes Shows i.readFieldBegin [.fieldStop] (.ok ident)
  readFieldEnd : Consumes Shows i.readFieldEnd [.fieldEnd] (.ok ())
  readBool : ∀ b, Consumes Shows i.readBool [.bool b] (.ok b)
  readBytes : ∀ bytes, Consumes Shows i.readBytes [.binary bytes] (.ok bytes)
  readI8 : ∀ n, Consumes Shows i.readI8 [.i08 n] (.ok n)
  readI16 : ∀ n, Consumes Shows i.readI16 [.i16 n] (.ok n)
  readI32 : ∀ n, Consumes Shows i.readI32 [.i32 n] (.ok n)
  readI64 : ∀ n, Consumes Shows i.readI64 [.i64 n] (.ok n)
  readDouble : ∀ bits, Consumes Shows i.readDouble [.double bits] (.ok bits)
  readString : ∀ s, Consumes Shows i.readString [.binary (utf8 s)] (.ok s)
  readListBegin : ∀ elem (size : Int32), 0 ≤ size →
    Consumes Shows i.readListBegin [.sequenceBegin .list elem size] (.ok ⟨elem, size⟩)
  readListEnd : Consumes Shows i.readListEnd [.sequenceEnd .list] (.ok ())
  skip : ∀ w : Wire, w.Skippable 64 → Consumes Shows (i.skip w.ttype) w.tokens (.ok ())

end Reading

/-! ## Programs that write -/

section Writing
variable {τ α : Type}

/-- What a writer is in the middle of: the count of the open structs, and whether the number of a
boolean field waits for its value. -/
structure Stage where
  depth : ℕ
  waits : Bool

/-- A program that at one stage returns, having appended the word `ts` to what was written, and
leaves the writer at another. -/
def Advances (Wrote : τ → Stage → List Token → Prop) (p : Run τ Unit) (ts : List Token)
    (stage stage' : Stage) : Prop :=
  ∀ o before, Wrote o stage before → ∃ o', p o = .ok ((), o') ∧ Wrote o' stage' (before ++ ts)

/-- A program that appends a word inside so many structs. -/
def Emits (Wrote : τ → Stage → List Token → Prop) (depth : ℕ) (p : Run τ Unit) (ts : List Token) :
    Prop :=
  Advances Wrote p ts ⟨depth, false⟩ ⟨depth, false⟩

section
variable {Wrote : τ → Stage → List Token → Prop} {p q : Run τ Unit} {ts us : List Token}

theorem Advances.bind {stage stage' stage'' : Stage} (hp : Advances Wrote p ts stage stage')
    (hq : Advances Wrote q us stage' stage'') :
    Advances Wrote (p >>= fun _ => q) (ts ++ us) stage stage'' := by
  intro o before h
  obtain ⟨o₁, hrun₁, h₁⟩ := hp o before h
  obtain ⟨o₂, hrun₂, h₂⟩ := hq o₁ (before ++ ts) h₁
  refine ⟨o₂, ?_, ?_⟩
  · change (p o >>= fun x => q x.2) = _
    rw [hrun₁]
    exact hrun₂
  · rw [← List.append_assoc]
    exact h₂

theorem Emits.nothing (depth : ℕ) : Emits Wrote depth (pure ()) [] := by
  intro o before h
  refine ⟨o, rfl, ?_⟩
  rwa [List.append_nil]

theorem Emits.bind {depth : ℕ} (hp : Emits Wrote depth p ts) (hq : Emits Wrote depth q us) :
    Emits Wrote depth (p >>= fun _ => q) (ts ++ us) :=
  Advances.bind hp hq

end

/-- What is documented of a writer: sizes are 32 bits wide, names are not transported, fields stand
in structs, and behind the number of a boolean field comes a boolean. -/
structure TOutputProtocol.Documented (o : TOutputProtocol τ)
    (Wrote : τ → Stage → List Token → Prop) : Prop where
  writeStructBegin : ∀ name depth,
    Advances Wrote (o.writeStructBegin name) [.structBegin] ⟨depth, false⟩ ⟨depth + 1, false⟩
  writeStructEnd : ∀ depth,
    Advances Wrote o.writeStructEnd [.structEnd] ⟨depth + 1, false⟩ ⟨depth, false⟩
  writeFieldBegin : ∀ name ty id depth, ty ≠ .stop → 0 ≤ id →
    Advances Wrote (o.writeFieldBegin name ty id) [.fieldBegin ty id] ⟨depth + 1, false⟩
      ⟨depth + 1, decide (ty = .bool)⟩
  writeFieldEnd : ∀ depth, Emits Wrote (depth + 1) o.writeFieldEnd [.fieldEnd]
  writeFieldStop : ∀ depth, Emits Wrote (depth + 1) o.writeFieldStop [.fieldStop]
  writeBool : ∀ b depth waits,
    Advances Wrote (o.writeBool b) [.bool b] ⟨depth, waits⟩ ⟨depth, false⟩
  writeBytes : ∀ bytes depth, bytes.length < 2 ^ 31 →
    Emits Wrote depth (o.writeBytes bytes) [.binary bytes]
  writeI8 : ∀ n depth, Emits Wrote depth (o.writeI8 n) [.i08 n]
  writeI16 : ∀ n depth, Emits Wrote depth (o.writeI16 n) [.i16 n]
  writeI32 : ∀ n depth, Emits Wrote depth (o.writeI32 n) [.i32 n]
  writeI64 : ∀ n depth, Emits Wrote depth (o.writeI64 n) [.i64 n]
  writeDouble : ∀ bits depth, Emits Wrote depth (o.writeDouble bits) [.double bits]
  writeString : ∀ s depth, (utf8 s).length < 2 ^ 31 →
    Emits Wrote depth (o.writeString s) [.binary (utf8 s)]
  writeListBegin : ∀ elem (size : Int32) depth, 0 ≤ size →
    Emits Wrote depth (o.writeListBegin elem size) [.sequenceBegin .list elem size]
  writeListEnd : ∀ depth, Emits Wrote depth o.writeListEnd [.sequenceEnd .list]

end Writing

/-! ## A protocol over bytes -/

/-- A reader and a writer of one format, opened on a byte string and on an empty buffer. -/
structure Protocol where
  Input : Type
  Output : Type
  i : TInputProtocol Input
  o : TOutputProtocol Output
  openAt : List UInt8 → Input
  position : Input → ℕ
  create : Output
  written : Output → List UInt8

/-- The bytes of a value that was written are presented to a reader, whatever bytes follow them. -/
structure Protocol.Documented (p : Protocol) (Shows : p.Input → List Token → ℕ → Prop)
    (Wrote : p.Output → Stage → List Token → Prop) : Prop where
  input : p.i.Documented Shows
  output : p.o.Documented Wrote
  created : Wrote p.create ⟨0, false⟩ []
  opened : ∀ out (w : Wire) rest, Wrote out ⟨0, false⟩ w.tokens →
    Shows (p.openAt (p.written out ++ rest)) w.tokens (p.written out).length
  stopped : ∀ s stop, Shows s [] stop → p.position s = stop

end QueryEngine.Library.Thrift
