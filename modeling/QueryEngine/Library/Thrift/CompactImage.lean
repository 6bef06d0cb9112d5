import QueryEngine.Library.CountedLoop
import QueryEngine.Library.Thrift.Compact

/-! # The compact protocol does what is documented

A word of tokens is traced through the contexts that it leads a reader or a writer through, with
the bytes of each token. A writer may hold the header of a boolean field back, and a reader knows
the value of one early; on the tokens of a whole value both come to the same bytes.
-/
namespace QueryEngine.Library.Thrift.Compact
set_option autoImplicit false
set_option maxHeartbeats 250000

/-! ## Traces -/

inductive Trace {C : Type} (step : C → Token → List UInt8 → C → Prop) :
    C → List Token → List UInt8 → C → Prop
  | nil (c : C) : Trace step c [] [] c
  | cons {c c' c'' : C} {t : Token} {ts : List Token} {b bs : List UInt8} (first : step c t b c')
      (rest : Trace step c' ts bs c'') : Trace step c (t :: ts) (b ++ bs) c''

namespace Trace
variable {C : Type} {step : C → Token → List UInt8 → C → Prop} {c c' c'' : C}
  {ts us : List Token} {bs bs' : List UInt8}

theorem append (h : Trace step c ts bs c') (h' : Trace step c' us bs' c'') :
    Trace step c (ts ++ us) (bs ++ bs') c'' := by
  induction h with
  | nil c => exact h'
  | cons first rest ih =>
    rw [List.append_assoc]
    exact .cons first (ih h')

theorem split (h : Trace step c (ts ++ us) bs c'') : ∃ bs₁ bs₂ c', bs = bs₁ ++ bs₂ ∧
    Trace step c ts bs₁ c' ∧ Trace step c' us bs₂ c'' := by
  induction ts generalizing c bs with
  | nil => exact ⟨[], bs, c, rfl, .nil c, h⟩
  | cons t ts ih =>
    cases h with
    | @cons _ _ _ _ _ b bs first rest =>
      obtain ⟨bs₁, bs₂, c', rfl, h₁, h₂⟩ := ih rest
      exact ⟨b ++ bs₁, bs₂, c', (List.append_assoc _ _ _).symm, .cons first h₁, h₂⟩

end Trace

/-! ## Tokens -/

/-- The bytes of a token that stand for themselves, whatever the context. -/
def plain : Token → List UInt8 → Prop
  | .i08 n, b => b = [n.toUInt8]
  | .i16 n, b => b = writeVarint (zigzag n.toInt)
  | .i32 n, b => b = writeVarint (zigzag n.toInt)
  | .i64 n, b => b = writeVarint (zigzag n.toInt)
  | .double bits, b => b = writeFixed 8 bits.toNat
  | .binary bytes, b => bytes.length < 2 ^ 31 ∧ b = writeVarint bytes.length ++ bytes
  | .fieldEnd, b => b = []
  | .fieldStop, b => b = [0]
  | .sequenceBegin _ elem size, b => 0 ≤ size ∧ b = listHeader elem size.toNatClampNeg
  | .sequenceEnd _, b => b = []
  | .mapBegin key value size, b => 0 ≤ size ∧ b = mapHeader key value size.toNatClampNeg
  | .mapEnd, b => b = []
  | _, _ => False

/-- The header of a field behind another of the struct, no number being negative. -/
def Header (last id : Int16) (ty : ℕ) (b : List UInt8) : Prop :=
  0 ≤ last ∧ 0 ≤ id ∧ b = fieldHeader (id - last) id ty

/-- What a token is to a reader. -/
def Reads (c : Context Bool) (t : Token) (b : List UInt8) (c' : Context Bool) : Prop :=
  match t with
  | .bool v => (c.pending = some v ∧ b = [] ∧ c' = ⟨c.last, c.stack, none⟩) ∨
      (c.pending = none ∧ b = [UInt8.ofNat (boolCode v)] ∧ c' = c)
  | .structBegin => b = [] ∧ c' = ⟨0, c.last :: c.stack, c.pending⟩
  | .structEnd => b = [] ∧ ∃ last stack, c.stack = last :: stack ∧ c' = ⟨last, stack, c.pending⟩
  | .fieldBegin .bool id => ∃ v, Header c.last id (boolCode v) b ∧ c' = ⟨id, c.stack, some v⟩
  | .fieldBegin ty id => Header c.last id (code ty) b ∧ c' = ⟨id, c.stack, c.pending⟩
  | t => plain t b ∧ c' = c

/-- What a token is to a writer. -/
def Writes (c : Context Int16) (t : Token) (b : List UInt8) (c' : Context Int16) : Prop :=
  match t with
  | .bool v => (∃ id, c.pending = some id ∧ Header c.last id (boolCode v) b ∧
        c' = ⟨id, c.stack, none⟩) ∨
      (c.pending = none ∧ b = [UInt8.ofNat (boolCode v)] ∧ c' = c)
  | .structBegin => b = [] ∧ c' = ⟨0, c.last :: c.stack, c.pending⟩
  | .structEnd => b = [] ∧ ∃ last stack, c.stack = last :: stack ∧ c' = ⟨last, stack, c.pending⟩
  | .fieldBegin .bool id => b = [] ∧ c' = ⟨c.last, c.stack, some id⟩
  | .fieldBegin ty id => Header c.last id (code ty) b ∧ c' = ⟨id, c.stack, c.pending⟩
  | t => plain t b ∧ c' = c

/-- What an input still presents up to a position, whatever follows there. -/
def Shows (s : Input) (ts : List Token) (stop : ℕ) : Prop :=
  ∃ bs rest c', s.bytes = bs ++ rest ∧ stop = s.position + bs.length ∧
    Trace Reads s.context ts bs c'

/-- The context of a writer at a stage. -/
structure Context.At (c : Context Int16) (stage : Stage) : Prop where
  depth : c.stack.length = stage.depth
  waits : c.pending.isSome = stage.waits
  last : 0 ≤ c.last
  stack : ∀ id ∈ c.stack, 0 ≤ id
  pending : ∀ id ∈ c.pending, 0 ≤ id

def Wrote (s : Output) (stage : Stage) (ts : List Token) : Prop :=
  Trace Writes ⟨0, [], none⟩ ts s.bytes s.context ∧ s.context.At stage

/-! ## Reading one token -/

/-- A reader that does the right thing at one token, whatever follows. -/
theorem consumes_token {α : Type} {p : Run Input α} {t : Token} {a : α}
    (h : ∀ c b c', Reads c t b c' → ∀ rest position,
      p ⟨b ++ rest, position, c⟩ = .ok (a, ⟨rest, position + b.length, c'⟩)) :
    Consumes Shows p [t] (.ok a) := by
  rintro ⟨bytes, position, c⟩ more stop ⟨bs, rest, c'', hbytes, rfl, htrace⟩
  cases htrace with
  | @cons _ c' _ _ _ b bs first trace =>
    refine ⟨⟨bs ++ rest, position + b.length, c'⟩, ?_, bs, rest, c'', rfl, ?_, trace⟩
    · obtain rfl : bytes = b ++ bs ++ rest := hbytes
      rw [List.append_assoc]
      exact h c b c' first (bs ++ rest) position
    · rw [List.length_append, Nat.add_assoc]

theorem parse_append {α : Type} {parser : List UInt8 → Option (α × List UInt8)}
    {b rest : List UInt8} {a : α} (h : parser (b ++ rest) = some (a, rest)) (position : ℕ)
    (c : Context Bool) :
    parse parser ⟨b ++ rest, position, c⟩ = .ok (a, ⟨rest, position + b.length, c⟩) := by
  simp only [parse, h, List.length_append, Nat.add_sub_cancel]

theorem run_bind {α β : Type} (p : Run Input α) (f : α → Run Input β) (s : Input) :
    (p >>= f) s = p s >>= fun out => f out.1 out.2 := rfl

theorem parse_uncons (b : UInt8) (rest : List UInt8) (position : ℕ) (c : Context Bool) :
    parse uncons ⟨b :: rest, position, c⟩ = .ok (b, ⟨rest, position + 1, c⟩) :=
  parse_append (b := [b]) rfl position c

theorem chunk_append {n : ℕ} {bs : List UInt8} (h : bs.length = n) (rest : List UInt8) :
    chunk n (bs ++ rest) = some (bs, rest) := by
  rw [chunk, List.length_append, if_pos (by omega), List.take_left' h, List.drop_left' h]

/-- A reader that parses the bytes of a plain token. -/
theorem consumes_parse {α β : Type} (parser : List UInt8 → Option (α × List UInt8)) (t : Token)
    (a : α) (g : α → β) (hplain : ∀ c b c', Reads c t b c' → plain t b ∧ c' = c)
    (h : ∀ b rest, plain t b → parser (b ++ rest) = some (a, rest)) :
    Consumes Shows (do return g (← parse parser)) [t] (.ok (g a)) := by
  apply consumes_token
  intro c b c' hreads rest position
  obtain ⟨hb, rfl⟩ := hplain c b c' hreads
  rw [run_bind, parse_append (h b rest hb)]
  rfl

theorem readVarint_zigzag {n : ℤ} {limit : ℕ} (bound : ℕ) (hlow : -bound ≤ n) (hhigh : n < bound)
    (hlimit : 2 * bound ≤ 128 ^ (limit + 1)) (rest : List UInt8) :
    readVarint (limit + 1) (writeVarint (zigzag n) ++ rest) = some (zigzag n, rest) :=
  readVarint_writeVarint (Nat.lt_of_lt_of_le (zigzag_lt hlow hhigh) hlimit) rest

theorem signed_toInt16 (n : Int16) : signed (zigzag n.toInt) = n.toInt :=
  signed_zigzag (Int.le_trans (by decide) n.le_toInt) (Int.lt_of_lt_of_le n.toInt_lt (by decide))

theorem signed_toInt32 (n : Int32) : signed (zigzag n.toInt) = n.toInt :=
  signed_zigzag (Int.le_trans (by decide) n.le_toInt) (Int.lt_of_lt_of_le n.toInt_lt (by decide))

theorem signed_toInt64 (n : Int64) : signed (zigzag n.toInt) = n.toInt :=
  signed_zigzag n.le_toInt n.toInt_lt

theorem readI8_consumes (n : Int8) : Consumes Shows readI8 [.i08 n] (.ok n) := by
  have hread := consumes_parse uncons (.i08 n) n.toUInt8 UInt8.toInt8
    (fun _ _ _ h => h) fun b rest hb => by
      obtain rfl : b = [n.toUInt8] := hb
      rfl
  exact hread

theorem readI16_consumes (n : Int16) : Consumes Shows readI16 [.i16 n] (.ok n) := by
  have hread := consumes_parse (readVarint 3) (.i16 n) (zigzag n.toInt)
    (fun k => Int16.ofInt (signed k)) (fun _ _ _ h => h) fun b rest hb => by
      obtain rfl : b = writeVarint (zigzag n.toInt) := hb
      exact readVarint_zigzag (2 ^ 15) n.le_toInt n.toInt_lt (by decide) rest
  rw [signed_toInt16, Int16.ofInt_toInt] at hread
  exact hread

theorem readI32_consumes (n : Int32) : Consumes Shows readI32 [.i32 n] (.ok n) := by
  have hread := consumes_parse (readVarint 5) (.i32 n) (zigzag n.toInt)
    (fun k => Int32.ofInt (signed k)) (fun _ _ _ h => h) fun b rest hb => by
      obtain rfl : b = writeVarint (zigzag n.toInt) := hb
      exact readVarint_zigzag (2 ^ 31) n.le_toInt n.toInt_lt (by decide) rest
  rw [signed_toInt32, Int32.ofInt_toInt] at hread
  exact hread

theorem readI64_consumes (n : Int64) : Consumes Shows readI64 [.i64 n] (.ok n) := by
  have hread := consumes_parse (readVarint 10) (.i64 n) (zigzag n.toInt)
    (fun k => Int64.ofInt (signed k)) (fun _ _ _ h => h) fun b rest hb => by
      obtain rfl : b = writeVarint (zigzag n.toInt) := hb
      exact readVarint_zigzag (2 ^ 63) n.le_toInt n.toInt_lt (by decide) rest
  rw [signed_toInt64, Int64.ofInt_toInt] at hread
  exact hread

theorem readDouble_consumes (bits : UInt64) :
    Consumes Shows readDouble [.double bits] (.ok bits) := by
  have hread := consumes_parse (chunk 8) (.double bits) (writeFixed 8 bits.toNat)
    (fun bs => UInt64.ofNat (fixed bs)) (fun _ _ _ h => h)
    fun b rest hb => by
      obtain rfl : b = writeFixed 8 bits.toNat := hb
      exact chunk_append (writeFixed_length 8 _) rest
  rw [fixed_writeFixed bits.toNat_lt, UInt64.ofNat_toNat] at hread
  exact hread

theorem readSize_written {n : ℕ} (h : n < 2 ^ 32) (rest : List UInt8) (position : ℕ)
    (c : Context Bool) : readSize ⟨writeVarint n ++ rest, position, c⟩ =
      .ok (n, ⟨rest, position + (writeVarint n).length, c⟩) := by
  have hsize : readVarint 5 (writeVarint n ++ rest) = some (n, rest) :=
    readVarint_writeVarint (Nat.lt_of_lt_of_le h (by decide)) rest
  rw [readSize, run_bind, parse_append hsize]
  change Except.ok (n % 2 ^ 32, _) = _
  rw [Nat.mod_eq_of_lt h]

theorem readBytes_consumes (bytes : List UInt8) :
    Consumes Shows readBytes [.binary bytes] (.ok bytes) := by
  apply consumes_token
  intro c b c' hreads rest position
  obtain ⟨⟨hlen, rfl⟩, rfl⟩ : plain (.binary bytes) b ∧ c' = c := hreads
  rw [readBytes, run_bind, List.append_assoc,
    readSize_written (Nat.lt_trans hlen (by decide)) (bytes ++ rest)]
  change parse (chunk bytes.length) _ = _
  rw [parse_append (chunk_append rfl rest), List.length_append, Nat.add_assoc]

theorem readString_consumes (s : String) :
    Consumes Shows readString [.binary (utf8 s)] (.ok s) := by
  apply (readBytes_consumes (utf8 s)).bind_nil
  have hbytes : (⟨(utf8 s).toArray⟩ : ByteArray) = s.toUTF8 := by
    rw [utf8, Array.toArray_toList]
  have hdecode : String.fromUTF8? ⟨(utf8 s).toArray⟩ = some s := by
    rw [hbytes, String.toUTF8_eq_toByteArray, String.fromUTF8?, dif_pos s.isValidUTF8]
    rfl
  rw [hdecode]
  exact .pure s

theorem readStructBegin_consumes : Consumes Shows readStructBegin [.structBegin] (.ok ()) := by
  apply consumes_token
  intro c b c' hreads rest position
  obtain ⟨rfl, rfl⟩ : b = [] ∧ c' = ⟨0, c.last :: c.stack, c.pending⟩ := hreads
  rfl

theorem readStructEnd_consumes : Consumes Shows readStructEnd [.structEnd] (.ok ()) := by
  apply consumes_token
  rintro ⟨last, stack, pending⟩ b c' hreads rest position
  obtain ⟨rfl, last', stack', hstack, rfl⟩ :
    b = [] ∧ ∃ last' stack', stack = last' :: stack' ∧ c' = ⟨last', stack', pending⟩ := hreads
  subst hstack
  rfl

/-- A token without bytes of its own. -/
theorem consumes_nothing {t : Token} (h : ∀ c b c', Reads c t b c' → b = [] ∧ c' = c) :
    Consumes Shows (pure () : Run Input Unit) [t] (.ok ()) := by
  apply consumes_token
  intro c b c' hreads rest position
  obtain ⟨rfl, rfl⟩ := h c b c' hreads
  rfl

theorem readBool_consumes (v : Bool) : Consumes Shows readBool [.bool v] (.ok v) := by
  apply consumes_token
  rintro ⟨last, stack, pending⟩ b c' hreads rest position
  rcases hreads with ⟨hpending, rfl, rfl⟩ | ⟨hpending, rfl, rfl⟩
  · obtain rfl : pending = some v := hpending
    rfl
  · obtain rfl : pending = none := hpending
    unfold readBool
    simp only [List.singleton_append, run_bind, parse_uncons]
    cases v <;> rfl

/-! ## Reading headers -/

section Fields
variable (overflowChecks : Bool)

theorem readFieldId_short {delta : ℕ} (hdelta : delta ≠ 0) {last id : Int16}
    (hid : last.toInt + delta = id.toInt) (bytes : List UInt8) (position : ℕ)
    (stack : List Int16) (pending : Option Bool) :
    readFieldId overflowChecks delta ⟨bytes, position, ⟨last, stack, pending⟩⟩ =
      .ok (id, ⟨bytes, position, ⟨id, stack, pending⟩⟩) := by
  unfold readFieldId
  rw [if_neg hdelta]
  change (checked overflowChecks _ (last.toInt + delta) >>= _) = _
  rw [hid, checked_of_fits]
  rfl

theorem readFieldId_long (id last : Int16) (rest : List UInt8) (position : ℕ)
    (stack : List Int16) (pending : Option Bool) :
    readFieldId overflowChecks 0
        ⟨writeVarint (zigzag id.toInt) ++ rest, position, ⟨last, stack, pending⟩⟩ =
      .ok (id, ⟨rest, position + (writeVarint (zigzag id.toInt)).length,
        ⟨id, stack, pending⟩⟩) := by
  have hid : readVarint 3 (writeVarint (zigzag id.toInt) ++ rest) = some (zigzag id.toInt, rest) :=
    readVarint_zigzag (2 ^ 15) id.le_toInt id.toInt_lt (by decide) rest
  unfold readFieldId
  rw [if_pos rfl, run_bind, parse_append hid]
  change setLast (Int16.ofInt (signed (zigzag id.toInt))) _ = _
  rw [signed_toInt16, Int16.ofInt_toInt]
  rfl

/-- Numbers that are not negative are no farther apart than 16 bits can say. -/
theorem sub_toInt {last id : Int16} (hlast : 0 ≤ last) (hid : 0 ≤ id) :
    (id - last).toInt = id.toInt - last.toInt := by
  rw [Int16.le_iff_toInt_le, Int16.toInt_zero] at hlast hid
  have hlastlt := last.toInt_lt
  have hidlt := id.toInt_lt
  rw [Int16.toInt_sub]
  exact Int.bmod_eq_of_le (by omega) (by omega)

/-- A header says its type, and what follows it the number. -/
theorem header_split {last id : Int16} {ty : ℕ} {b : List UInt8} (h : Header last id ty b) :
    ∃ delta tail, delta < 16 ∧ b = nibbles delta ty :: tail ∧ ∀ rest position stack pending,
      readFieldId overflowChecks delta ⟨tail ++ rest, position, ⟨last, stack, pending⟩⟩ =
        .ok (id, ⟨rest, position + tail.length, ⟨id, stack, pending⟩⟩) := by
  obtain ⟨hlast, hid, rfl⟩ := h
  have hsub := sub_toInt hlast hid
  rw [fieldHeader]
  split
  · rename_i hdelta
    have hpos := Int16.lt_iff_toInt_lt.mp hdelta.1
    have hlt := Int16.lt_iff_toInt_lt.mp hdelta.2
    rw [Int16.toInt_zero] at hpos
    have h15 : (15 : Int16).toInt = 15 := rfl
    have hnat := Int16.toNat_toInt (id - last)
    refine ⟨(id - last).toNatClampNeg, [], by omega, rfl, fun rest position stack pending => ?_⟩
    exact readFieldId_short overflowChecks (by omega) (by omega) rest position stack pending
  · refine ⟨0, _, by decide, rfl, fun rest position stack pending => ?_⟩
    exact readFieldId_long overflowChecks id last rest position stack pending

theorem readFieldBegin_header {delta ty : ℕ} (hdelta : delta < 16) (hty : ty < 16)
    (tail : List UInt8) (position : ℕ) (c : Context Bool) :
    readFieldBegin overflowChecks ⟨nibbles delta ty :: tail, position, c⟩ =
      readField overflowChecks ty delta ⟨tail, position + 1, c⟩ := by
  unfold readFieldBegin
  rw [run_bind, parse_uncons]
  change readField _ _ _ _ = _
  rw [nibbles_low hdelta hty, nibbles_high hdelta hty]

theorem readField_bool (v : Bool) (delta : ℕ) (tail : List UInt8) (position : ℕ)
    (c : Context Bool) : readField overflowChecks (boolCode v) delta ⟨tail, position, c⟩ =
      (readFieldId overflowChecks delta >>= fun id => pure ⟨.bool, some id⟩)
        ⟨tail, position, ⟨c.last, c.stack, some v⟩⟩ := by
  cases v <;> rfl

theorem readField_code {ty : TType} (hstop : ty ≠ .stop) (hbool : ty ≠ .bool) (delta : ℕ) :
    readField overflowChecks (code ty) delta =
      (readFieldId overflowChecks delta >>= fun id => pure ⟨ty, some id⟩) := by
  cases ty with
  | stop => exact absurd rfl hstop
  | bool => exact absurd rfl hbool
  | _ => rfl

theorem readFieldBegin_consumes (ty : TType) (id : Int16) (hty : ty ≠ .stop) :
    Consumes Shows (readFieldBegin overflowChecks) [.fieldBegin ty id] (.ok ⟨ty, some id⟩) := by
  apply consumes_token
  intro c b c' hreads rest position
  by_cases hbool : ty = .bool
  · subst hbool
    obtain ⟨v, hheader, rfl⟩ : ∃ v, Header c.last id (boolCode v) b ∧
      c' = ⟨id, c.stack, some v⟩ := hreads
    obtain ⟨delta, tail, hdelta, rfl, hid⟩ := header_split overflowChecks hheader
    rw [List.cons_append, readFieldBegin_header overflowChecks hdelta (by cases v <;> decide),
      readField_bool, run_bind, hid, List.length_cons, Nat.add_assoc, Nat.add_comm 1]
    rfl
  · obtain ⟨hheader, rfl⟩ : Header c.last id (code ty) b ∧ c' = ⟨id, c.stack, c.pending⟩ := by
      cases ty with
      | bool => exact absurd rfl hbool
      | _ => exact hreads
    obtain ⟨delta, tail, hdelta, rfl, hid⟩ := header_split overflowChecks hheader
    rw [List.cons_append, readFieldBegin_header overflowChecks hdelta (code_lt ty),
      readField_code overflowChecks hty hbool, run_bind, hid, List.length_cons, Nat.add_assoc,
      Nat.add_comm 1]
    rfl

theorem readFieldStop_consumes :
    Consumes Shows (readFieldBegin overflowChecks) [.fieldStop] (.ok ⟨.stop, none⟩) := by
  apply consumes_token
  intro c b c' hreads rest position
  obtain ⟨rfl, rfl⟩ : b = [0] ∧ c' = c := hreads
  unfold readFieldBegin
  rw [run_bind, List.singleton_append, parse_uncons]
  rfl

end Fields

theorem readListBegin_header {size : ℕ} (hsize : size < 16) (elem : TType) (tail : List UInt8)
    (position : ℕ) (c : Context Bool) :
    readListBegin ⟨nibbles size (code elem) :: tail, position, c⟩ =
      (readListSize size >>= fun n => pure ⟨elem, n⟩) ⟨tail, position + 1, c⟩ := by
  unfold readListBegin
  simp only [run_bind, parse_uncons, ok_bind, nibbles_low hsize (code_lt elem),
    nibbles_high hsize (code_lt elem), ofCode_code]

theorem size_lt (size : Int32) : size.toNatClampNeg < 2 ^ 32 :=
  Nat.lt_trans size.toNatClampNeg_lt (by decide)

theorem readListBegin_consumes (kind : Sequence) (elem : TType) (size : Int32) (h : 0 ≤ size) :
    Consumes Shows readListBegin [.sequenceBegin kind elem size] (.ok ⟨elem, size⟩) := by
  apply consumes_token
  intro c b c' hreads rest position
  obtain ⟨⟨-, rfl⟩, rfl⟩ : (0 ≤ size ∧ b = listHeader elem size.toNatClampNeg) ∧ c' = c := hreads
  have hsize := Int32.ofNat_toNatClampNeg size h
  rw [listHeader]
  split
  · rename_i hsmall
    rw [List.singleton_append, readListBegin_header (by omega), run_bind, readListSize,
      if_neg (by omega), hsize]
    rfl
  · rw [List.cons_append, readListBegin_header (by decide), run_bind, readListSize, if_pos rfl,
      run_bind, readSize_written (size_lt size), List.length_cons, Nat.add_assoc, Nat.add_comm 1]
    change Except.ok (TListIdentifier.mk elem (Int32.ofNat size.toNatClampNeg), _) = _
    rw [hsize]

/-- What `readMapBegin` answers to a header. -/
def mapTypes (key value : TType) (size : Int32) : Option (TType × TType) × Int32 :=
  if size = 0 then (none, 0) else (some (key, value), size)

theorem readMapBegin_consumes (key value : TType) (size : Int32) (h : 0 ≤ size) :
    Consumes Shows readMapBegin [.mapBegin key value size] (.ok (mapTypes key value size)) := by
  apply consumes_token
  intro c b c' hreads rest position
  obtain ⟨⟨-, rfl⟩, rfl⟩ : (0 ≤ size ∧ b = mapHeader key value size.toNatClampNeg) ∧ c' = c :=
    hreads
  have hsize := Int32.ofNat_toNatClampNeg size h
  rw [mapHeader, mapTypes]
  by_cases hzero : size.toNatClampNeg = 0
  · have hnil : size = 0 := by
      rw [← hsize, hzero]
      rfl
    rw [if_pos hzero, if_pos hnil]
    unfold readMapBegin
    have hread := readSize_written (n := 0) (by decide) rest position c'
    change readSize ⟨[0] ++ rest, position, c'⟩ = .ok (0, _) at hread
    rw [run_bind, hread]
    rfl
  · have hcons : size ≠ 0 := by
      rintro rfl
      exact hzero rfl
    rw [if_neg hzero, if_neg hcons]
    unfold readMapBegin
    rw [run_bind, List.append_assoc, readSize_written (size_lt size), ok_bind, if_neg hzero]
    unfold readMapTypes
    simp only [run_bind, List.singleton_append, parse_uncons, ok_bind,
      nibbles_high (code_lt key) (code_lt value), nibbles_low (code_lt key) (code_lt value),
      ofCode_code, hsize]
    rw [List.length_append, Nat.add_assoc]
    rfl

/-! ## Skipping -/

theorem header_length_pos {last id : Int16} {ty : ℕ} {b : List UInt8} (h : Header last id ty b) :
    0 < b.length := by
  obtain ⟨-, -, rfl⟩ := h
  rw [fieldHeader]
  split <;> exact Nat.succ_pos _

theorem reads_fieldBegin_length {c c' : Context Bool} {ty : TType} {id : Int16} {b : List UInt8}
    (h : Reads c (.fieldBegin ty id) b c') : 0 < b.length := by
  cases ty with
  | bool =>
    obtain ⟨v, hheader, -⟩ := h
    exact header_length_pos hheader
  | _ => exact header_length_pos h.1

/-- Every field takes a byte. -/
theorem fieldTokens_length_lt {ws : List (Int16 × Wire)} {more : List Token}
    {c c' : Context Bool} {bs : List UInt8}
    (h : Trace Reads c (Wire.fieldTokens ws ++ .fieldStop :: more) bs c') :
    ws.length < bs.length + 1 := by
  induction ws generalizing c bs with
  | nil => exact Nat.succ_pos _
  | cons f ws ih =>
    rw [Wire.fieldTokens, List.cons_append, List.append_assoc, List.cons_append] at h
    cases h with
    | cons first rest =>
      have hfirst := reads_fieldBegin_length first
      obtain ⟨bs₁, bs₂, c₁, rfl, -, hrest⟩ := rest.split
      cases hrest with
      | cons second hrest =>
        have hlen := ih hrest
        rw [List.length_cons, List.length_append, List.length_append, List.length_append]
        omega

theorem skipMany_consumes {one : Run Input Unit} {ws : List Wire}
    (h : ∀ w ∈ ws, Consumes Shows one w.tokens (.ok ())) :
    Consumes Shows (skipMany one ws.length) (Wire.elemTokens ws) (.ok ()) := by
  induction ws with
  | nil => exact .pure ()
  | cons w ws ih =>
    exact (h w List.mem_cons_self).bind (ih fun v hv => h v (List.mem_cons_of_mem w hv))

theorem skipMany_entries {one : Run Input Unit} {entries : List (Wire × Wire)}
    (h : ∀ e ∈ entries, Consumes Shows one (e.1.tokens ++ e.2.tokens) (.ok ())) :
    Consumes Shows (skipMany one entries.length) (Wire.entryTokens entries) (.ok ()) := by
  induction entries with
  | nil => exact .pure ()
  | cons e entries ih =>
    rw [Wire.entryTokens, ← List.append_assoc]
    exact (h e List.mem_cons_self).bind (ih fun v hv => h v (List.mem_cons_of_mem e hv))

theorem fieldEnd_consumes : Consumes Shows (pure () : Run Input Unit) [.fieldEnd] (.ok ()) :=
  consumes_nothing fun _ _ _ h => h

section Skipping
variable (overflowChecks : Bool)

theorem skipFields_consumes {one : TType → Run Input Unit} {ws : List (Int16 × Wire)}
    (h : ∀ f ∈ ws, Consumes Shows (one f.2.ttype) f.2.tokens (.ok ())) {n : ℕ}
    (hn : ws.length < n) :
    Consumes Shows (skipFields overflowChecks one n) (Wire.fieldTokens ws ++ [.fieldStop])
      (.ok ()) := by
  obtain ⟨n, rfl⟩ : ∃ m, n = m + 1 := Nat.exists_eq_add_one.mpr (Nat.zero_lt_of_lt hn)
  induction ws generalizing n with
  | nil => exact (readFieldStop_consumes overflowChecks).bind_nil (.pure ())
  | cons f ws ih =>
    obtain ⟨n, rfl⟩ : ∃ m, n = m + 1 :=
      Nat.exists_eq_add_one.mpr (Nat.zero_lt_of_lt (Nat.lt_of_succ_lt_succ hn))
    have hrest := ih (fun g hg => h g (List.mem_cons_of_mem f hg)) n (Nat.lt_of_succ_lt_succ hn)
    have hend := fieldEnd_consumes.bind (f := fun _ => skipFields overflowChecks one (n + 1)) hrest
    rw [pure_bind] at hend
    have hround := (h f List.mem_cons_self).bind
      (f := fun _ => skipFields overflowChecks one (n + 1)) hend
    rw [Wire.fieldTokens, List.cons_append, List.append_assoc]
    apply (readFieldBegin_consumes overflowChecks f.2.ttype f.1 f.2.ttype_ne_stop).bind
    rw [if_neg f.2.ttype_ne_stop]
    exact hround

theorem skipStruct_consumes {one : TType → Run Input Unit} {ws : List (Int16 × Wire)}
    (h : ∀ f ∈ ws, Consumes Shows (one f.2.ttype) f.2.tokens (.ok ())) :
    Consumes Shows (skipStruct overflowChecks one) (Wire.fieldTokens ws ++ [.fieldStop])
      (.ok ()) := by
  intro s more stop hshows
  obtain ⟨bs, rest, c', hbytes, hstop, htrace⟩ := hshows
  have htokens : Wire.fieldTokens ws ++ [.fieldStop] ++ more =
      Wire.fieldTokens ws ++ .fieldStop :: more := List.append_assoc _ _ _
  have hlen := fieldTokens_length_lt (htokens ▸ htrace)
  have hn : ws.length < s.bytes.length + 1 := by
    rw [hbytes, List.length_append]
    omega
  exact skipFields_consumes overflowChecks h hn s more stop ⟨bs, rest, c', hbytes, hstop, htrace⟩

/-- What ends without a byte may be left unread. -/
theorem consumes_end {p : Run Input Unit} {ts : List Token} {t : Token}
    (h : Consumes Shows p ts (.ok ())) (ht : ∀ c b c', Reads c t b c' → b = [] ∧ c' = c) :
    Consumes Shows p (ts ++ [t]) (.ok ()) := by
  have hend := h.bind (f := fun _ => pure ()) (consumes_nothing ht)
  rw [bind_pure_unit] at hend
  exact hend

theorem skip_sequence {depth : ℕ} (kind : Sequence) {elem : TType} {elems : List Wire}
    (size : elems.length < 2 ^ 31)
    (h : ∀ w ∈ elems, Consumes Shows (skip overflowChecks depth elem) w.tokens (.ok ())) :
    Consumes Shows (readListBegin >>= fun ident =>
        skipMany (skip overflowChecks depth ident.elementType) ident.size.toNatClampNeg)
      (Wire.sequence kind elem elems).tokens (.ok ()) := by
  apply (readListBegin_consumes kind elem _ (size_nonneg size)).bind
  rw [Int32.toNatClampNeg_ofNat_of_lt size]
  exact consumes_end (skipMany_consumes h) fun _ _ _ hreads => hreads

theorem skip_map {depth : ℕ} {key value : TType} {entries : List (Wire × Wire)}
    (size : entries.length < 2 ^ 31)
    (h : ∀ e ∈ entries, Consumes Shows (skip overflowChecks depth key >>= fun _ =>
      skip overflowChecks depth value) (e.1.tokens ++ e.2.tokens) (.ok ())) :
    Consumes Shows (skip overflowChecks (depth + 1) .map) (Wire.map key value entries).tokens
      (.ok ()) := by
  apply (readMapBegin_consumes key value _ (size_nonneg size)).bind
  cases entries with
  | nil => exact consumes_nothing fun _ _ _ hreads => hreads
  | cons e entries =>
    have hcons : Int32.ofNat (e :: entries).length ≠ 0 := by
      rw [Ne, ← Int32.toInt_inj, Int32.toInt_ofNat_of_lt size, Int32.toInt_zero, List.length_cons]
      omega
    have hmany := consumes_end (t := .mapEnd) (skipMany_entries h) fun _ _ _ hreads => hreads
    rw [← Int32.toNatClampNeg_ofNat_of_lt size] at hmany
    rw [mapTypes, if_neg hcons]
    exact hmany

theorem skip_consumes {depth : ℕ} {w : Wire} (h : w.Skippable depth) :
    Consumes Shows (skip overflowChecks depth w.ttype) w.tokens (.ok ()) := by
  induction h with
  | bool n b => exact (readBool_consumes b).bind_nil (.pure ())
  | i08 n k => exact (readI8_consumes k).bind_nil (.pure ())
  | i16 n k => exact (readI16_consumes k).bind_nil (.pure ())
  | i32 n k => exact (readI32_consumes k).bind_nil (.pure ())
  | i64 n k => exact (readI64_consumes k).bind_nil (.pure ())
  | double n bits => exact (readDouble_consumes bits).bind_nil (.pure ())
  | text n s size => exact (readString_consumes s).bind_nil (.pure ())
  | struct n fields natural each ih =>
    have hfields := (skipStruct_consumes overflowChecks ih).bind (f := fun _ => readStructEnd)
      readStructEnd_consumes
    rw [List.append_assoc] at hfields
    exact readStructBegin_consumes.bind hfields
  | sequence n kind elem elems size typed each ih =>
    have hskip := skip_sequence overflowChecks kind size fun w hw => typed w hw ▸ ih w hw
    cases kind <;> exact hskip
  | map n key value entries size keys values eachKey eachValue ihKey ihValue =>
    refine skip_map overflowChecks size fun e he => ?_
    have hkey := ihKey e he
    have hvalue := ihValue e he
    rw [keys e he] at hkey
    rw [values e he] at hvalue
    exact hkey.bind hvalue

end Skipping

theorem input_documented (overflowChecks : Bool) : (input overflowChecks).Documented Shows where
  readStructBegin := readStructBegin_consumes
  readStructEnd := readStructEnd_consumes
  readFieldBegin := fun ty id hty _ => readFieldBegin_consumes overflowChecks ty id hty
  readFieldStop := ⟨_, rfl, readFieldStop_consumes overflowChecks⟩
  readFieldEnd := fieldEnd_consumes
  readBool := readBool_consumes
  readBytes := readBytes_consumes
  readI8 := readI8_consumes
  readI16 := readI16_consumes
  readI32 := readI32_consumes
  readI64 := readI64_consumes
  readDouble := readDouble_consumes
  readString := readString_consumes
  readListBegin := readListBegin_consumes .list
  readListEnd := consumes_nothing fun _ _ _ h => h
  skip := fun _ h => skip_consumes overflowChecks h

/-! ## Writing -/

theorem advances_token {p : Run Output Unit} {t : Token} {stage stage' : Stage}
    (h : ∀ s : Output, s.context.At stage → ∃ b c', p s = .ok ((), ⟨s.bytes ++ b, c'⟩) ∧
      Writes s.context t b c' ∧ c'.At stage') : Advances Wrote p [t] stage stage' := by
  rintro o before ⟨htrace, hat⟩
  obtain ⟨b, c', hrun, hwrites, hat'⟩ := h o hat
  refine ⟨_, hrun, ?_, hat'⟩
  have hmore := htrace.append (.cons hwrites (.nil _))
  rw [List.append_nil] at hmore
  exact hmore

theorem append_emits {t : Token} {b : List UInt8} (ht : ∀ c, Writes c t b c) (depth : ℕ) :
    Emits Wrote depth (append b) [t] :=
  advances_token fun s hat => ⟨b, s.context, rfl, ht s.context, hat⟩

theorem nothing_emits {t : Token} (ht : ∀ c, Writes c t [] c) (depth : ℕ) :
    Emits Wrote depth (pure ()) [t] := by
  refine advances_token fun s hat => ⟨[], s.context, ?_, ht s.context, hat⟩
  rw [List.append_nil]
  rfl

/-- Where no boolean is awaited, none is pending. -/
theorem Context.At.pending_none {c : Context Int16} {depth : ℕ} (h : c.At ⟨depth, false⟩) :
    c.pending = none :=
  Option.isSome_eq_false_iff.mp h.waits |> Option.isNone_iff_eq_none.mp

theorem assertNoPending_advances {p : Run Output Unit} {ts : List Token} {depth : ℕ}
    {stage : Stage} (h : Advances Wrote p ts ⟨depth, false⟩ stage) :
    Advances Wrote (assertNoPending p) ts ⟨depth, false⟩ stage := by
  intro o before hwrote
  obtain ⟨o', hrun, hwrote'⟩ := h o before hwrote
  refine ⟨o', ?_, hwrote'⟩
  unfold assertNoPending
  rw [hwrote.2.pending_none]
  exact hrun

theorem writeStructBegin_advances (depth : ℕ) :
    Advances Wrote writeStructBegin [.structBegin] ⟨depth, false⟩ ⟨depth + 1, false⟩ := by
  refine advances_token fun s hat => ⟨[], _, ?_, ⟨rfl, rfl⟩, ?_⟩
  · rw [List.append_nil]
    rfl
  · refine ⟨?_, hat.waits, Int16.le_refl 0, ?_, hat.pending⟩
    · rw [List.length_cons, hat.depth]
    · exact List.forall_mem_cons.mpr ⟨hat.last, hat.stack⟩

theorem writeStructEnd_advances (depth : ℕ) :
    Advances Wrote writeStructEnd [.structEnd] ⟨depth + 1, false⟩ ⟨depth, false⟩ := by
  refine advances_token fun s hat => ?_
  obtain ⟨bytes, last, stack, pending⟩ := s
  obtain ⟨outer, stack, rfl⟩ := List.exists_cons_of_length_eq_add_one hat.depth
  refine ⟨[], ⟨outer, stack, pending⟩, ?_, ⟨rfl, outer, stack, rfl, rfl⟩, ?_⟩
  · rw [List.append_nil]
    rfl
  · obtain ⟨hlast, hstack⟩ := List.forall_mem_cons.mp hat.stack
    exact ⟨Nat.succ.inj hat.depth, hat.waits, hlast, hstack, hat.pending⟩

section Fields
variable (overflowChecks : Bool)

theorem writeFieldHeader_run {id : Int16} {s : Output} (hlast : 0 ≤ s.context.last) (hid : 0 ≤ id)
    (ty : ℕ) : ∃ b, Header s.context.last id ty b ∧
      writeFieldHeader overflowChecks id ty s =
        .ok ((), ⟨s.bytes ++ b, ⟨id, s.context.stack, s.context.pending⟩⟩) := by
  refine ⟨fieldHeader (id - s.context.last) id ty, ⟨hlast, hid, rfl⟩, ?_⟩
  unfold writeFieldHeader
  rw [← sub_toInt hlast hid, checked_of_fits, ok_bind]

theorem writeFieldBegin_advances (ty : TType) {id : Int16} (hid : 0 ≤ id) (depth : ℕ) :
    Advances Wrote (writeFieldBegin overflowChecks ty id) [.fieldBegin ty id] ⟨depth, false⟩
      ⟨depth, decide (ty = .bool)⟩ := by
  refine advances_token fun s hat => ?_
  by_cases hbool : ty = .bool
  · subst hbool
    refine ⟨[], ⟨s.context.last, s.context.stack, some id⟩, ?_, ⟨rfl, rfl⟩, ?_⟩
    · unfold writeFieldBegin
      rw [if_pos rfl, hat.pending_none, List.append_nil]
    · exact ⟨hat.depth, rfl, hat.last, hat.stack, by simpa using hid⟩
  · obtain ⟨b, hheader, hrun⟩ := writeFieldHeader_run overflowChecks hat.last hid (code ty)
    refine ⟨b, ⟨id, s.context.stack, s.context.pending⟩, ?_, ?_, hat.depth, ?_, hid, hat.stack,
      hat.pending⟩
    · unfold writeFieldBegin
      rw [if_neg hbool, hrun]
    · cases ty with
      | bool => exact absurd rfl hbool
      | _ => exact ⟨hheader, rfl⟩
    · rw [decide_eq_false hbool]
      exact hat.waits

theorem writeBool_advances (v : Bool) (depth : ℕ) (waits : Bool) :
    Advances Wrote (writeBool overflowChecks v) [.bool v] ⟨depth, waits⟩ ⟨depth, false⟩ := by
  refine advances_token fun s hat => ?_
  obtain ⟨bytes, last, stack, pending⟩ := s
  cases pending with
  | none =>
    refine ⟨[UInt8.ofNat (boolCode v)], _, rfl, Or.inr ⟨rfl, rfl, rfl⟩, ?_⟩
    exact ⟨hat.depth, rfl, hat.last, hat.stack, hat.pending⟩
  | some id =>
    obtain ⟨b, hheader, hrun⟩ := writeFieldHeader_run overflowChecks
      (s := ⟨bytes, last, stack, none⟩) hat.last (hat.pending id rfl) (boolCode v)
    refine ⟨b, _, hrun, Or.inl ⟨id, rfl, hheader, rfl⟩, ?_⟩
    exact ⟨hat.depth, rfl, hat.pending id rfl, hat.stack, by simp⟩

end Fields

theorem writeBytes_emits {bytes : List UInt8} (hlen : bytes.length < 2 ^ 31) (depth : ℕ) :
    Emits Wrote depth (writeBytes bytes) [.binary bytes] := by
  rw [writeBytes, Nat.mod_eq_of_lt (Nat.lt_trans hlen (by decide))]
  exact append_emits (t := .binary bytes) (fun _ => ⟨⟨hlen, rfl⟩, rfl⟩) depth

/-- The header of a list that is not of a negative size. -/
theorem writeListBegin_of_nonneg (elem : TType) {size : Int32} (h : 0 ≤ size) :
    writeListBegin elem size = append (listHeader elem size.toNatClampNeg) := by
  have hint : size.toInt = size.toNatClampNeg := by
    have hnonneg := Int32.le_iff_toInt_le.mp h
    rw [Int32.toNatClampNeg, Int.toNat_of_nonneg hnonneg]
  have hiff : size ≤ 14 ↔ size.toNatClampNeg < 15 := by
    rw [Int32.le_iff_toInt_le, hint, show (14 : Int32).toInt = 14 from rfl]
    omega
  rw [writeListBegin, listHeader, apply_ite append]
  refine ite_congr (propext hiff) (fun hsmall => ?_) fun _ => rfl
  rw [hint, show (size.toNatClampNeg : ℤ) % 16 = size.toNatClampNeg by omega, Int.toNat_natCast]

theorem writeListBegin_emits (elem : TType) {size : Int32} (hsize : 0 ≤ size) (depth : ℕ) :
    Emits Wrote depth (writeListBegin elem size) [.sequenceBegin .list elem size] := by
  rw [writeListBegin_of_nonneg elem hsize]
  exact append_emits (t := .sequenceBegin .list elem size) (fun _ => ⟨⟨hsize, rfl⟩, rfl⟩) depth

theorem output_documented (overflowChecks : Bool) : (output overflowChecks).Documented Wrote where
  writeStructBegin := fun _ => writeStructBegin_advances
  writeStructEnd := fun depth => assertNoPending_advances (writeStructEnd_advances depth)
  writeFieldBegin := fun _ ty _ depth _ hid =>
    writeFieldBegin_advances overflowChecks ty hid (depth + 1)
  writeFieldEnd := fun depth =>
    assertNoPending_advances (nothing_emits (t := .fieldEnd) (fun _ => ⟨rfl, rfl⟩) (depth + 1))
  writeFieldStop := fun depth =>
    assertNoPending_advances (append_emits (t := .fieldStop) (fun _ => ⟨rfl, rfl⟩) (depth + 1))
  writeBool := writeBool_advances overflowChecks
  writeBytes := fun _ depth hlen => writeBytes_emits hlen depth
  writeI8 := fun _ => append_emits fun _ => ⟨rfl, rfl⟩
  writeI16 := fun _ => append_emits fun _ => ⟨rfl, rfl⟩
  writeI32 := fun _ => append_emits fun _ => ⟨rfl, rfl⟩
  writeI64 := fun _ => append_emits fun _ => ⟨rfl, rfl⟩
  writeDouble := fun _ => append_emits fun _ => ⟨rfl, rfl⟩
  writeString := fun _ depth hlen => writeBytes_emits hlen depth
  writeListBegin := fun elem _ depth hsize => writeListBegin_emits elem hsize depth
  writeListEnd := nothing_emits fun _ => ⟨rfl, rfl⟩

/-! ## Values -/

/-- What a reader knows where a writer holds nothing back. -/
def Context.settled (c : Context Int16) : Context Bool := ⟨c.last, c.stack, none⟩

theorem plain_value {t : Token} (hwrites : ∀ c b c', Writes c t b c' ↔ plain t b ∧ c' = c)
    (hreads : ∀ c b c', Reads c t b c' ↔ plain t b ∧ c' = c) {c c' : Context Int16}
    {bs : List UInt8} (h : Trace Writes c [t] bs c') :
    c' = c ∧ Trace Reads c.settled [t] bs c.settled := by
  cases h with
  | cons first rest =>
    cases rest
    obtain ⟨hb, rfl⟩ := (hwrites _ _ _).mp first
    exact ⟨rfl, .cons ((hreads _ _ _).mpr ⟨hb, rfl⟩) (.nil _)⟩

theorem struct_value {fields : List (Int16 × Wire)} {c c' : Context Int16} {bs : List UInt8}
    (hfields : ∀ {c c' : Context Int16} {bs : List UInt8}, c.pending = none →
      Trace Writes c (Wire.fieldTokens fields) bs c' → c'.pending = none ∧ c'.stack = c.stack ∧
        Trace Reads c.settled (Wire.fieldTokens fields) bs c'.settled)
    (hc : c.pending = none) (h : Trace Writes c (Wire.struct fields).tokens bs c') :
    c' = c ∧ Trace Reads c.settled (Wire.struct fields).tokens bs c.settled := by
  cases h with
  | cons first rest =>
    obtain ⟨rfl, rfl⟩ := first
    obtain ⟨bs₁, bs₂, c₁, rfl, hfirst, hend⟩ := rest.split
    obtain ⟨hpending, hstack, hreads⟩ :=
      hfields (c := ⟨0, c.last :: c.stack, c.pending⟩) hc hfirst
    cases hend with
    | cons hstop hend =>
      obtain ⟨hzero, rfl⟩ := hstop
      cases hend with
      | cons hlast hnil =>
        cases hnil
        obtain ⟨rfl, last, stack, hcons, rfl⟩ := hlast
        rw [hstack] at hcons
        cases hcons
        refine ⟨?_, ?_⟩
        · rw [hpending, ← hc]
        · refine .cons ⟨rfl, rfl⟩ (hreads.append (.cons ⟨hzero, rfl⟩ (.cons ⟨rfl, ?_⟩ (.nil _))))
          exact ⟨c.last, c.stack, hstack, rfl⟩

theorem fieldTokens_bool {id : Int16} {v : Bool} {fields : List (Int16 × Wire)}
    {c c' : Context Int16} {bs : List UInt8}
    (hfields : ∀ {c c' : Context Int16} {bs : List UInt8}, c.pending = none →
      Trace Writes c (Wire.fieldTokens fields) bs c' → c'.pending = none ∧ c'.stack = c.stack ∧
        Trace Reads c.settled (Wire.fieldTokens fields) bs c'.settled)
    (h : Trace Writes c (Wire.fieldTokens ((id, .bool v) :: fields)) bs c') :
    c'.pending = none ∧ c'.stack = c.stack ∧
      Trace Reads c.settled (Wire.fieldTokens ((id, .bool v) :: fields)) bs c'.settled := by
  cases h with
  | cons first rest =>
    obtain ⟨rfl, rfl⟩ := first
    cases rest with
    | cons second rest =>
      rcases second with ⟨id', hpending, hheader, rfl⟩ | ⟨hpending, -, -⟩
      · cases hpending
        cases rest with
        | cons third rest =>
          obtain ⟨hempty, rfl⟩ := third
          obtain ⟨hpending, hstack, hreads⟩ := hfields rfl rest
          refine ⟨hpending, hstack, ?_⟩
          have hbegin : Reads c.settled (.fieldBegin .bool id) _ ⟨id, c.stack, some v⟩ :=
            ⟨v, hheader, rfl⟩
          have htrace := Trace.cons hbegin (.cons (t := .bool v) (Or.inl ⟨rfl, rfl, rfl⟩)
            (.cons (t := .fieldEnd) ⟨hempty, rfl⟩ hreads))
          exact htrace
      · cases hpending

theorem reads_fieldBegin {ty : TType} (hty : ty ≠ .bool) {c c' : Context Bool} {id : Int16}
    {b : List UInt8} : Reads c (.fieldBegin ty id) b c' ↔
      Header c.last id (code ty) b ∧ c' = ⟨id, c.stack, c.pending⟩ := by
  cases ty with
  | bool => exact absurd rfl hty
  | _ => rfl

theorem writes_fieldBegin {ty : TType} (hty : ty ≠ .bool) {c c' : Context Int16} {id : Int16}
    {b : List UInt8} : Writes c (.fieldBegin ty id) b c' ↔
      Header c.last id (code ty) b ∧ c' = ⟨id, c.stack, c.pending⟩ := by
  cases ty with
  | bool => exact absurd rfl hty
  | _ => rfl

theorem fieldTokens_cons {id : Int16} {w : Wire} {fields : List (Int16 × Wire)}
    (hty : w.ttype ≠ .bool)
    (hvalue : ∀ {c c' : Context Int16} {bs : List UInt8}, c.pending = none →
      Trace Writes c w.tokens bs c' → c' = c ∧ Trace Reads c.settled w.tokens bs c.settled)
    (hfields : ∀ {c c' : Context Int16} {bs : List UInt8}, c.pending = none →
      Trace Writes c (Wire.fieldTokens fields) bs c' → c'.pending = none ∧ c'.stack = c.stack ∧
        Trace Reads c.settled (Wire.fieldTokens fields) bs c'.settled)
    {c c' : Context Int16} {bs : List UInt8} (hc : c.pending = none)
    (h : Trace Writes c (Wire.fieldTokens ((id, w) :: fields)) bs c') :
    c'.pending = none ∧ c'.stack = c.stack ∧
      Trace Reads c.settled (Wire.fieldTokens ((id, w) :: fields)) bs c'.settled := by
  cases h with
  | cons first rest =>
    obtain ⟨hheader, rfl⟩ := (writes_fieldBegin hty).mp first
    have hbegin : Reads c.settled (.fieldBegin w.ttype id) _ ⟨id, c.stack, none⟩ :=
      (reads_fieldBegin hty).mpr ⟨hheader, rfl⟩
    obtain ⟨bs₁, bs₂, c₁, rfl, hfirst, hend⟩ := rest.split
    obtain ⟨rfl, hreads⟩ := hvalue (c := ⟨id, c.stack, c.pending⟩) hc hfirst
    cases hend with
    | cons hempty hend =>
      obtain ⟨hempty, rfl⟩ := hempty
      obtain ⟨hpending, hstack, hfields⟩ :=
        hfields (c := ⟨id, c.stack, c.pending⟩) hc hend
      refine ⟨hpending, hstack, .cons hbegin ?_⟩
      exact hreads.append (.cons (t := .fieldEnd) ⟨hempty, rfl⟩ hfields)

theorem ttype_eq_bool {w : Wire} (h : w.ttype = .bool) : ∃ v, w = .bool v := by
  cases w with
  | bool v => exact ⟨v, rfl⟩
  | sequence kind elem elems => cases kind <;> cases h
  | _ => cases h

mutual

/-- **What a writer makes of a value, a reader sees**, and both are left as they were. -/
theorem written_value : (w : Wire) → ∀ {c c' : Context Int16} {bs : List UInt8},
    c.pending = none → Trace Writes c w.tokens bs c' →
    c' = c ∧ Trace Reads c.settled w.tokens bs c.settled
  | .bool v, c, c', bs, hc, h => by
    cases h with
    | cons first rest =>
      cases rest
      rcases first with ⟨id, hpending, -, -⟩ | ⟨-, rfl, rfl⟩
      · rw [hc] at hpending
        cases hpending
      · exact ⟨rfl, .cons (t := .bool v) (Or.inr ⟨rfl, rfl, rfl⟩) (.nil _)⟩
  | .i08 a, _, _, _, _, h =>
    plain_value (t := .i08 a) (fun _ _ _ => Iff.rfl) (fun _ _ _ => Iff.rfl) h
  | .i16 a, _, _, _, _, h =>
    plain_value (t := .i16 a) (fun _ _ _ => Iff.rfl) (fun _ _ _ => Iff.rfl) h
  | .i32 a, _, _, _, _, h =>
    plain_value (t := .i32 a) (fun _ _ _ => Iff.rfl) (fun _ _ _ => Iff.rfl) h
  | .i64 a, _, _, _, _, h =>
    plain_value (t := .i64 a) (fun _ _ _ => Iff.rfl) (fun _ _ _ => Iff.rfl) h
  | .double a, _, _, _, _, h =>
    plain_value (t := .double a) (fun _ _ _ => Iff.rfl) (fun _ _ _ => Iff.rfl) h
  | .binary a, _, _, _, _, h =>
    plain_value (t := .binary a) (fun _ _ _ => Iff.rfl) (fun _ _ _ => Iff.rfl) h
  | .struct fields, _, _, _, hc, h => struct_value (fun hc h => written_fields fields hc h) hc h
  | .sequence kind elem elems, c, c', bs, hc, h => by
    cases h with
    | cons first rest =>
      obtain ⟨hplain, rfl⟩ := first
      obtain ⟨bs₁, bs₂, c₁, rfl, hfirst, hend⟩ := rest.split
      obtain ⟨rfl, hreads⟩ := written_elems elems hc hfirst
      obtain ⟨rfl, hlast⟩ := plain_value (t := .sequenceEnd kind) (fun _ _ _ => Iff.rfl)
        (fun _ _ _ => Iff.rfl) hend
      exact ⟨rfl, .cons ⟨hplain, rfl⟩ (hreads.append hlast)⟩
  | .map key value entries, c, c', bs, hc, h => by
    cases h with
    | cons first rest =>
      obtain ⟨hplain, rfl⟩ := first
      obtain ⟨bs₁, bs₂, c₁, rfl, hfirst, hend⟩ := rest.split
      obtain ⟨rfl, hreads⟩ := written_entries entries hc hfirst
      obtain ⟨rfl, hlast⟩ := plain_value (t := .mapEnd) (fun _ _ _ => Iff.rfl)
        (fun _ _ _ => Iff.rfl) hend
      exact ⟨rfl, .cons ⟨hplain, rfl⟩ (hreads.append hlast)⟩

theorem written_fields : (fields : List (Int16 × Wire)) → ∀ {c c' : Context Int16}
    {bs : List UInt8}, c.pending = none → Trace Writes c (Wire.fieldTokens fields) bs c' →
    c'.pending = none ∧ c'.stack = c.stack ∧
      Trace Reads c.settled (Wire.fieldTokens fields) bs c'.settled
  | [], c, c', bs, hc, h => by
    cases h
    exact ⟨hc, rfl, .nil _⟩
  | (id, w) :: fields, c, c', bs, hc, h => by
    by_cases hty : w.ttype = .bool
    · obtain ⟨v, rfl⟩ := ttype_eq_bool hty
      exact fieldTokens_bool (fun hc h => written_fields fields hc h) h
    · exact fieldTokens_cons hty (fun hc h => written_value w hc h)
        (fun hc h => written_fields fields hc h) hc h

theorem written_elems : (elems : List Wire) → ∀ {c c' : Context Int16} {bs : List UInt8},
    c.pending = none → Trace Writes c (Wire.elemTokens elems) bs c' →
    c' = c ∧ Trace Reads c.settled (Wire.elemTokens elems) bs c.settled
  | [], c, c', bs, hc, h => by
    cases h
    exact ⟨rfl, .nil _⟩
  | w :: elems, c, c', bs, hc, h => by
    obtain ⟨bs₁, bs₂, c₁, rfl, hfirst, hend⟩ := Trace.split h
    obtain ⟨rfl, hreads⟩ := written_value w hc hfirst
    obtain ⟨rfl, hrest⟩ := written_elems elems hc hend
    exact ⟨rfl, hreads.append hrest⟩

theorem written_entries : (entries : List (Wire × Wire)) → ∀ {c c' : Context Int16}
    {bs : List UInt8}, c.pending = none → Trace Writes c (Wire.entryTokens entries) bs c' →
    c' = c ∧ Trace Reads c.settled (Wire.entryTokens entries) bs c.settled
  | [], c, c', bs, hc, h => by
    cases h
    exact ⟨rfl, .nil _⟩
  | (key, value) :: entries, c, c', bs, hc, h => by
    obtain ⟨bs₁, bs₂, c₁, rfl, hkey, hend⟩ := Trace.split h
    obtain ⟨rfl, hreadsKey⟩ := written_value key hc hkey
    obtain ⟨bs₃, bs₄, c₂, rfl, hvalue, hrest⟩ := hend.split
    obtain ⟨rfl, hreadsValue⟩ := written_value value hc hvalue
    obtain ⟨rfl, hreads⟩ := written_entries entries hc hrest
    exact ⟨rfl, hreadsKey.append (hreadsValue.append hreads)⟩

end

/-! ## The protocol -/

def protocol (overflowChecks : Bool) : Protocol where
  Input := Input
  Output := Output
  i := input overflowChecks
  o := output overflowChecks
  openAt bytes := ⟨bytes, 0, ⟨0, [], none⟩⟩
  position := Input.position
  create := ⟨[], ⟨0, [], none⟩⟩
  written := Output.bytes

theorem protocol_documented (overflowChecks : Bool) :
    (protocol overflowChecks).Documented Shows Wrote where
  input := input_documented overflowChecks
  output := output_documented overflowChecks
  created := ⟨.nil _, rfl, rfl, Int16.le_refl 0, List.forall_mem_nil _, by simp [protocol]⟩
  opened := fun out w rest hwrote => by
    obtain ⟨-, hreads⟩ := written_value w rfl hwrote.1
    exact ⟨out.bytes, rest, _, rfl, (Nat.zero_add _).symm, hreads⟩
  stopped := fun s stop hshows => by
    obtain ⟨bs, rest, c', -, rfl, htrace⟩ := hshows
    cases htrace
    rfl

end QueryEngine.Library.Thrift.Compact
