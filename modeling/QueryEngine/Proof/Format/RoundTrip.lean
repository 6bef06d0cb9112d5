import Mathlib.Order.MinMax
import QueryEngine.Library.CountedLoop
import QueryEngine.Proof.Format.Reading

/-! # What was written is read back

A generated writer emits the image of its value, and the image decodes to the value. Between the
two lies the table: the numbers are distinct, so every field is stored in its own variable, and
every value of a union is one of its variants.
-/
namespace QueryEngine.ParquetParser
open Library Library.Thrift
set_option autoImplicit false
set_option maxHeartbeats 250000

/-! ## Writers emit images -/

theorem Serial.ttype_ne_stop {α : Type} (serial : Serial α) : serial.ttype ≠ .stop := by
  cases serial <;> exact TType.noConfusion

theorem Serial.encode_ttype {α : Type} (serial : Serial α) (a : α) :
    (serial.encode a).ttype = serial.ttype := by
  cases serial <;> rfl

section
variable {τ : Type} {o : TOutputProtocol τ} {Wrote : τ → Stage → List Token → Prop}

theorem writeElems_emits {α : Type} {elem : α → Run τ Unit} {image : α → Wire} {xs : List α}
    {depth : ℕ} (h : ∀ x ∈ xs, Emits Wrote depth (elem x) (image x).tokens) :
    Emits Wrote depth (writeElems elem xs) (Wire.elemTokens (xs.map image)) := by
  induction xs with
  | nil => exact .nothing depth
  | cons x xs ih =>
    exact (h x List.mem_cons_self).bind (ih fun y hy => h y (List.mem_cons_of_mem x hy))

theorem writeStruct_emits (ho : o.Documented Wrote) {p : Run τ Unit} (ws : List (Int16 × Wire))
    {depth : ℕ} (hp : Emits Wrote (depth + 1) p (Wire.fieldTokens ws)) (name : String) :
    Emits Wrote depth (o.writeStructBegin name >>= fun _ => p >>= fun _ => o.writeFieldStop >>=
      fun _ => o.writeStructEnd) (Wire.struct ws).tokens := by
  have hend : Advances Wrote (o.writeFieldStop >>= fun _ => o.writeStructEnd)
      ([.fieldStop] ++ [.structEnd]) ⟨depth + 1, false⟩ ⟨depth, false⟩ :=
    Advances.bind (ho.writeFieldStop depth) (ho.writeStructEnd depth)
  exact (ho.writeStructBegin name depth).bind (Advances.bind hp hend)

/-- Only a boolean is announced as one, and it may follow its number. -/
theorem Serial.write_waiting (ho : o.Documented Wrote) {α : Type} {serial : Serial α} {a : α}
    {depth : ℕ}
    (hvalue : Emits Wrote depth (serial.writeToOutProtocol o a) (serial.encode a).tokens) :
    Advances Wrote (serial.writeToOutProtocol o a) (serial.encode a).tokens
      ⟨depth, decide (serial.ttype = .bool)⟩ ⟨depth, false⟩ := by
  cases serial with
  | bool => exact ho.writeBool a depth true
  | _ => exact hvalue

theorem writeField_emits (ho : o.Documented Wrote) {α : Type} {serial : Serial α} {a : α}
    {depth : ℕ} (hvalue : Emits Wrote (depth + 1) (serial.writeToOutProtocol o a)
      (serial.encode a).tokens) (name : String) {id : Int16} (hid : 0 ≤ id) :
    Emits Wrote (depth + 1) (o.writeFieldBegin name serial.ttype id >>= fun _ =>
      serial.writeToOutProtocol o a >>= fun _ => o.writeFieldEnd)
      (Wire.fieldTokens [(id, serial.encode a)]) := by
  have hbegin := ho.writeFieldBegin name serial.ttype id depth serial.ttype_ne_stop hid
  rw [Wire.fieldTokens, serial.encode_ttype]
  exact hbegin.bind ((Serial.write_waiting ho hvalue).bind (ho.writeFieldEnd depth))

mutual

/-- **A value that fits is written**: the writer returns, and has appended the image. -/
theorem Serial.write_emits (ho : o.Documented Wrote) {α : Type} : (serial : Serial α) →
    ∀ {a : α} (depth : ℕ), serial.Fits a →
    Emits Wrote depth (serial.writeToOutProtocol o a) (serial.encode a).tokens
  | .bool, b, depth, _ => ho.writeBool b depth false
  | .i8, n, depth, _ => ho.writeI8 n depth
  | .i16, n, depth, _ => ho.writeI16 n depth
  | .i32, n, depth, _ => ho.writeI32 n depth
  | .i64, n, depth, _ => ho.writeI64 n depth
  | .double, bits, depth, _ => ho.writeDouble bits depth
  | .string, s, depth, h => ho.writeString s depth h
  | .bytes, bs, depth, h => ho.writeBytes bs depth h
  | .enumeration _ code _, a, depth, _ => ho.writeI32 (code a) depth
  | .vec _ elem, xs, depth, h => by
    have helems := writeElems_emits fun x hx => elem.write_emits ho depth (h.2 x hx)
    have hbegin := ho.writeListBegin elem.ttype (Int32.ofNat xs.length) depth (size_nonneg h.1)
    rw [Serial.encode, Wire.tokens, List.length_map]
    exact hbegin.bind (helems.bind (ho.writeListEnd depth))
  | .marker name _ _, _, depth, _ => writeStruct_emits ho [] (.nothing (depth + 1)) name
  | .struct name fields _ _ _, _, depth, h =>
    writeStruct_emits ho _ (fields.write_emits ho depth h) name
  | .union name variants _, _, depth, h =>
    writeStruct_emits ho _ (variants.write_emits ho depth h) name

theorem Fields.write_emits (ho : o.Documented Wrote) {ids : List Int16} {L R : Type} :
    (fields : Fields ids L R) → ∀ {values : R} (depth : ℕ), fields.Fits values →
    Emits Wrote (depth + 1) (fields.write o values) (Wire.fieldTokens (fields.encode values))
  | .nil, _, depth, _ => .nothing (depth + 1)
  | .field id name presence serial rest fresh, (stored, values), depth, h => by
    have hrest := rest.write_emits ho depth h.2
    rw [Fields.write, Fields.encode]
    cases hpresent : presence.present stored with
    | none => exact (Emits.nothing (depth + 1)).bind hrest
    | some value =>
      have hfield := writeField_emits ho
        (serial.write_emits ho (depth + 1) (h.1 value hpresent)) name fresh.1
      simpa [Wire.fieldTokens] using hfield.bind hrest

theorem Variants.write_emits (ho : o.Documented Wrote) {υ : Type} {ids : List Int16}
    {guards : List (υ → Bool)} : (variants : Variants υ ids guards) → ∀ {u : υ} (depth : ℕ),
    variants.Fits u →
    Emits Wrote (depth + 1) (variants.write o u) (Wire.fieldTokens (variants.encode u))
  | .nil, _, depth, _ => .nothing (depth + 1)
  | .variant id name serial _ project rest _ fresh, u, depth, h => by
    rw [Variants.write, Variants.encode]
    cases hproject : project u with
    | none => exact rest.write_emits ho depth h.2
    | some f =>
      exact writeField_emits ho (serial.write_emits ho (depth + 1) (h.1 f hproject)) name fresh.1

end

end

/-! ## Images decode -/

/-- The variables of a reader that has stored all that was written. -/
def Fields.filled {ids : List Int16} {L R : Type} : Fields ids L R → R → L
  | .nil, _ => ()
  | .field _ _ presence _ rest _, (stored, values) =>
      (presence.present stored, rest.filled values)

theorem Fields.finish_required (rt : Runtime) {α L R : Type} {ids : List Int16} {id : Int16}
    {name path : String} {serial : Serial α} {rest : Fields ids L R} {fresh : 0 ≤ id ∧ id ∉ ids}
    (value : α) (locals : L) : (Fields.field id name (.required path) serial rest fresh).finish rt
      (some value, locals) = (value, ·) <$> rest.finish rt locals := by
  rw [Fields.finish, Fields.finish, Fields.verify, Fields.assemble]
  cases rest.verify rt locals with
  | error e => rfl
  | ok _ => cases rest.assemble locals <;> rfl

theorem Fields.finish_optional (rt : Runtime) {α L R : Type} {ids : List Int16} {id : Int16}
    {name : String} {serial : Serial α} {rest : Fields ids L R} {fresh : 0 ≤ id ∧ id ∉ ids}
    (slot : Option α) (locals : L) : (Fields.field id name .optional serial rest fresh).finish rt
      (slot, locals) = (slot, ·) <$> rest.finish rt locals := by
  rw [Fields.finish, Fields.finish, Fields.verify, Fields.assemble]
  cases rest.verify rt locals with
  | error e => rfl
  | ok _ => cases rest.assemble locals <;> rfl

theorem Fields.finish_filled (rt : Runtime) {ids : List Int16} {L R : Type} :
    (fields : Fields ids L R) → ∀ values : R, fields.finish rt (fields.filled values) = .ok values
  | .nil, _ => rfl
  | .field _ _ (.required _) _ rest _, (stored, values) => by
    rw [Fields.filled, Presence.present, Fields.finish_required, rest.finish_filled rt values]
    rfl
  | .field _ _ .optional _ rest _, (stored, values) => by
    rw [Fields.filled, Presence.present, Fields.finish_optional, rest.finish_filled rt values]
    rfl

theorem Fields.id_mem {ids : List Int16} {L R : Type} : (fields : Fields ids L R) →
    ∀ {values : R}, ∀ f ∈ fields.encode values, f.1 ∈ ids
  | .nil, _, _, h => by cases h
  | .field id _ presence serial rest _, (stored, values), f, h => by
    rw [Fields.encode] at h
    cases hpresent : presence.present stored with
    | none =>
      rw [hpresent] at h
      exact List.mem_cons_of_mem id (rest.id_mem f h)
    | some value =>
      rw [hpresent] at h
      rcases List.mem_cons.mp h with rfl | h
      · exact List.mem_cons_self
      · exact List.mem_cons_of_mem id (rest.id_mem f h)

theorem Fields.encode_nodup {ids : List Int16} {L R : Type} : (fields : Fields ids L R) →
    ∀ values : R, ((fields.encode values).map Prod.fst).Nodup
  | .nil, _ => List.nodup_nil
  | .field id _ presence serial rest fresh, (stored, values) => by
    rw [Fields.encode]
    cases presence.present stored with
    | none => exact rest.encode_nodup values
    | some value =>
      refine List.nodup_cons.mpr ⟨fun hid => ?_, rest.encode_nodup values⟩
      obtain ⟨f, hf, rfl⟩ := List.mem_map.mp hid
      exact fresh.2 (rest.id_mem f hf)

/-- What another field does is done beside the first variable. -/
theorem Fields.Step.beside {rt : Runtime} {α L R : Type} {ids : List Int16} {id : Int16}
    (name : String) (presence : Presence) (serial : Serial α) {rest : Fields ids L R}
    (fresh : 0 ≤ id ∧ id ∉ ids) {f : Int16 × Wire} {locals : L} {r : Except Fault L}
    (slot : Option α) (hid : f.1 ≠ id) (h : rest.Step (rest.Stores rt) f locals r) :
    (Fields.field id name presence serial rest fresh).Step
      ((Fields.field id name presence serial rest fresh).Stores rt) f (slot, locals)
      ((slot, ·) <$> r) := by
  rcases h with h | ⟨hunknown, hskip, rfl⟩
  · refine Or.inl ?_
    rw [Fields.Stores, if_neg hid]
    exact ⟨r, h, rfl⟩
  · exact Or.inr ⟨fun h => (List.mem_cons.mp h).elim hid hunknown, hskip, rfl⟩

mutual

theorem Serial.decodes_encode (rt : Runtime) {α : Type} : (serial : Serial α) → ∀ {a : α},
    serial.Fits a → serial.Decodes rt (serial.encode a) (.ok a)
  | .bool, b, _ => ⟨b, rfl, rfl⟩
  | .i8, n, _ => ⟨n, rfl, rfl⟩
  | .i16, n, _ => ⟨n, rfl, rfl⟩
  | .i32, n, _ => ⟨n, rfl, rfl⟩
  | .i64, n, _ => ⟨n, rfl, rfl⟩
  | .double, bits, _ => ⟨bits, rfl, rfl⟩
  | .string, s, _ => ⟨s, rfl, rfl⟩
  | .bytes, bs, _ => ⟨bs, rfl, rfl⟩
  | .enumeration fromI32 code from_code, a, _ =>
    ⟨code a, rfl, congrArg Except.ok (from_code a).symm⟩
  | .vec zeroSized elem, xs, h => by
    refine ⟨elem.ttype, xs.map elem.encode, rfl, ?_, ?_⟩
    · rw [List.length_map]
      exact h.1
    · exact collects_map fun x hx => elem.decodes_encode rt (h.2 x hx)
  | .marker _ _ only, a, _ => ⟨[], rfl, List.forall_mem_nil _, congrArg Except.ok (only a).symm⟩
  | .struct _ fields view build build_view, a, h => by
    refine ⟨fields.encode (view a), .ok (fields.filled (view a)), rfl,
      fields.folds_encode rt h, ?_⟩
    rw [ok_bind, fields.finish_filled, map_ok, build_view]
  | .union name variants covered, a, h => by
    obtain ⟨k, w, hencode, -, hpicks⟩ := variants.encode_of_any rt (covered a) h
    refine ⟨[(k, w)], .ok (some a, 1), congrArg Wire.struct hencode, ?_, rfl⟩
    exact .next (Or.inl ⟨.ok a, hpicks, rfl⟩) (.done _)

theorem Fields.folds_encode (rt : Runtime) {ids : List Int16} {L R : Type} :
    (fields : Fields ids L R) → ∀ {values : R}, fields.Fits values →
    Folds (fields.Step (fields.Stores rt)) (fields.encode values) fields.locals
      (.ok (fields.filled values))
  | .nil, _, _ => .done ()
  | .field id name presence serial rest fresh, (stored, values), h => by
    have hbeside : ∀ slot, Folds _ (rest.encode values) (slot, rest.locals) _ := fun slot =>
      (rest.folds_encode rt h.2).map (slot, ·) fun f hf locals r hstep =>
        Fields.Step.beside name presence serial fresh slot
          (fun hid => fresh.2 (hid ▸ rest.id_mem f hf)) hstep
    rw [Fields.encode, Fields.filled]
    cases hpresent : presence.present stored with
    | none => exact hbeside none
    | some value =>
      refine .next (Or.inl ?_) (hbeside (some value))
      rw [Fields.Stores, if_pos rfl]
      exact ⟨.ok value, serial.decodes_encode rt (h.1 value hpresent), rfl⟩

theorem Variants.encode_of_any (rt : Runtime) {υ : Type} {ids : List Int16}
    {guards : List (υ → Bool)} : (variants : Variants υ ids guards) → ∀ {u : υ},
    (guards.any fun guard => guard u) = true → variants.Fits u →
    ∃ k w, variants.encode u = [(k, w)] ∧ k ∈ ids ∧ variants.Picks rt k w (.ok u)
  | .nil, _, hany, _ => by cases hany
  | @Variants.variant _ _ _ guards id _ serial inject project rest inject_of_project fresh, u,
      hany, h => by
    rw [Variants.encode]
    cases hproject : project u with
    | none =>
      have hrest : (guards.any fun guard => guard u) = true := by simpa [hproject] using hany
      obtain ⟨k, w, hencode, hk, hpicks⟩ := rest.encode_of_any rt hrest h.2
      refine ⟨k, w, hencode, List.mem_cons_of_mem id hk, ?_⟩
      rw [Variants.Picks, if_neg fun (hid : k = id) => fresh.2 (hid ▸ hk)]
      exact hpicks
    | some f =>
      refine ⟨id, serial.encode f, rfl, List.mem_cons_self, ?_⟩
      rw [Variants.Picks, if_pos rfl]
      exact ⟨.ok f, serial.decodes_encode rt (h.1 f hproject),
        congrArg Except.ok (inject_of_project u f hproject).symm⟩

end

/-! ## Images are no wider than their tables -/

theorem elemWidth_map_le {α : Type} {image : α → Wire} {n : ℕ} {xs : List α}
    (h : ∀ x ∈ xs, (image x).width ≤ n) : Wire.elemWidth (xs.map image) ≤ n := by
  induction xs with
  | nil => exact Nat.zero_le n
  | cons x xs ih =>
    exact Nat.max_le.mpr
      ⟨h x List.mem_cons_self, ih fun y hy => h y (List.mem_cons_of_mem x hy)⟩

mutual

theorem Serial.encode_width {α : Type} : (serial : Serial α) → ∀ a : α,
    (serial.encode a).width ≤ serial.width
  | .bool, _ => Nat.le_refl 0
  | .i8, _ => Nat.le_refl 0
  | .i16, _ => Nat.le_refl 0
  | .i32, _ => Nat.le_refl 0
  | .i64, _ => Nat.le_refl 0
  | .double, _ => Nat.le_refl 0
  | .string, _ => Nat.le_refl 0
  | .bytes, _ => Nat.le_refl 0
  | .enumeration _ _ _, _ => Nat.le_refl 0
  | .vec _ elem, _ => elemWidth_map_le fun x _ => elem.encode_width x
  | .marker _ _ _, _ => Nat.le_refl 0
  | .struct _ fields view _ _, a =>
    max_le_max (fields.encode_width (view a)).1 (fields.encode_width (view a)).2
  | .union _ variants _, a => max_le_max (variants.encode_width a).1 (variants.encode_width a).2

theorem Fields.encode_width {ids : List Int16} {L R : Type} : (fields : Fields ids L R) →
    ∀ values : R, (fields.encode values).length ≤ ids.length ∧
      Wire.fieldWidth (fields.encode values) ≤ fields.width
  | .nil, _ => ⟨Nat.le_refl 0, Nat.le_refl 0⟩
  | .field id _ presence serial rest _, (stored, values) => by
    obtain ⟨hlength, hwidth⟩ := rest.encode_width values
    rw [Fields.encode, Fields.width]
    cases presence.present stored with
    | none => exact ⟨Nat.le_succ_of_le hlength, Nat.le_trans hwidth (Nat.le_max_right _ _)⟩
    | some value =>
      exact ⟨Nat.succ_le_succ hlength, max_le_max (serial.encode_width value) hwidth⟩

theorem Variants.encode_width {υ : Type} {ids : List Int16} {guards : List (υ → Bool)} :
    (variants : Variants υ ids guards) → ∀ u : υ, (variants.encode u).length ≤ 1 ∧
      Wire.fieldWidth (variants.encode u) ≤ variants.width
  | .nil, _ => ⟨Nat.zero_le 1, Nat.le_refl 0⟩
  | .variant id _ serial _ project rest _ _, u => by
    obtain ⟨hlength, hwidth⟩ := rest.encode_width u
    rw [Variants.encode, Variants.width]
    cases project u with
    | none => exact ⟨hlength, Nat.le_trans hwidth (Nat.le_max_right _ _)⟩
    | some f => exact ⟨Nat.le_refl 1, max_le_max (serial.encode_width f) (Nat.zero_le _)⟩

end

/-! ## The round trip -/

/-- What was written shows itself to a reader, whatever bytes follow. -/
theorem Serial.write_shows {p : Protocol} {Shows : p.Input → List Token → ℕ → Prop}
    {Wrote : p.Output → Stage → List Token → Prop} (hp : p.Documented Shows Wrote) {α : Type}
    {serial : Serial α} {a : α} (hfits : serial.Fits a) :
    ∃ out, serial.writeToOutProtocol p.o a p.create = .ok ((), out) ∧
      ∀ rest, Shows (p.openAt (p.written out ++ rest)) (serial.encode a).tokens
        (p.written out).length := by
  obtain ⟨out, hwrite, hwrote⟩ := serial.write_emits hp.output 0 hfits p.create [] hp.created
  exact ⟨out, hwrite, fun rest => hp.opened out _ rest hwrote⟩

/-- **What is written is read back**: a value that fits is written, and whatever follows the bytes,
it is read back, and the reader stops right behind them. -/
theorem Serial.read_written {p : Protocol} {Shows : p.Input → List Token → ℕ → Prop}
    {Wrote : p.Output → Stage → List Token → Prop} (hp : p.Documented Shows Wrote) {rt : Runtime}
    {α : Type} {serial : Serial α} {a : α} (hfits : serial.Fits a)
    (hrounds : serial.width < rt.rounds) :
    ∃ out, serial.writeToOutProtocol p.o a p.create = .ok ((), out) ∧ ∀ rest, ∃ s,
      serial.readFromInProtocol p.i rt (p.openAt (p.written out ++ rest)) = .ok (a, s) ∧
        p.position s = (p.written out).length := by
  obtain ⟨out, hwrite, hshows⟩ := Serial.write_shows hp hfits
  refine ⟨out, hwrite, fun rest => ?_⟩
  have hread := serial.read_consumes hp.input (serial.decodes_encode rt hfits)
    (Nat.lt_of_le_of_lt (serial.encode_width a) hrounds)
  obtain ⟨s, hs, hend⟩ := hread (p.openAt (p.written out ++ rest)) [] (p.written out).length
    (by rw [List.append_nil]; exact hshows rest)
  exact ⟨s, hs, hp.stopped s _ hend⟩

end QueryEngine.ParquetParser
