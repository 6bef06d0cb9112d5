import QueryEngine.Abstract.WireImage

/-! # A generated reader decodes

On any protocol object that does what is documented, a reader takes exactly the tokens of a value
and answers what the value decodes to: results, errors and panics alike. The loop over the fields
ends because it is granted more rounds than any struct of the value has fields.
-/
namespace QueryEngine.ParquetParser
open Library Library.Thrift
set_option autoImplicit false
set_option maxHeartbeats 250000

variable {σ : Type} {i : TInputProtocol σ} {Shows : σ → List Token → ℕ → Prop} {rt : Runtime}

/-! ## Sizes -/

theorem withCapacity_of_nonneg (zeroSized : Bool) {size : Int32} (h : 0 ≤ size) :
    (withCapacity zeroSized size : Run σ Unit) = pure () :=
  if_neg fun hneg => absurd hneg.1 (Int32.not_lt.mpr h)

/-! ## Lists -/

theorem readElems_consumes {α : Type} {elem : Run σ α} {value : Wire → Except Fault α → Prop}
    {ws : List Wire} {r : Except Fault (List α)} (h : Collects value ws r)
    (helem : ∀ w ∈ ws, ∀ r, value w r → Consumes Shows elem w.tokens r) :
    Consumes Shows (readElems elem ws.length) (Wire.elemTokens ws) r := by
  induction h with
  | nil => exact .pure []
  | @cons w ws x r first rest ih =>
    have hfirst := helem w List.mem_cons_self _ first
    have hrest := ih fun v hv => helem v (List.mem_cons_of_mem w hv)
    exact hfirst.bind (hrest.map (x :: ·))
  | @stop w ws e first => exact (helem w List.mem_cons_self _ first).bind_error _

/-! ## Numbers of a table -/

theorem Fields.id_mem_of_stores {ids : List Int16} {L R : Type} : (fields : Fields ids L R) →
    ∀ {k : Int16} {w : Wire} {locals : L} {r : Except Fault L},
    fields.Stores rt k w locals r → k ∈ ids
  | .nil, _, _, _, _, h => h.elim
  | .field id _ _ _ rest _, k, _, (_, _), _, h => by
    rw [Fields.Stores] at h
    split at h
    · rename_i hk
      exact hk ▸ List.mem_cons_self
    · obtain ⟨stored, hstored, -⟩ := h
      exact List.mem_cons_of_mem id (rest.id_mem_of_stores hstored)

theorem Variants.id_mem_of_picks {υ : Type} {ids : List Int16} {guards : List (υ → Bool)} :
    (variants : Variants υ ids guards) → ∀ {k : Int16} {w : Wire} {r : Except Fault υ},
    variants.Picks rt k w r → k ∈ ids
  | .nil, _, _, _, h => h.elim
  | .variant id _ _ _ _ rest _ _, k, _, _, h => by
    rw [Variants.Picks] at h
    split at h
    · rename_i hk
      exact hk ▸ List.mem_cons_self
    · exact List.mem_cons_of_mem id (rest.id_mem_of_picks h)

theorem Fields.id_nonneg {ids : List Int16} {L R : Type} : Fields ids L R → ∀ k ∈ ids, 0 ≤ k
  | .nil, _, h => absurd h List.not_mem_nil
  | .field _ _ _ _ rest fresh, k, h => by
    rcases List.mem_cons.mp h with rfl | h
    · exact fresh.1
    · exact rest.id_nonneg k h

theorem Variants.id_nonneg {υ : Type} {ids : List Int16} {guards : List (υ → Bool)} :
    Variants υ ids guards → ∀ k ∈ ids, 0 ≤ k
  | .nil, _, h => absurd h List.not_mem_nil
  | .variant _ _ _ _ _ rest _ fresh, k, h => by
    rcases List.mem_cons.mp h with rfl | h
    · exact fresh.1
    · exact rest.id_nonneg k h

theorem Fields.step_nonneg {ids : List Int16} {L R : Type} (fields : Fields ids L R)
    {f : Int16 × Wire} {locals : L} {r : Except Fault L}
    (h : fields.Step (fields.Stores rt) f locals r) : 0 ≤ f.1 := by
  rcases h with h | ⟨-, hskip, -⟩
  · exact fields.id_nonneg f.1 (fields.id_mem_of_stores h)
  · exact hskip.1

theorem Variants.step_nonneg {υ : Type} {ids : List Int16} {guards : List (υ → Bool)}
    (variants : Variants υ ids guards) {f : Int16 × Wire} {received : Option υ × Int32}
    {r : Except Fault (Option υ × Int32)}
    (h : variants.Step rt (variants.Picks rt) f received r) : 0 ≤ f.1 := by
  rcases h with ⟨picked, h, -⟩ | ⟨-, hskip, -⟩
  · exact variants.id_nonneg f.1 (variants.id_mem_of_picks h)
  · exact hskip.1

/-! ## Numbers that a table does not have -/

theorem Fields.arm_none {ids : List Int16} {L R : Type} :
    (fields : Fields ids L R) → {k : Int16} → k ∉ ids → ∀ locals, fields.arm i rt k locals = none
  | .nil, _, _, _ => rfl
  | .field id _ _ _ rest _, k, h, locals => by
    rw [List.mem_cons, not_or] at h
    rw [Fields.arm, if_neg h.1, rest.arm_none h.2]
    rfl

theorem Variants.arm_none {υ : Type} {ids : List Int16} {guards : List (υ → Bool)} :
    (variants : Variants υ ids guards) → {k : Int16} → k ∉ ids → variants.arm i rt k = none
  | .nil, _, _ => rfl
  | .variant id _ _ _ _ rest _ _, k, h => by
    rw [List.mem_cons, not_or] at h
    rw [Variants.arm, if_neg h.1, rest.arm_none h.2]

/-! ## Loops -/

section
variable (hi : i.Documented Shows)
include hi

theorem fieldLoop_stop {L : Type} (arm : TFieldIdentifier → L → Run σ L) (n : ℕ) (locals : L) :
    Consumes Shows (fieldLoop i arm (n + 1) locals) [.fieldStop] (.ok locals) := by
  obtain ⟨ident, hstop, hread⟩ := hi.readFieldStop
  rw [fieldLoop]
  apply hread.bind_nil
  rw [if_pos hstop]
  exact .pure locals

theorem fieldLoop_field {L : Type} {arm : TFieldIdentifier → L → Run σ L} {n : ℕ} {locals : L}
    {f : Int16 × Wire} (hf : 0 ≤ f.1) {us : List Token} {r : Except Fault L}
    (h : Consumes Shows (arm ⟨f.2.ttype, some f.1⟩ locals >>= fun locals' =>
      i.readFieldEnd >>= fun _ => fieldLoop i arm n locals') us r) :
    Consumes Shows (fieldLoop i arm (n + 1) locals) (.fieldBegin f.2.ttype f.1 :: us) r := by
  have hread := hi.readFieldBegin f.2.ttype f.1 f.2.ttype_ne_stop hf
  rw [fieldLoop]
  apply hread.bind
  rw [if_neg f.2.ttype_ne_stop]
  exact h

theorem fieldLoop_consumes {L : Type} (arm : TFieldIdentifier → L → Run σ L)
    {step : Int16 × Wire → L → Except Fault L → Prop} {ws : List (Int16 × Wire)} {locals : L}
    {r : Except Fault L} (h : Folds step ws locals r)
    (hnonneg : ∀ f ∈ ws, ∀ locals r, step f locals r → 0 ≤ f.1)
    (harm : ∀ f ∈ ws, ∀ locals r, step f locals r →
      Consumes Shows (arm ⟨f.2.ttype, some f.1⟩ locals) f.2.tokens r)
    {n : ℕ} (hn : ws.length < n) :
    Consumes Shows (fieldLoop i arm n locals) (Wire.fieldTokens ws ++ [.fieldStop]) r := by
  obtain ⟨n, rfl⟩ : ∃ m, n = m + 1 := Nat.exists_eq_add_one.mpr (Nat.zero_lt_of_lt hn)
  induction h generalizing n with
  | done locals => exact fieldLoop_stop hi arm n locals
  | @next f ws locals locals' r first rest ih =>
    obtain ⟨n, rfl⟩ : ∃ m, n = m + 1 :=
      Nat.exists_eq_add_one.mpr (Nat.zero_lt_of_lt (Nat.lt_of_succ_lt_succ hn))
    have hf := hnonneg f List.mem_cons_self _ _ first
    have hfirst := harm f List.mem_cons_self _ _ first
    have hrest := ih (fun g hg => hnonneg g (List.mem_cons_of_mem f hg))
      (fun g hg => harm g (List.mem_cons_of_mem f hg)) n (Nat.lt_of_succ_lt_succ hn)
    have hround := fieldLoop_field hi hf (hfirst.bind (hi.readFieldEnd.bind hrest))
    simpa [Wire.fieldTokens] using hround
  | @stop f ws locals e first =>
    have hf := hnonneg f List.mem_cons_self _ _ first
    have hfirst := harm f List.mem_cons_self _ _ first
    have hround := fieldLoop_field (n := n) hi hf
      (hfirst.bind_error (.fieldEnd :: (Wire.fieldTokens ws ++ [.fieldStop])))
    simpa [Wire.fieldTokens] using hround

/-! ## The match on a number -/

theorem matchField_consumes {ids : List Int16} {L R : Type} {fields : Fields ids L R}
    {stores : Int16 → Wire → L → Except Fault L → Prop} {arm : Int16 → L → Option (Run σ L)}
    {f : Int16 × Wire} {locals : L} {r : Except Fault L} (h : fields.Step stores f locals r)
    (hknown : ∀ r, stores f.1 f.2 locals r →
      ∃ store, arm f.1 locals = some store ∧ Consumes Shows store f.2.tokens r)
    (hunknown : f.1 ∉ ids → arm f.1 locals = none) :
    Consumes Shows (matchField i rt arm ⟨f.2.ttype, some f.1⟩ locals) f.2.tokens r := by
  unfold matchField fieldId
  rcases h with h | ⟨hid, hskip, rfl⟩
  · obtain ⟨store, harm, hstore⟩ := hknown r h
    simp only [pure_bind, harm]
    exact hstore
  · simp only [pure_bind, hunknown hid]
    exact (hi.skip f.2 hskip.2).map fun _ => locals

theorem matchVariant_consumes {υ : Type} {ids : List Int16} {guards : List (υ → Bool)}
    {variants : Variants υ ids guards} {picks : Int16 → Wire → Except Fault υ → Prop}
    {arm : Int16 → Option (Run σ υ)} {f : Int16 × Wire} {received : Option υ × Int32}
    {r : Except Fault (Option υ × Int32)} (h : variants.Step rt picks f received r)
    (hknown : ∀ r, picks f.1 f.2 r →
      ∃ read, arm f.1 = some read ∧ Consumes Shows read f.2.tokens r)
    (hunknown : f.1 ∉ ids → arm f.1 = none) :
    Consumes Shows (matchVariant i rt arm ⟨f.2.ttype, some f.1⟩ received) f.2.tokens r := by
  unfold matchVariant fieldId
  rcases h with ⟨picked, h, rfl⟩ | ⟨hid, hskip, rfl⟩
  · obtain ⟨read, harm, hread⟩ := hknown picked h
    simp only [pure_bind, harm]
    rw [← List.append_nil f.2.tokens]
    exact hread.seq fun val _ => (Consumes.lift _).map _
  · simp only [pure_bind, hunknown hid]
    rw [← List.append_nil f.2.tokens]
    exact (hi.skip f.2 hskip.2).bind ((Consumes.lift _).map _)

/-! ## Tables -/

theorem read_vec {α : Type} {elem : Serial α}
    (helem : ∀ {w : Wire} {r : Except Fault α}, elem.Decodes rt w r → w.width < rt.rounds →
      Consumes Shows (elem.readFromInProtocol i rt) w.tokens r)
    (zeroSized : Bool) {ty : TType} {ws : List Wire} {r : Except Fault (List α)}
    (hlen : ws.length < 2 ^ 31) (hws : Collects (elem.Decodes rt) ws r)
    (hw : (Wire.sequence .list ty ws).width < rt.rounds) :
    Consumes Shows ((Serial.vec zeroSized elem).readFromInProtocol i rt)
      (Wire.sequence .list ty ws).tokens r := by
  have helems := readElems_consumes hws fun w hmem r hr =>
    helem hr (Nat.lt_of_le_of_lt (Wire.width_le_of_mem_elems hmem) hw)
  have hend := helems.seq (f := fun val => i.readListEnd >>= fun _ => pure val) (g := pure)
    fun val _ => hi.readListEnd.bind (.pure val)
  rw [bind_pure] at hend
  apply (hi.readListBegin ty (Int32.ofNat ws.length) (size_nonneg hlen)).bind
  rw [withCapacity_of_nonneg zeroSized (size_nonneg hlen), pure_bind,
    Int32.toNatClampNeg_ofNat_of_lt hlen]
  exact hend

theorem read_marker {α : Type} {value : α} (name : String) (only : ∀ a, value = a)
    {ws : List (Int16 × Wire)} (hws : ∀ f ∈ ws, Wire.SkippableField f)
    (hw : (Wire.struct ws).width < rt.rounds) :
    Consumes Shows ((Serial.marker name value only).readFromInProtocol i rt)
      (Wire.struct ws).tokens (.ok value) := by
  have hfolds : Folds (fun f _ r => Wire.SkippableField f ∧ r = .ok ()) ws ()
      (.ok () : Except Fault Unit) := Folds.of_forall_idle (fun f hf _ => ⟨hws f hf, rfl⟩) ()
  have hloop := fieldLoop_consumes hi (fun ident _ => i.skip ident.fieldType) hfolds
    (fun f _ _ _ hstep => hstep.1.1)
    (by rintro f hf _ _ ⟨hskip, rfl⟩; exact hi.skip f.2 hskip.2)
    (Nat.lt_of_le_of_lt (Nat.le_max_left _ _) hw)
  have hend := hloop.bind (f := fun _ => i.readStructEnd >>= fun _ => pure value)
    (hi.readStructEnd.bind (.pure value))
  rw [List.append_assoc] at hend
  exact hi.readStructBegin.bind hend

theorem read_struct {α L R : Type} {ids : List Int16} {fields : Fields ids L R}
    (harm : ∀ {k : Int16} {w : Wire} {locals : L} {r : Except Fault L},
      fields.Stores rt k w locals r → w.width < rt.rounds →
      ∃ store, fields.arm i rt k locals = some store ∧ Consumes Shows store w.tokens r)
    (name : String) (view : α → R) (build : R → α) (build_view : ∀ a, build (view a) = a)
    {ws : List (Int16 × Wire)} {stored : Except Fault L}
    (hws : Folds (fields.Step (fields.Stores rt)) ws fields.locals stored)
    (hw : (Wire.struct ws).width < rt.rounds) :
    Consumes Shows ((Serial.struct name fields view build build_view).readFromInProtocol i rt)
      (Wire.struct ws).tokens (build <$> (stored >>= fields.finish rt)) := by
  have hloop := fieldLoop_consumes hi (matchField i rt fun k => fields.arm i rt k) hws
    (fun _ _ _ _ hstep => fields.step_nonneg hstep)
    (fun f hf locals r hstep => matchField_consumes hi hstep
      (fun r hr => harm hr (Nat.lt_of_le_of_lt (Nat.le_trans (Wire.width_le_of_mem_fields hf)
        (Nat.le_max_right _ _)) hw))
      fun hid => fields.arm_none hid locals)
    (Nat.lt_of_le_of_lt (Nat.le_max_left _ _) hw)
  have hend := hloop.seq (f := fun locals => i.readStructEnd >>= fun _ =>
      liftM (fields.verify rt locals) >>= fun _ => liftM (fields.assemble locals) >>= fun r =>
      pure (build r))
    (g := fun locals => fields.verify rt locals >>= fun _ => build <$> fields.assemble locals)
    fun locals _ => hi.readStructEnd.bind
      ((Consumes.lift _).seq fun _ _ => (Consumes.lift (fields.assemble locals)).map build)
  have hresult : (stored >>= fun locals => fields.verify rt locals >>= fun _ =>
      build <$> fields.assemble locals) = build <$> (stored >>= fields.finish rt) := by
    simp only [Fields.finish, map_bind]
  rw [List.append_assoc, hresult] at hend
  exact hi.readStructBegin.bind hend

theorem read_union {υ : Type} {ids : List Int16} {guards : List (υ → Bool)}
    {variants : Variants υ ids guards}
    (harm : ∀ {k : Int16} {w : Wire} {r : Except Fault υ}, variants.Picks rt k w r →
      w.width < rt.rounds →
      ∃ read, variants.arm i rt k = some read ∧ Consumes Shows read w.tokens r)
    (name : String) (covered : ∀ a, (guards.any fun guard => guard a) = true)
    {ws : List (Int16 × Wire)} {received : Except Fault (Option υ × Int32)}
    (hws : Folds (variants.Step rt (variants.Picks rt)) ws (none, 0) received)
    (hw : (Wire.struct ws).width < rt.rounds) :
    Consumes Shows ((Serial.union name variants covered).readFromInProtocol i rt)
      (Wire.struct ws).tokens (received >>= unionResult name) := by
  have hloop := fieldLoop_consumes hi (matchVariant i rt fun k => variants.arm i rt k) hws
    (fun _ _ _ _ hstep => variants.step_nonneg hstep)
    (fun f hf received r hstep => matchVariant_consumes hi hstep
      (fun r hr => harm hr (Nat.lt_of_le_of_lt (Nat.le_trans (Wire.width_le_of_mem_fields hf)
        (Nat.le_max_right _ _)) hw))
      fun hid => variants.arm_none hid)
    (Nat.lt_of_le_of_lt (Nat.le_max_left _ _) hw)
  have hend := hloop.seq (f := fun received => i.readStructEnd >>= fun _ =>
      liftM (unionResult name received))
    (g := unionResult name)
    fun received _ => hi.readStructEnd.bind (Consumes.lift _)
  rw [List.append_assoc] at hend
  exact hi.readStructBegin.bind hend

end

mutual

theorem Serial.read_consumes (hi : i.Documented Shows) {α : Type} : (serial : Serial α) →
    ∀ {w : Wire} {r : Except Fault α}, serial.Decodes rt w r → w.width < rt.rounds →
    Consumes Shows (serial.readFromInProtocol i rt) w.tokens r
  | .bool, _, _, ⟨b, rfl, rfl⟩, _ => hi.readBool b
  | .i8, _, _, ⟨n, rfl, rfl⟩, _ => hi.readI8 n
  | .i16, _, _, ⟨n, rfl, rfl⟩, _ => hi.readI16 n
  | .i32, _, _, ⟨n, rfl, rfl⟩, _ => hi.readI32 n
  | .i64, _, _, ⟨n, rfl, rfl⟩, _ => hi.readI64 n
  | .double, _, _, ⟨bits, rfl, rfl⟩, _ => hi.readDouble bits
  | .string, _, _, ⟨s, rfl, rfl⟩, _ => hi.readString s
  | .bytes, _, _, ⟨bs, rfl, rfl⟩, _ => hi.readBytes bs
  | .enumeration fromI32 _ _, _, _, h, _ => by
    obtain ⟨n, rfl, rfl⟩ := h
    exact (hi.readI32 n).map fromI32
  | .vec zeroSized elem, _, _, h, hw => by
    obtain ⟨ty, ws, rfl, hlen, hws⟩ := h
    exact read_vec hi (fun h => elem.read_consumes hi h) zeroSized hlen hws hw
  | .marker name _ only, _, _, h, hw => by
    obtain ⟨ws, rfl, hws, rfl⟩ := h
    exact read_marker hi name only hws hw
  | .struct name fields view build build_view, _, _, h, hw => by
    obtain ⟨ws, stored, rfl, hws, rfl⟩ := h
    exact read_struct hi (fun h => fields.arm_consumes hi h) name view build build_view hws hw
  | .union name variants covered, _, _, h, hw => by
    obtain ⟨ws, received, rfl, hws, rfl⟩ := h
    exact read_union hi (fun h => variants.arm_consumes hi h) name covered hws hw

theorem Fields.arm_consumes (hi : i.Documented Shows) {ids : List Int16} {L R : Type} :
    (fields : Fields ids L R) →
    ∀ {k : Int16} {w : Wire} {locals : L} {r : Except Fault L}, fields.Stores rt k w locals r →
    w.width < rt.rounds →
    ∃ store, fields.arm i rt k locals = some store ∧ Consumes Shows store w.tokens r
  | .nil, _, _, _, _, h, _ => h.elim
  | .field id _ _ serial rest _, k, _, _, _, h, hw => by
    rw [Fields.Stores] at h
    rw [Fields.arm]
    split at h
    · rename_i hk
      obtain ⟨value, hvalue, rfl⟩ := h
      rw [if_pos hk]
      exact ⟨_, rfl, (serial.read_consumes hi hvalue hw).map _⟩
    · rename_i hk
      obtain ⟨stored, hstored, rfl⟩ := h
      obtain ⟨store, harm, hstore⟩ := rest.arm_consumes hi hstored hw
      rw [if_neg hk, harm]
      exact ⟨_, rfl, hstore.map _⟩

theorem Variants.arm_consumes (hi : i.Documented Shows) {υ : Type} {ids : List Int16}
    {guards : List (υ → Bool)} :
    (variants : Variants υ ids guards) → ∀ {k : Int16} {w : Wire} {r : Except Fault υ},
    variants.Picks rt k w r → w.width < rt.rounds →
    ∃ read, variants.arm i rt k = some read ∧ Consumes Shows read w.tokens r
  | .nil, _, _, _, h, _ => h.elim
  | .variant id _ serial _ _ rest _ _, k, _, _, h, hw => by
    rw [Variants.Picks] at h
    rw [Variants.arm]
    split at h
    · rename_i hk
      obtain ⟨value, hvalue, rfl⟩ := h
      rw [if_pos hk]
      exact ⟨_, rfl, (serial.read_consumes hi hvalue hw).map _⟩
    · rename_i hk
      rw [if_neg hk]
      exact rest.arm_consumes hi h hw

end

end QueryEngine.ParquetParser
