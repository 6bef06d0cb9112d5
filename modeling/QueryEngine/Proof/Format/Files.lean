import QueryEngine.Library.Thrift.CompactImage
import QueryEngine.Model.Metadata
import QueryEngine.Proof.Format.Panics
import QueryEngine.Proof.ParquetParser

/-! # Whole files

What the footer of a file decodes to is what the parser answers: the metadata that was written, an
error of the decoder, or a panic.
-/
namespace QueryEngine.ParquetParser
open Library Library.Thrift
set_option autoImplicit false
set_option maxHeartbeats 250000

variable {t : Target} {lib : BytesCrate t} {p : Protocol} {rt : Runtime}
  {display : Error → String} {Shows : p.Input → List Token → ℕ → Prop}
  {Wrote : p.Output → Stage → List Token → Prop}

/-! ## A value and what follows it -/

theorem Serial.readFromCursor_ok (display : Error → String) (hp : p.Documented Shows Wrote)
    {α : Type} {serial : Serial α} {w : Wire} {a : α} (h : serial.Decodes rt w (.ok a))
    (hw : w.width < rt.rounds) {bs : List UInt8} {stop : ℕ}
    (hshows : Shows (p.openAt bs) w.tokens stop) :
    serial.readFromCursor p rt display bs = .ok (.ok (a, stop)) := by
  obtain ⟨s, hs, hstop⟩ := serial.read_consumes hp.input h hw (p.openAt bs) [] stop
    (by rw [List.append_nil]; exact hshows)
  rw [Serial.readFromCursor, hs, ← hp.stopped s stop hstop]
  rfl

theorem Serial.readFromCursor_error (display : Error → String) (hp : p.Documented Shows Wrote)
    {α : Type} {serial : Serial α} {w : Wire} {e : Fault} (h : serial.Decodes rt w (.error e))
    (hw : w.width < rt.rounds) {bs : List UInt8} {stop : ℕ}
    (hshows : Shows (p.openAt bs) w.tokens stop) :
    serial.readFromCursor p rt display bs = settle display (.error e) := by
  have hs := serial.read_consumes hp.input h hw (p.openAt bs) [] stop
    (by rw [List.append_nil]; exact hshows)
  rw [Serial.readFromCursor, hs]
  rfl

/-- The bytes behind a value are handed back. -/
theorem Serial.readThriftMetadata_ok (hlib : lib.Documented) {α : Type} {serial : Serial α}
    {data : Bytes t} {a : α} {stop : ℕ} (hstop : stop ≤ data.len)
    (h : serial.readFromCursor p rt display data.elems = .ok (.ok (a, stop))) :
    ∃ remaining, serial.readThriftMetadata lib p rt display data = .ok (.ok (a, remaining)) ∧
      remaining.elems = data.elems.drop stop := by
  have hbound := t.lt_usize data.size_lt
  have husize : t.asUsize stop = stop := by
    rw [Bytes.len] at hstop
    exact Nat.mod_eq_of_lt (by omega)
  obtain ⟨remaining, hslice, helems⟩ := hlib.slice_inside data stop data.len hstop (Nat.le_refl _)
  refine ⟨remaining, ?_, ?_⟩
  · rw [Serial.readThriftMetadata, h]
    simp [ParquetParser.readThriftMetadata, husize, hslice, bind, Except.bind, pure, Except.pure,
      Except.mapError]
  · rw [helems, List.take_of_length_le]
    rw [List.length_drop]
    exact Nat.le_refl _

/-- **A value that fits is written, and read back from in front of any bytes**, which are left. -/
theorem Serial.thrift_metadata_written (hlib : lib.Documented) (hp : p.Documented Shows Wrote)
    {α : Type} {serial : Serial α} {a : α} (hfits : serial.Fits a)
    (hrounds : serial.width < rt.rounds) (display : Error → String) :
    ∃ out, serial.writeToOutProtocol p.o a p.create = .ok ((), out) ∧
      ∀ (data : Bytes t) (rest : List UInt8), data.elems = p.written out ++ rest →
        ∃ remaining, serial.readThriftMetadata lib p rt display data = .ok (.ok (a, remaining)) ∧
          remaining.elems = rest := by
  obtain ⟨out, hwrite, hread⟩ := Serial.read_written hp hfits hrounds
  refine ⟨out, hwrite, fun data rest hdata => ?_⟩
  obtain ⟨s, hs, hposition⟩ := hread rest
  have hcursor : serial.readFromCursor p rt display data.elems =
      .ok (.ok (a, (p.written out).length)) := by
    rw [Serial.readFromCursor, hdata, hs, ← hposition]
    rfl
  have hstop : (p.written out).length ≤ data.len := by
    rw [Bytes.len, hdata, List.length_append]
    exact Nat.le_add_right _ _
  obtain ⟨remaining, hremaining, helems⟩ := Serial.readThriftMetadata_ok hlib hstop hcursor
  refine ⟨remaining, hremaining, ?_⟩
  rw [helems, hdata, List.drop_left]

theorem Serial.shows_written (hp : p.Documented Shows Wrote) {α : Type} {serial : Serial α} {a : α}
    (hfits : serial.Fits a) {out : p.Output}
    (hwrite : serial.writeToOutProtocol p.o a p.create = .ok ((), out)) :
    Shows (p.openAt (p.written out)) (serial.encode a).tokens (p.written out).length := by
  obtain ⟨out', hrun, hshows⟩ := Serial.write_shows hp hfits
  rw [hwrite] at hrun
  cases hrun
  have hfooter := hshows []
  rw [List.append_nil] at hfooter
  exact hfooter

/-! ## The footer of a file -/

theorem accepted_of_layout {data : Bytes t} {block : List UInt8} (h : Layout data.elems block) :
    ensureHeaderFooterMagic data = .ok () := by
  have hfits := fits_of_layout h
  obtain ⟨body, word, hdata, hword, -⟩ := h
  refine accepted_iff.mpr ⟨?_, ?_, ?_⟩
  · rw [Bytes.len]
    omega
  · rw [hdata, List.append_assoc, List.append_assoc, List.append_assoc]
    exact List.prefix_append _ _
  · rw [hdata]
    exact List.suffix_append _ _

theorem metaBytes_of_layout (hlib : lib.Documented) {data : Bytes t} {block : List UInt8}
    (h : Layout data.elems block) :
    ∃ found, metaBytes lib data = .ok found ∧ found.elems = block := by
  have hfits := fits_of_layout h
  obtain ⟨found, hfound, helems⟩ := metaBytes_ok (t := t) hlib (show 8 ≤ data.len by
    rw [Bytes.len]; omega) (by rw [Bytes.len]; omega)
  refine ⟨found, hfound, ?_⟩
  obtain ⟨body, word, hdata, hword, hblock⟩ := h
  have hmagic : magic.length = 4 := rfl
  have hlen : data.len - 8 = (magic ++ body ++ block).length := by
    rw [Bytes.len, hdata]
    simp only [List.length_append]
    omega
  have hclaimed : claimedLength data.elems = block.length := by
    rw [claimedLength, ← Bytes.len, hlen, hdata, List.append_assoc, List.append_assoc _ word,
      List.drop_left, List.take_left' hword, hblock]
  rw [helems, hlen, hclaimed, hdata, List.length_append, Nat.add_sub_cancel,
    List.append_assoc, List.append_assoc, List.drop_left, List.take_left]

theorem FileMetaData.readFileMetadata_of_block {data found : Bytes t}
    (h : metaBytes lib data = .ok found) :
    FileMetaData.readFileMetadata lib p rt display data =
      (·.map Prod.fst) <$> FileMetaData.serial.readThriftMetadata lib p rt display found := by
  rw [FileMetaData.readFileMetadata, h]
  rfl

/-- **What the footer decodes to is what the parser answers**: whatever the decoder makes of the
value between the data and the length word, metadata, an error or a panic. -/
theorem FileMetaData.file_decodes (hlib : lib.Documented) (hp : p.Documented Shows Wrote)
    {data : Bytes t} {block : List UInt8} (hlayout : Layout data.elems block) {w : Wire}
    {stop : ℕ} (hshows : Shows (p.openAt block) w.tokens stop) (hstop : stop ≤ block.length)
    {r : Except Fault FileMetaData} (h : FileMetaData.serial.Decodes rt w r)
    (hw : w.width < rt.rounds) :
    FileMetaData.readFileMetadata lib p rt display data = settle display r := by
  obtain ⟨found, hfound, rfl⟩ := metaBytes_of_layout hlib hlayout
  rw [FileMetaData.readFileMetadata_of_block hfound]
  cases r with
  | ok m =>
    obtain ⟨remaining, hread, -⟩ := Serial.readThriftMetadata_ok hlib hstop
      (Serial.readFromCursor_ok display hp h hw hshows)
    rw [hread]
    rfl
  | error e =>
    have hcursor := Serial.readFromCursor_error display hp h hw hshows
    rw [Serial.readThriftMetadata, hcursor]
    cases e <;> rfl

/-- **Files round-trip**: metadata that fits is written, and behind any data, with its length and
the magics around it, it is what the parser answers. -/
theorem FileMetaData.file_written (hlib : lib.Documented) (hp : p.Documented Shows Wrote)
    {m : FileMetaData} (hfits : FileMetaData.serial.Fits m)
    (hrounds : FileMetaData.serial.width < rt.rounds) (display : Error → String) :
    ∃ out, FileMetaData.serial.writeToOutProtocol p.o m p.create = .ok ((), out) ∧
      ∀ data : Bytes t, Layout data.elems (p.written out) →
        ensureHeaderFooterMagic data = .ok () ∧
          FileMetaData.readFileMetadata lib p rt display data = .ok (.ok m) := by
  obtain ⟨out, hwrite, -⟩ := Serial.write_shows hp hfits
  refine ⟨out, hwrite, fun data hlayout => ⟨accepted_of_layout hlayout, ?_⟩⟩
  exact FileMetaData.file_decodes hlib hp hlayout (Serial.shows_written hp hfits hwrite)
    (Nat.le_refl _) (FileMetaData.serial.decodes_encode rt hfits)
    (Nat.lt_of_le_of_lt (FileMetaData.serial.encode_width m) hrounds)

/-- **Files of later versions are read**: fields that a newer writer adds to any struct, and any
order of the fields, leave what is read as it was. -/
theorem FileMetaData.file_later (hlib : lib.Documented) (hp : p.Documented Shows Wrote)
    {m : FileMetaData} (hfits : FileMetaData.serial.Fits m) {w : Wire}
    (hlater : FileMetaData.serial.Later (FileMetaData.serial.encode m) w)
    (hw : w.width < rt.rounds) {data : Bytes t} {block : List UInt8}
    (hlayout : Layout data.elems block) {stop : ℕ} (hshows : Shows (p.openAt block) w.tokens stop)
    (hstop : stop ≤ block.length) :
    FileMetaData.readFileMetadata lib p rt display data = .ok (.ok m) :=
  FileMetaData.file_decodes hlib hp hlayout hshows hstop
    (FileMetaData.serial.decodes_later (FileMetaData.serial.decodes_encode rt hfits) hlater) hw

/-! ## Logical types of later versions -/

/-- Whatever the variables hold, a field fails. -/
def Fields.Fails (rt : Runtime) {ids : List Int16} {L R : Type} (fields : Fields ids L R)
    (f : Int16 × Wire) (e : Fault) : Prop :=
  ∀ s, fields.Stores rt f.1 f.2 s (.error e)

theorem Fields.fails_first {α L R : Type} {ids : List Int16} {id : Int16} {name : String}
    {presence : Presence} {serial : Serial α} {rest : Fields ids L R} {fresh : 0 ≤ id ∧ id ∉ ids}
    {w : Wire} {e : Fault} (h : serial.Decodes rt w (.error e)) :
    (Fields.field id name presence serial rest fresh).Fails rt (id, w) e := by
  intro s
  rw [Fields.Stores, if_pos rfl]
  exact ⟨.error e, h, rfl⟩

theorem Fields.fails_rest {α L R : Type} {ids : List Int16} {id : Int16} {name : String}
    {presence : Presence} {serial : Serial α} {rest : Fields ids L R} {fresh : 0 ≤ id ∧ id ∉ ids}
    {k : Int16} {w : Wire} {e : Fault} (hk : k ≠ id) (h : rest.Fails rt (k, w) e) :
    (Fields.field id name presence serial rest fresh).Fails rt (k, w) e := by
  intro s
  rw [Fields.Stores, if_neg hk]
  exact ⟨.error e, h s.2, rfl⟩

def Serial.FailsField (rt : Runtime) {α : Type} : Serial α → Int16 × Wire → Fault → Prop
  | .struct _ fields _ _ _, f, e => fields.Fails rt f e
  | _, _, _ => False

/-- The first field that fails decides. -/
theorem Serial.struct_failing {α : Type} {as : List (Int16 × Wire)} {f : Int16 × Wire}
    {e : Fault} : (serial : Serial α) → (∀ g ∈ as, serial.ReadsField rt g) →
    serial.FailsField rt f e → ∀ bs, serial.Decodes rt (.struct (as ++ f :: bs)) (.error e)
  | .struct _ fields _ _ _, has, hf, bs => by
    obtain ⟨s, hs⟩ := fields.folds_readable has fields.locals
    exact ⟨_, .error e, rfl, hs.append (.stop (Or.inl (hf s))), rfl⟩

/-- The first element that fails decides. -/
theorem Serial.vec_failing {α : Type} (zeroSized : Bool) {elem : Serial α} (ty : TType)
    {as bs : List Wire} {v : Wire} {e : Fault} (has : ∀ x ∈ as, ∃ a, elem.Decodes rt x (.ok a))
    (hv : elem.Decodes rt v (.error e)) (hlen : (as ++ v :: bs).length < 2 ^ 31) :
    (Serial.vec zeroSized elem).Decodes rt (.sequence .list ty (as ++ v :: bs)) (.error e) := by
  refine ⟨ty, _, rfl, hlen, ?_⟩
  clear hlen
  induction as with
  | nil => exact .stop hv
  | cons x as ih =>
    obtain ⟨a, ha⟩ := has x List.mem_cons_self
    exact .cons ha (ih fun y hy => has y (List.mem_cons_of_mem x hy))

theorem Serial.union_lone_unknown {υ : Type} {ids : List Int16} {guards : List (υ → Bool)}
    (name : String) (variants : Variants υ ids guards)
    (covered : ∀ a, (guards.any fun guard => guard a) = true) {k : Int16} {v : Wire}
    (hk : k ∉ ids) (hv : Wire.SkippableField (k, v)) :
    (Serial.union name variants covered).Decodes rt (.struct [(k, v)])
      (.error (.panic "return value should have been constructed")) := by
  have hone : countField rt 0 = .ok 1 := countField_ofNat rt (n := 0) (by decide)
  refine ⟨[(k, v)], .ok (none, 1), rfl, .next (Or.inr ⟨hk, hv, ?_⟩) (.done _), rfl⟩
  rw [hone]
  rfl

theorem SchemaElement.failsField_logicalType {v : Wire} {e : Fault}
    (h : LogicalType.serial.Decodes rt v (.error e)) :
    SchemaElement.serial.FailsField rt (10, v) e := by
  unfold SchemaElement.serial Serial.FailsField
  repeat refine Fields.fails_rest (by decide) ?_
  exact Fields.fails_first h

theorem FileMetaData.failsField_schema {v : Wire} {e : Fault}
    (h : (Serial.vec false SchemaElement.serial).Decodes rt v (.error e)) :
    FileMetaData.serial.FailsField rt (2, v) e := by
  unfold FileMetaData.serial
  exact Fields.fails_rest (by decide) (Fields.fails_first h)

/-- The first schema element that cannot be read has a logical type of an unknown number. -/
theorem FileMetaData.decodes_unknown_logicalType (before after as bs : List (Int16 × Wire))
    (elems elems' : List Wire) (ty : TType) (k : Int16) (v : Wire)
    (hbefore : ∀ f ∈ before, FileMetaData.serial.ReadsField rt f)
    (helems : ∀ x ∈ elems, ∃ a, SchemaElement.serial.Decodes rt x (.ok a))
    (has : ∀ f ∈ as, SchemaElement.serial.ReadsField rt f)
    (hk : k ∉ ([1, 2, 3, 4, 5, 6, 7, 8, 10, 11, 12, 13, 14, 15, 16, 17, 18] : List Int16))
    (hv : Wire.SkippableField (k, v))
    (hlen : (elems ++ Wire.struct (as ++ (10, .struct [(k, v)]) :: bs) :: elems').length <
      2 ^ 31) :
    FileMetaData.serial.Decodes rt (.struct (before ++ (2, .sequence .list ty (elems ++
      .struct (as ++ (10, .struct [(k, v)]) :: bs) :: elems')) :: after))
      (.error (.panic "return value should have been constructed")) := by
  have htype : LogicalType.serial.Decodes rt (.struct [(k, v)])
      (.error (.panic "return value should have been constructed")) :=
    Serial.union_lone_unknown "LogicalType" _ _ hk hv
  have helem := SchemaElement.serial.struct_failing has
    (SchemaElement.failsField_logicalType htype) bs
  have hschema := Serial.vec_failing false ty helems helem hlen
  exact FileMetaData.serial.struct_failing hbefore (FileMetaData.failsField_schema hschema) after

/-- **A logical type of a later version is no error but a panic**: any file whose first schema
element that cannot be read has a logical type of an unknown number. -/
theorem FileMetaData.file_unknown_logicalType (hlib : lib.Documented)
    (hp : p.Documented Shows Wrote) (before after as bs : List (Int16 × Wire))
    (elems elems' : List Wire) (ty : TType) (k : Int16) (v : Wire)
    (hbefore : ∀ f ∈ before, FileMetaData.serial.ReadsField rt f)
    (helems : ∀ x ∈ elems, ∃ a, SchemaElement.serial.Decodes rt x (.ok a))
    (has : ∀ f ∈ as, SchemaElement.serial.ReadsField rt f)
    (hk : k ∉ ([1, 2, 3, 4, 5, 6, 7, 8, 10, 11, 12, 13, 14, 15, 16, 17, 18] : List Int16))
    (hv : Wire.SkippableField (k, v))
    (hlen : (elems ++ Wire.struct (as ++ (10, .struct [(k, v)]) :: bs) :: elems').length < 2 ^ 31)
    {w : Wire} (hfooter : w = .struct (before ++ (2, .sequence .list ty (elems ++
      .struct (as ++ (10, .struct [(k, v)]) :: bs) :: elems')) :: after))
    (hw : w.width < rt.rounds) {data : Bytes t} {block : List UInt8}
    (hlayout : Layout data.elems block) {stop : ℕ} (hshows : Shows (p.openAt block) w.tokens stop)
    (hstop : stop ≤ block.length) :
    FileMetaData.readFileMetadata lib p rt display data =
      .error (.reader "return value should have been constructed") := by
  have hdecodes := FileMetaData.decodes_unknown_logicalType before after as bs elems elems' ty k v
    hbefore helems has hk hv hlen
  rw [← hfooter] at hdecodes
  exact FileMetaData.file_decodes hlib hp hlayout hshows hstop hdecodes hw

namespace Sample

def errorText : Error → String
  | .protocol _ message => message
  | .other message => message

/-- One column of 32-bit integers, and no rows. -/
def metadata : FileMetaData where
  version := 1
  schema := [⟨some ⟨1⟩, none, none, "n", none, none, none, none, none, none⟩]
  numRows := 0
  rowGroups := []
  keyValueMetadata := none
  createdBy := none
  columnOrders := none
  encryptionAlgorithm := none
  footerSigningKeyMetadata := none

def footer : Compact.Output :=
  ⟨[21, 2, 25, 28, 21, 2, 56, 1, 110, 0, 22, 0, 25, 12, 0], ⟨0, [], none⟩⟩

theorem metadata_fits : FileMetaData.serial.Fits metadata := by
  simp [FileMetaData.serial, SchemaElement.serial, Enumeration.serial, Serial.Fits, Fields.Fits,
    Presence.present, metadata]
  decide

theorem metadata_width : FileMetaData.serial.width < runtime.rounds := by
  decide +kernel

theorem footer_written : FileMetaData.serial.writeToOutProtocol (Compact.protocol true).o metadata
    (Compact.protocol true).create = .ok ((), footer) := by
  change FileMetaData.serial.writeToOutProtocol (Compact.output true) metadata ⟨[], ⟨0, [], none⟩⟩ =
    .ok ((), footer)
  decide +kernel

/-- The file of `metadata`, without any data. -/
def file : Bytes debug := ⟨magic ++ footer.bytes ++ [15, 0, 0, 0] ++ magic, by decide⟩

theorem file_layout : Layout file.elems ((Compact.protocol true).written footer) :=
  ⟨[], [15, 0, 0, 0], rfl, rfl, by decide⟩

/-- What a later version might write: the same metadata, and a flag. -/
def later : Serial (Int32 × List SchemaElement × Int64 × List RowGroup × Bool × Unit) :=
  .struct "FileMetaData"
    (.required 1 "version" "FileMetaData.version" .i32 <|
     .required 2 "schema" "FileMetaData.schema" (.vec false SchemaElement.serial) <|
     .required 3 "num_rows" "FileMetaData.num_rows" .i64 <|
     .required 4 "row_groups" "FileMetaData.row_groups" (.vec false RowGroup.serial) <|
     .required 100 "flag" "FileMetaData.flag" .bool <|
     .nil) id id fun _ => rfl

def laterMetadata : Int32 × List SchemaElement × Int64 × List RowGroup × Bool × Unit :=
  (metadata.version, metadata.schema, metadata.numRows, metadata.rowGroups, true, ())

def laterFooter : Compact.Output :=
  ⟨[21, 2, 25, 28, 21, 2, 56, 1, 110, 0, 22, 0, 25, 12, 1, 200, 1, 0], ⟨0, [], none⟩⟩

theorem later_shows : Compact.Shows ((Compact.protocol true).openAt laterFooter.bytes)
    (later.encode laterMetadata).tokens laterFooter.bytes.length := by
  have hfits : later.Fits laterMetadata := by
    simp [later, SchemaElement.serial, Enumeration.serial, Serial.Fits, Fields.Fits,
      Presence.present, metadata, laterMetadata]
    decide
  have hwrite : later.writeToOutProtocol (Compact.output true) laterMetadata ⟨[], ⟨0, [], none⟩⟩ =
      .ok ((), laterFooter) := by decide +kernel
  exact Serial.shows_written (Compact.protocol_documented true) hfits hwrite

theorem later_later : FileMetaData.serial.Later (FileMetaData.serial.encode metadata)
    (later.encode laterMetadata) := by
  obtain ⟨ws, ws', hws, hws', hnodup, kept, added, hkept, hadded, hperm⟩ :=
    FileMetaData.serial.later_refl metadata
  cases hws
  cases hws'
  refine ⟨_, _, rfl, rfl, hnodup, kept, added ++ [(100, .bool true)], hkept, ?_, ?_⟩
  · intro f hf
    rcases List.mem_append.mp hf with hf | hf
    · exact hadded f hf
    · rw [List.mem_singleton.mp hf]
      exact ⟨by decide, by decide, .bool 63 true⟩
  · rw [← List.append_assoc]
    exact hperm.append_right [(100, .bool true)]

def laterFile : Bytes debug := ⟨magic ++ laterFooter.bytes ++ [18, 0, 0, 0] ++ magic, by decide⟩

theorem laterFile_layout : Layout laterFile.elems laterFooter.bytes :=
  ⟨[], [18, 0, 0, 0], rfl, rfl, by decide⟩

/-- A logical type that is not among those of `format.rs`. -/
def newType : Serial Unit :=
  .union "LogicalType" (.cons 19 "NEW" (.marker "NewType" () fun _ => rfl) id some .nil
    fun _ _ _ => rfl) fun _ => rfl

def newElement : Serial (String × Unit × Option Bool × Unit) :=
  .struct "SchemaElement"
    (.required 4 "name" "SchemaElement.name" .string <|
     .required 10 "logicalType" "SchemaElement.logicalType" newType <|
     .optional 77 "flag" .bool <|
     .nil) id id fun _ => rfl

def new : Serial (Int32 × List (String × Unit × Option Bool × Unit) × Int64 × List RowGroup ×
    Option Bool × Unit) :=
  .struct "FileMetaData"
    (.required 1 "version" "FileMetaData.version" .i32 <|
     .required 2 "schema" "FileMetaData.schema" (.vec false newElement) <|
     .required 3 "num_rows" "FileMetaData.num_rows" .i64 <|
     .required 4 "row_groups" "FileMetaData.row_groups" (.vec false RowGroup.serial) <|
     .optional 100 "flag" .bool <|
     .nil) id id fun _ => rfl

def newMetadata : Int32 × List (String × Unit × Option Bool × Unit) × Int64 × List RowGroup ×
    Option Bool × Unit :=
  (1, [("n", (), none, ())], 0, [], none, ())

def newFooter : Compact.Output :=
  ⟨[21, 2, 25, 28, 72, 1, 110, 108, 12, 38, 0, 0, 0, 22, 0, 25, 12, 0], ⟨0, [], none⟩⟩

theorem new_shows : Compact.Shows ((Compact.protocol true).openAt newFooter.bytes)
    (new.encode newMetadata).tokens newFooter.bytes.length := by
  have hfits : new.Fits newMetadata := by
    simp [new, newElement, newType, Serial.Fits, Fields.Fits, Variants.Fits, Presence.present,
      newMetadata]
    decide
  have hwrite : new.writeToOutProtocol (Compact.output true) newMetadata ⟨[], ⟨0, [], none⟩⟩ =
      .ok ((), newFooter) := by decide +kernel
  exact Serial.shows_written (Compact.protocol_documented true) hfits hwrite

def newFile : Bytes debug := ⟨magic ++ newFooter.bytes ++ [18, 0, 0, 0] ++ magic, by decide⟩

theorem version_read : FileMetaData.serial.ReadsField runtime (1, .i32 1) :=
  fun _ => ⟨_, Or.inl ⟨.ok 1, ⟨1, rfl, rfl⟩, rfl⟩⟩

theorem name_read : SchemaElement.serial.ReadsField runtime (4, .binary [110]) :=
  fun _ => ⟨_, Or.inl ⟨.ok _, ⟨.ok _, ⟨.ok _, ⟨.ok "n", ⟨"n", rfl, rfl⟩, rfl⟩, rfl⟩, rfl⟩, rfl⟩⟩

theorem newFile_layout : Layout newFile.elems newFooter.bytes :=
  ⟨[], [18, 0, 0, 0], rfl, rfl, by decide⟩

theorem newType_skippable : Wire.SkippableField (19, .struct []) :=
  ⟨by decide, .struct 63 [] (List.forall_mem_nil _) (List.forall_mem_nil _)⟩

end Sample

theorem thrift_metadata_written_sample : ∃ remaining,
    FileMetaData.serial.readThriftMetadata (Sample.bytesCrate Sample.debug) (Compact.protocol true)
      Sample.runtime Sample.errorText ⟨Sample.footer.bytes ++ [80, 65], by decide⟩ =
        .ok (.ok (Sample.metadata, remaining)) ∧ remaining.elems = [80, 65] := by
  obtain ⟨out, hwrite, hread⟩ := Serial.thrift_metadata_written
    (Sample.bytesCrate_documented Sample.debug) (Compact.protocol_documented true)
    Sample.metadata_fits Sample.metadata_width Sample.errorText
  rw [Sample.footer_written] at hwrite
  cases hwrite
  exact hread _ _ rfl

theorem file_written_sample : ensureHeaderFooterMagic Sample.file = .ok () ∧
    FileMetaData.readFileMetadata (Sample.bytesCrate Sample.debug) (Compact.protocol true)
      Sample.runtime Sample.errorText Sample.file = .ok (.ok Sample.metadata) := by
  obtain ⟨out, hwrite, hread⟩ := FileMetaData.file_written
    (Sample.bytesCrate_documented Sample.debug) (Compact.protocol_documented true)
    Sample.metadata_fits Sample.metadata_width Sample.errorText
  rw [Sample.footer_written] at hwrite
  cases hwrite
  exact hread _ Sample.file_layout

theorem file_later_sample :
    FileMetaData.readFileMetadata (Sample.bytesCrate Sample.debug) (Compact.protocol true)
      Sample.runtime Sample.errorText Sample.laterFile = .ok (.ok Sample.metadata) :=
  FileMetaData.file_later (Sample.bytesCrate_documented Sample.debug)
    (Compact.protocol_documented true) Sample.metadata_fits Sample.later_later (by decide +kernel)
    Sample.laterFile_layout Sample.later_shows (Nat.le_refl _)

theorem file_unknown_logicalType_sample :
    FileMetaData.readFileMetadata (Sample.bytesCrate Sample.debug) (Compact.protocol true)
      Sample.runtime Sample.errorText Sample.newFile =
        .error (.reader "return value should have been constructed") :=
  FileMetaData.file_unknown_logicalType (Sample.bytesCrate_documented Sample.debug)
    (Compact.protocol_documented true) [(1, .i32 1)] [(3, .i64 0), (4, .sequence .list .struct [])]
    [(4, .binary [110])] [] [] [] .struct 19 (.struct [])
    (fun f hf => List.mem_singleton.mp hf ▸ Sample.version_read)
    (List.forall_mem_nil _) (fun f hf => List.mem_singleton.mp hf ▸ Sample.name_read) (by decide)
    Sample.newType_skippable (by decide) rfl (by decide +kernel)
    Sample.newFile_layout Sample.new_shows (Nat.le_refl _)

end QueryEngine.ParquetParser
