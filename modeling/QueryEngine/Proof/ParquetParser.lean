import QueryEngine.Model.ParquetParser

/-! # Which footers are parsed

On a file that passes the magic check the length word is always inside, and `read_file_metadata`
does what its arithmetic does: a claimed length that reaches further back than the file's start
panics, one that reaches into the leading magic hands part of it to the decoder, and any other is
the layout of the file format.
-/
namespace QueryEngine.ParquetParser
set_option autoImplicit false
set_option maxHeartbeats 250000

/-- What the length word of a file says. -/
def claimedLength (data : List UInt8) : ℕ :=
  littleEndian ((data.drop (data.length - 8)).take 4)

/-- The layout of the file format, around the bytes handed to the decoder: the magic, the data, the
metadata, its length in four bytes, the magic. -/
def Layout (data block : List UInt8) : Prop :=
  ∃ body word, data = magic ++ body ++ block ++ word ++ magic ∧ word.length = 4 ∧
    block.length = littleEndian word

/-- A file on which the parser returns, and hands over nothing but its metadata. -/
def Parses {t : Target} (lib : BytesCrate t) {α : Type} (decode : List UInt8 → Result (α × ℕ))
    (data : Bytes t) : Prop :=
  (∃ result, readFileMetadata lib decode data = .ok result) ∧
    ∀ block, metaBytes lib data = .ok block → Layout data.elems block.elems

/-! ## Layouts -/

theorem take_split {d : List UInt8} {a b : ℕ} (h : a ≤ b) :
    d.take b = d.take a ++ (d.drop a).take (b - a) := by
  rw [← List.take_add, Nat.add_sub_cancel' h]

theorem layout_of_fits {d : List UInt8} (hhead : magic <+: d) (htail : magic <:+ d)
    (h : claimedLength d + 12 ≤ d.length) :
    Layout d ((d.drop (d.length - 8 - claimedLength d)).take (claimedLength d)) := by
  have hfour : d.take 4 = magic := (List.prefix_iff_eq_take.mp hhead).symm
  have hlast : d.drop (d.length - 4) = magic := (List.suffix_iff_eq_drop.mp htail).symm
  refine ⟨(d.drop 4).take (d.length - 8 - claimedLength d - 4), (d.drop (d.length - 8)).take 4,
    ?_, ?_, ?_⟩
  · have hword := take_split (d := d) (show d.length - 8 ≤ d.length - 4 by omega)
    have hblock := take_split (d := d) (show d.length - 8 - claimedLength d ≤ d.length - 8 by omega)
    have hbody := take_split (d := d) (show 4 ≤ d.length - 8 - claimedLength d by omega)
    rw [show d.length - 4 - (d.length - 8) = 4 by omega] at hword
    rw [show d.length - 8 - (d.length - 8 - claimedLength d) = claimedLength d by omega] at hblock
    rw [← hfour, ← hbody, ← hblock, ← hword, hfour, ← hlast, List.take_append_drop]
  · rw [List.length_take, List.length_drop]
    omega
  · rw [List.length_take, List.length_drop, claimedLength]
    rw [claimedLength] at h
    omega

theorem fits_of_layout {d block : List UInt8} (h : Layout d block) :
    claimedLength d + 12 ≤ d.length := by
  obtain ⟨body, word, rfl, hword, hblock⟩ := h
  have hmagic : magic.length = 4 := rfl
  have hlen : (magic ++ body ++ block ++ word ++ magic).length - 8 =
      (magic ++ body ++ block).length := by
    simp only [List.length_append]
    omega
  rw [claimedLength, hlen, List.append_assoc, List.append_assoc _ word, List.drop_left,
    List.take_left' hword, ← hblock]
  simp only [List.length_append]
  omega

/-! ## The parser's arithmetic -/

variable {t : Target} {lib : BytesCrate t} {data : Bytes t}

theorem accepted_iff : ensureHeaderFooterMagic data = .ok () ↔
    8 ≤ data.len ∧ magic <+: data.elems ∧ magic <:+ data.elems := by
  rw [ensureHeaderFooterMagic, ← List.isPrefixOf_iff_prefix, ← List.isSuffixOf_iff_suffix]
  cases magic.isPrefixOf data.elems <;> cases magic.isSuffixOf data.elems <;> simp

theorem Target.lt_usize (t : Target) {n : ℕ} (h : n < 2 ^ (t.pointerWidth - 1)) :
    2 * n + 1 < 2 ^ t.pointerWidth := by
  have hwidth : 2 ^ t.pointerWidth = 2 * 2 ^ (t.pointerWidth - 1) := by
    rw [← pow_succ', Nat.sub_add_cancel (Nat.le_trans (by decide) t.wide)]
  omega

theorem Target.asUsize_u32 (t : Target) (n : UInt32) : t.asUsize n.toNat = n.toNat := by
  have hwidth : 2 ^ 32 ≤ 2 ^ t.pointerWidth := Nat.pow_le_pow_right (by decide) t.wide
  exact Nat.mod_eq_of_lt (Nat.lt_of_lt_of_le n.toNat_lt hwidth)

theorem littleEndian_lt (bs : List UInt8) : littleEndian bs < 256 ^ bs.length := by
  have hdigits : ∀ n ∈ bs.map UInt8.toNat, n < 256 := by
    intro n hn
    obtain ⟨b, -, rfl⟩ := List.mem_map.mp hn
    exact b.toNat_lt
  have hlt := Nat.ofDigits_lt_base_pow_length (by decide) hdigits
  rwa [List.length_map] at hlt

theorem littleEndian_take_lt (bs : List UInt8) : littleEndian (bs.take 4) < 2 ^ 32 := by
  have hpow : 256 ^ (bs.take 4).length ≤ 256 ^ 4 :=
    Nat.pow_le_pow_right (by decide) (List.length_take_le 4 bs)
  exact Nat.lt_of_lt_of_le (littleEndian_lt _) hpow

/-- Up to the length word nothing can fail. -/
theorem metaBytes_eq (hlib : lib.Documented) (hlen : 8 ≤ data.len) :
    metaBytes lib data = (t.sub (data.len - 8) (claimedLength data.elems) >>= fun start =>
      lib.slice data start (data.len - 8)) := by
  have hsub : t.sub data.len 8 = .ok (data.len - 8) := if_pos hlen
  have hsize : data.len < 2 ^ (t.pointerWidth - 1) := data.size_lt
  have hbound := t.lt_usize hsize
  have hadd : t.add (data.len - 8) 4 = .ok (data.len - 8 + 4) := if_pos (by omega)
  have hindex : index data.elems (data.len - 8) (data.len - 8 + 4) =
      .ok ((data.elems.drop (data.len - 8)).take 4) := by
    rw [index, if_pos ⟨by omega, show data.len - 8 + 4 ≤ data.len by omega⟩,
      Nat.add_sub_cancel_left]
  have hword : 4 ≤ ((data.elems.drop (data.len - 8)).take 4).length := by
    rw [List.length_take, List.length_drop]
    rw [Bytes.len] at hlen ⊢
    omega
  obtain ⟨n, hn, hvalue⟩ := hlib.get_u32_le _ hword
  rw [List.take_take, Nat.min_self] at hvalue
  have hclaimed : t.asUsize n.toNat = claimedLength data.elems := by
    rw [t.asUsize_u32, hvalue]
    rfl
  simp [metaBytes, hsub, hadd, hindex, hn, hclaimed, bind, Except.bind]

theorem metaBytes_ok (hlib : lib.Documented) (hlen : 8 ≤ data.len)
    (h : claimedLength data.elems ≤ data.len - 8) :
    ∃ block, metaBytes lib data = .ok block ∧
      block.elems = (data.elems.drop (data.len - 8 - claimedLength data.elems)).take
        (claimedLength data.elems) := by
  have hsub : t.sub (data.len - 8) (claimedLength data.elems) =
      .ok (data.len - 8 - claimedLength data.elems) := if_pos h
  obtain ⟨block, hslice, hblock⟩ := hlib.slice_inside data
    (data.len - 8 - claimedLength data.elems) (data.len - 8) (by omega) (by omega)
  rw [Nat.sub_sub_self h] at hblock
  refine ⟨block, ?_, hblock⟩
  rw [metaBytes_eq hlib hlen, hsub]
  exact hslice

/-- A length that reaches back beyond the start underflows, and what it wraps to is no range. -/
theorem metaBytes_panics (hlib : lib.Documented) (hlen : 8 ≤ data.len)
    (h : data.len - 8 < claimedLength data.elems) :
    ∃ panic, metaBytes lib data = .error panic := by
  rw [metaBytes_eq hlib hlen, Target.sub, if_neg (by omega)]
  cases hchecks : t.overflowChecks with
  | true => exact ⟨.overflow, rfl⟩
  | false =>
    have hclaimed : claimedLength data.elems < 2 ^ 32 := littleEndian_take_lt _
    have hwidth : 2 ^ 32 ≤ 2 ^ t.pointerWidth := Nat.pow_le_pow_right (by decide) t.wide
    have hwrap : (data.len - 8 + 2 ^ t.pointerWidth - claimedLength data.elems) %
        2 ^ t.pointerWidth = data.len - 8 + 2 ^ t.pointerWidth - claimedLength data.elems :=
      Nat.mod_eq_of_lt (by omega)
    obtain ⟨panic, hpanic⟩ := hlib.slice_outside data
      (data.len - 8 + 2 ^ t.pointerWidth - claimedLength data.elems) (data.len - 8) (by omega)
    exact ⟨panic, by rw [if_neg Bool.false_ne_true, hwrap]; exact hpanic⟩

/-! ## The parser -/

/-- Handed a block, the decoder decides what is returned. -/
theorem readFileMetadata_of_metaBytes (hlib : lib.Documented) {α : Type}
    {decode : List UInt8 → Result (α × ℕ)}
    (hdecode : ∀ bs value position, decode bs = .ok (value, position) → position ≤ bs.length)
    {block : Bytes t} (h : metaBytes lib data = .ok block) :
    readFileMetadata lib decode data = .ok ((decode block.elems).map Prod.fst) := by
  rw [readFileMetadata, h]
  cases hout : decode block.elems with
  | error e => simp [readThriftMetadata, hout, bind, Except.bind, pure, Except.pure, Except.map]
  | ok out =>
    have hposition : out.2 ≤ block.len := hdecode _ out.1 out.2 hout
    have hbound := t.lt_usize block.size_lt
    have husize : t.asUsize out.2 = out.2 := by
      rw [Bytes.len] at hposition
      exact Nat.mod_eq_of_lt (by omega)
    obtain ⟨remaining, hslice, -⟩ :=
      hlib.slice_inside block out.2 block.len hposition (Nat.le_refl _)
    simp [readThriftMetadata, hout, husize, hslice, bind, Except.bind, pure, Except.pure,
      Except.map]

theorem readFileMetadata_panics {α : Type} {decode : List UInt8 → Result (α × ℕ)} {panic : Panic}
    (h : metaBytes lib data = .error panic) :
    readFileMetadata lib decode data = .error panic := by
  rw [readFileMetadata, h]
  rfl

/-- **When a footer is parsed**: exactly when the length it claims leaves room for the two magics
and the length word. -/
theorem parses_iff {t : Target} (lib : BytesCrate t) (hlib : lib.Documented) {α : Type}
    (decode : List UInt8 → Result (α × ℕ))
    (hdecode : ∀ bs value position, decode bs = .ok (value, position) → position ≤ bs.length)
    (data : Bytes t) (hmagic : ensureHeaderFooterMagic data = .ok ()) :
    Parses lib decode data ↔ claimedLength data.elems + 12 ≤ data.len := by
  obtain ⟨hlen, hhead, htail⟩ := accepted_iff.mp hmagic
  constructor
  · rintro ⟨⟨result, hresult⟩, hlayout⟩
    by_cases h : data.len - 8 < claimedLength data.elems
    · obtain ⟨panic, hpanic⟩ := metaBytes_panics hlib hlen h
      rw [readFileMetadata_panics hpanic] at hresult
      cases hresult
    · obtain ⟨block, hblock, -⟩ := metaBytes_ok hlib hlen (by omega)
      exact fits_of_layout (hlayout block hblock)
  · intro h
    obtain ⟨block, hblock, helems⟩ := metaBytes_ok hlib hlen (by omega)
    refine ⟨⟨_, readFileMetadata_of_metaBytes hlib hdecode hblock⟩, fun block' hblock' => ?_⟩
    obtain rfl : block = block' := Except.ok.inj (hblock.symm.trans hblock')
    rw [helems]
    exact layout_of_fits hhead htail h

/-! ## Three files -/

theorem Bytes.range_size_lt (data : Bytes t) (start stop : ℕ) :
    ((data.elems.drop start).take (stop - start)).length < 2 ^ (t.pointerWidth - 1) := by
  have hsize := data.size_lt
  rw [List.length_take, List.length_drop]
  omega

namespace Sample

def debug : Target := ⟨64, by decide, true⟩

def release : Target := ⟨64, by decide, false⟩

def bytesCrate (t : Target) : BytesCrate t where
  slice data start stop :=
    if start ≤ stop ∧ stop ≤ data.len then
      .ok ⟨(data.elems.drop start).take (stop - start), data.range_size_lt start stop⟩
    else .error .sliceIndex
  getU32Le bs :=
    if 4 ≤ bs.length then .ok (UInt32.ofNat (littleEndian (bs.take 4))) else .error .sliceIndex

theorem bytesCrate_documented (t : Target) : (bytesCrate t).Documented where
  slice_inside := fun _ _ _ hle hstop => ⟨_, if_pos ⟨hle, hstop⟩, rfl⟩
  slice_outside := fun _ _ _ hout => ⟨.sliceIndex, if_neg hout⟩
  get_u32_le := fun bs hbs => ⟨_, if_pos hbs, UInt32.toNat_ofNat_of_lt (littleEndian_take_lt bs)⟩

/-- A decoder that finds none of the required fields, as on a lone stop field. -/
def decode (_ : List UInt8) : Result (Unit × ℕ) :=
  .error "missing required field FileMetaData.version"

/-- `PAR1PAR1`, whose length word is the leading magic. -/
def shortest (t : Target) (h : 8 < 2 ^ (t.pointerWidth - 1)) : Bytes t := ⟨magic ++ magic, h⟩

/-- A length word of 1 right after the leading magic. -/
def overlapping : Bytes debug := ⟨magic ++ [1, 0, 0, 0] ++ magic, by decide⟩

/-- One byte of metadata, a stop field. -/
def stopField : Bytes debug := ⟨magic ++ [0] ++ [1, 0, 0, 0] ++ magic, by decide⟩

end Sample

/-- The shortest accepted file panics in either profile, and the next hands the decoder the last
byte of the leading magic. -/
theorem accepted_files_break :
    ensureHeaderFooterMagic (Sample.shortest Sample.debug (by decide)) = .ok () ∧
    readFileMetadata (Sample.bytesCrate Sample.debug) Sample.decode
      (Sample.shortest Sample.debug (by decide)) = .error .overflow ∧
    readFileMetadata (Sample.bytesCrate Sample.release) Sample.decode
      (Sample.shortest Sample.release (by decide)) = .error .sliceIndex ∧
    ensureHeaderFooterMagic Sample.overlapping = .ok () ∧
    ∃ block, metaBytes (Sample.bytesCrate Sample.debug) Sample.overlapping = .ok block ∧
      block.elems = [49] ∧ ¬ Layout Sample.overlapping.elems block.elems := by
  refine ⟨rfl, rfl, rfl, rfl, _, rfl, rfl, fun h => ?_⟩
  have hfits := fits_of_layout h
  revert hfits
  decide

theorem parses_iff_sample :
    Parses (Sample.bytesCrate Sample.debug) Sample.decode Sample.stopField ↔
      claimedLength Sample.stopField.elems + 12 ≤ Sample.stopField.len :=
  parses_iff (Sample.bytesCrate Sample.debug) (Sample.bytesCrate_documented Sample.debug)
    Sample.decode (fun _ _ _ h => by cases h) Sample.stopField rfl

end QueryEngine.ParquetParser
