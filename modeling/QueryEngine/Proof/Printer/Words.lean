import QueryEngine.Library.Framing
import QueryEngine.Model.ExprTracer

/-! # Names, numbers and truth values as words

The texts of all leaves but the strings and the `double`s are words: they hold no space, quote or
parenthesis. A name starts with a letter, a number with a digit or a minus sign, and only a `long`
has an `L` in its number, so a word says which leaf it is the text of.
-/
namespace QueryEngine
open Library
set_option autoImplicit false
set_option maxHeartbeats 250000

namespace ExprPrinter
variable {F : Type}

/-! ## Characters -/

abbrev space : UInt16 := 32

abbrev quote : UInt16 := 39

abbrev openParen : UInt16 := 40

abbrev closeParen : UInt16 := 41

abbrev minus : UInt16 := 45

@[simp] theorem jstr_space : jstr " " = [space] := rfl

@[simp] theorem jstr_quote : jstr "'" = [quote] := rfl

@[simp] theorem jstr_openParen : jstr "(" = [openParen] := rfl

@[simp] theorem jstr_closeParen : jstr ")" = [closeParen] := rfl

@[simp] theorem jstr_quote_space : jstr "' " = [quote, space] := rfl

@[simp] theorem jstr_space_quote : jstr " '" = [space, quote] := rfl

/-- The characters that no name, number or operator contains. -/
def separators : JString := [space, quote, openParen, closeParen]

/-- A letter of ASCII, or any code unit beyond ASCII: that takes in every other alphabet. -/
def isLetter (c : UInt16) : Bool := (65 ≤ c && c ≤ 90) || (97 ≤ c && c ≤ 122) || 128 ≤ c

def isDigit (c : UInt16) : Bool := 48 ≤ c && c ≤ 57

/-- A letter or an underscore. -/
def startsName (c : UInt16) : Bool := isLetter c || c == 95

/-- A letter or underscore, then letters, digits and underscores; but not a Boolean literal. -/
def isIdentifier (name : JString) : Bool :=
  name.head?.any startsName && name.all (fun c => startsName c || isDigit c) &&
    name != jstr "true" && name != jstr "false"

theorem separators_table {c : UInt16} (hc : c ∈ separators) :
    startsName c = false ∧ isDigit c = false := by
  have h : (separators.all fun c => !startsName c && !isDigit c) = true := by decide
  simpa using List.all_eq_true.mp h c hc

theorem startsName_of_isDigit {c : UInt16} (h : isDigit c = true) : startsName c = false := by
  simp only [isDigit, Bool.and_eq_true, decide_eq_true_eq, UInt16.le_iff_toNat_le] at h
  simp only [startsName, isLetter, Bool.or_eq_false_iff, Bool.and_eq_false_iff,
    decide_eq_false_iff_not, UInt16.le_iff_toNat_le, beq_eq_false_iff_ne, ne_eq,
    ← UInt16.toNat_inj]
  simp only [UInt16.reduceToNat] at h ⊢
  omega

/-! ## Decimal texts -/

def digits (n : ℕ) : JString := (Nat.toDigits 10 n).map fun c => UInt16.ofNat c.toNat

theorem toNat_of_mem_toDigits {n : ℕ} {c : Char} (h : c ∈ Nat.toDigits 10 n) :
    48 ≤ c.toNat ∧ c.toNat ≤ 57 := by
  have hdigit := Nat.isDigit_of_mem_toDigits (by decide) (by decide) h
  simpa [Char.isDigit, UInt32.le_iff_toNat_le] using hdigit

theorem isDigit_of_mem_digits {n : ℕ} {c : UInt16} (h : c ∈ digits n) : isDigit c = true := by
  obtain ⟨d, hd, rfl⟩ := List.mem_map.mp h
  have hbounds := toNat_of_mem_toDigits hd
  simp [isDigit, UInt16.le_iff_toNat_le]
  omega

theorem digits_ne_nil (n : ℕ) : digits n ≠ [] := by
  simp [digits, Nat.toDigits_ne_nil]

/-- The characters behind the code units of a number. -/
theorem chars_digits (n : ℕ) :
    (digits n).map (fun u => Char.ofNat u.toNat) = Nat.toDigits 10 n := by
  rw [digits, List.map_map]
  refine (List.map_congr_left fun c hc => ?_).trans (List.map_id _)
  have hbounds := toNat_of_mem_toDigits hc
  have hsmall : (UInt16.ofNat c.toNat).toNat = c.toNat :=
    UInt16.toNat_ofNat_of_lt (Nat.lt_of_le_of_lt hbounds.2 (by decide))
  rw [Function.comp_apply, hsmall, Char.ofNat_toNat, id]

theorem digits_inj {m n : ℕ} (h : digits m = digits n) : m = n := by
  have hchars : Nat.toDigits 10 m = Nat.toDigits 10 n := by
    rw [← chars_digits, h, chars_digits]
  rw [← Nat.ofDigitChars_ten_toDigits (n := m), hchars, Nat.ofDigitChars_ten_toDigits]

theorem jstr_repr (n : ℕ) : jstr n.repr = digits n := by
  rw [jstr, Nat.toList_repr, digits, List.map_eq_flatMap]
  refine List.flatMap_congr fun c hc => ?_
  have hbounds := toNat_of_mem_toDigits hc
  rw [utf16, if_pos (by omega)]

/-- `String.valueOf` of a whole number. -/
def decimal (n : ℤ) : JString := jstr (toString n)

/-- A decimal text: digits, after a minus sign if the number is negative. -/
theorem decimal_eq (n : ℤ) :
    decimal n = if 0 ≤ n then digits n.toNat else minus :: digits (-n).toNat := by
  rw [decimal, Int.toString_eq_repr, Int.repr_eq_if]
  split
  · rw [jstr_repr]
  · rw [jstr, String.toList_append, List.flatMap_append]
    exact congrArg (jstr "-" ++ ·) (jstr_repr (-n).toNat)

theorem mem_decimal {n : ℤ} {c : UInt16} (h : c ∈ decimal n) :
    c = minus ∨ isDigit c = true := by
  rw [decimal_eq] at h
  split at h
  · exact Or.inr (isDigit_of_mem_digits h)
  · exact (List.mem_cons.mp h).imp_right isDigit_of_mem_digits

theorem decimal_ne_nil (n : ℤ) : decimal n ≠ [] := by
  rw [decimal_eq]
  split
  · exact digits_ne_nil _
  · exact List.cons_ne_nil _ _

theorem minus_not_mem_digits (n : ℕ) : minus ∉ digits n := by
  intro h
  exact absurd (isDigit_of_mem_digits h) (by decide)

theorem decimal_inj {m n : ℤ} (h : decimal m = decimal n) : m = n := by
  rw [decimal_eq, decimal_eq] at h
  split at h
  next hm =>
    split at h
    next hn =>
      have := digits_inj h
      omega
    next hn => exact absurd (h ▸ List.mem_cons_self) (minus_not_mem_digits m.toNat)
  next hm =>
    split at h
    next hn => exact absurd (h ▸ List.mem_cons_self) (minus_not_mem_digits n.toNat)
    next hn =>
      have := digits_inj (List.cons.inj h).2
      omega

/-! ## Leaves -/

inductive WordKind
  | column | int32 | int64 | bool
  deriving DecidableEq

/-- The leaves without quotes, all but the `double`. -/
inductive Leaf : WordKind → Expr F → Prop
  | column {name : JString} (h : isIdentifier name = true) : Leaf .column (.columnRef name)
  | int32 (val : Int32) : Leaf .int32 (.literal (.int32 val))
  | int64 (val : Int64) : Leaf .int64 (.literal (.int64 val))
  | bool (b : Bool) : Leaf .bool (.literal (.bool b))

/-- The kind of leaf that prints as the word: only a `long` has an `L` in its number. -/
def readKind (w : JString) : WordKind :=
  if w = jstr "true" ∨ w = jstr "false" then .bool
  else if w.head?.any startsName then .column
  else if 76 ∈ w then .int64
  else .int32

theorem identifier_spec {name : JString} (h : isIdentifier name = true) :
    IsWord separators name ∧ readKind name = .column := by
  simp only [isIdentifier, Bool.and_eq_true, List.all_eq_true, Bool.or_eq_true, bne_iff_ne] at h
  obtain ⟨⟨⟨hhead, hall⟩, htrue⟩, hfalse⟩ := h
  refine ⟨⟨?_, fun c hc hsep => ?_⟩, ?_⟩
  · rintro rfl
    simp at hhead
  · obtain ⟨hstart, hdigit⟩ := separators_table hsep
    have hc' := hall c hc
    simp [hstart, hdigit] at hc'
  · rw [readKind, if_neg (by simp [htrue, hfalse]), if_pos hhead]

theorem decimal_spec {n : ℤ} {c : UInt16} (h : c ∈ decimal n) :
    c ∉ separators ∧ startsName c = false ∧ c ≠ 76 := by
  rcases mem_decimal h with rfl | hdigit
  · decide
  · refine ⟨fun hsep => ?_, startsName_of_isDigit hdigit, ?_⟩
    · rw [(separators_table hsep).2] at hdigit
      cases hdigit
    · rintro rfl
      exact absurd hdigit (by decide)

theorem readKind_decimal (n : ℤ) (s : JString) :
    readKind (decimal n ++ s) = if 76 ∈ decimal n ++ s then .int64 else .int32 := by
  have hhead : (decimal n ++ s).head?.any startsName = false := by
    cases hw : decimal n with
    | nil => exact absurd hw (decimal_ne_nil n)
    | cons c w => exact (decimal_spec (n := n) (hw ▸ List.mem_cons_self)).2.1
  unfold readKind
  rw [if_neg ?_, if_neg (by rw [hhead]; decide)]
  rintro (h | h)
  · rw [h] at hhead
    exact absurd hhead (by decide)
  · rw [h] at hhead
    exact absurd hhead (by decide)

theorem bool_spec (b : Bool) : IsWord separators (jstr (if b then "true" else "false")) ∧
    readKind (jstr (if b then "true" else "false")) = .bool := by
  cases b
  · exact ⟨isWord_of_all (by decide) (by decide), by decide⟩
  · exact ⟨isWord_of_all (by decide) (by decide), by decide⟩

theorem bool_text_inj : ∀ b b' : Bool,
    jstr (if b then "true" else "false") = jstr (if b' then "true" else "false") → b = b' := by
  decide

theorem Leaf.spec [DoubleText F] {k : WordKind} {e : Expr F} (h : Leaf k e) :
    IsWord separators (toInfix e) ∧ readKind (toInfix e) = k := by
  cases h with
  | column h => exact identifier_spec h
  | int32 val =>
    have hL : 76 ∉ decimal val.toInt := fun hc => (decimal_spec hc).2.2 rfl
    have hkind := readKind_decimal val.toInt []
    rw [List.append_nil, if_neg hL] at hkind
    exact ⟨⟨decimal_ne_nil _, fun c hc => (decimal_spec hc).1⟩, hkind⟩
  | int64 val =>
    have hL : IsWord separators (jstr "L") := isWord_of_all (by decide) (by decide)
    have hkind := readKind_decimal val.toInt (jstr "L")
    rw [if_pos (List.mem_append_right _ (by decide))] at hkind
    refine ⟨⟨List.append_ne_nil_of_left_ne_nil (decimal_ne_nil _) _, fun c hc => ?_⟩, hkind⟩
    exact (List.mem_append.mp hc).elim (fun hc => (decimal_spec hc).1) (hL.2 c)
  | bool b => exact bool_spec b

theorem Leaf.inj [DoubleText F] {k k' : WordKind} {e e' : Expr F} (h : Leaf k e)
    (h' : Leaf k' e') (htext : toInfix e = toInfix e') : e = e' := by
  obtain rfl : k = k' := by rw [← h.spec.2, htext, h'.spec.2]
  cases h with
  | column _ =>
    cases h'
    exact congrArg Expr.columnRef htext
  | int32 val =>
    cases h' with
    | int32 val' => rw [Int32.toInt_inj.mp (decimal_inj htext)]
  | int64 val =>
    cases h' with
    | int64 val' => rw [Int64.toInt_inj.mp (decimal_inj (List.append_cancel_right htext))]
  | bool b =>
    cases h' with
    | bool b' => rw [bool_text_inj b b' htext]

end ExprPrinter

end QueryEngine
