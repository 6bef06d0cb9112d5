import QueryEngine.Proof.Evaluator.Tracer
import QueryEngine.Proof.Printer.Words

/-! # What an infix text says about its expression

Every compound expression is parenthesised, so an infix text determines its tree, as long as the
strings in it cannot be taken for more of the tree: they are quoted but not escaped. The quoted
pieces are the only places where two readings of one text can part.
-/
namespace QueryEngine
open Library
set_option autoImplicit false
set_option maxHeartbeats 250000

namespace ExprPrinter
variable {F : Type}

/-! ## Operators between two operands -/

/-- A `BinaryExpr` and a `LogicalExpr` print alike, but for the text of the operator. -/
abbrev InfixOp := BinaryOp ⊕ LogicalOp

def InfixOp.text : InfixOp → JString
  | .inl op => op.token
  | .inr op => op.name

def between (left : Expr F) (op : InfixOp) (right : Expr F) : Expr F :=
  match op with
  | .inl op => .binary left op right
  | .inr op => .logical left op right

/-- Every text an operator between two operands can have. -/
def operators : List JString :=
  [ArithmeticOp.Subtract, .Add, .Divide, .Multiply].map ArithmeticOp.token ++
    [ComparisonOp.EqEq, .NEq, .LT, .LTEq, .GT, .GTEq].map ComparisonOp.token ++
    [LogicalOp.AND, .OR].map LogicalOp.name

theorem InfixOp.text_mem (op : InfixOp) : op.text ∈ operators := by
  rcases op with (op | op) | op <;> cases op <;> decide

theorem InfixOp.text_isWord (op : InfixOp) : IsWord separators op.text := by
  rcases op with (op | op) | op <;> cases op <;> exact isWord_of_all (by decide) (by decide)

theorem InfixOp.text_inj {op op' : InfixOp} (h : op.text = op'.text) : op = op' := by
  revert h
  rcases op with (op | op) | op <;> rcases op' with (op' | op') | op' <;>
    cases op <;> cases op' <;> decide

theorem toInfix_between [DoubleText F] (left right : Expr F) (op : InfixOp) (s : JString) :
    toInfix (between left op right) ++ s =
      openParen :: (toInfix left ++ space :: (op.text ++ space :: (toInfix right ++
        closeParen :: s))) := by
  cases op <;> simp [between, toInfix, InfixOp.text]

theorem toInfix_unary [DoubleText F] (op : UnaryOp) (e : Expr F) (s : JString) :
    toInfix (.unary op e) ++ s =
      openParen :: (op.name ++ space :: (toInfix e ++ closeParen :: s)) := by
  simp [toInfix]

theorem toInfix_str [DoubleText F] (val s : JString) :
    toInfix (.literal (.str val) : Expr F) ++ s = quote :: (val ++ quote :: s) := by
  simp [toInfix]

/-! ## What can follow a text -/

/-- What stands behind a part of an infix text: the end, a closing parenthesis, or an operator. -/
inductive Follows : JString → Prop
  | done : Follows []
  | close {s : JString} (h : Follows s) : Follows (closeParen :: s)
  | operator (op : InfixOp) (s : JString) : Follows (space :: (op.text ++ space :: s))

theorem Follows.stops {s : JString} (h : Follows s) : Stops separators s := by
  cases h with
  | done => exact stops_nil separators
  | close _ => exact stops_cons (by decide) _
  | operator op s => exact stops_cons (by decide) _

/-- The text begins with any number of closing parentheses and an operator between two spaces. -/
def resumes : JString → Bool
  | [] => false
  | c :: s =>
      if c = closeParen then resumes s
      else operators.any fun op => (space :: (op ++ [space])).isPrefixOf (c :: s)

/-- After some quote in the text, the text goes on as an expression does after a string literal. -/
def breaksOff : JString → Bool
  | [] => false
  | c :: s => c == quote && resumes s || breaksOff s

theorem resumes_of_follows {u rest : JString} (h : Follows (u ++ quote :: rest)) :
    resumes u = true := by
  induction u with
  | nil => cases h
  | cons c u ih =>
    rw [resumes]
    generalize hx : c :: u ++ quote :: rest = x at h
    cases h with
    | done => cases hx
    | close h =>
      rw [List.cons_append, List.cons.injEq] at hx
      rw [if_pos hx.1]
      exact ih (hx.2 ▸ h)
    | operator op s =>
      have hc : c = space := (List.cons.inj hx).1
      have hquote : quote ∉ space :: (op.text ++ [space]) := by
        simp only [List.mem_cons, List.mem_append, List.not_mem_nil, or_false, not_or]
        exact ⟨by decide, fun hq => op.text_isWord.2 quote hq (by decide), by decide⟩
      have hfront : (space :: (op.text ++ [space])) ++ s = (c :: u) ++ quote :: rest := by
        rw [hx]
        simp
      rw [if_neg (by rw [hc]; decide), List.any_eq_true]
      exact ⟨op.text, op.text_mem, isPrefixOf_of_append hquote hfront⟩

theorem closesLast_of_breaksOff {val : JString} (h : breaksOff val = false) :
    ClosesLast quote Follows val := by
  rintro a u rest rfl hfollows
  induction a with
  | nil =>
    rw [List.nil_append, breaksOff, resumes_of_follows hfollows] at h
    exact absurd h (by simp)
  | cons c a ih =>
    rw [List.cons_append, breaksOff, Bool.or_eq_false_iff] at h
    exact ih h.2

/-! ## Which expressions are read back -/

def everyLeaf (column : JString → Bool) (literal : Literal F → Bool) : Expr F → Bool
  | .columnRef name => column name
  | .literal l => literal l
  | .binary left _ right => everyLeaf column literal left && everyLeaf column literal right
  | .unary _ e => everyLeaf column literal e
  | .logical left _ right => everyLeaf column literal left && everyLeaf column literal right

theorem everyLeaf_between (column : JString → Bool) (literal : Literal F → Bool)
    (left right : Expr F) (op : InfixOp) :
    everyLeaf column literal (between left op right) =
      (everyLeaf column literal left && everyLeaf column literal right) := by
  cases op <;> rfl

/-- The column names are identifiers, and no literal is a `double`. -/
def named (e : Expr F) : Bool := everyLeaf isIdentifier (fun l => l.type != .FLOAT64) e

/-- No string literal can be taken for a shorter one with more of an expression behind it. -/
def unbroken (e : Expr F) : Bool :=
  everyLeaf (fun _ => true) (fun | .str val => !breaksOff val | _ => true) e

/-- What a text can be read back to: named columns, no `double`, and no string that breaks off. -/
def legible (e : Expr F) : Bool := named e && unbroken e

theorem legible_operands (left : Expr F) (op : InfixOp) (right : Expr F)
    (h : legible (between left op right) = true) :
    legible left = true ∧ legible right = true := by
  simp only [legible, named, unbroken, everyLeaf_between, Bool.and_eq_true] at h ⊢
  tauto

/-- The four shapes of a text: a word, a quoted string, one operand in parentheses, or two. -/
@[elab_as_elim]
theorem legible_induction {motive : (e : Expr F) → legible e = true → Prop}
    (leaf : ∀ k e he, Leaf k e → motive e he)
    (string : ∀ val he, breaksOff val = false → motive (.literal (.str val)) he)
    (unary : ∀ op e he, motive e he → motive (.unary op e) he)
    (between : ∀ left op right he hl hr, motive left hl → motive right hr →
      motive (between left op right) he)
    (e : Expr F) (he : legible e = true) : motive e he := by
  induction e with
  | columnRef name =>
    have hname := he
    rw [legible, Bool.and_eq_true] at hname
    exact leaf .column _ he (.column hname.1)
  | literal l =>
    cases l with
    | int32 val => exact leaf .int32 _ he (.int32 val)
    | int64 val => exact leaf .int64 _ he (.int64 val)
    | float64 val => cases he
    | str val =>
      have hval := he
      rw [legible, Bool.and_eq_true] at hval
      exact string val he ((Bool.not_eq_true' _).mp hval.2)
    | bool b => exact leaf .bool _ he (.bool b)
  | binary left op right ihl ihr =>
    obtain ⟨hl, hr⟩ := legible_operands left (.inl op) right he
    exact between left (.inl op) right he hl hr (ihl hl) (ihr hr)
  | unary op e ih => exact unary op e he (ih he)
  | logical left op right ihl ihr =>
    obtain ⟨hl, hr⟩ := legible_operands left (.inr op) right he
    exact between left (.inr op) right he hl hr (ihl hl) (ihr hr)

/-! ## Reading a text back -/

section Reading
variable [DoubleText F]

/-- Only a leaf prints as a word. -/
theorem word_cancel {e : Expr F} (he : legible e = true) {w s t : JString}
    (hw : IsWord separators w) (hs : Stops separators s) (ht : Stops separators t)
    (h : toInfix e ++ s = w ++ t) : (∃ k, Leaf k e) ∧ toInfix e = w ∧ s = t := by
  induction e, he using legible_induction with
  | leaf k e _ hk => exact ⟨⟨k, hk⟩, word_append_cancel hk.spec.1.2 hw.2 hs ht h⟩
  | string val _ _ =>
    rw [toInfix_str] at h
    exact absurd h.symm (hw.head_ne (by decide))
  | unary op e _ _ =>
    rw [toInfix_unary] at h
    exact absurd h.symm (hw.head_ne (by decide))
  | between left op right _ _ _ _ _ =>
    rw [toInfix_between] at h
    exact absurd h.symm (hw.head_ne (by decide))

theorem leaf_cancel {e e' : Expr F} (he : legible e = true) {k : WordKind} (hk : Leaf k e')
    {s t : JString} (hs : Follows s) (ht : Follows t) (h : toInfix e ++ s = toInfix e' ++ t) :
    e = e' ∧ s = t := by
  obtain ⟨⟨k', hk'⟩, htext, hrest⟩ := word_cancel he hk.spec.1 hs.stops ht.stops h
  exact ⟨hk'.inj hk htext, hrest⟩

/-- A unary node is never read as an operator between two operands, although a column may have the
name of the unary operator. -/
theorem unary_ne_between {op : UnaryOp} {op' : InfixOp} {e left right : Expr F} {s t : JString}
    (he : legible e = true) (hleft : legible left = true) :
    toInfix (.unary op e) ++ s ≠ toInfix (between left op' right) ++ t := by
  intro h
  rw [toInfix_unary, toInfix_between] at h
  have hspace : ∀ s, Stops separators (space :: s) := stops_cons (by decide)
  have hclose : ∀ s, Stops separators (closeParen :: s) := stops_cons (by decide)
  have hname : IsWord separators op.name := by
    cases op
    exact isWord_of_all (by decide) (by decide)
  -- the operator name is the whole left operand, so the operand of `op` is the operator `op'`
  have h₁ := (word_cancel hleft hname (hspace _) (hspace _) (List.cons.inj h).2.symm).2.2
  have h₂ := (word_cancel he op'.text_isWord (hclose _) (hspace _)
    (List.cons.inj h₁).2.symm).2.2
  exact absurd (List.cons.inj h₂).1 (by decide)

/-- **A text is read back from the front of any longer one**, with what stands behind it. -/
theorem toInfix_append_cancel {e₁ e₂ : Expr F} (h₁ : legible e₁ = true) (h₂ : legible e₂ = true)
    {s t : JString} (hs : Follows s) (ht : Follows t) (h : toInfix e₁ ++ s = toInfix e₂ ++ t) :
    e₁ = e₂ ∧ s = t := by
  induction e₁, h₁ using legible_induction generalizing e₂ s t with
  | leaf k e _ hk =>
    obtain ⟨rfl, rfl⟩ := leaf_cancel h₂ hk ht hs h.symm
    exact ⟨rfl, rfl⟩
  | string val he hval =>
    induction e₂, h₂ using legible_induction with
    | leaf k e _ hk => exact leaf_cancel he hk hs ht h
    | string val' _ hval' =>
      rw [toInfix_str, toInfix_str] at h
      obtain ⟨rfl, rfl⟩ := quoted_append_cancel (closesLast_of_breaksOff hval)
        (closesLast_of_breaksOff hval') hs ht (List.cons.inj h).2
      exact ⟨rfl, rfl⟩
    | unary op e _ _ =>
      rw [toInfix_str, toInfix_unary] at h
      exact absurd (List.cons.inj h).1 (by decide)
    | between left op right _ _ _ _ _ =>
      rw [toInfix_str, toInfix_between] at h
      exact absurd (List.cons.inj h).1 (by decide)
  | unary op e he ih =>
    induction e₂, h₂ using legible_induction with
    | leaf k e' _ hk => exact leaf_cancel (e := .unary op e) he hk hs ht h
    | string val' _ hval' =>
      rw [toInfix_str, toInfix_unary] at h
      exact absurd (List.cons.inj h).1 (by decide)
    | unary op' e' he' _ =>
      cases op
      cases op'
      rw [toInfix_unary, toInfix_unary] at h
      have hbody := List.append_cancel_left (List.cons.inj h).2
      obtain ⟨rfl, hrest⟩ := ih he' (.close hs) (.close ht) (List.cons.inj hbody).2
      exact ⟨rfl, (List.cons.inj hrest).2⟩
    | between left op' right _ hl _ _ _ => exact absurd h (unary_ne_between he hl)
  | between left op right he hl hr ihl ihr =>
    induction e₂, h₂ using legible_induction with
    | leaf k e _ hk => exact leaf_cancel he hk hs ht h
    | string val' _ hval' =>
      rw [toInfix_str, toInfix_between] at h
      exact absurd (List.cons.inj h).1 (by decide)
    | unary op' e' he' _ => exact absurd h.symm (unary_ne_between he' hl)
    | between left' op' right' _ hl' hr' _ _ =>
      rw [toInfix_between, toInfix_between] at h
      obtain ⟨rfl, hafter⟩ := ihl hl' (.operator op _) (.operator op' _) (List.cons.inj h).2
      obtain ⟨htext, hright⟩ := word_append_cancel op.text_isWord.2 op'.text_isWord.2
        (stops_cons (by decide) _) (stops_cons (by decide) _) (List.cons.inj hafter).2
      obtain ⟨rfl, hrest⟩ := ihr hr' (.close hs) (.close ht) (List.cons.inj hright).2
      rw [InfixOp.text_inj htext]
      exact ⟨rfl, (List.cons.inj hrest).2⟩

theorem toInfix_inj {e₁ e₂ : Expr F} (h₁ : legible e₁ = true) (h₂ : legible e₂ = true)
    (h : toInfix e₁ = toInfix e₂) : e₁ = e₂ :=
  (toInfix_append_cancel h₁ h₂ .done .done (congrArg (· ++ []) h)).1

/-- **Infix texts are unambiguous where no string breaks off.** Two expressions without `double`
literals, whose column names are identifiers, print alike only if they are the same expression. -/
theorem toInfix_inj_iff (e₁ e₂ : Expr F) (n₁ : named e₁ = true) (n₂ : named e₂ = true)
    (u₁ : unbroken e₁ = true) (u₂ : unbroken e₂ = true) :
    toInfix e₁ = toInfix e₂ ↔ e₁ = e₂ := by
  constructor
  · apply toInfix_inj
    · rw [legible, n₁, u₁, Bool.and_self]
    · rw [legible, n₂, u₂, Bool.and_self]
  · exact congrArg toInfix

/-- Quotes, operators and parentheses in a string: `(x == 'it's (a + b)')`, and with a minus. -/
theorem toInfix_inj_iff_sample :
    toInfix (.binary (.columnRef (jstr "x")) (.comparison .EqEq)
        (.literal (.str (jstr "it's (a + b)"))) : Expr Unit) ≠
      toInfix (.binary (.columnRef (jstr "x")) (.comparison .EqEq)
        (.literal (.str (jstr "it's (a - b)"))) : Expr Unit) := by
  rw [ne_eq, toInfix_inj_iff _ _ (by decide) (by decide) (by decide) (by decide)]
  intro h
  injection h with _ _ h
  injection h with h
  injection h with h
  exact absurd h (by decide)

end Reading

/-! ## Strings that break off -/

/-- `('a' == 'b' == 'c')` is the text of two expressions: quotes in strings are not escaped. -/
theorem toInfix_not_injective :
    ¬ ∀ e₁ e₂ : Expr Unit, named e₁ = true → named e₂ = true → toInfix e₁ = toInfix e₂ →
      e₁ = e₂ := by
  intro h
  have hsame := h
    (.binary (.literal (.str (jstr "a' == 'b"))) (.comparison .EqEq) (.literal (.str (jstr "c"))))
    (.binary (.literal (.str (jstr "a"))) (.comparison .EqEq) (.literal (.str (jstr "b' == 'c"))))
    (by decide) (by decide) (by decide)
  injection hsame with hleft _ _
  injection hleft with hleft
  injection hleft with hleft
  exact absurd hleft (by decide)

end ExprPrinter

end QueryEngine
