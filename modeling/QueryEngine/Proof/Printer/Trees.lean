import QueryEngine.Proof.Printer.Infix

/-! # What a printed tree says about its expression

Every node stands on a line of its own, and its text says how many children follow. So the lines of
a printed tree determine the expression, with or without the types behind them, as long as no name
and no string breaks a line.
-/
namespace QueryEngine
open Library
set_option autoImplicit false
set_option maxHeartbeats 250000

namespace ExprPrinter
variable {F : Type}

/-! ## Texts on one line -/

abbrev lineBreaks : JString := [10, 13]

def oneLine (t : JString) : Bool := t.all fun c => !lineBreaks.contains c

@[simp] theorem oneLine_append (s t : JString) : oneLine (s ++ t) = (oneLine s && oneLine t) :=
  List.all_append

theorem not_lineBreak {t : JString} (h : oneLine t = true) : ∀ c ∈ t, c ∉ lineBreaks := by
  intro c hc
  simpa using List.all_eq_true.mp h c hc

theorem oneLine_of_forall {t : JString} (h : ∀ c ∈ t, c ∉ lineBreaks) : oneLine t = true := by
  refine List.all_eq_true.mpr fun c hc => ?_
  simpa using h c hc

theorem oneLine_decimal (n : ℤ) : oneLine (decimal n) = true := by
  apply oneLine_of_forall
  intro c hc hbreak
  rcases mem_decimal hc with rfl | hdigit
  · exact absurd hbreak (by decide)
  · have htable : (lineBreaks.all fun c => !isDigit c) = true := by decide
    simpa [hdigit] using List.all_eq_true.mp htable c hbreak

theorem oneLine_bool (b : Bool) : oneLine (jstr (if b then "true" else "false")) = true := by
  cases b <;> decide

theorem oneLine_type (t : Scalar) : oneLine t.name = true := by
  cases t <;> decide

theorem oneLine_arithmetic (op : ArithmeticOp) : oneLine op.token = true := by
  cases op <;> decide

theorem oneLine_comparison (op : ComparisonOp) : oneLine op.token = true := by
  cases op <;> decide

theorem oneLine_unary (op : UnaryOp) : oneLine op.name = true := by
  cases op
  decide

theorem oneLine_logical (op : LogicalOp) : oneLine op.name = true := by
  cases op <;> decide

/-- Every name, string and literal of the expression stays on its line, and none is a `double`. -/
def printable (e : Expr F) : Bool :=
  everyLeaf oneLine (fun | .float64 _ => false | .str val => oneLine val | _ => true) e

/-! ## Types behind a node -/

theorem oneLine_intercalate {separator : JString} (hseparator : oneLine separator = true)
    {ts : List JString} (hts : ∀ t ∈ ts, oneLine t = true) :
    oneLine (List.intercalate separator ts) = true := by
  induction ts with
  | nil => rfl
  | cons t ts ih =>
    have ht := hts t List.mem_cons_self
    have htail := ih fun u hu => hts u (List.mem_cons_of_mem t hu)
    cases ts with
    | nil => simpa [List.intercalate] using ht
    | cons u us =>
      rw [List.intercalate_cons_cons, oneLine_append, oneLine_append, ht, hseparator, htail]
      rfl

theorem oneLine_asString {schema : Schema} (hs : ∀ f ∈ schema.fieldsList, oneLine f.name = true) :
    oneLine schema.asString = true := by
  have hfields : oneLine (List.intercalate (jstr ",") (schema.fieldsList.map fun f =>
      f.name ++ jstr ": " ++ f.type.name ++ jstr ", nullable:" ++
        jstr (if f.nullable then "true" else "false"))) = true := by
    refine oneLine_intercalate (by decide) fun t ht => ?_
    obtain ⟨f, hf, rfl⟩ := List.mem_map.mp ht
    simp only [oneLine_append, hs f hf, oneLine_type, oneLine_bool, Bool.and_true, Bool.true_and]
    decide
  rw [Schema.asString, oneLine_append, oneLine_append, hfields]
  decide

theorem typeText_columnRef (schema : Schema) (name : JString) :
    (∃ t : Scalar, typeText (.columnRef name : Expr F) (some schema) = jstr " -> " ++ t.name) ∨
    typeText (.columnRef name : Expr F) (some schema) =
      jstr " -> [type error: " ++ (jstr "Field not found: " ++ name ++ jstr " in schema: " ++
        schema.asString) ++ jstr "]" := by
  cases hget : schema.fields.get name with
  | none =>
    right
    simp [typeText, Expr.outputType, Schema.field, hget, Schema.fieldNotFound,
      JavaException.getMessage, bind, Except.bind]
  | some f =>
    left
    exact ⟨f.type, by simp [typeText, Expr.outputType, Schema.field, hget]⟩

theorem oneLine_cannotApply (op : ArithmeticOp) (left right : Scalar) :
    ∃ message, (Expr.cannotApply op left right).getMessage = some message ∧
      oneLine message = true := by
  refine ⟨_, rfl, ?_⟩
  simp only [oneLine_append, oneLine_arithmetic, oneLine_type]
  decide

theorem oneLine_cannotCompare (op : ComparisonOp) (left right : Scalar) :
    ∃ message, (Expr.cannotCompare op left right).getMessage = some message ∧
      oneLine message = true := by
  refine ⟨_, rfl, ?_⟩
  simp only [oneLine_append, oneLine_comparison, oneLine_type]
  decide

theorem oneLine_binaryType {t u : ExprType} {op : BinaryOp} {x : JavaException}
    (h : Expr.binaryType t op u = .error x) :
    ∃ message, x.getMessage = some message ∧ oneLine message = true := by
  cases op with
  | comparison op =>
    simp only [Expr.binaryType] at h
    split at h
    · cases h
    · obtain rfl := Except.error.inj h
      exact oneLine_cannotCompare op _ _
  | arithmetic op =>
    have hx : x = Expr.cannotApply op t.type u.type := by
      simp only [Expr.binaryType] at h
      split at h
      · split at h <;> cases h <;> rfl
      · exact (Except.error.inj h).symm
    exact hx ▸ oneLine_cannotApply op _ _

/-- **The text of a failed check stays on its line.** -/
theorem oneLine_message {schema : Schema}
    (hs : ∀ f ∈ schema.fieldsList, oneLine f.name = true) {e : Expr F} (he : printable e = true)
    {x : JavaException} (h : e.outputType schema = .error x) :
    ∃ message, x.getMessage = some message ∧ oneLine message = true := by
  induction e with
  | columnRef name =>
    have hname : oneLine name = true := he
    obtain hfield | ⟨f, -, hx⟩ := bind_eq_error h
    · cases hget : schema.fields.get name with
      | none =>
        rw [Schema.field, hget] at hfield
        obtain rfl := Except.error.inj hfield
        refine ⟨_, rfl, ?_⟩
        rw [oneLine_append, oneLine_append, oneLine_append, hname, oneLine_asString hs]
        decide
      | some f =>
        rw [Schema.field, hget] at hfield
        cases hfield
    · cases hx
  | literal l => cases h
  | binary left op right ihl ihr =>
    rw [printable, everyLeaf, Bool.and_eq_true] at he
    obtain hl | ⟨t, -, h⟩ := bind_eq_error h
    · exact ihl he.1 hl
    · obtain hr | ⟨u, -, h⟩ := bind_eq_error h
      · exact ihr he.2 hr
      · exact oneLine_binaryType h
  | unary op e ih =>
    obtain he' | ⟨t, -, h⟩ := bind_eq_error h
    · exact ih he he'
    · rw [Expr.unaryType] at h
      split at h
      · cases h
      · obtain rfl := Except.error.inj h
        refine ⟨_, rfl, ?_⟩
        simp only [oneLine_append, oneLine_unary, oneLine_type]
        decide
  | logical left op right ihl ihr =>
    rw [printable, everyLeaf, Bool.and_eq_true] at he
    obtain hl | ⟨t, -, h⟩ := bind_eq_error h
    · exact ihl he.1 hl
    · obtain hr | ⟨u, -, h⟩ := bind_eq_error h
      · exact ihr he.2 hr
      · rw [Expr.logicalType] at h
        split at h
        · cases h
        · obtain rfl := Except.error.inj h
          refine ⟨_, rfl, ?_⟩
          simp only [oneLine_append, oneLine_logical, oneLine_type]
          decide

theorem oneLine_typeText {schema : Option Schema}
    (hs : ∀ s ∈ schema, ∀ f ∈ s.fieldsList, oneLine f.name = true) {e : Expr F}
    (he : printable e = true) : oneLine (typeText e schema) = true := by
  cases schema with
  | none => rfl
  | some s =>
    cases htype : e.outputType s with
    | ok t =>
      simp only [typeText, htype, oneLine_append, oneLine_type, Bool.and_true]
      decide
    | error x =>
      obtain ⟨message, hmessage, hline⟩ := oneLine_message (hs s rfl) he htype
      simp only [typeText, htype, hmessage, Option.getD_some, oneLine_append, hline,
        Bool.and_true]
      decide

theorem type_no_space (t : Scalar) : ∀ c ∈ t.name.reverse, c ∉ [space] := by
  cases t <;> exact (isWord_of_all (by decide) (by decide)).2

theorem type_ne_error (a b message : JString) (t : Scalar) :
    a ++ closeParen :: (jstr " -> " ++ t.name) ≠
      b ++ closeParen :: (jstr " -> [type error: " ++ message ++ jstr "]") := by
  intro h
  have hsplit : (a ++ closeParen :: jstr " -> ") ++ t.name =
      (b ++ closeParen :: (jstr " -> [type error: " ++ message)) ++ [93] := by
    rw [List.append_assoc, List.append_assoc, List.cons_append, List.cons_append]
    exact h
  have hlast := congrArg List.getLast? hsplit
  rw [List.getLast?_concat, List.getLast?_append_of_ne_nil _ (by cases t <;> decide)] at hlast
  cases t <;> exact absurd hlast (by decide)

/-- A name ends where the parenthesis closes, although names may hold parentheses: what follows is
a type, or the name once more. -/
theorem column_cancel (schema : Option Schema) {name name' : JString}
    (h : name ++ closeParen :: typeText (.columnRef name : Expr F) schema =
      name' ++ closeParen :: typeText (.columnRef name' : Expr F) schema) : name = name' := by
  cases schema with
  | none => exact List.append_cancel_right h
  | some s =>
    obtain ⟨t, ht⟩ | hx := typeText_columnRef (F := F) s name
    · obtain ⟨t', ht'⟩ | hx' := typeText_columnRef (F := F) s name'
      · rw [ht, ht'] at h
        have hreverse := congrArg List.reverse h
        simp only [List.reverse_append, List.reverse_cons, List.append_assoc] at hreverse
        have hstops : ∀ u : JString, Stops [space] ((jstr " -> ").reverse ++ u) := fun u =>
          stops_cons (by decide) _
        have hrest := (word_append_cancel (type_no_space t) (type_no_space t') (hstops _) (hstops _)
          hreverse).2
        simpa using hrest
      · rw [ht, hx'] at h
        exact absurd h (type_ne_error _ _ _ t)
    · obtain ⟨t', ht'⟩ | hx' := typeText_columnRef (F := F) s name'
      · rw [hx, ht'] at h
        exact absurd h.symm (type_ne_error _ _ _ t')
      · rw [hx, hx'] at h
        have hlength := congrArg List.length h
        simp only [List.length_append, List.length_cons] at hlength
        exact (List.append_inj h (by omega)).1

/-! ## Nodes -/

/-- A node without its children. -/
inductive Node (F : Type)
  | columnRef (name : JString)
  | literal (l : Literal F)
  | binary (op : BinaryOp)
  | unary (op : UnaryOp)
  | logical (op : LogicalOp)

def node : Expr F → Node F
  | .columnRef name => .columnRef name
  | .literal l => .literal l
  | .binary _ op _ => .binary op
  | .unary op _ => .unary op
  | .logical _ op _ => .logical op

inductive NodeKind
  | columnRef | literal | binary | unary | logical
  deriving DecidableEq

def NodeKind.text : NodeKind → JString
  | columnRef => jstr "ColumnRef"
  | literal => jstr "Literal"
  | binary => jstr "BinaryExpr"
  | unary => jstr "UnaryExpr"
  | logical => jstr "LogicalExpr"

theorem NodeKind.text_inj : ∀ {k k' : NodeKind}, k.text = k'.text → k = k' := by
  intro k k'
  cases k <;> cases k' <;> decide

theorem NodeKind.text_spec (k : NodeKind) : ∀ c ∈ k.text, c ∉ [openParen] := by
  cases k <;> exact (isWord_of_all (by decide) (by decide)).2

def Node.kind : Node F → NodeKind
  | columnRef _ => .columnRef
  | literal _ => .literal
  | binary _ => .binary
  | unary _ => .unary
  | logical _ => .logical

variable [DoubleText F]

/-- What stands between the parentheses of a node. -/
def Node.content : Node F → JString
  | columnRef name => name
  | literal l => toInfix (.literal l)
  | binary op => op.token
  | unary op => op.name
  | logical op => op.name

theorem baseText_eq (e : Expr F) :
    baseText e = (node e).kind.text ++ openParen :: ((node e).content ++ [closeParen]) := by
  cases e with
  | columnRef name => rfl
  | literal l =>
    cases l <;> simp [baseText, NodeKind.text, node, Node.kind, Node.content, toInfix] <;> rfl
  | binary left op right => rfl
  | unary op e => rfl
  | logical left op right => rfl

theorem oneLine_node (e : Expr F) (he : printable e = true) : oneLine (node e).content = true := by
  cases e with
  | columnRef name => exact he
  | literal l =>
    cases l with
    | int32 val => exact oneLine_decimal val.toInt
    | int64 val =>
      rw [node, Node.content, toInfix, oneLine_append]
      exact Bool.and_eq_true_iff.mpr ⟨oneLine_decimal val.toInt, by decide⟩
    | float64 val => cases he
    | str val =>
      have hval : oneLine val = true := he
      rw [node, Node.content, toInfix, oneLine_append, oneLine_append, hval]
      decide
    | bool b => exact oneLine_bool b
  | binary left op right =>
    cases op with
    | arithmetic op => exact oneLine_arithmetic op
    | comparison op => exact oneLine_comparison op
  | unary op e => exact oneLine_unary op
  | logical left op right => exact oneLine_logical op

theorem oneLine_formatNode {schema : Option Schema}
    (hs : ∀ s ∈ schema, ∀ f ∈ s.fieldsList, oneLine f.name = true) {e : Expr F}
    (he : printable e = true) : oneLine (formatNode e schema) = true := by
  have hkind : ∀ k : NodeKind, oneLine k.text = true := by
    intro k
    cases k <;> decide
  rw [formatNode, baseText_eq, List.append_cons, oneLine_append, oneLine_append, oneLine_append,
    oneLine_append, hkind, oneLine_node e he, oneLine_typeText hs he]
  decide

/-- A literal ends where the parenthesis closes: only a string can hold parentheses. -/
theorem literal_cancel (schema : Option Schema) {l l' : Literal F}
    (hl : printable (.literal l) = true) (hl' : printable (.literal l') = true)
    (h : toInfix (.literal l) ++ closeParen :: typeText (.literal l) schema =
      toInfix (.literal l') ++ closeParen :: typeText (.literal l') schema) : l = l' := by
  have hclose : ∀ s, Stops separators (closeParen :: s) := stops_cons (by decide)
  -- all but the strings are words
  have hleaf : ∀ l : Literal F, printable (.literal l) = true →
      (∃ val, l = .str val) ∨ ∃ k, Leaf k (.literal l) := by
    intro l hl
    cases l with
    | int32 val => exact Or.inr ⟨_, .int32 val⟩
    | int64 val => exact Or.inr ⟨_, .int64 val⟩
    | float64 val => cases hl
    | str val => exact Or.inl ⟨val, rfl⟩
    | bool b => exact Or.inr ⟨_, .bool b⟩
  obtain ⟨val, rfl⟩ | ⟨k, hk⟩ := hleaf l hl
  · obtain ⟨val', rfl⟩ | ⟨k', hk'⟩ := hleaf l' hl'
    · rw [toInfix_str, toInfix_str] at h
      rw [List.append_cancel_right (List.cons.inj h).2]
    · rw [toInfix_str] at h
      exact absurd h.symm (hk'.spec.1.head_ne (by decide))
  · obtain ⟨val', rfl⟩ | ⟨k', hk'⟩ := hleaf l' hl'
    · rw [toInfix_str] at h
      exact absurd h (hk.spec.1.head_ne (by decide))
    · have htext := word_append_cancel hk.spec.1.2 hk'.spec.1.2 (hclose _) (hclose _) h
      exact Expr.literal.inj (hk.inj hk' htext.1)

/-- **The text of a node says which node it is.** -/
theorem formatNode_inj (schema : Option Schema) {e e' : Expr F} (he : printable e = true)
    (he' : printable e' = true) (h : formatNode e schema = formatNode e' schema) :
    node e = node e' := by
  have hopen : ∀ s, Stops [openParen] (openParen :: s) := stops_cons (by decide)
  have hclose : ∀ s, Stops separators (closeParen :: s) := stops_cons (by decide)
  rw [formatNode, formatNode, baseText_eq, baseText_eq, List.append_assoc, List.append_assoc,
    List.cons_append, List.cons_append, List.append_assoc, List.append_assoc] at h
  obtain ⟨hkind, hrest⟩ := word_append_cancel (NodeKind.text_spec _) (NodeKind.text_spec _)
    (hopen _) (hopen _) h
  replace hkind := NodeKind.text_inj hkind
  replace hrest := (List.cons.inj hrest).2
  cases e with
  | columnRef name =>
    cases e' with
    | columnRef name' =>
      have hname : name = name' := column_cancel schema hrest
      rw [hname]
    | _ => cases hkind
  | literal l =>
    cases e' with
    | literal l' =>
      have hliteral : l = l' := literal_cancel schema he he' hrest
      rw [hliteral]
    | _ => cases hkind
  | binary left op right =>
    cases e' with
    | binary left' op' right' =>
      have htext := word_append_cancel (InfixOp.text_isWord (.inl op)).2
        (InfixOp.text_isWord (.inl op')).2 (hclose _) (hclose _) hrest
      rw [node, node, Sum.inl.inj (InfixOp.text_inj htext.1)]
    | _ => cases hkind
  | unary op e =>
    cases e' with
    | unary op' e' =>
      cases op
      cases op'
      rfl
    | _ => cases hkind
  | logical left op right =>
    cases e' with
    | logical left' op' right' =>
      have htext := word_append_cancel (InfixOp.text_isWord (.inr op)).2
        (InfixOp.text_isWord (.inr op')).2 (hclose _) (hclose _) hrest
      rw [node, node, Sum.inr.inj (InfixOp.text_inj htext.1)]
    | _ => cases hkind

/-! ## Trees -/

/-- The text that ends a line: line breaks, and nothing else. -/
def IsLineSeparator (lineSeparator : JString) : Prop :=
  lineSeparator ≠ [] ∧ ∀ c ∈ lineSeparator, c ∈ lineBreaks

theorem IsLineSeparator.stops {lineSeparator : JString} (h : IsLineSeparator lineSeparator)
    (s : JString) : Stops lineBreaks (lineSeparator ++ s) := by
  obtain ⟨hne, hall⟩ := h
  cases lineSeparator with
  | nil => exact absurd rfl hne
  | cons c rest => exact stops_cons (hall c List.mem_cons_self) _

/-- The loop of `renderTree` over the children: all but the last hang on a tee. -/
def renderChildren (lineSeparator : JString) (schema : Option Schema) (children : List (Expr F))
    (childPrefix : JString) : JString :=
  children.zipIdx.flatMap fun c =>
    let isLast := c.2 + 1 == children.length
    renderTree lineSeparator schema c.1
      (childPrefix ++ jstr (if isLast then "└── " else "├── "))
      (childPrefix ++ jstr (if isLast then "    " else "│   "))

theorem renderTree_eq (lineSeparator : JString) (schema : Option Schema) (e : Expr F)
    (ownPrefix childPrefix : JString) :
    renderTree lineSeparator schema e ownPrefix childPrefix =
      ownPrefix ++ (formatNode e schema ++ (lineSeparator ++
        renderChildren lineSeparator schema (getChildren e) childPrefix)) := by
  cases e <;> simp [renderTree, getChildren, renderChildren]

theorem renderChildren_one (lineSeparator : JString) (schema : Option Schema) (e : Expr F)
    (childPrefix : JString) :
    renderChildren lineSeparator schema [e] childPrefix =
      renderTree lineSeparator schema e (childPrefix ++ jstr "└── ")
        (childPrefix ++ jstr "    ") := by
  simp [renderChildren]

theorem renderChildren_two (lineSeparator : JString) (schema : Option Schema)
    (left right : Expr F) (childPrefix : JString) :
    renderChildren lineSeparator schema [left, right] childPrefix =
      renderTree lineSeparator schema left (childPrefix ++ jstr "├── ")
          (childPrefix ++ jstr "│   ") ++
        renderTree lineSeparator schema right (childPrefix ++ jstr "└── ")
          (childPrefix ++ jstr "    ") := by
  simp [renderChildren]

section Reading
variable {lineSeparator : JString} {schema : Option Schema}

theorem node_cancel (hsep : IsLineSeparator lineSeparator)
    (hs : ∀ s ∈ schema, ∀ f ∈ s.fieldsList, oneLine f.name = true) {e e' : Expr F}
    (he : printable e = true) (he' : printable e' = true) {ownPrefix childPrefix s t : JString}
    (h : renderTree lineSeparator schema e ownPrefix childPrefix ++ s =
      renderTree lineSeparator schema e' ownPrefix childPrefix ++ t) :
    node e = node e' ∧ renderChildren lineSeparator schema (getChildren e) childPrefix ++ s =
      renderChildren lineSeparator schema (getChildren e') childPrefix ++ t := by
  simp only [renderTree_eq, List.append_assoc] at h
  obtain ⟨hline, hrest⟩ := word_append_cancel (not_lineBreak (oneLine_formatNode hs he))
    (not_lineBreak (oneLine_formatNode hs he')) (hsep.stops _) (hsep.stops _)
    (List.append_cancel_left h)
  exact ⟨formatNode_inj schema he he' hline, List.append_cancel_left hrest⟩

/-- **A tree is read off the front of any longer text.** -/
theorem renderTree_append_cancel (hsep : IsLineSeparator lineSeparator)
    (hs : ∀ s ∈ schema, ∀ f ∈ s.fieldsList, oneLine f.name = true) {e e' : Expr F}
    (he : printable e = true) (he' : printable e' = true) {ownPrefix childPrefix s t : JString}
    (h : renderTree lineSeparator schema e ownPrefix childPrefix ++ s =
      renderTree lineSeparator schema e' ownPrefix childPrefix ++ t) : e = e' ∧ s = t := by
  induction e generalizing e' ownPrefix childPrefix s t with
  | columnRef name =>
    obtain ⟨hnode, hrest⟩ := node_cancel hsep hs he he' h
    cases e' with
    | columnRef name' =>
      cases hnode
      exact ⟨rfl, hrest⟩
    | _ => cases hnode
  | literal l =>
    obtain ⟨hnode, hrest⟩ := node_cancel hsep hs he he' h
    cases e' with
    | literal l' =>
      cases hnode
      exact ⟨rfl, hrest⟩
    | _ => cases hnode
  | binary left op right ihl ihr =>
    obtain ⟨hnode, hrest⟩ := node_cancel hsep hs he he' h
    cases e' with
    | binary left' op' right' =>
      cases hnode
      rw [printable, everyLeaf, Bool.and_eq_true] at he he'
      simp only [getChildren, renderChildren_two, List.append_assoc] at hrest
      obtain ⟨rfl, hright⟩ := ihl he.1 he'.1 hrest
      obtain ⟨rfl, hend⟩ := ihr he.2 he'.2 hright
      exact ⟨rfl, hend⟩
    | _ => cases hnode
  | unary op e ih =>
    obtain ⟨hnode, hrest⟩ := node_cancel hsep hs he he' h
    cases e' with
    | unary op' operand =>
      cases hnode
      have hoperand : printable operand = true := he'
      simp only [getChildren, renderChildren_one] at hrest
      obtain ⟨rfl, hend⟩ := ih he hoperand hrest
      exact ⟨rfl, hend⟩
    | _ => cases hnode
  | logical left op right ihl ihr =>
    obtain ⟨hnode, hrest⟩ := node_cancel hsep hs he he' h
    cases e' with
    | logical left' op' right' =>
      cases hnode
      rw [printable, everyLeaf, Bool.and_eq_true] at he he'
      simp only [getChildren, renderChildren_two, List.append_assoc] at hrest
      obtain ⟨rfl, hright⟩ := ihl he.1 he'.1 hrest
      obtain ⟨rfl, hend⟩ := ihr he.2 he'.2 hright
      exact ⟨rfl, hend⟩
    | _ => cases hnode

/-! ## Stripping the last line separator -/

theorem stripTrailing_append (x s : JString) {c : UInt16} (hc : isWhitespace c = false)
    (hs : ∀ a ∈ s, isWhitespace a = true) : stripTrailing (x ++ c :: s) = x ++ [c] := by
  have hdrop : (s.reverse ++ c :: x.reverse).dropWhile isWhitespace = c :: x.reverse := by
    rw [List.dropWhile_append_of_pos fun a ha => hs a (List.mem_reverse.mp ha),
      List.dropWhile_cons_of_neg (by simp [hc])]
  rw [stripTrailing, List.reverse_append, List.reverse_cons, List.append_assoc,
    List.singleton_append, hdrop, List.reverse_cons, List.reverse_reverse]

theorem IsLineSeparator.isWhitespace (h : IsLineSeparator lineSeparator) :
    ∀ c ∈ lineSeparator, QueryEngine.isWhitespace c = true := by
  intro c hc
  have htable : (lineBreaks.all QueryEngine.isWhitespace) = true := by decide
  exact List.all_eq_true.mp htable c (h.2 c hc)

/-- A text that ends in something visible. -/
def EndsVisibly (t : JString) : Prop := ∃ x c, isWhitespace c = false ∧ t = x ++ [c]

theorem EndsVisibly.append {t : JString} (h : EndsVisibly t) (s : JString) :
    EndsVisibly (s ++ t) := by
  obtain ⟨x, c, hc, rfl⟩ := h
  exact ⟨s ++ x, c, hc, (List.append_assoc s x [c]).symm⟩

theorem type_ends : ∀ t : Scalar, EndsVisibly t.name
  | .BOOLEAN => ⟨jstr "BOOLEA", 78, by decide, rfl⟩
  | .INT32 => ⟨jstr "INT3", 50, by decide, rfl⟩
  | .INT64 => ⟨jstr "INT6", 52, by decide, rfl⟩
  | .FLOAT64 => ⟨jstr "FLOAT6", 52, by decide, rfl⟩
  | .UTF8 => ⟨jstr "UTF", 56, by decide, rfl⟩

theorem formatNode_ends (e : Expr F) (schema : Option Schema) :
    EndsVisibly (formatNode e schema) := by
  have hbase : EndsVisibly (baseText e) := by
    rw [baseText_eq, List.append_cons, ← List.append_assoc]
    exact ⟨_, closeParen, by decide, rfl⟩
  rw [formatNode]
  cases schema with
  | none => rwa [typeText, List.append_nil]
  | some s =>
    apply EndsVisibly.append
    cases htype : e.outputType s with
    | ok t =>
      simp only [typeText, htype]
      exact (type_ends t.type).append _
    | error x =>
      simp only [typeText, htype]
      exact ⟨_, 93, by decide, rfl⟩

theorem renderTree_ends (e : Expr F) (ownPrefix childPrefix : JString) :
    ∃ t, EndsVisibly t ∧
      renderTree lineSeparator schema e ownPrefix childPrefix = t ++ lineSeparator := by
  have hbehind : ∀ s u : JString, (∃ t, EndsVisibly t ∧ u = t ++ lineSeparator) →
      ∃ t, EndsVisibly t ∧ s ++ u = t ++ lineSeparator := by
    rintro s _ ⟨t, ht, rfl⟩
    exact ⟨s ++ t, ht.append s, (List.append_assoc s t lineSeparator).symm⟩
  induction e generalizing ownPrefix childPrefix with
  | columnRef name =>
    exact ⟨_, (formatNode_ends (.columnRef name : Expr F) schema).append ownPrefix,
      by simp [renderTree]⟩
  | literal l =>
    exact ⟨_, (formatNode_ends (.literal l : Expr F) schema).append ownPrefix,
      by simp [renderTree]⟩
  | binary left op right _ ihr =>
    rw [renderTree_eq, getChildren, renderChildren_two]
    exact hbehind _ _ (hbehind _ _ (hbehind _ _ (hbehind _ _ (ihr _ _))))
  | unary op e ih =>
    rw [renderTree_eq, getChildren, renderChildren_one]
    exact hbehind _ _ (hbehind _ _ (hbehind _ _ (ih _ _)))
  | logical left op right _ ihr =>
    rw [renderTree_eq, getChildren, renderChildren_two]
    exact hbehind _ _ (hbehind _ _ (hbehind _ _ (hbehind _ _ (ihr _ _))))

/-- What `stripTrailing` takes off is the line separator behind the last line. -/
theorem printTree_append (hsep : IsLineSeparator lineSeparator) (e : Expr F) :
    printTree lineSeparator e schema ++ lineSeparator =
      renderTree lineSeparator schema e [] [] := by
  obtain ⟨t, ⟨x, c, hc, rfl⟩, ht⟩ : ∃ t, EndsVisibly t ∧
      renderTree lineSeparator schema e [] [] = t ++ lineSeparator := renderTree_ends e [] []
  rw [printTree, ht, List.append_assoc, List.singleton_append,
    stripTrailing_append x lineSeparator hc hsep.isWhitespace, List.append_assoc,
    List.singleton_append]

end Reading

/-- **A printed tree determines its expression**, printed against any schema or none: whatever
parentheses, quotes, arrows or box characters the names and strings hold, as long as they break no
line. -/
theorem printTree_inj_iff {lineSeparator : JString} (hsep : IsLineSeparator lineSeparator)
    (schema : Option Schema) (hs : ∀ s ∈ schema, ∀ f ∈ s.fieldsList, oneLine f.name = true)
    (e e' : Expr F) (he : printable e = true) (he' : printable e' = true) :
    printTree lineSeparator e schema = printTree lineSeparator e' schema ↔ e = e' := by
  constructor
  · intro h
    have htrees : renderTree lineSeparator schema e [] [] ++ [] =
        renderTree lineSeparator schema e' [] [] ++ [] := by
      rw [← printTree_append hsep, ← printTree_append hsep, h]
    exact (renderTree_append_cancel hsep hs he he' htrees).1
  · rintro rfl
    rfl

/-- A column whose name holds the end of the other node and its type. -/
theorem printTree_inj_iff_sample :
    printTree (jstr "\n") (.unary .NOT (.columnRef (jstr "f) -> BOOLEAN")) : Expr Unit)
        (some Sample.schema) ≠
      printTree (jstr "\n") (.unary .NOT (.columnRef Sample.f) : Expr Unit)
        (some Sample.schema) := by
  have hsep : IsLineSeparator (jstr "\n") := ⟨by decide, by simp [jstr, utf16]⟩
  have hs : ∀ s ∈ some Sample.schema, ∀ f ∈ s.fieldsList, oneLine f.name = true := by
    rintro _ ⟨⟩
    exact List.all_eq_true.mp (by decide)
  rw [ne_eq, printTree_inj_iff hsep _ hs _ _ (by decide) (by decide)]
  intro h
  injection h with _ h
  injection h with h
  exact absurd h (by decide)

/-- **A line break in a name can move a child from one line to another.** -/
theorem line_breaks_regroup (lineSeparator a b c : JString) (op : BinaryOp) :
    printTree lineSeparator (.binary
        (.columnRef (a ++ jstr ")" ++ lineSeparator ++ jstr "└── ColumnRef(" ++ b)) op
        (.columnRef c) : Expr F) none =
      printTree lineSeparator (.binary (.columnRef a) op
        (.columnRef (b ++ jstr ")" ++ lineSeparator ++ jstr "└── ColumnRef(" ++ c)) : Expr F)
        none := by
  have hcolumn : jstr "└── " ++ jstr "ColumnRef(" = jstr "└── ColumnRef(" := rfl
  simp [printTree, renderTree, formatNode, typeText, baseText, ← hcolumn]

end ExprPrinter

end QueryEngine
