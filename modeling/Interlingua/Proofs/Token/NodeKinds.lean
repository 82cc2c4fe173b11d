import Interlingua.Proofs.Text.Slice
import Interlingua.Token.Concrete

/-!
# Operator nodes and their leaves

What the tables of a language have to agree on for the leaves of a syntax tree to be read as the
operators they were written for.

* `NodeKinds` — kinds of nodes for the expressions of a language, out of the lists of its grammar;
  `NodeKinds.standard` is such a choice for each language.
* `Language.FieldsOrOrder` — the operands of an operator node are told apart by their fields, or
  else by their order.
* `Language.leafForm?_binary` and its kin — in a node of its arity, an operator is found again by
  its spelling.
* `Language.leafForm?_free`, `Language.leafForm?_numeral` — names and numerals are no operators;
  `Language.classify_free`, `Language.classify_numeral` — what they are instead.
-/

namespace Interlingua

/-! ## Kinds of nodes -/

/-- Kinds of nodes to write expressions of a language with. -/
structure NodeKinds (lang : Language) where
  binary : BinaryOp → String
  unary : UnaryOp → String
  assign : AssignOp → String
  ternary : String
  /-- What stands between parentheses. -/
  group : String
  name : String
  number : String
  /-- The field that holds the operator of a node. -/
  operatorField : Option String
  binary_mem : ∀ op, binary op ∈ lang.grammar.binaryNodes
  unary_mem : ∀ op, unary op ∈ lang.grammar.unaryNodes
  assign_mem : ∀ op, assign op ∈ lang.grammar.binaryNodes
  ternary_mem : ternary ∈ lang.grammar.ternaryNodes
  group_arity : lang.grammar.operatorArity? group = none
  group_role : lang.grammar.role group = .other
  group_apart : group ∉ lang.grammar.stopNodes
  name_kind : Language.isLiteralKind name = false
  operatorField_side : ∀ kind ∈ lang.grammar.binaryNodes ++ lang.grammar.ternaryNodes,
    operatorField.bind (lang.grammar.operandSide? kind) = none

namespace NodeKinds

/-- Kinds of nodes of Java. -/
def java : NodeKinds .java where
  binary
    | .instanceOf => "instanceof_expression"
    | _ => "binary_expression"
  unary
    | .preInc | .preDec | .postInc | .postDec => "update_expression"
    | _ => "unary_expression"
  assign _ := "assignment_expression"
  ternary := "ternary_expression"
  group := "parenthesized_expression"
  name := "identifier"
  number := "decimal_integer_literal"
  operatorField := some "operator"
  binary_mem op := by cases op <;> decide
  unary_mem op := by cases op <;> decide
  assign_mem _ := by decide
  ternary_mem := by decide
  group_arity := by decide
  group_role := by decide
  group_apart := by decide
  name_kind := by decide
  operatorField_side := by decide

/-- Kinds of nodes of Python. -/
def python : NodeKinds .python where
  binary
    | .and | .or => "boolean_operator"
    | op => if op.isComparison || op.isTest then "comparison_operator" else "binary_operator"
  unary
    | .not => "not_operator"
    | _ => "unary_operator"
  assign _ := "named_expression"
  ternary := "conditional_expression"
  group := "parenthesized_expression"
  name := "identifier"
  number := "integer"
  operatorField := none
  binary_mem op := by cases op <;> decide
  unary_mem op := by cases op <;> decide
  assign_mem _ := by decide
  ternary_mem := by decide
  group_arity := by decide
  group_role := by decide
  group_apart := by decide
  name_kind := by decide
  operatorField_side := by decide

/-- Kinds of nodes of C++. -/
def cpp : NodeKinds .cpp where
  binary _ := "binary_expression"
  unary
    | .preInc | .preDec | .postInc | .postDec => "update_expression"
    | .deref | .addressOf => "pointer_expression"
    | _ => "unary_expression"
  assign _ := "assignment_expression"
  ternary := "conditional_expression"
  group := "parenthesized_expression"
  name := "identifier"
  number := "number_literal"
  operatorField := some "operator"
  binary_mem op := by cases op <;> decide
  unary_mem op := by cases op <;> decide
  assign_mem _ := by decide
  ternary_mem := by decide
  group_arity := by decide
  group_role := by decide
  group_apart := by decide
  name_kind := by decide
  operatorField_side := by decide

/-- Kinds of nodes of a language. -/
def standard : (lang : Language) → NodeKinds lang
  | .java => java
  | .python => python
  | .cpp => cpp

end NodeKinds

namespace Language

variable {lang : Language} {kind : String} {form : OperatorForm}

/-! ## Operator nodes -/

/-- The operand that the field of an operand of a node names. -/
def ownSide? (lang : Language) (kind : String) (side : Side) : Option Side :=
  (lang.grammar.operandField kind side).bind (lang.grammar.operandSide? kind)

/-- What is true of the kinds of operator nodes of an arity: they are of that arity, are no leaves,
and change no leaf. -/
structure OperatorNode (lang : Language) (kind : String) (arity : Arity) : Prop where
  arity : lang.grammar.operatorArity? kind = some arity
  apart : kind ∉ lang.grammar.stopNodes
  role : lang.grammar.role kind = .other

theorem operatorNode_of_mem {arity : Arity} (h : kind ∈ lang.grammar.operatorNodes arity) :
    lang.OperatorNode kind arity := by
  have hall : (lang.grammar.operatorNodes arity).all (fun kind =>
      lang.grammar.operatorArity? kind == some arity && !lang.grammar.stopNodes.contains kind &&
        lang.grammar.role kind == .other) = true := by
    cases lang <;> cases arity <;> decide
  have hkind := List.all_eq_true.1 hall kind h
  simp only [Bool.and_eq_true, Bool.not_eq_true', beq_iff_eq, List.contains_eq_mem,
    decide_eq_false_iff_not] at hkind
  exact ⟨hkind.1.1, hkind.1.2, hkind.2⟩

/-- Operands are told apart by their fields, or have none and are told apart by their order. -/
def FieldsOrOrder (lang : Language) (kind : String) (sides : List Side) : Prop :=
  (∀ side ∈ sides, lang.ownSide? kind side = some side) ∨
    (lang.grammar.positional kind = true ∧ ∀ side ∈ sides, lang.ownSide? kind side = none)

instance (lang : Language) (kind : String) (sides : List Side) :
    Decidable (lang.FieldsOrOrder kind sides) :=
  inferInstanceAs (Decidable (_ ∨ _))

theorem fieldsOrOrder_binary (h : kind ∈ lang.grammar.binaryNodes) :
    lang.FieldsOrOrder kind [.left, .right] := by
  have hall : ∀ kind ∈ lang.grammar.binaryNodes, lang.FieldsOrOrder kind [.left, .right] := by
    cases lang <;> decide
  exact hall kind h

theorem fieldsOrOrder_ternary (h : kind ∈ lang.grammar.ternaryNodes) :
    lang.FieldsOrOrder kind [.left, .center, .right] := by
  have hall : ∀ kind ∈ lang.grammar.ternaryNodes,
      lang.FieldsOrOrder kind [.left, .center, .right] := by
    cases lang <;> decide
  exact hall kind h

/-! ## Operators are found again -/

theorem leafForm?_binary {op : BinaryOp} (hform : lang.operators.binary op = some form)
    (hnode : lang.OperatorNode kind .binary) : lang.leafForm? form.value kind = some form := by
  have hall := holds_of_table (p := fun _ form =>
    (BinaryOp.all.findSome? fun op => spelled form.value (lang.operators.binary op)) == some form)
    op.mem_all hform (by cases lang <;> decide)
  rw [beq_iff_eq] at hall
  rw [leafForm?, hnode.arity]
  simp only [hall, Option.some_or]

theorem leafForm?_assign {op : AssignOp} (hlang : lang ≠ .python)
    (hform : lang.operators.assign op = some form)
    (hnode : lang.OperatorNode kind .binary) : lang.leafForm? form.value kind = some form := by
  have hall := holds_of_table (p := fun _ form => lang == .python ||
    ((BinaryOp.all.findSome? fun op => spelled form.value (lang.operators.binary op)).or
      (AssignOp.all.findSome? fun op => spelled form.value (lang.operators.assignStatement op))) ==
      some form) op.mem_all hform (by cases lang <;> decide)
  rw [beq_eq_false_iff_ne.2 hlang, Bool.false_or, beq_iff_eq] at hall
  rw [leafForm?, hnode.arity]
  exact hall

theorem leafForm?_ternary (hform : form ∈ [lang.operators.ternary.1, lang.operators.ternary.2])
    (hnode : lang.OperatorNode kind .ternary) : lang.leafForm? form.value kind = some form := by
  have hall : ∀ form ∈ [lang.operators.ternary.1, lang.operators.ternary.2],
      [lang.operators.ternary.1, lang.operators.ternary.2].find? (·.value == form.value) =
        some form := by
    cases lang <;> decide
  rw [leafForm?, hnode.arity]
  exact hall form hform

theorem leafForm?_leading {op : UnaryOp} (hform : lang.operators.unary op = some form)
    (hlead : form.isLeading = true) (hnode : lang.OperatorNode kind .unary) :
    lang.leafForm? form.value kind = some form := by
  have hall := holds_of_table (p := fun _ form => !form.isLeading ||
    ((UnaryOp.all.filter (!·.isPost)).findSome? fun op =>
      spelled form.value (lang.operators.unary op)) == some form) op.mem_all hform
    (by cases lang <;> decide)
  rw [hlead, Bool.not_true, Bool.false_or, beq_iff_eq] at hall
  rw [leafForm?, hnode.arity]
  exact hall

/-- An operator that stands after its operand is first taken for one that stands before it. -/
theorem leafForm?_trailing {op : UnaryOp} (hform : lang.operators.unary op = some form)
    (hlead : form.isLeading = false) (hnode : lang.OperatorNode kind .unary) :
    ∃ before, lang.leafForm? form.value kind = some before ∧ before.value = form.value ∧
      lang.trailingForm? form.value = some form := by
  have hall := holds_of_table (p := fun _ form => form.isLeading ||
    (((UnaryOp.all.filter (!·.isPost)).findSome? fun op =>
      spelled form.value (lang.operators.unary op)).any (·.value == form.value) &&
      lang.trailingForm? form.value == some form)) op.mem_all hform
    (by cases lang <;> decide)
  rw [hlead, Bool.false_or, Bool.and_eq_true, beq_iff_eq, Option.any_eq_true] at hall
  obtain ⟨⟨before, hbefore, hvalue⟩, htrailing⟩ := hall
  refine ⟨before, ?_, beq_iff_eq.1 hvalue, htrailing⟩
  rw [leafForm?, hnode.arity]
  exact hbefore

/-! ## What is no operator -/

/-- Every operator that a leaf can be. -/
def leafForms (lang : Language) : List OperatorForm :=
  UnaryOp.all.filterMap lang.operators.unary ++ BinaryOp.all.filterMap lang.operators.binary ++
    AssignOp.all.filterMap lang.operators.assignStatement ++
    [lang.operators.ternary.1, lang.operators.ternary.2]

theorem spelled_eq_some {text : String} {form? : Option OperatorForm} :
    spelled text form? = some form ↔ form? = some form ∧ form.value = text := by
  simp [spelled, Option.filter_eq_some_iff]

theorem mem_leafForms {text : String} (h : lang.leafForm? text kind = some form) :
    form ∈ lang.leafForms ∧ form.value = text := by
  unfold leafForm? at h
  simp only [leafForms, List.mem_append, List.mem_filterMap]
  split at h
  · cases h
  · obtain ⟨op, hop, hform⟩ := List.exists_of_findSome?_eq_some h
    obtain ⟨hform, hvalue⟩ := spelled_eq_some.1 hform
    exact ⟨.inl (.inl (.inl ⟨op, (List.mem_filter.1 hop).1, hform⟩)), hvalue⟩
  · rcases Option.or_eq_some_iff.1 h with h | ⟨-, h⟩
    · obtain ⟨op, hop, hform⟩ := List.exists_of_findSome?_eq_some h
      obtain ⟨hform, hvalue⟩ := spelled_eq_some.1 hform
      exact ⟨.inl (.inl (.inr ⟨op, hop, hform⟩)), hvalue⟩
    · obtain ⟨op, hop, hform⟩ := List.exists_of_findSome?_eq_some h
      obtain ⟨hform, hvalue⟩ := spelled_eq_some.1 hform
      exact ⟨.inl (.inr ⟨op, hop, hform⟩), hvalue⟩
  · exact ⟨.inr (List.mem_of_find?_eq_some h), by simpa using List.find?_some h⟩

theorem unary_mem_leafForms {op : UnaryOp} (h : lang.operators.unary op = some form) :
    form ∈ lang.leafForms := by
  simp only [leafForms, List.mem_append, List.mem_filterMap]
  exact .inl (.inl (.inl ⟨op, op.mem_all, h⟩))

/-- Operators are spelled without a blank at their ends. -/
theorem trim_leafForm (h : form ∈ lang.leafForms) :
    Text.trim form.value.toList = form.value.toList ∧ form.value ≠ "" := by
  have hall : ∀ form ∈ lang.leafForms,
      Text.trim form.value.toList = form.value.toList ∧ form.value ≠ "" := by
    cases lang <;> decide
  exact hall form h

/-- A name that the language has no other use for. -/
def isFree (lang : Language) (name : String) : Bool :=
  isIdentifier name && !lang.grammar.keywords.contains name &&
    !([Word.true, .false, .null].any fun word => lang.operators.word word == some name)

/-- Operators that look like names are keywords. -/
theorem leafForm?_free {name : String} (h : lang.isFree name = true) :
    lang.leafForm? name kind = none := by
  have hall : ∀ form ∈ lang.leafForms,
      (!isIdentifier form.value || lang.grammar.keywords.contains form.value) = true := by
    cases lang <;> decide
  simp only [isFree, Bool.and_eq_true, Bool.not_eq_true'] at h
  rw [Option.eq_none_iff_forall_ne_some]
  intro form hform
  obtain ⟨hmem, rfl⟩ := mem_leafForms hform
  have hform := hall form hmem
  rw [h.1.1, h.1.2] at hform
  cases hform

/-- A numeral starts with a digit. -/
theorem numeral_digit (n : Nat) : (Text.numeral n).toList.head?.any Char.isDigit = true := by
  obtain ⟨first, rest, hdigits⟩ :=
    List.exists_cons_of_ne_nil (Nat.toDigits_ne_nil (b := 10) (n := n))
  have hdigit : first.isDigit = true :=
    Text.isDigit_of_mem_digits (n := n) (by rw [hdigits]; exact List.mem_cons_self ..)
  simp [Text.numeral, Text.numeralChars, hdigits, hdigit]

theorem leafForm?_numeral (n : Nat) : lang.leafForm? (Text.numeral n) kind = none := by
  have hall : ∀ form ∈ lang.leafForms, form.value.toList.head?.any Char.isDigit = false := by
    cases lang <;> decide
  rw [Option.eq_none_iff_forall_ne_some]
  intro form hform
  obtain ⟨hmem, hvalue⟩ := mem_leafForms hform
  have hdigit := numeral_digit n
  rw [← hvalue, hall form hmem] at hdigit
  cases hdigit

/-! ## The role of a name, a numeral or a parenthesis -/

variable {text : String} {parent field : Option String}

/-- A node that changes none of its leaves, or no node at all. -/
def Plain (lang : Language) (parent : Option String) : Prop :=
  ∀ kind ∈ parent, lang.grammar.role kind = .other

theorem Plain.of_role (h : lang.grammar.role kind = .other) : lang.Plain (some kind) := by
  intro other hother
  cases hother
  exact h

/-- Texts that are brackets or that separate others. -/
def marks : List String := ["(", ")", "[", "]", "\x7b", "\x7d", ";", ",", ".", "::", ":", "->"]

theorem classify_word (hparent : lang.Plain parent) (hmark : text ∉ marks) :
    lang.classify ⟨text, kind, parent, field⟩ =
      if [Word.true, .false, .null].any fun word => lang.operators.word word == some text then .const
      else if lang.grammar.keywords.contains text then .keyword
      else if isLiteralKind kind || startsLiteral text then .const
      else if isIdentifier text || occursIn "identifier".toList kind.toList then .identifier
      else .unknown := by
  unfold classify
  dsimp only
  split
  case h_13 =>
    cases parent with
    | none => simp only [reduceCtorEq, decide_false, Bool.false_and, Bool.false_eq_true, if_false]
    | some kind =>
      simp only [hparent kind rfl, reduceCtorEq, decide_false, Bool.false_and, Bool.false_eq_true,
        if_false]
  all_goals exact absurd (by decide) hmark

theorem isLetter_of_isDigit {c : Char} (h : c.isDigit = true) : Text.isLetter c = false := by
  have hcode : 48 ≤ c.toNat ∧ c.toNat ≤ 57 := by
    simpa [Char.isDigit, UInt32.le_iff_toNat_le] using h
  have hall : ((List.range 10).all fun n => !Text.isLetter (Char.ofNat (n + 48))) = true := by
    decide
  have hc := List.all_eq_true.1 hall (c.toNat - 48) (by simp; omega)
  rw [Nat.sub_add_cancel hcode.1, Char.ofNat_toNat] at hc
  simpa using hc

theorem startsLiteral_of_isIdentifier (h : isIdentifier text = true) :
    startsLiteral text = false := by
  unfold isIdentifier at h
  unfold startsLiteral
  cases hchars : text.toList with
  | nil => rfl
  | cons first rest =>
    simp only [hchars, Bool.and_eq_true, Bool.or_eq_true, beq_iff_eq] at h
    simp only [Bool.or_eq_false_iff, beq_eq_false_iff_ne]
    rcases h.1 with hletter | rfl
    · refine ⟨⟨?_, ?_⟩, ?_⟩
      · rw [← Bool.not_eq_true]
        intro hdigit
        rw [isLetter_of_isDigit hdigit] at hletter
        cases hletter
      · rintro rfl
        exact absurd hletter (by decide)
      · rintro rfl
        exact absurd hletter (by decide)
    · decide

theorem classify_free (hparent : lang.Plain parent) (hfree : lang.isFree text = true)
    (hkind : isLiteralKind kind = false) :
    lang.classify ⟨text, kind, parent, field⟩ = .identifier := by
  simp only [isFree, Bool.and_eq_true, Bool.not_eq_true'] at hfree
  obtain ⟨⟨hident, hkeyword⟩, hword⟩ := hfree
  have hmarks : ∀ mark ∈ marks, isIdentifier mark = false := by decide
  have hmark : text ∉ marks := by
    intro hmem
    rw [hmarks text hmem] at hident
    cases hident
  rw [classify_word hparent hmark, hword, hkeyword, hkind, startsLiteral_of_isIdentifier hident,
    hident]
  rfl

theorem classify_numeral (hparent : lang.Plain parent) (n : Nat) :
    lang.classify ⟨Text.numeral n, kind, parent, field⟩ = .const := by
  have hdigit := numeral_digit n
  have hstart : startsLiteral (Text.numeral n) = true := by
    unfold startsLiteral
    cases hchars : (Text.numeral n).toList with
    | nil => simp [hchars] at hdigit
    | cons first rest =>
      rw [hchars] at hdigit
      simp only [List.head?_cons, Option.any_some] at hdigit
      simp [hdigit]
  have hmarks : ∀ mark ∈ marks, mark.toList.head?.any Char.isDigit = false := by decide
  have hkeywords : ∀ word ∈ lang.grammar.keywords, word.toList.head?.any Char.isDigit = false := by
    cases lang <;> decide
  have hmark : Text.numeral n ∉ marks := fun hmem => by simp [hmarks _ hmem] at hdigit
  have hkeyword : Text.numeral n ∉ lang.grammar.keywords := fun hmem => by
    simp [hkeywords _ hmem] at hdigit
  rw [classify_word hparent hmark, hstart, Bool.or_true]
  simp [hkeyword]

theorem classify_parenthesis (hparent : lang.Plain parent) :
    lang.classify ⟨"(", "(", parent, none⟩ = .openBrace ∧
      lang.classify ⟨")", ")", parent, none⟩ = .closeBrace := by
  cases parent with
  | none => exact ⟨rfl, rfl⟩
  | some kind => simp [classify, hparent kind rfl]

end Language

end Interlingua
