import Interlingua.Proofs.Token.Sketch
import Interlingua.Token.Linear

/-!
# Operators between named operands

A node of a binary operator names its operands by their fields.  Which operator it is of is found
out from the spelling of the leaf between them, and the operands are tagged only if one is found.

* `Concrete.Named` — such a node: any text, any two operands, and a leaf between them.
* `Concrete.read_named` — with an operator that is found, all tokens of both operands are tagged,
  whatever they are; with none, the node leaves all of them as they are.
* `Linear.exprTo_assign` — the tokens of an assignment in a tree, from those of its operands.
* `Language.tokenize_named` — **an assignment in a text has the tokens of the one in the tree
  exactly if the operators of the node have the one of the assignment.**
* `Language.leafForm?_walrus` — no node of Python has the operator of its assignment expression.
-/

namespace Interlingua

variable {lang : Language} {source : List Char} {kind text : String} {left leaf right : Cst}
  {lefts rights : List Token} {form : OperatorForm} {start : Nat}

namespace Concrete

/-- What a node of a binary operator has below it: operands in the fields that name them, and a leaf
with some text between them, which is in no such field. -/
structure Named (lang : Language) (source : List Char) (kind : String) (left leaf right : Cst)
    (text : String) : Prop where
  kind_mem : kind ∈ lang.grammar.binaryNodes
  left_field : left.field.bind (lang.grammar.operandSide? kind) = some .left
  right_field : right.field.bind (lang.grammar.operandSide? kind) = some .right
  leaf_field : leaf.field.bind (lang.grammar.operandSide? kind) = none
  leaf_eq : leaf = .leaf leaf.kind leaf.start leaf.stop leaf.field
  text_eq : (Text.slice? source leaf.start leaf.stop).map Text.trim = some text.toList
  text_ne : text ≠ ""

theorem Named.read_leaf (h : Named lang source kind left leaf right text) :
    read lang source (some kind) start leaf =
      [match lang.leafForm? text kind with
        | some form => .ofForm form
        | none => .plain text (lang.classify ⟨text, leaf.kind, some kind, leaf.field⟩)] := by
  rw [h.leaf_eq]
  exact Concrete.read_leaf h.text_eq h.text_ne

/-- The tokens of operands that are tagged with the operator between them. -/
def joinedTokens (start : Nat) (lefts : List Token) (form : OperatorForm) (rights : List Token) :
    List Token :=
  Token.tagAll (start + lefts.length) .left lefts ++ .ofForm form ::
    Token.tagAll (start + lefts.length) .right rights

/-- Without an operator there is nothing to tag with. -/
theorem tagOperands_none {groups : List Group}
    (h : ∀ group ∈ groups, group.side = none → group.isOperator = false) :
    tagOperands lang kind groups = groups.flatMap Group.tokens := by
  have hnone : operatorAt? groups = none := by
    rw [operatorAt?, Option.map_eq_none_iff, List.find?_eq_none]
    intro group hgroup
    cases hside : group.side with
    | some side => simp
    | none => simp [h group hgroup hside]
  rw [tagOperands, hnone]

/-- **A node between named operands is read as its operands, which are tagged if there is an
operator that is spelled like the leaf between them.** -/
theorem read_named (h : Named lang source kind left leaf right text)
    (hl : read lang source (some kind) start left = lefts)
    (hr : read lang source (some kind) (start + lefts.length + 1) right = rights)
    (parent field : Option String) (first last : Nat) :
    read lang source parent start (.node kind field first last [left, leaf, right]) =
      match lang.leafForm? text kind with
      | some form => joinedTokens start lefts form rights
      | none => lefts ++
        .plain text (lang.classify ⟨text, leaf.kind, some kind, leaf.field⟩) :: rights := by
  have hnode : lang.OperatorNode kind .binary := Language.operatorNode_of_mem h.kind_mem
  have hgroups : readAll lang source kind start [left, leaf, right] =
      [⟨start, lefts, some .left⟩,
        ⟨start + lefts.length, read lang source (some kind) (start + lefts.length) leaf, none⟩,
        ⟨start + lefts.length + 1, rights, some .right⟩] := by
    simp only [readAll, hl, h.left_field, h.leaf_field, h.right_field]
    rw [h.read_leaf, List.length_singleton, hr]
  have hbelow : ([left, leaf, right].isEmpty || lang.grammar.stopNodes.contains kind) = false := by
    simpa using hnode.apart
  rw [read, hbelow, if_neg Bool.false_ne_true, hnode.arity, hgroups, h.read_leaf]
  cases hfound : lang.leafForm? text kind with
  | some form => exact tagOperands_named start form
  | none =>
    refine (tagOperands_none fun group hgroup hside => ?_).trans (by simp)
    simp only [List.mem_cons, List.not_mem_nil, or_false] at hgroup
    rcases hgroup with rfl | rfl | rfl
    · cases hside
    · rfl
    · cases hside

/-- The operator can be told from the tokens. -/
theorem joinedTokens_inj {other : OperatorForm}
    (h : joinedTokens start lefts form rights = joinedTokens start lefts other rights) :
    form = other := by
  obtain ⟨-, htail⟩ := List.append_inj h rfl
  have hoperator := (List.cons.inj htail).1
  exact Option.some.inj (congrArg Token.form hoperator)

/-- There is an operator among the tokens. -/
theorem joinedTokens_ne_plain {role : TokenKind} :
    joinedTokens start lefts form rights ≠ lefts ++ .plain text role :: rights := by
  intro h
  obtain ⟨-, htail⟩ := List.append_inj h (by simp [Token.tagAll])
  have hoperator := (List.cons.inj htail).1
  cases congrArg Token.form hoperator

end Concrete

open Concrete (Named joinedTokens)

/-- An assignment in a tree has its operator between the tokens of its operands. -/
theorem Linear.exprTo_assign {arena : Arena} {id target value : NodeId} {op : AssignOp}
    {depth : Nat} (he : arena.expr id = .ok (.assign op target value))
    (hform : lang.operators.assign op = some form)
    (hl : operand ⟨lang, arena, exprTo lang arena depth⟩ form target .left start = .ok lefts)
    (hr : operand ⟨lang, arena, exprTo lang arena depth⟩ form value .right
      (start + lefts.length + 1) = .ok rights) :
    exprTo lang arena (depth + 1) id start = .ok (joinedTokens start lefts form rights) := by
  rw [exprTo, he]
  change exprWith _ (.assign op target value) start = _
  simp only [exprWith, hform, required, between, Piece.between, Piece.joined, bind, Except.bind, hl,
    hr]
  rfl

namespace Language

/-- **An assignment in a text has the tokens of the one in the tree exactly if its operator is
found.**  Every token of the target and every token of the value is tagged with the operator that is
found, and none is if no operator is. -/
theorem tokenize_named (h : Named lang source kind left leaf right text)
    (hl : Concrete.read lang source (some kind) start left = lefts)
    (hr : Concrete.read lang source (some kind) (start + lefts.length + 1) right = rights)
    (parent field : Option String) (first last : Nat) :
    let tokens := Concrete.read lang source parent start
      (.node kind field first last [left, leaf, right])
    (∀ form, lang.leafForm? text kind = some form →
      tokens = joinedTokens start lefts form rights) ∧
    (lang.leafForm? text kind = none →
      tokens = lefts ++
        .plain text (lang.classify ⟨text, leaf.kind, some kind, leaf.field⟩) :: rights) ∧
    ∀ (arena : Arena) (id target value : NodeId) (op : AssignOp) (form : OperatorForm)
      (depth : Nat), arena.expr id = .ok (.assign op target value) →
      lang.operators.assign op = some form →
      Linear.operand ⟨lang, arena, Linear.exprTo lang arena depth⟩ form target .left start =
        .ok lefts →
      Linear.operand ⟨lang, arena, Linear.exprTo lang arena depth⟩ form value .right
        (start + lefts.length + 1) = .ok rights →
      (Linear.exprTo lang arena (depth + 1) id start = .ok tokens ↔
        lang.leafForm? text kind = some form) := by
  intro tokens
  have htokens : tokens = _ := Concrete.read_named h hl hr parent field first last
  refine ⟨fun form hfound => ?_, fun hnone => ?_, ?_⟩
  · rw [htokens, hfound]
  · rw [htokens, hnone]
  · intro arena id target value op form depth he hform hleft hright
    rw [Linear.exprTo_assign he hform hleft hright, htokens]
    cases hfound : lang.leafForm? text kind with
    | none =>
      refine ⟨fun heq => ?_, nofun⟩
      exact absurd (Except.ok.inj heq) Concrete.joinedTokens_ne_plain
    | some found =>
      refine ⟨fun heq => ?_, fun heq => ?_⟩
      · rw [Concrete.joinedTokens_inj (Except.ok.inj heq)]
      · rw [Option.some.inj heq]

/-- `x = 1` in Java, in a text and in a tree. -/
theorem tokenize_named_java :
    let arena : Arena := ⟨#[.expr (.ident "x"), .expr (.int 1), .expr (.assign .plain ⟨0⟩ ⟨1⟩)]⟩
    let target := Cst.leaf "identifier" 0 1 (some "left")
    let operator := Cst.leaf "=" 2 3 (some "operator")
    let value := Cst.leaf "decimal_integer_literal" 4 5 (some "right")
    let node := Cst.branch "assignment_expression" [target, operator, value] none
    Named .java "x = 1".toList "assignment_expression" target operator value "=" ∧
      Linear.expr .java arena ⟨2⟩ 0 = .ok (Language.java.tokenize "x = 1" node).toList := by
  intro arena target operator value node
  have hnamed : Named .java "x = 1".toList "assignment_expression" target operator value "=" :=
    ⟨by decide, rfl, rfl, rfl, rfl, by decide, by decide⟩
  obtain ⟨-, -, hagree⟩ := tokenize_named hnamed rfl rfl none none 0 5
  exact ⟨hnamed, (hagree arena ⟨2⟩ ⟨0⟩ ⟨1⟩ .plain _ 3 rfl rfl rfl rfl).2 (by decide)⟩

/-! ## The assignment expression of Python -/

/-- No node of Python has the operator of its assignment expression: nodes of binary operators have
those of statements. -/
theorem leafForm?_walrus (kind : String) : Language.python.leafForm? ":=" kind = none := by
  unfold leafForm?
  split
  · rfl
  · decide
  · decide
  · decide

/-- **The assignment expression of Python has no operator in a text**: it leaves the tokens of its
operands as they are, whatever they are. -/
theorem read_walrus (h : Named .python source "named_expression" left leaf right ":=")
    (hl : Concrete.read .python source (some "named_expression") start left = lefts)
    (hr : Concrete.read .python source (some "named_expression") (start + lefts.length + 1) right =
      rights) (parent field : Option String) (first last : Nat) :
    Concrete.read .python source parent start
        (.node "named_expression" field first last [left, leaf, right]) =
      lefts ++ .plain ":=" (Language.python.classify
        ⟨":=", leaf.kind, some "named_expression", leaf.field⟩) :: rights := by
  rw [Concrete.read_named h hl hr, leafForm?_walrus]

/-- `x := 1` in Python: an operator with two operands in a tree, and none in a text. -/
theorem tokenize_walrus :
    let arena : Arena := ⟨#[.expr (.ident "x"), .expr (.int 1), .expr (.assign .plain ⟨0⟩ ⟨1⟩)]⟩
    let target := Cst.leaf "identifier" 0 1 (some "name")
    let operator := Cst.leaf ":=" 2 4 none
    let value := Cst.leaf "integer" 5 6 (some "value")
    let node := Cst.branch "named_expression" [target, operator, value] none
    let form := (OperatorForm.between ":=" Python.walrusLevel .right).strictly
    Language.python.linearize arena ⟨2⟩ =
        .ok ⟨joinedTokens 0 [.plain "x" .identifier] form [.plain "1" .const]⟩ ∧
      Language.python.tokenize "x := 1" node =
        ⟨[.plain "x" .identifier, .plain ":=" .unknown, .plain "1" .const]⟩ ∧
      Language.python.linearize arena ⟨2⟩ ≠ .ok (Language.python.tokenize "x := 1" node) := by
  intro arena target operator value node form
  have htree : Language.python.linearize arena ⟨2⟩ =
      .ok ⟨joinedTokens 0 [.plain "x" .identifier] form [.plain "1" .const]⟩ := rfl
  have hnamed : Named .python "x := 1".toList "named_expression" target operator value ":=" :=
    ⟨by decide, rfl, rfl, rfl, rfl, by decide, by decide⟩
  have htext : Language.python.tokenize "x := 1" node =
      ⟨[.plain "x" .identifier, .plain ":=" .unknown, .plain "1" .const]⟩ := by
    have hread : Concrete.read .python "x := 1".toList none 0 node = _ :=
      read_walrus hnamed rfl rfl none none 0 6
    rw [tokenize, hread]
    decide
  refine ⟨htree, htext, ?_⟩
  rw [htree, htext]
  decide

end Language

end Interlingua
