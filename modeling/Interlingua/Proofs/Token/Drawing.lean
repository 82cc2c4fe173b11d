import Interlingua.Proofs.Emit.Agreement
import Interlingua.Proofs.Token.Binding
import Interlingua.Proofs.Token.Sketch

/-!
# A tree and its syntax tree have the same tokens

An expression is turned into tokens on two ways: along its tree, where operators and grouping are
put in, and along the concrete syntax tree of a text, where operators are found by their spelling
and operands by the fields or the order of their nodes.

* `Term.sketch?` — the syntax tree of an expression, with parentheses around the operands that have
  to be grouped.
* `Term.Mirrored` — the syntax tree of an expression is read as the tokens of its tree; one lemma
  for each way an expression is made.
* `Term.At.tokenize_sketch` — **read along its syntax tree, the text of the tokens of an expression
  gives these tokens again**, with their roles, operators and operand tags.
-/

namespace Interlingua

/-! ## The syntax tree of an expression -/

namespace NodeKinds

variable {lang : Language} (kinds : NodeKinds lang)

/-- A node around parentheses. -/
def grouping (field : Option String) (inner : Sketch) : Sketch :=
  .branch kinds.group field [.leaf "(" none "(", inner, .leaf ")" none ")"]

/-- An operator inside its node. -/
def operator (form : OperatorForm) : Sketch := .operator kinds.operatorField form

/-- An operand in its field, between parentheses if it has to be grouped. -/
def operand (kind : String) (parent : OperatorForm) (side : Side) (term : Term)
    (draw : Option String → Option Sketch) : Option Sketch :=
  let field := lang.grammar.operandField kind side
  if term.wraps lang parent side then (draw none).map (kinds.grouping field) else draw field

end NodeKinds

namespace Term

variable {lang : Language} {kinds : NodeKinds lang}

/-- The syntax tree of an expression in a field of a node. -/
def sketch? (kinds : NodeKinds lang) : Term → Option String → Option Sketch
  | .ident name, field => some (.leaf kinds.name field name)
  | .int value, field => some (.leaf kinds.number field (Text.numeral value))
  | .paren inner, field => (inner.sketch? kinds none).map (kinds.grouping field)
  | .binary op left right, field => do
    let form ← lang.operators.binary op
    let kind := kinds.binary op
    let left ← kinds.operand kind form .left left (left.sketch? kinds)
    let right ← kinds.operand kind form .right right (right.sketch? kinds)
    return .branch kind field [left, kinds.operator form, right]
  | .assign op target value, field => do
    let form ← lang.operators.assign op
    let kind := kinds.assign op
    let left ← kinds.operand kind form .left target (target.sketch? kinds)
    let right ← kinds.operand kind form .right value (value.sketch? kinds)
    return .branch kind field [left, kinds.operator form, right]
  | .unary op inner, field => do
    let form ← lang.operators.unary op
    let kind := kinds.unary op
    if form.isLeading then
      let right ← kinds.operand kind form .right inner (inner.sketch? kinds)
      return .branch kind field [kinds.operator form, right]
    else
      let left ← kinds.operand kind form .left inner (inner.sketch? kinds)
      return .branch kind field [left, kinds.operator form]
  | .ternary cond whenTrue whenFalse, field => do
    let (first, second) := lang.operators.ternary
    let draw side term sketch := kinds.operand kinds.ternary first side term sketch
    let (left?, center?) := match lang.operators.ternaryLayout with
      | .condFirst =>
        (draw .left cond (cond.sketch? kinds), draw .center whenTrue (whenTrue.sketch? kinds))
      | .thenFirst =>
        (draw .left whenTrue (whenTrue.sketch? kinds), draw .center cond (cond.sketch? kinds))
    let left ← left?
    let center ← center?
    let right ← draw .right whenFalse (whenFalse.sketch? kinds)
    return .branch kinds.ternary field
      [left, kinds.operator first, center, kinds.operator second, right]
  | _, _ => none

/-- Made of free names, numbers, parentheses and operators; in Python, where an assignment is a
statement, of no assignment. -/
def isSketched (lang : Language) : Term → Bool
  | .ident name => lang.isFree name
  | .int _ => true
  | .paren inner => inner.isSketched lang
  | .binary _ left right => left.isSketched lang && right.isSketched lang
  | .unary _ inner => inner.isSketched lang
  | .ternary cond whenTrue whenFalse =>
    cond.isSketched lang && whenTrue.isSketched lang && whenFalse.isSketched lang
  | .assign _ target value =>
    lang != .python && target.isSketched lang && value.isSketched lang
  | _ => false

/-! ## Operators at the start of an expression -/

variable {arena : Arena} {term left center right : Term} {form parent : OperatorForm}

/-- Nothing but another trailing operator stands bare under a trailing operator: all others bind
weaker. -/
theorem place_of_bare {op : UnaryOp} (hform : lang.operators.unary op = some parent)
    (hlead : parent.isLeading = false) (hbare : term.wraps lang parent .left = false) :
    ∀ form ∈ term.form? lang, form.place = .after := by
  intro form hterm
  have hparent := Language.fits_unary hform
  have hchild := fits_form hterm
  have hle := OperatorForm.level_le_of_not_mustGroup (mustGroup_of_not_wraps hbare hterm)
  by_contra hplace
  simp only [Language.fits, Language.place_unary hform hlead, if_true, decide_eq_true_eq] at hparent
  simp only [Language.fits, hplace, if_false, decide_eq_true_eq] at hchild
  omega

/-! ## What is read -/

variable {start : Nat} {tokens : List Token}

/-- The syntax tree of an expression is read as tokens.  They start with no operator if the
expression is written with none, or with one that stands after its operand. -/
structure Mirrored (kinds : NodeKinds lang) (term : Term) (start : Nat) (tokens : List Token) :
    Prop where
  sketch : ∀ field, ∃ sketch, term.sketch? kinds field = some sketch ∧
    sketch.Mirrors lang field start tokens
  head : (∀ form ∈ term.form? lang, form.place = .after) →
    ∀ token ∈ tokens.head?, token.isOperator = false

/-- The tokens of a run between parentheses. -/
theorem grouped_tokens {piece : Piece} (h : Linear.grouped piece start = .ok tokens) :
    ∃ inner, piece (start + 1) = .ok inner ∧
      tokens = .plain "(" .openBrace :: inner ++ [.plain ")" .closeBrace] := by
  obtain ⟨before, after, hb, ha, rfl⟩ := Piece.append_ok h
  obtain ⟨opening, inner, ho, hi, rfl⟩ := Piece.append_ok hb
  cases ho
  cases ha
  exact ⟨inner, hi, rfl⟩

section Operand

variable {context : Linear.Context} {kinds : NodeKinds context.lang} {id : NodeId}
  {parent : OperatorForm} {side : Side}

theorem operand_tokens (hat : term.At context.arena id)
    (h : Linear.operand context parent id side start = .ok tokens) :
    (if term.wraps context.lang parent side then Linear.grouped (context.below id) start
      else context.below id start) = .ok tokens := by
  rw [← h, Linear.operand, hat.wraps_eq]
  cases term.wraps context.lang parent side <;> rfl

/-- An operand is read as its tokens. -/
theorem Mirrored.operand (kind : String) (hat : term.At context.arena id)
    (hterm : ∀ {start tokens}, context.below id start = .ok tokens →
      term.Mirrored kinds start tokens)
    (h : Linear.operand context parent id side start = .ok tokens) :
    ∃ sketch, kinds.operand kind parent side term (term.sketch? kinds) = some sketch ∧
      sketch.Mirrors context.lang (context.lang.grammar.operandField kind side) start tokens := by
  have h := operand_tokens hat h
  unfold NodeKinds.operand
  cases hwraps : term.wraps context.lang parent side with
  | true =>
    rw [hwraps, if_pos rfl] at h
    obtain ⟨inner, hi, rfl⟩ := grouped_tokens h
    obtain ⟨sketch, hsketch, hmirrors⟩ := (hterm hi).sketch none
    exact ⟨kinds.grouping (context.lang.grammar.operandField kind side) sketch,
      by simp [hsketch], hmirrors.grouped⟩
  | false =>
    rw [hwraps, if_neg (by decide)] at h
    obtain ⟨sketch, hsketch, hmirrors⟩ :=
      (hterm h).sketch (context.lang.grammar.operandField kind side)
    exact ⟨sketch, by simpa using hsketch, hmirrors⟩

/-- A trailing operator has an operand that starts with no operator. -/
theorem Mirrored.operand_head {op : UnaryOp} (hform : context.lang.operators.unary op = some parent)
    (hlead : parent.isLeading = false) (hat : term.At context.arena id)
    (hterm : ∀ {start tokens}, context.below id start = .ok tokens →
      term.Mirrored kinds start tokens)
    (h : Linear.operand context parent id .left start = .ok tokens) :
    ∀ token ∈ tokens.head?, token.isOperator = false := by
  have h := operand_tokens hat h
  cases hwraps : term.wraps context.lang parent .left with
  | true =>
    rw [hwraps, if_pos rfl] at h
    obtain ⟨inner, -, rfl⟩ := grouped_tokens h
    intro token htoken
    cases htoken
    rfl
  | false =>
    rw [hwraps, if_neg (by decide)] at h
    exact (hterm h).head (place_of_bare hform hlead hwraps)

end Operand

/-- An expression with an operator between two operands is read as its tokens. -/
theorem Mirrored.between {context : Linear.Context} {kinds : NodeKinds context.lang} {l r : NodeId}
    {kind : String} (hmem : kind ∈ context.lang.grammar.binaryNodes)
    (hfound : context.lang.leafForm? form.value kind = some form)
    (hterm : term.form? context.lang = some form) (hplace : form.place ≠ .after)
    (hsketch : ∀ field, term.sketch? kinds field = do
      let left ← kinds.operand kind form .left left (left.sketch? kinds)
      let right ← kinds.operand kind form .right right (right.sketch? kinds)
      return .branch kind field [left, kinds.operator form, right])
    (hl : left.At context.arena l) (hr : right.At context.arena r)
    (hleft : ∀ {start tokens}, context.below l start = .ok tokens →
      left.Mirrored kinds start tokens)
    (hright : ∀ {start tokens}, context.below r start = .ok tokens →
      right.Mirrored kinds start tokens)
    (h : Linear.between context form l r start = .ok tokens) : term.Mirrored kinds start tokens := by
  obtain ⟨lefts, hlefts, h⟩ := Piece.bind_ok h
  obtain ⟨rights, hrights, h⟩ := Piece.bind_ok h
  cases h
  obtain ⟨lsketch, hls, hlm⟩ := Mirrored.operand kind hl hleft hlefts
  obtain ⟨rsketch, hrs, hrm⟩ := Mirrored.operand kind hr hright hrights
  refine ⟨fun field => ⟨.branch kind field [lsketch, kinds.operator form, rsketch], ?_, ?_⟩, ?_⟩
  · rw [hsketch, hls, hrs]
    rfl
  · exact .between hmem (kinds.operatorField_side _ (List.mem_append_left _ hmem)) hfound hlm hrm
  · intro hafter
    exact absurd (hafter form hterm) hplace

/-- An expression with the conditional operator is read as its tokens. -/
theorem Mirrored.ternary {context : Linear.Context} {kinds : NodeKinds context.lang}
    {l c r : NodeId} (hterm : term.form? context.lang = some context.lang.operators.ternary.1)
    (hsketch : ∀ field, term.sketch? kinds field = do
      let (first, second) := context.lang.operators.ternary
      let left ← kinds.operand kinds.ternary first .left left (left.sketch? kinds)
      let center ← kinds.operand kinds.ternary first .center center (center.sketch? kinds)
      let right ← kinds.operand kinds.ternary first .right right (right.sketch? kinds)
      return .branch kinds.ternary field
        [left, kinds.operator first, center, kinds.operator second, right])
    (hl : left.At context.arena l) (hc : center.At context.arena c) (hr : right.At context.arena r)
    (hleft : ∀ {start tokens}, context.below l start = .ok tokens →
      left.Mirrored kinds start tokens)
    (hcenter : ∀ {start tokens}, context.below c start = .ok tokens →
      center.Mirrored kinds start tokens)
    (hright : ∀ {start tokens}, context.below r start = .ok tokens →
      right.Mirrored kinds start tokens)
    (h : Piece.ternary context.lang.operators.ternary
      (Linear.operand context context.lang.operators.ternary.1 l .left)
      (Linear.operand context context.lang.operators.ternary.1 c .center)
      (Linear.operand context context.lang.operators.ternary.1 r .right) start = .ok tokens) :
    term.Mirrored kinds start tokens := by
  obtain ⟨lefts, hlefts, h⟩ := Piece.bind_ok h
  obtain ⟨centers, hcenters, h⟩ := Piece.bind_ok h
  obtain ⟨rights, hrights, h⟩ := Piece.bind_ok h
  cases h
  have hmem := kinds.ternary_mem
  have hnode : context.lang.OperatorNode _ .ternary := Language.operatorNode_of_mem hmem
  obtain ⟨lsketch, hls, hlm⟩ := Mirrored.operand kinds.ternary hl hleft hlefts
  obtain ⟨csketch, hcs, hcm⟩ := Mirrored.operand kinds.ternary hc hcenter hcenters
  obtain ⟨rsketch, hrs, hrm⟩ := Mirrored.operand kinds.ternary hr hright hrights
  refine ⟨fun field => ⟨.branch kinds.ternary field [lsketch,
    kinds.operator context.lang.operators.ternary.1, csketch,
    kinds.operator context.lang.operators.ternary.2, rsketch], ?_, ?_⟩, ?_⟩
  · simp [hsketch, hls, hcs, hrs]
  · exact .ternary hmem (kinds.operatorField_side _ (List.mem_append_right _ hmem))
      (Language.leafForm?_ternary (by simp) hnode) (Language.leafForm?_ternary (by simp) hnode)
      hlm hcm hrm
  · intro hafter
    have hplace : context.lang.operators.ternary.1.place ≠ .after := by
      cases context.lang <;> decide
    exact absurd (hafter _ hterm) hplace

/-- The syntax tree of an expression is read as the tokens of its tree. -/
theorem mirrored (kinds : NodeKinds lang) : ∀ (term : Term) {depth : Nat} {id : NodeId}
    {start : Nat} {tokens : List Token}, term.At arena id → term.isSketched lang = true →
    Linear.exprTo lang arena depth id start = .ok tokens → term.Mirrored kinds start tokens
  | term, 0, _, _, _, _, _, h => by cases h
  | .ident name, depth + 1, _, _, _, hat, hs, h => by
    simp only [At] at hat
    rw [Linear.exprTo_succ hat] at h
    cases h
    refine ⟨fun field => ⟨_, rfl, .name hs kinds.name_kind⟩, fun _ token ht => ?_⟩
    cases ht
    rfl
  | .int value, depth + 1, _, _, _, hat, hs, h => by
    simp only [At] at hat
    rw [Linear.exprTo_succ hat] at h
    cases h
    refine ⟨fun field => ⟨_, rfl, .number value⟩, fun _ token ht => ?_⟩
    cases ht
    rfl
  | .paren inner, depth + 1, _, _, _, hat, hs, h => by
    simp only [At] at hat
    obtain ⟨i, he, hi⟩ := hat
    rw [Linear.exprTo_succ he] at h
    obtain ⟨tokens, htokens, rfl⟩ := grouped_tokens h
    obtain ⟨sketch, hsketch, hmirrors⟩ := (mirrored kinds inner hi hs htokens).sketch none
    refine ⟨fun field => ⟨kinds.grouping field sketch, ?_, hmirrors.grouped⟩, fun _ token ht => ?_⟩
    · rw [sketch?, hsketch]
      rfl
    · cases ht
      rfl
  | .binary op left right, depth + 1, _, _, _, hat, hs, h => by
    simp only [At] at hat
    obtain ⟨l, r, he, hl, hr⟩ := hat
    simp only [isSketched, Bool.and_eq_true] at hs
    rw [Linear.exprTo_succ he] at h
    obtain ⟨form, hform, h⟩ := Piece.bind_ok h
    have hform := Piece.required_ok hform
    have hmem := kinds.binary_mem op
    have hnode : lang.OperatorNode _ .binary := Language.operatorNode_of_mem hmem
    refine .between hmem (Language.leafForm?_binary hform hnode) hform (Language.place_binary hform)
      (fun field => ?_) hl hr (mirrored kinds left hl hs.1) (mirrored kinds right hr hs.2) h
    rw [sketch?, hform]
    rfl
  | .assign op target value, depth + 1, _, _, _, hat, hs, h => by
    simp only [At] at hat
    obtain ⟨l, r, he, hl, hr⟩ := hat
    simp only [isSketched, Bool.and_eq_true, bne_iff_ne] at hs
    rw [Linear.exprTo_succ he] at h
    obtain ⟨form, hform, h⟩ := Piece.bind_ok h
    have hform := Piece.required_ok hform
    have hmem := kinds.assign_mem op
    have hnode : lang.OperatorNode _ .binary := Language.operatorNode_of_mem hmem
    refine .between hmem (Language.leafForm?_assign hs.1.1 hform hnode) ?_ (Language.place_assign hform)
      (fun field => ?_) hl hr (mirrored kinds target hl hs.1.2) (mirrored kinds value hr hs.2) h
    · rw [form?, hform, Option.some_or]
    · rw [sketch?, hform]
      rfl
  | .unary op inner, depth + 1, _, _, _, hat, hs, h => by
    simp only [At] at hat
    obtain ⟨o, he, ho⟩ := hat
    rw [Linear.exprTo_succ he] at h
    obtain ⟨form, hform, h⟩ := Piece.bind_ok h
    have hform := Piece.required_ok hform
    have hmem := kinds.unary_mem op
    have hnode : lang.OperatorNode _ .unary := Language.operatorNode_of_mem hmem
    cases hlead : form.isLeading with
    | true =>
      rw [hlead, if_pos rfl] at h
      obtain ⟨tokens, htokens, h⟩ := Piece.bind_ok h
      cases h
      obtain ⟨sketch, hsketch, hmirrors⟩ :=
        Mirrored.operand (kinds.unary op) ho (mirrored kinds inner ho hs) htokens
      refine ⟨fun field => ⟨.branch (kinds.unary op) field [kinds.operator form, sketch], ?_, ?_⟩,
        ?_⟩
      · simp [sketch?, hform, hlead, hsketch]
      · exact .leading hmem (Language.leafForm?_leading hform hlead hnode) hmirrors
      · intro hafter
        have := hafter form hform
        simp [OperatorForm.isLeading, this] at hlead
    | false =>
      rw [hlead, if_neg (by decide)] at h
      obtain ⟨tokens, htokens, h⟩ := Piece.bind_ok h
      cases h
      obtain ⟨sketch, hsketch, hmirrors⟩ :=
        Mirrored.operand (kinds.unary op) ho (mirrored kinds inner ho hs) htokens
      have hfirst := Mirrored.operand_head hform hlead ho (mirrored kinds inner ho hs) htokens
      obtain ⟨before, hfound, hvalue, htrailing⟩ := Language.leafForm?_trailing hform hlead hnode
      refine ⟨fun field => ⟨.branch (kinds.unary op) field [sketch, kinds.operator form], ?_, ?_⟩,
        fun _ => ?_⟩
      · simp [sketch?, hform, hlead, hsketch]
      · exact .trailing hmem (Language.unary_mem_leafForms hform) hfound hvalue htrailing hmirrors
          hfirst
      · obtain ⟨token, rest, rfl⟩ := List.exists_cons_of_ne_nil hmirrors.operand.ne_nil
        intro first hhead
        cases hhead
        exact hfirst token rfl
  | .ternary cond whenTrue whenFalse, depth + 1, _, _, _, hat, hs, h => by
    simp only [At] at hat
    obtain ⟨c, t, f, he, hc, ht, hf⟩ := hat
    simp only [isSketched, Bool.and_eq_true] at hs
    rw [Linear.exprTo_succ he] at h
    simp only [Linear.exprWith] at h
    cases hlayout : lang.operators.ternaryLayout with
    | condFirst =>
      rw [hlayout] at h
      refine .ternary rfl (fun field => ?_) hc ht hf (mirrored kinds cond hc hs.1.1)
        (mirrored kinds whenTrue ht hs.1.2) (mirrored kinds whenFalse hf hs.2) h
      rw [sketch?, hlayout]
    | thenFirst =>
      rw [hlayout] at h
      refine .ternary rfl (fun field => ?_) ht hc hf (mirrored kinds whenTrue ht hs.1.2)
        (mirrored kinds cond hc hs.1.1) (mirrored kinds whenFalse hf hs.2) h
      rw [sketch?, hlayout]
  | .bool _, _, _, _, _, _, hs, _ | .null, _, _, _, _, _, hs, _ | .str _, _, _, _, _, _, hs, _
  | .call .., _, _, _, _, _, hs, _ | .method .., _, _, _, _, _, hs, _
  | .index .., _, _, _, _, _, hs, _ | .member .., _, _, _, _, _, hs, _ => by cases hs

/-- **Read along its syntax tree, the text of the tokens of an expression gives these tokens
again**: the same values, roles, operators and operand tags. -/
theorem At.tokenize_sketch (kinds : NodeKinds lang) {id : NodeId} {tokens : Tokens}
    (hat : term.At arena id) (hs : term.isSketched lang = true)
    (h : lang.linearize arena id = .ok tokens) :
    ∃ sketch, term.sketch? kinds none = some sketch ∧ sketch.words = tokens.values ∧
      lang.tokenize tokens.display (sketch.place 0) = tokens := by
  obtain ⟨e, he⟩ := hat.exists_expr
  obtain ⟨sketch, hsketch, hmirrors⟩ :=
    (mirrored kinds term hat hs (Linear.exprTo_of_linearize he h)).sketch none
  have hshows : Text.Shows tokens.display.toList 0 sketch.words := by
    rw [hmirrors.words_eq]
    exact .all _
  refine ⟨sketch, hsketch, hmirrors.words_eq, ?_⟩
  rw [Language.tokenize, hmirrors.reads none (by intro kind hkind; cases hkind) _ _ hshows]

/-- `a if (a + 1) * b == -b else 1`, where the comparison and the conditional operator tell their
operands apart by order and the sum is grouped. -/
theorem At.tokenize_sketch_conditional :
    let sum : Term := .binary .add (.ident "a") (.int 1)
    let product : Term := .binary .mul sum (.ident "b")
    let term : Term := .ternary (.binary .eq product (.unary .neg (.ident "b"))) (.ident "a") (.int 1)
    let arena : Arena := ⟨#[.expr (.ident "a"), .expr (.int 1), .expr (.ident "b"),
      .expr (.binary .add ⟨0⟩ ⟨1⟩), .expr (.binary .mul ⟨3⟩ ⟨2⟩), .expr (.unary .neg ⟨2⟩),
      .expr (.binary .eq ⟨4⟩ ⟨5⟩), .expr (.ternary ⟨6⟩ ⟨0⟩ ⟨1⟩)]⟩
    ∃ tokens sketch, Language.python.linearize arena ⟨7⟩ = .ok tokens ∧
      tokens.values =
        ["a", "if", "(", "a", "+", "1", ")", "*", "b", "==", "-", "b", "else", "1"] ∧
      term.sketch? .python none = some sketch ∧ sketch.words = tokens.values ∧
      Language.python.tokenize tokens.display (sketch.place 0) = tokens := by
  intro sum product term arena
  have hat : term.At arena ⟨7⟩ :=
    ⟨⟨6⟩, ⟨0⟩, ⟨1⟩, rfl, ⟨⟨4⟩, ⟨5⟩, rfl, ⟨⟨3⟩, ⟨2⟩, rfl, ⟨⟨0⟩, ⟨1⟩, rfl, rfl, rfl⟩, rfl⟩,
      ⟨2⟩, rfl, rfl⟩, rfl, rfl⟩
  obtain ⟨tokens, htokens⟩ : ∃ tokens, Language.python.linearize arena ⟨7⟩ = .ok tokens := ⟨_, rfl⟩
  obtain ⟨sketch, hsketch⟩ := hat.tokenize_sketch .python (by decide) htokens
  refine ⟨tokens, sketch, htokens, ?_, hsketch⟩
  cases htokens
  decide

end Term

end Interlingua
