import Interlingua.Emit.Expr.Basic
import Interlingua.Proofs.Token.Term

/-!
# Text and tokens agree

An expression is written as text and as tokens by two recursions over the tree, each of which
decides about grouping, order and spelling for itself.

* `Text.ink` — what is seen of a text: its characters without the blanks.
* `Arena.Throughout` — a property of an expression and of all expressions below it.
* `Language.Alike` — expressions whose text a language does not write in another way than their
  tokens.
* `Render.Matches` — a rendering gives a text that goes with the values of the tokens, and registers
  nothing; there is one rule for each operator.
* `Render.Agrees` — a rendering shows what a run of tokens shows.  Each way of putting renderings
  together keeps this.
* `View.ink_expr` — the text of an expression that has tokens shows what its tokens show.
-/

namespace Interlingua

/-! ## What is seen -/

/-- The characters of a text that are no blanks. -/
def Text.ink (text : String) : List Char := text.toList.filter fun c => !isBlank c

@[simp] theorem Text.ink_append (first second : String) :
    ink (first ++ second) = ink first ++ ink second := by
  simp [ink]

@[simp] theorem Text.ink_empty : ink "" = [] := rfl

@[simp] theorem Text.ink_blank : ink " " = [] := by decide

/-- The characters of tokens that are no blanks. -/
def Token.ink (tokens : List Token) : List Char := tokens.flatMap fun token => Text.ink token.value

@[simp] theorem Token.ink_nil : ink [] = [] := rfl

@[simp] theorem Token.ink_cons (token : Token) (tokens : List Token) :
    ink (token :: tokens) = Text.ink token.value ++ ink tokens := by
  simp [ink]

@[simp] theorem Token.ink_append (first second : List Token) :
    ink (first ++ second) = ink first ++ ink second := by
  simp [ink]

@[simp] theorem Token.ink_tagAll (operator : Nat) (side : Side) (tokens : List Token) :
    ink (tagAll operator side tokens) = ink tokens := by
  simp [ink, tagAll, tagged, List.flatMap_map]

@[simp] theorem Token.value_plain (value : String) (kind : TokenKind) :
    (Token.plain value kind).value = value := rfl

@[simp] theorem Token.value_ofForm (form : OperatorForm) : (Token.ofForm form).value = form.value :=
  rfl

theorem Text.ink_join (texts : List String) : ink (String.join texts) = texts.flatMap ink := by
  induction texts with
  | nil => rfl
  | cons text texts ih =>
    rw [List.flatMap_cons, ← ih, ← ink_append]
    simp

theorem Token.ink_of_values {tokens : List Token} {values : List String}
    (h : tokens.map value = values) : ink tokens = values.flatMap Text.ink := by
  rw [← h, List.flatMap_map]
  rfl

@[simp] theorem Token.flatMap_ink (tokens : List Token) :
    (tokens.map value).flatMap Text.ink = ink tokens := (ink_of_values rfl).symm

theorem Token.ink_join (tokens : List Token) :
    Text.ink (String.join (tokens.map Token.value)) = ink tokens := by
  rw [Text.ink_join, List.flatMap_map]
  rfl

theorem Text.ink_intercalate (between first : String) (texts : List String) :
    ink (between.intercalate (first :: texts)) =
      ink first ++ texts.flatMap fun text => ink between ++ ink text := by
  induction texts generalizing first with
  | nil => simp
  | cons text texts ih =>
    rw [String.intercalate_cons_cons]
    simp [ih]

/-! ## Expressions whose text and tokens are written alike -/

/-- An expression and all expressions below it are there and have a property. -/
inductive Arena.Throughout (arena : Arena) (holds : Expr → Prop) : NodeId → Prop
  | intro {id : NodeId} {e : Expr} (found : arena.expr id = .ok e) (here : holds e)
      (below : ∀ child ∈ e.children, child.field ≠ "type" → Throughout arena holds child.id)
      (types : ∀ child ∈ e.children, child.field = "type" → arena.Grounded child.id) :
      Throughout arena holds id

theorem Arena.Throughout.grounded {arena : Arena} {holds : Expr → Prop} {id : NodeId}
    (h : arena.Throughout holds id) : arena.Grounded id := by
  induction h with
  | intro found _ _ types ih =>
    refine .intro (Arena.node_of_expr found) fun child hc => ?_
    by_cases htype : child.field = "type"
    · exact types child hc htype
    · exact ih child hc htype

theorem Arena.Throughout.of_expr {arena : Arena} {holds : Expr → Prop} {id : NodeId} {e : Expr}
    (h : arena.Throughout holds id) (he : arena.expr id = .ok e) :
    holds e ∧ ∀ child ∈ e.children, child.field ≠ "type" → arena.Throughout holds child.id := by
  cases h with
  | intro found here below _ =>
    rw [he] at found
    cases found
    exact ⟨here, below⟩

theorem Arena.Throughout.exists_expr {arena : Arena} {holds : Expr → Prop} {id : NodeId}
    (h : arena.Throughout holds id) : ∃ e, arena.expr id = .ok e := by
  cases h with
  | intro found _ _ _ => exact ⟨_, found⟩

/-- Whether the kind of a string literal makes no difference. -/
def Language.alikeString : Language → StringKind → Bool
  | .java, _ => true
  | .cpp, kind => kind ≠ .raw
  | .python, kind => kind = .plain

/-- Expressions whose text is not written in another way than their tokens: numbers with a fraction
have two notations, and a language may have its own for some strings, for assignments and for
comparisons with the null value. -/
def Language.Alike (lang : Language) (arena : Arena) : Expr → Prop
  | .float _ => False
  | .str _ kind => lang.alikeString kind = true
  | .assign .. => lang ≠ .python
  | .binary op left right =>
    lang = .python → op = .eq ∨ op = .notEq →
      arena.expr left ≠ .ok .null ∧ arena.expr right ≠ .ok .null
  | _ => True

/-! ## Renderings that agree with tokens -/

/-- A computation that succeeds goes on from where it got. -/
theorem bind_of_ok {ε σ α β : Type} {action : EStateM ε σ α} {next : α → EStateM ε σ β} {a : α}
    {before after : σ} (h : action before = .ok a after) :
    (action >>= next) before = next a after := by
  simp [bind, EStateM.bind, h]

/-- Where a computation succeeds, both of its parts do. -/
theorem exists_of_bind {ε σ α β : Type} {action : EStateM ε σ α} {next : α → EStateM ε σ β} {b : β}
    {before after : σ} (h : (action >>= next) before = .ok b after) :
    ∃ a between, action before = .ok a between ∧ next a between = .ok b after := by
  simp only [bind, EStateM.bind] at h
  cases haction : action before with
  | error error between =>
    rw [haction] at h
    cases h
  | ok a between =>
    rw [haction] at h
    exact ⟨a, between, rfl, h⟩

namespace Render

/-- A rendering shows what a run of tokens shows, wherever the run starts, and registers
nothing. -/
def Agrees (action : Render String) (piece : Piece) : Prop :=
  ∀ (scope : Scope) (start : Nat) (tokens : List Token), piece start = .ok tokens →
    ∃ text, action scope = .ok text scope ∧ Text.ink text = Token.ink tokens

/-- Where there is a run of tokens, a rendering gives a text that goes with their values, and
registers nothing. -/
def Matches (goes : String → List String → Prop) (action : Render String) (piece : Piece) : Prop :=
  ∀ (scope : Scope) (start : Nat) (tokens : List Token), piece start = .ok tokens →
    ∃ text, action scope = .ok text scope ∧ goes text (tokens.map Token.value)

theorem agrees_iff {action : Render String} {piece : Piece} : Agrees action piece ↔
    Matches (fun text values => Text.ink text = values.flatMap Text.ink) action piece := by
  refine forall₄_congr fun scope start tokens _ => exists_congr fun text =>
    and_congr_right fun _ => ?_
  change Text.ink text = Token.ink tokens ↔
    Text.ink text = (tokens.map Token.value).flatMap Text.ink
  rw [Token.flatMap_ink]

theorem Agrees.plain (value : String) (kind : TokenKind) :
    Agrees (pure value) (Piece.plain value kind) := by
  intro scope start tokens h
  cases h
  exact ⟨value, rfl, by simp⟩

end Render

namespace Piece

variable {p q r : Piece} {start : Nat} {tokens : List Token}

theorem bind_ok {α β : Type} {action : Except TokenError α} {next : α → Except TokenError β}
    {b : β} (h : (action >>= next) = .ok b) : ∃ a, action = .ok a ∧ next a = .ok b := by
  cases action with
  | error error => cases h
  | ok a => exact ⟨a, rfl, h⟩

theorem lift_ok {α : Type} {found : Except Fault α} {a : α}
    (h : (liftM found : Except TokenError α) = .ok a) : found = .ok a := by
  cases found with
  | error fault => cases h
  | ok value =>
    cases h
    rfl

theorem append_ok (h : (p ++ q) start = .ok tokens) :
    ∃ before after, p start = .ok before ∧ q (start + before.length) = .ok after ∧
      tokens = before ++ after := by
  change Piece.append p q start = .ok tokens at h
  unfold Piece.append at h
  obtain ⟨before, hp, h⟩ := bind_ok h
  obtain ⟨after, hq, h⟩ := bind_ok h
  cases h
  exact ⟨before, after, hp, hq, rfl⟩

/-- The tokens of a run between parentheses. -/
theorem grouped_ok (h : Linear.grouped p start = .ok tokens) :
    ∃ inner, p (start + 1) = .ok inner ∧
      tokens.map Token.value = "(" :: inner.map Token.value ++ [")"] := by
  obtain ⟨before, after, hb, ha, rfl⟩ := append_ok h
  obtain ⟨opening, inner, ho, hi, rfl⟩ := append_ok hb
  cases ho
  cases ha
  exact ⟨inner, hi, by simp⟩

theorem joined_ok {left : List Token} {form : OperatorForm}
    (h : Piece.joined start left form p = .ok tokens) :
    ∃ right, p (start + left.length + 1) = .ok right ∧
      tokens.map Token.value =
        left.map Token.value ++ form.value :: right.map Token.value := by
  obtain ⟨right, hp, h⟩ := bind_ok h
  cases h
  exact ⟨right, hp, by simp [Token.tagAll, Token.tagged, Function.comp_def]⟩

theorem between_ok {form : OperatorForm} (h : Piece.between form p q start = .ok tokens) :
    ∃ left right, p start = .ok left ∧ q (start + left.length + 1) = .ok right ∧
      tokens.map Token.value =
        left.map Token.value ++ form.value :: right.map Token.value := by
  obtain ⟨left, hp, h⟩ := bind_ok h
  obtain ⟨right, hr, hvalues⟩ := joined_ok h
  exact ⟨left, right, hp, hr, hvalues⟩

theorem ternary_ok {forms : OperatorForm × OperatorForm}
    (h : Piece.ternary forms p q r start = .ok tokens) :
    ∃ second third left center right, p start = .ok left ∧ q second = .ok center ∧
      r third = .ok right ∧
      tokens.map Token.value = left.map Token.value ++ forms.1.value ::
        (center.map Token.value ++ forms.2.value :: right.map Token.value) := by
  obtain ⟨left, hp, h⟩ := bind_ok h
  obtain ⟨center, hq, h⟩ := bind_ok h
  obtain ⟨right, hr, h⟩ := bind_ok h
  cases h
  exact ⟨_, _, left, center, right, hp, hq, hr,
    by simp [Token.tagAll, Token.tagged, Function.comp_def]⟩

theorem leading_ok {form : OperatorForm} (h : Piece.leading form p start = .ok tokens) :
    ∃ operand, p (start + 1) = .ok operand ∧
      tokens.map Token.value = form.value :: operand.map Token.value := by
  obtain ⟨operand, hp, h⟩ := bind_ok h
  cases h
  exact ⟨operand, hp, by simp [Token.tagAll, Token.tagged, Function.comp_def]⟩

theorem trailing_ok {form : OperatorForm} (h : Piece.trailing form p start = .ok tokens) :
    ∃ operand, p start = .ok operand ∧
      tokens.map Token.value = operand.map Token.value ++ [form.value] := by
  obtain ⟨operand, hp, h⟩ := bind_ok h
  cases h
  exact ⟨operand, hp, by simp [Token.tagAll, Token.tagged, Function.comp_def]⟩

theorem required_ok {lang : Language} {construct : String} {form? : Option OperatorForm}
    {form : OperatorForm} (h : Linear.required lang construct form? = .ok form) :
    form? = some form := by
  cases form? with
  | none => cases h
  | some found =>
    cases h
    rfl

end Piece

/-! ## Each layer agrees -/

section Layer

open Render

variable {view : View} {below : NodeId → Render String} {pieces : NodeId → Piece}

/-- A unary operator stands on the side that both take it to stand on. -/
theorem Language.isLeading_unary {lang : Language} {op : UnaryOp} {form : OperatorForm}
    (h : lang.operators.unary op = some form) : form.isLeading = !op.isPost := by
  have hall : (lang.operators.unary op).all (fun form => form.isLeading == !op.isPost) = true := by
    cases lang <;> cases op <;> rfl
  simpa [h] using hall

namespace Render.Matches

variable {goes inner goesLeft goesRight : String → List String → Prop}
  {operands : Side → String → List String → Prop}

/-- An operand is grouped in the text if it is among the tokens. -/
theorem operand {child : NodeId} (h : Matches inner (below child) (pieces child)) (view : View)
    (parent : OperatorForm) (side : Side)
    (hbare : view.lang.wraps view.arena parent child side = .ok false →
      ∀ text values, inner text values → goes text values)
    (hgrouped : ∀ text values, inner text values →
      goes (parenthesized text) ("(" :: values ++ [")"])) :
    Matches goes (Site.operand ⟨view, below⟩ parent child side)
      (Linear.operand ⟨view.lang, view.arena, pieces⟩ parent child side) := by
  intro scope start tokens ht
  unfold Linear.operand at ht
  unfold Site.operand
  simp only [Site.lang, Site.arena]
  cases hw : view.lang.wraps view.arena parent child side with
  | error fault =>
    rw [hw] at ht
    cases ht
  | ok wraps =>
    rw [hw] at ht
    cases wraps with
    | true =>
      obtain ⟨list, hi, hvalues⟩ := Piece.grouped_ok ht
      obtain ⟨text, hr, hgoes⟩ := h scope _ list hi
      exact ⟨parenthesized text, bind_of_ok hr, hvalues ▸ hgrouped text _ hgoes⟩
    | false =>
      obtain ⟨text, hr, hgoes⟩ := h scope start tokens ht
      exact ⟨text, bind_of_ok hr, hbare hw text _ hgoes⟩

theorem between {form : OperatorForm} {left right : NodeId}
    (hl : Matches goesLeft (Site.operand ⟨view, below⟩ form left .left)
      (Linear.operand ⟨view.lang, view.arena, pieces⟩ form left .left))
    (hr : Matches goesRight (Site.operand ⟨view, below⟩ form right .right)
      (Linear.operand ⟨view.lang, view.arena, pieces⟩ form right .right))
    (hgoes : ∀ leftText lefts rightText rights, goesLeft leftText lefts →
      goesRight rightText rights →
      goes (leftText ++ " " ++ form.value ++ " " ++ rightText) (lefts ++ form.value :: rights)) :
    Matches goes (Site.between ⟨view, below⟩ form left right)
      (Linear.between ⟨view.lang, view.arena, pieces⟩ form left right) := by
  intro scope start tokens ht
  obtain ⟨lefts, rights, hlefts, hrights, hvalues⟩ := Piece.between_ok ht
  obtain ⟨leftText, hlr, hltext⟩ := hl scope _ lefts hlefts
  obtain ⟨rightText, hrr, hrtext⟩ := hr scope _ rights hrights
  refine ⟨leftText ++ " " ++ form.value ++ " " ++ rightText, ?_,
    hvalues ▸ hgoes _ _ _ _ hltext hrtext⟩
  unfold Site.between
  rw [bind_of_ok hlr, bind_of_ok hrr]
  rfl

theorem unary {operands : OperatorForm → Side → String → List String → Prop} {op : UnaryOp}
    {operand : NodeId}
    (h : ∀ form, view.lang.operators.unary op = some form → ∀ side,
      Matches (operands form side) (Site.operand ⟨view, below⟩ form operand side)
        (Linear.operand ⟨view.lang, view.arena, pieces⟩ form operand side))
    (hpost : ∀ form, view.lang.operators.unary op = some form → op.isPost = true →
      ∀ text values, operands form .left text values →
      goes (text ++ form.value) (values ++ [form.value]))
    (hpre : ∀ form, view.lang.operators.unary op = some form → op.isPost = false →
      ∀ text values, operands form .right text values →
      goes (form.value ++
        (if form.value.toList.getLast?.any Text.isLetter then " " else "") ++ text)
        (form.value :: values)) :
    Matches goes (Site.unary ⟨view, below⟩ op operand)
      (Linear.exprWith ⟨view.lang, view.arena, pieces⟩ (.unary op operand)) := by
  intro scope start tokens ht
  obtain ⟨form, hform, ht⟩ := Piece.bind_ok ht
  have hform := Piece.required_ok hform
  unfold Site.unary Site.unaryOperand
  simp only [Site.lang, hform]
  rw [Language.isLeading_unary hform] at ht
  cases hside : op.isPost with
  | true =>
    rw [hside] at ht
    obtain ⟨list, hi, hvalues⟩ := Piece.trailing_ok ht
    obtain ⟨text, hr, hgoes⟩ := h form hform .left scope _ list hi
    exact ⟨text ++ form.value, bind_of_ok hr, hvalues ▸ hpost form hform hside text _ hgoes⟩
  | false =>
    rw [hside] at ht
    obtain ⟨list, hi, hvalues⟩ := Piece.leading_ok ht
    obtain ⟨text, hr, hgoes⟩ := h form hform .right scope _ list hi
    exact ⟨_, bind_of_ok hr, hvalues ▸ hpre form hform hside text _ hgoes⟩

theorem ternary {cond whenTrue whenFalse : NodeId}
    (h : ∀ child, child = cond ∨ child = whenTrue ∨ child = whenFalse → ∀ side,
      Matches (operands side)
        (Site.operand ⟨view, below⟩ view.lang.operators.ternary.1 child side)
        (Linear.operand ⟨view.lang, view.arena, pieces⟩ view.lang.operators.ternary.1 child side))
    (hgoes : ∀ leftText lefts centerText centers rightText rights, operands .left leftText lefts →
      operands .center centerText centers → operands .right rightText rights →
      goes (leftText ++ " " ++ view.lang.operators.ternary.1.value ++ " " ++ centerText ++ " " ++
          view.lang.operators.ternary.2.value ++ " " ++ rightText)
        (lefts ++ view.lang.operators.ternary.1.value ::
          (centers ++ view.lang.operators.ternary.2.value :: rights))) :
    Matches goes (Site.ternary ⟨view, below⟩ cond whenTrue whenFalse)
      (Linear.exprWith ⟨view.lang, view.arena, pieces⟩ (.ternary cond whenTrue whenFalse)) := by
  intro scope start tokens hok
  -- either layout names a left and a middle operand, and then both go on alike
  have key : ∀ left center,
      Matches (operands .left)
        (Site.operand ⟨view, below⟩ view.lang.operators.ternary.1 left .left)
        (Linear.operand ⟨view.lang, view.arena, pieces⟩ view.lang.operators.ternary.1 left .left) →
      Matches (operands .center)
        (Site.operand ⟨view, below⟩ view.lang.operators.ternary.1 center .center)
        (Linear.operand ⟨view.lang, view.arena, pieces⟩ view.lang.operators.ternary.1 center
          .center) →
      Piece.ternary view.lang.operators.ternary
        (Linear.operand ⟨view.lang, view.arena, pieces⟩ view.lang.operators.ternary.1 left .left)
        (Linear.operand ⟨view.lang, view.arena, pieces⟩ view.lang.operators.ternary.1 center
          .center)
        (Linear.operand ⟨view.lang, view.arena, pieces⟩ view.lang.operators.ternary.1 whenFalse
          .right) start = .ok tokens →
      ∃ text, (do
          let leftText ← Site.operand ⟨view, below⟩ view.lang.operators.ternary.1 left .left
          let centerText ← Site.operand ⟨view, below⟩ view.lang.operators.ternary.1 center .center
          let rightText ← Site.operand ⟨view, below⟩ view.lang.operators.ternary.1 whenFalse .right
          return leftText ++ " " ++ view.lang.operators.ternary.1.value ++ " " ++ centerText ++
            " " ++ view.lang.operators.ternary.2.value ++ " " ++ rightText : Render String) scope =
          .ok text scope ∧ goes text (tokens.map Token.value) := by
    intro left center hleft hcenter hok
    obtain ⟨_, _, lefts, centers, rights, hlefts, hcenters, hrights, hvalues⟩ :=
      Piece.ternary_ok hok
    obtain ⟨leftText, hlr, hltext⟩ := hleft scope _ lefts hlefts
    obtain ⟨centerText, hcr, hctext⟩ := hcenter scope _ centers hcenters
    obtain ⟨rightText, hrr, hrtext⟩ := h whenFalse (by simp) .right scope _ rights hrights
    rw [bind_of_ok hlr, bind_of_ok hcr, bind_of_ok hrr]
    exact ⟨_, rfl, hvalues ▸ hgoes _ _ _ _ _ _ hltext hctext hrtext⟩
  simp only [Linear.exprWith] at hok
  simp only [Site.ternary, Site.lang]
  cases hlayout : view.lang.operators.ternaryLayout with
  | condFirst =>
    rw [hlayout] at hok
    exact key cond whenTrue (h cond (by simp) .left) (h whenTrue (by simp) .center) hok
  | thenFirst =>
    rw [hlayout] at hok
    exact key whenTrue cond (h whenTrue (by simp) .left) (h cond (by simp) .center) hok

theorem paren {id : NodeId} (h : Matches inner (below id) (pieces id))
    (hgoes : ∀ text values, inner text values →
      goes (parenthesized text) ("(" :: values ++ [")"])) :
    Matches goes (do return parenthesized (← below id))
      (Linear.exprWith ⟨view.lang, view.arena, pieces⟩ (.paren id)) := by
  intro scope start tokens ht
  obtain ⟨list, hi, hvalues⟩ := Piece.grouped_ok ht
  obtain ⟨text, hr, htext⟩ := h scope _ list hi
  exact ⟨parenthesized text, bind_of_ok hr, hvalues ▸ hgoes text _ htext⟩

end Render.Matches

/-- An operand agrees if the expression does: both group it alike. -/
theorem Render.Agrees.operand {child : NodeId} (h : Agrees (below child) (pieces child))
    (view : View) (parent : OperatorForm) (side : Side) :
    Agrees (Site.operand ⟨view, below⟩ parent child side)
      (Linear.operand ⟨view.lang, view.arena, pieces⟩ parent child side) := by
  rw [agrees_iff] at h ⊢
  refine h.operand view parent side (fun _ text values hink => hink) fun text values hink => ?_
  simp [parenthesized, hink]

theorem Render.Agrees.between {left right : NodeId} (hl : Agrees (below left) (pieces left))
    (hr : Agrees (below right) (pieces right)) (form : OperatorForm) :
    Agrees (Site.between ⟨view, below⟩ form left right)
      (Linear.between ⟨view.lang, view.arena, pieces⟩ form left right) := by
  have hleft := agrees_iff.1 (hl.operand view form .left)
  have hright := agrees_iff.1 (hr.operand view form .right)
  refine agrees_iff.2 (hleft.between hright fun leftText lefts rightText rights hlink hrink => ?_)
  simp [hlink, hrink]

theorem Render.Agrees.word (word : Word) (kind : TokenKind) (construct : String) (e : Expr) :
    Agrees (Site.word ⟨view, below⟩ word e) (Linear.word view.lang word kind construct) := by
  intro scope start tokens ht
  unfold Linear.word at ht
  unfold Site.word Site.lang
  cases hw : view.lang.operators.word word with
  | none =>
    rw [hw] at ht
    cases ht
  | some text =>
    rw [hw] at ht
    cases ht
    exact ⟨text, rfl, by simp⟩

theorem Render.Agrees.unary {operand : NodeId} (h : Agrees (below operand) (pieces operand))
    (op : UnaryOp) :
    Agrees (Site.unary ⟨view, below⟩ op operand)
      (Linear.exprWith ⟨view.lang, view.arena, pieces⟩ (.unary op operand)) := by
  have hoperand := fun form (_ : view.lang.operators.unary op = some form) side =>
    agrees_iff.1 (h.operand view form side)
  refine agrees_iff.2 (.unary hoperand (fun form _ _ text values hink => ?_)
    fun form _ _ text values hink => ?_)
  · simp [hink]
  · split <;> simp [hink]

theorem Render.Agrees.ternary {cond whenTrue whenFalse : NodeId}
    (hc : Agrees (below cond) (pieces cond)) (ht : Agrees (below whenTrue) (pieces whenTrue))
    (hf : Agrees (below whenFalse) (pieces whenFalse)) :
    Agrees (Site.ternary ⟨view, below⟩ cond whenTrue whenFalse)
      (Linear.exprWith ⟨view.lang, view.arena, pieces⟩ (.ternary cond whenTrue whenFalse)) := by
  have hoperand : ∀ child, child = cond ∨ child = whenTrue ∨ child = whenFalse → ∀ side,
      Agrees (Site.operand ⟨view, below⟩ view.lang.operators.ternary.1 child side)
        (Linear.operand ⟨view.lang, view.arena, pieces⟩ view.lang.operators.ternary.1 child
          side) := by
    rintro child (rfl | rfl | rfl) side
    · exact hc.operand view _ side
    · exact ht.operand view _ side
    · exact hf.operand view _ side
  refine agrees_iff.2 (.ternary (fun child hchild side => agrees_iff.1 (hoperand child hchild side))
    fun leftText lefts centerText centers rightText rights hleft hcenter hright => ?_)
  simp [hleft, hcenter, hright]

theorem Text.ink_commas_cons (first : String) {texts : List String} (hne : texts ≠ []) :
    ink (commas (first :: texts)) = ink first ++ (ink "," ++ ink (commas texts)) := by
  rw [commas, commas, String.intercalate_cons_of_ne_nil hne, ink_append, ink_append,
    show ink ", " = ink "," by decide, List.append_assoc]

/-- Expressions with commas between them agree if each of them does. -/
theorem Render.Agrees.list : ∀ (ids : List NodeId), (∀ id ∈ ids, Agrees (below id) (pieces id)) →
    ∀ (scope : Scope) (start : Nat) (tokens : List Token),
    Piece.commaSeparated (ids.map pieces) start = .ok tokens →
    ∃ texts, ids.mapM below scope = .ok texts scope ∧ texts.length = ids.length ∧
      Text.ink (commas texts) = Token.ink tokens
  | [], _, scope, start, tokens, ht => by
    cases ht
    exact ⟨[], rfl, rfl, by simp [commas]⟩
  | [id], h, scope, start, tokens, ht => by
    obtain ⟨text, hr, htext⟩ := h id (by simp) scope start tokens ht
    refine ⟨[text], ?_, rfl, by simp [commas, htext]⟩
    rw [List.mapM_cons, bind_of_ok hr]
    rfl
  | id :: next :: ids, h, scope, start, tokens, ht => by
    obtain ⟨before, others, hb, ho, rfl⟩ := Piece.append_ok ht
    obtain ⟨comma, after, hc, ha, rfl⟩ := Piece.append_ok ho
    cases hc
    obtain ⟨text, hr, htext⟩ := h id (by simp) scope _ before hb
    obtain ⟨texts, hrs, hlength, htexts⟩ :=
      Agrees.list (next :: ids) (fun id hid => h id (by simp [hid])) scope _ after ha
    have hne : texts ≠ [] := by
      rintro rfl
      simp at hlength
    refine ⟨text :: texts, ?_, by simp [hlength], ?_⟩
    · rw [List.mapM_cons, bind_of_ok hr, bind_of_ok hrs]
      rfl
    · simp [Text.ink_commas_cons text hne, htext, htexts]

/-- Arguments agree between their parentheses. -/
theorem Render.Agrees.arguments {ids : List NodeId} (h : ∀ id ∈ ids, Agrees (below id) (pieces id))
    (scope : Scope) {start : Nat} {tokens : List Token}
    (ht : Linear.arguments ⟨view.lang, view.arena, pieces⟩ ids start = .ok tokens) :
    ∃ list, Site.args ⟨view, below⟩ ids scope = .ok list scope ∧
      Text.ink (parenthesized list) = Token.ink tokens := by
  obtain ⟨before, after, hb, ha, rfl⟩ := Piece.append_ok ht
  obtain ⟨opening, list, ho, hl, rfl⟩ := Piece.append_ok hb
  cases ho
  cases ha
  obtain ⟨texts, hr, -, htexts⟩ := Agrees.list ids h scope _ list hl
  exact ⟨commas texts, bind_of_ok hr, by simp [parenthesized, htexts]⟩

/-! ## Compound comparisons -/

/-- Comparisons that are joined to tokens add what their renderings add, each after the operator. -/
theorem Render.Agrees.joinRest (form : OperatorForm) (start : Nat) (scope : Scope) :
    ∀ (items : List NodeId), (∀ id ∈ items, Agrees (below id) (pieces id)) →
    ∀ (left tokens : List Token),
    Linear.joinRest ⟨view.lang, view.arena, pieces⟩ form start left items = .ok tokens →
    ∃ texts, (items.mapM fun item => Site.operand ⟨view, below⟩ form item .right) scope =
        .ok texts scope ∧
      Token.ink tokens = Token.ink left ++ texts.flatMap fun text => Text.ink form.value ++ Text.ink text
  | [], _, left, tokens, ht => by
    cases ht
    exact ⟨[], rfl, by simp⟩
  | item :: items, h, left, tokens, ht => by
    obtain ⟨joined, hj, ht⟩ := Piece.bind_ok ht
    obtain ⟨right, hright, hvalues⟩ := Piece.joined_ok hj
    have hink := Token.ink_of_values hvalues
    obtain ⟨text, hr, htext⟩ := (h item (by simp)).operand view form .right scope _ right hright
    obtain ⟨texts, hrs, htexts⟩ :=
      Agrees.joinRest form start scope items (fun id hid => h id (by simp [hid])) joined tokens ht
    refine ⟨text :: texts, ?_, by simp [htexts, hink, htext]⟩
    rw [List.mapM_cons, bind_of_ok hr, bind_of_ok hrs]
    rfl

/-- A conjunction of comparisons. -/
theorem Render.Agrees.conjunction {first : NodeId} {rest : List NodeId}
    (h : ∀ id ∈ first :: rest, Agrees (below id) (pieces id)) :
    Agrees (Braced.compound ⟨view, below⟩ (first :: rest))
      (Linear.conjunction ⟨view.lang, view.arena, pieces⟩ (first :: rest)) := by
  intro scope start tokens ht
  obtain ⟨form, hform, ht⟩ := Piece.bind_ok ht
  have hform := Piece.required_ok hform
  obtain ⟨lefts, hl, ht⟩ := Piece.bind_ok ht
  obtain ⟨text, hr, htext⟩ := (h first (by simp)).operand view form .left scope _ lefts hl
  obtain ⟨texts, hrs, htexts⟩ :=
    Agrees.joinRest form start scope rest (fun id hid => h id (by simp [hid])) lefts tokens ht
  refine ⟨(" " ++ form.value ++ " ").intercalate (text :: texts), ?_, ?_⟩
  · unfold Braced.compound
    simp only [Site.lang] at hform ⊢
    rw [hform]
    exact (bind_of_ok hr).trans (bind_of_ok hrs)
  · simp [Text.ink_intercalate, htext, htexts]

/-- A comparison that has tokens. -/
theorem Linear.comparison_ok {context : Linear.Context} {item left right : NodeId}
    {form : OperatorForm} (h : Linear.comparison context item = .ok (form, left, right)) :
    ∃ op, context.arena.expr item = .ok (.binary op left right) ∧
      context.lang.operators.binary op = some form := by
  obtain ⟨e, he, h⟩ := Piece.bind_ok h
  have he := Piece.lift_ok he
  cases e with
  | binary op l r =>
    obtain ⟨found, hfound, h⟩ := Piece.bind_ok h
    cases h
    exact ⟨op, he, Piece.required_ok hfound⟩
  | _ => cases h

/-- The text of an operator has the form that its token has. -/
theorem Python.binaryForm?_ok {id left right : NodeId} {op : BinaryOp}
    (hlang : view.lang = .python) (h : view.arena.Throughout (view.lang.Alike view.arena) id)
    (he : view.arena.expr id = .ok (.binary op left right)) (scope : Scope) :
    Python.binaryForm? ⟨view, below⟩ op left right scope = .ok (Python.binary op) scope := by
  have hnull : ∀ {id : NodeId} {e : Expr}, view.arena.expr id = .ok e →
      Python.isNull view.arena id = .ok (e == .null) := by
    intro id e he
    rw [Python.isNull, he]
    cases e <;> rfl
  obtain ⟨halike, hbelow⟩ := h.of_expr he
  obtain ⟨l, hl⟩ := (hbelow ⟨left, "left"⟩ (by simp [Expr.children]) (by simp)).exists_expr
  obtain ⟨r, hr⟩ := (hbelow ⟨right, "right"⟩ (by simp [Expr.children]) (by simp)).exists_expr
  have hne : op = .eq ∨ op = .notEq → l ≠ .null ∧ r ≠ .null := by
    simpa [hl, hr] using halike hlang
  unfold Python.binaryForm?
  simp only [Site.arena, hnull hl, hnull hr]
  cases op with
  | eq | notEq =>
    obtain ⟨hl, hr⟩ := hne (by simp)
    rw [beq_eq_false_iff_ne.2 hl, beq_eq_false_iff_ne.2 hr]
    rfl
  | _ => cases l == Expr.null <;> cases r == Expr.null <;> rfl

/-- A comparison of a chain, given the texts of its operands. -/
theorem Python.chainLink_ok {item left right : NodeId} {form : OperatorForm} {isFirst : Bool}
    {scope : Scope} {leftText rightText : String} (hlang : view.lang = .python)
    (h : view.arena.Throughout (view.lang.Alike view.arena) item)
    (hc : Linear.comparison ⟨view.lang, view.arena, pieces⟩ item = .ok (form, left, right))
    (hl : (if isFirst then Site.operand ⟨view, below⟩ form left .left else pure "") scope =
      .ok leftText scope)
    (hr : Site.operand ⟨view, below⟩ form right .right scope = .ok rightText scope) :
    Python.chainLink ⟨view, below⟩ isFirst item scope =
      .ok (leftText ++ " " ++ form.value ++ " " ++ rightText) scope := by
  obtain ⟨op, he, hform⟩ := Linear.comparison_ok hc
  simp only [hlang] at he hform
  have hfound : Python.binaryForm? ⟨view, below⟩ op left right scope = .ok (some form) scope := by
    rw [Python.binaryForm?_ok hlang h he scope, show Python.binary op = some form from hform]
  unfold Python.chainLink
  simp only [Site.arena, he]
  cases isFirst with
  | true => exact (bind_of_ok hfound).trans ((bind_of_ok hl).trans (bind_of_ok hr))
  | false =>
    cases hl
    exact (bind_of_ok hfound).trans (bind_of_ok hr)

/-- The operands of comparisons agree. -/
def Render.AgreeBelow (view : View) (below : NodeId → Render String) (pieces : NodeId → Piece)
    (items : List NodeId) : Prop :=
  ∀ item ∈ items, ∀ op left right, view.arena.expr item = .ok (.binary op left right) →
    Agrees (below left) (pieces left) ∧ Agrees (below right) (pieces right)

/-- More comparisons of a chain add what their renderings add. -/
theorem Render.Agrees.chainRest (hlang : view.lang = .python) (scope : Scope) :
    ∀ (items : List NodeId), AgreeBelow view below pieces items →
    (∀ item ∈ items, view.arena.Throughout (view.lang.Alike view.arena) item) →
    ∀ (start : Nat) (left tokens : List Token),
    Linear.chainRest ⟨view.lang, view.arena, pieces⟩ start left items = .ok tokens →
    ∃ texts, (items.mapM (Python.chainLink ⟨view, below⟩ false)) scope = .ok texts scope ∧
      Token.ink tokens = Token.ink left ++ texts.flatMap Text.ink
  | [], _, _, _, left, tokens, ht => by
    cases ht
    exact ⟨[], rfl, by simp⟩
  | item :: items, hbelow, halike, start, left, tokens, ht => by
    obtain ⟨⟨form, first, right⟩, hc, ht⟩ := Piece.bind_ok ht
    obtain ⟨rights, hrights, ht⟩ := Piece.bind_ok ht
    obtain ⟨after, ha, ht⟩ := Piece.bind_ok ht
    cases ht
    obtain ⟨op, he, -⟩ := Linear.comparison_ok hc
    have hright := (hbelow item (by simp) op first right he).2
    obtain ⟨text, hr, htext⟩ := hright.operand view form .right scope _ rights hrights
    obtain ⟨texts, hrs, htexts⟩ := Agrees.chainRest hlang scope items
      (fun id hid => hbelow id (by simp [hid])) (fun id hid => halike id (by simp [hid])) _ _ after ha
    have hlink : Python.chainLink ⟨view, below⟩ false item scope =
        .ok ("" ++ " " ++ form.value ++ " " ++ text) scope :=
      Python.chainLink_ok hlang (halike item (by simp)) hc rfl hr
    refine ⟨("" ++ " " ++ form.value ++ " " ++ text) :: texts, ?_, ?_⟩
    · rw [List.mapM_cons, bind_of_ok hlink, bind_of_ok hrs]
      rfl
    · simp [htexts, htext]

/-- A chain of comparisons. -/
theorem Render.Agrees.chain {items : List NodeId} (hlang : view.lang = .python)
    (hbelow : AgreeBelow view below pieces items)
    (halike : ∀ item ∈ items, view.arena.Throughout (view.lang.Alike view.arena) item) :
    Agrees (Python.chain ⟨view, below⟩ items)
      (Linear.chain ⟨view.lang, view.arena, pieces⟩ items) := by
  intro scope start tokens ht
  cases items with
  | nil =>
    cases ht
    exact ⟨"", rfl, rfl⟩
  | cons item items =>
    obtain ⟨⟨form, left, right⟩, hc, ht⟩ := Piece.bind_ok ht
    obtain ⟨lefts, hlefts, ht⟩ := Piece.bind_ok ht
    -- the rest starts with the first comparison again, for its operator and its right operand
    obtain ⟨⟨form', left', right'⟩, hc', ht⟩ := Piece.bind_ok ht
    rw [hc] at hc'
    cases hc'
    obtain ⟨rights, hrights, ht⟩ := Piece.bind_ok ht
    obtain ⟨after, ha, ht⟩ := Piece.bind_ok ht
    cases ht
    obtain ⟨op, he, -⟩ := Linear.comparison_ok hc
    obtain ⟨hleft, hright⟩ := hbelow item (by simp) op left right he
    obtain ⟨leftText, hl, hltext⟩ := hleft.operand view form .left scope _ lefts hlefts
    obtain ⟨rightText, hr, hrtext⟩ := hright.operand view form .right scope _ rights hrights
    obtain ⟨texts, hrs, htexts⟩ := Agrees.chainRest hlang scope items
      (fun id hid => hbelow id (by simp [hid])) (fun id hid => halike id (by simp [hid])) _ _ after ha
    have hlink : Python.chainLink ⟨view, below⟩ true item scope =
        .ok (leftText ++ " " ++ form.value ++ " " ++ rightText) scope :=
      Python.chainLink_ok hlang (halike item (by simp)) hc hl hr
    refine ⟨leftText ++ " " ++ form.value ++ " " ++ rightText ++ String.join texts,
      (bind_of_ok hlink).trans (bind_of_ok hrs), ?_⟩
    simp [hltext, hrtext, htexts, Text.ink_join]

/-- A compound comparison is a chain or a conjunction in both. -/
theorem Render.Agrees.compound {items : List NodeId}
    (hitems : ∀ id ∈ items, Agrees (below id) (pieces id))
    (hbelow : AgreeBelow view below pieces items)
    (halike : ∀ item ∈ items, view.arena.Throughout (view.lang.Alike view.arena) item) :
    Agrees (view.lang.dialect.compound ⟨view, below⟩ items)
      (Linear.exprWith ⟨view.lang, view.arena, pieces⟩ (.compound items)) := by
  intro scope start tokens ht
  simp only [Linear.exprWith, Linear.compound] at ht
  cases items with
  | nil => cases ht
  | cons first rest =>
    rw [if_neg (by simp)] at ht
    cases hlang : view.lang with
    | python =>
      rw [if_pos (by rw [hlang]; rfl)] at ht
      exact Agrees.chain hlang hbelow halike scope start tokens ht
    | java | cpp =>
      rw [if_neg (by rw [hlang]; decide)] at ht
      exact Agrees.conjunction hitems scope start tokens ht

/-! ## Operators and calls -/

/-- A binary operator that has a token is written as an operator. -/
theorem Render.Matches.binary {goes : String → List String → Prop} {id left right : NodeId}
    {op : BinaryOp} (hkeep : view.lang = .python → view.isOn .keepComparisons = true)
    (h : view.arena.Throughout (view.lang.Alike view.arena) id)
    (he : view.arena.expr id = .ok (.binary op left right))
    (hbetween : ∀ form, view.lang.operators.binary op = some form →
      Matches goes (Site.between ⟨view, below⟩ form left right)
        (Linear.between ⟨view.lang, view.arena, pieces⟩ form left right)) :
    Matches goes (view.lang.dialect.binary ⟨view, below⟩ op left right)
      (Linear.exprWith ⟨view.lang, view.arena, pieces⟩ (.binary op left right)) := by
  intro scope start tokens ht
  obtain ⟨form, hform, ht⟩ := Piece.bind_ok ht
  have hform : view.lang.operators.binary op = some form := Piece.required_ok hform
  obtain ⟨text, hr, htext⟩ := hbetween form hform scope start tokens ht
  refine ⟨text, ?_, htext⟩
  rw [← hr]
  by_cases hlang : view.lang = .python
  · have hfound : Python.binaryForm? ⟨view, below⟩ op left right scope = .ok (some form) scope := by
      rw [Python.binaryForm?_ok hlang h he scope]
      rw [hlang] at hform
      exact congrArg (EStateM.Result.ok · scope) hform
    have hinfixed : Python.binaryExpr.infixed ⟨view, below⟩ op left right scope =
        Site.between ⟨view, below⟩ form left right scope := bind_of_ok hfound
    rw [← hinfixed, hlang]
    rw [hlang] at hform
    change Python.binaryExpr ⟨view, below⟩ op left right scope = _
    cases op with
    | instanceOf => cases hform
    | and => simp [Python.binaryExpr, hkeep hlang]
    | _ => rfl
  · have hbinary : Site.binary ⟨view, below⟩ op left right =
        Site.between ⟨view, below⟩ form left right := by
      simp only [Site.binary, Site.lang, hform]
    rw [← hbinary]
    -- powers and floor division, which are written as calls, have no token
    cases hl : view.lang with
    | python => exact absurd hl hlang
    | java | cpp =>
      rw [hl] at hform
      cases op <;> first | rfl | cases hform

theorem Render.Agrees.binary {id left right : NodeId} {op : BinaryOp}
    (hkeep : view.lang = .python → view.isOn .keepComparisons = true)
    (h : view.arena.Throughout (view.lang.Alike view.arena) id)
    (he : view.arena.expr id = .ok (.binary op left right))
    (hl : Agrees (below left) (pieces left)) (hr : Agrees (below right) (pieces right)) :
    Agrees (view.lang.dialect.binary ⟨view, below⟩ op left right)
      (Linear.exprWith ⟨view.lang, view.arena, pieces⟩ (.binary op left right)) :=
  agrees_iff.2 (.binary hkeep h he fun form _ => agrees_iff.1 (hl.between hr form))

/-- An assignment that has a token is written with it. -/
theorem Render.Agrees.assign {id target value : NodeId} {op : AssignOp}
    (hlang : view.lang ≠ .python) (ht : Agrees (below target) (pieces target))
    (hv : Agrees (below value) (pieces value)) :
    Agrees (view.lang.dialect.assign ⟨view, below⟩ id op target value)
      (Linear.exprWith ⟨view.lang, view.arena, pieces⟩ (.assign op target value)) := by
  intro scope start tokens hok
  obtain ⟨form, hform, hok⟩ := Piece.bind_ok hok
  have hform : view.lang.operators.assign op = some form := Piece.required_ok hform
  obtain ⟨text, hr, htext⟩ := ht.between hv form scope start tokens hok
  refine ⟨text, ?_, htext⟩
  rw [← hr]
  cases hl : view.lang with
  | python => exact absurd hl hlang
  | java =>
    rw [hl] at hform
    change Braced.assignWith Java.assign _ _ _ _ _ scope = _
    rw [Braced.assignWith, show Java.assign op = some form from hform]
  | cpp =>
    rw [hl] at hform
    change Braced.assignWith Cpp.assign _ _ _ _ _ scope = _
    rw [Braced.assignWith, show Cpp.assign op = some form from hform]

/-- A step, which may be written as an assignment, has no token where it is. -/
theorem Render.Matches.unaryExpr {goes : String → List String → Prop} {id operand : NodeId}
    {op : UnaryOp}
    (h : Matches goes (Site.unary ⟨view, below⟩ op operand)
      (Linear.exprWith ⟨view.lang, view.arena, pieces⟩ (.unary op operand))) :
    Matches goes (view.lang.dialect.unary ⟨view, below⟩ id op operand)
      (Linear.exprWith ⟨view.lang, view.arena, pieces⟩ (.unary op operand)) := by
  intro scope start tokens ht
  obtain ⟨text, hr, htext⟩ := h scope start tokens ht
  refine ⟨text, ?_, htext⟩
  rw [← hr]
  cases hlang : view.lang with
  | java | cpp => rfl
  | python =>
    obtain ⟨form, hform, ht⟩ := Piece.bind_ok ht
    have hform : view.lang.operators.unary op = some form := Piece.required_ok hform
    rw [hlang] at hform
    cases op <;> first | rfl | cases hform

theorem Render.Agrees.unaryExpr {id operand : NodeId} {op : UnaryOp}
    (h : Agrees (below operand) (pieces operand)) :
    Agrees (view.lang.dialect.unary ⟨view, below⟩ id op operand)
      (Linear.exprWith ⟨view.lang, view.arena, pieces⟩ (.unary op operand)) :=
  agrees_iff.2 (.unaryExpr (agrees_iff.1 (h.unary op)))

/-- A string literal whose kind makes no difference. -/
theorem Render.Agrees.string {value : String} {kind : StringKind}
    (h : view.lang.alikeString kind = true) :
    Agrees (pure (view.lang.dialect.stringLiteral value kind))
      (Linear.exprWith ⟨view.lang, view.arena, pieces⟩ (.str value kind)) := by
  have hquote : view.lang.dialect.stringLiteral value kind = Text.quote value := by
    cases hlang : view.lang <;> rw [hlang] at h <;> cases kind <;> first | exact absurd h (by decide) | rfl
  rw [hquote]
  exact .plain _ _

/-- A name is never grouped. -/
theorem Site.accessed_name {target : NodeId} {name : String} {scope : Scope}
    (he : view.arena.expr target = .ok (.ident name))
    (hbelow : below target scope = .ok name scope) :
    Site.accessed ⟨view, below⟩ target scope = .ok name scope := by
  have hwraps : view.lang.wraps view.arena view.lang.operators.access target .left = .ok false := by
    rw [Language.wraps, Language.exprForm?, he]
    rfl
  unfold Site.accessed Site.operand
  rw [bind_of_ok hbelow]
  simp only [Site.lang, Site.arena, hwraps]
  rfl

/-- What is called agrees, also where it is called by its name. -/
theorem Render.Agrees.call {callee : NodeId} {args : List NodeId}
    (hname : ∀ name, view.arena.expr callee = .ok (.ident name) →
      ∀ scope, below callee scope = .ok name scope)
    (hc : Agrees (below callee) (pieces callee)) (ha : ∀ id ∈ args, Agrees (below id) (pieces id)) :
    Agrees (do
        let target ← Site.accessed ⟨view, below⟩ callee
        return target ++ parenthesized (← Site.args ⟨view, below⟩ args))
      (Linear.exprWith ⟨view.lang, view.arena, pieces⟩ (.call callee args)) := by
  intro scope start tokens ht
  obtain ⟨e, he, ht⟩ := Piece.bind_ok ht
  have he := Piece.lift_ok he
  obtain ⟨target, hr, others, list, hl, hink⟩ : ∃ target,
      Site.accessed ⟨view, below⟩ callee scope = .ok target scope ∧ ∃ others list,
        Linear.arguments ⟨view.lang, view.arena, pieces⟩ args others = .ok list ∧
        Token.ink tokens = Text.ink target ++ Token.ink list := by
    cases e with
    | ident name =>
      obtain ⟨before, list, hb, hl, rfl⟩ := Piece.append_ok ht
      cases hb
      exact ⟨name, Site.accessed_name he (hname name he scope), _, list, hl, by simp⟩
    | _ =>
      obtain ⟨before, list, hb, hl, rfl⟩ := Piece.append_ok ht
      obtain ⟨target, hr, htext⟩ := hc.operand view _ .left scope _ before hb
      exact ⟨target, hr, _, list, hl, by simp [htext]⟩
  obtain ⟨listText, hlr, hltext⟩ := Agrees.arguments ha scope hl
  exact ⟨target ++ parenthesized listText, (bind_of_ok hr).trans (bind_of_ok hlr),
    by simp [hink, hltext]⟩

theorem Render.Agrees.method {receiver : NodeId} {name : String} {args : List NodeId}
    (hc : Agrees (below receiver) (pieces receiver))
    (ha : ∀ id ∈ args, Agrees (below id) (pieces id)) :
    Agrees (do
        let target ← Site.accessed ⟨view, below⟩ receiver
        return target ++ "." ++ name ++ parenthesized (← Site.args ⟨view, below⟩ args))
      (Linear.exprWith ⟨view.lang, view.arena, pieces⟩ (.method receiver name args)) := by
  intro scope start tokens ht
  obtain ⟨called, list, hcalled, hl, rfl⟩ := Piece.append_ok ht
  obtain ⟨dotted, named, hdotted, hn, rfl⟩ := Piece.append_ok hcalled
  obtain ⟨before, dot, hb, hd, rfl⟩ := Piece.append_ok hdotted
  cases hn
  cases hd
  obtain ⟨target, hr, htext⟩ := hc.operand view _ .left scope _ before hb
  obtain ⟨listText, hlr, hltext⟩ := Agrees.arguments ha scope hl
  exact ⟨target ++ "." ++ name ++ parenthesized listText, (bind_of_ok hr).trans (bind_of_ok hlr),
    by simp [htext, hltext]⟩

theorem Render.Agrees.index {target position : NodeId}
    (ht : Agrees (below target) (pieces target))
    (hp : Agrees (below position) (pieces position)) :
    Agrees (do
        let targetText ← Site.accessed ⟨view, below⟩ target
        return targetText ++ "[" ++ (← below position) ++ "]")
      (Linear.exprWith ⟨view.lang, view.arena, pieces⟩ (.index target position)) := by
  intro scope start tokens hok
  obtain ⟨opened, closing, hopened, hc, rfl⟩ := Piece.append_ok hok
  obtain ⟨before, inner, hbefore, hi, rfl⟩ := Piece.append_ok hopened
  obtain ⟨targets, opening, htargets, ho, rfl⟩ := Piece.append_ok hbefore
  cases hc
  cases ho
  obtain ⟨targetText, hr, htext⟩ := ht.operand view _ .left scope _ targets htargets
  obtain ⟨positionText, hpr, hptext⟩ := hp scope _ inner hi
  exact ⟨targetText ++ "[" ++ positionText ++ "]", (bind_of_ok hr).trans (bind_of_ok hpr),
    by simp [htext, hptext]⟩

theorem Render.Agrees.member {target : NodeId} {name : String}
    (ht : Agrees (below target) (pieces target)) :
    Agrees (do return (← Site.accessed ⟨view, below⟩ target) ++ "." ++ name)
      (Linear.exprWith ⟨view.lang, view.arena, pieces⟩ (.member target name)) := by
  intro scope start tokens hok
  obtain ⟨dotted, named, hdotted, hn, rfl⟩ := Piece.append_ok hok
  obtain ⟨targets, dot, htargets, hd, rfl⟩ := Piece.append_ok hdotted
  cases hn
  cases hd
  obtain ⟨targetText, hr, htext⟩ := ht.operand view _ .left scope _ targets htargets
  exact ⟨targetText ++ "." ++ name, bind_of_ok hr, by simp [htext]⟩

theorem Render.Agrees.paren {inner : NodeId} (h : Agrees (below inner) (pieces inner)) :
    Agrees (do return parenthesized (← below inner))
      (Linear.exprWith ⟨view.lang, view.arena, pieces⟩ (.paren inner)) := by
  refine agrees_iff.2 (Matches.paren (agrees_iff.1 h) fun text values hink => ?_)
  simp [parenthesized, hink]

end Layer

/-! ## Every expression agrees -/

namespace View

variable {view : View}

/-- By depth: each layer agrees if the expressions below it do.  The depth has to suffice, since a
function that is called by its name is visited by one recursion and not by the other. -/
theorem exprTo_agrees (hkeep : view.lang = .python → view.isOn .keepComparisons = true) :
    ∀ (depth : Nat) (id : NodeId), view.arena.Throughout (view.lang.Alike view.arena) id →
    view.arena.GroundedTo depth id →
    Render.Agrees (view.exprTo depth id) (Linear.exprTo view.lang view.arena depth id)
  | 0, _, _, hd => hd.elim
  | depth + 1, id, h, hd => by
    obtain ⟨e, he⟩ := h.exists_expr
    obtain ⟨halike, hchildren⟩ := h.of_expr he
    have hdepth := hd.belowExpr he
    rw [exprTo_succ he, Linear.exprTo_succ he]
    have hbelow : ∀ child ∈ e.children, child.field ≠ "type" →
        Render.Agrees (view.exprTo depth child.id)
          (Linear.exprTo view.lang view.arena depth child.id) := fun child hc htype =>
      exprTo_agrees hkeep depth child.id (hchildren child hc htype) (hdepth child hc)
    cases e with
    | int _ | ident _ | «scoped» _ => exact .plain _ _
    | float _ => exact halike.elim
    | str value kind => exact .string halike
    | bool value => cases value <;> exact .word _ _ _ _
    | null | selfRef | superRef => exact .word _ _ _ _
    | binary op left right =>
      exact .binary hkeep h he (hbelow ⟨left, "left"⟩ (by simp [Expr.children]) (by simp))
        (hbelow ⟨right, "right"⟩ (by simp [Expr.children]) (by simp))
    | unary op operand =>
      exact .unaryExpr (hbelow ⟨operand, "operand"⟩ (by simp [Expr.children]) (by simp))
    | assign op target value =>
      exact .assign halike (hbelow ⟨target, "target"⟩ (by simp [Expr.children]) (by simp))
        (hbelow ⟨value, "value"⟩ (by simp [Expr.children]) (by simp))
    | ternary cond whenTrue whenFalse =>
      exact .ternary (hbelow ⟨cond, "cond"⟩ (by simp [Expr.children]) (by simp))
        (hbelow ⟨whenTrue, "then"⟩ (by simp [Expr.children]) (by simp))
        (hbelow ⟨whenFalse, "otherwise"⟩ (by simp [Expr.children]) (by simp))
    | compound items =>
      have hitem : ∀ item ∈ items, (⟨item, "comparisons"⟩ : Child) ∈ (Expr.compound items).children :=
        fun item hi => by simp [Expr.children, held, hi]
      refine .compound (fun item hi => hbelow _ (hitem item hi) (by simp)) ?_
        fun item hi => hchildren _ (hitem item hi) (by simp)
      -- the operands of a comparison are two levels down
      intro item hi op left right hbinary
      have hlevel := (hdepth _ (hitem item hi)).succ.belowExpr hbinary
      have hthere := (hchildren _ (hitem item hi) (by simp)).of_expr hbinary
      exact ⟨exprTo_agrees hkeep depth left
          (hthere.2 ⟨left, "left"⟩ (by simp [Expr.children]) (by simp))
          (hlevel ⟨left, "left"⟩ (by simp [Expr.children])),
        exprTo_agrees hkeep depth right
          (hthere.2 ⟨right, "right"⟩ (by simp [Expr.children]) (by simp))
          (hlevel ⟨right, "right"⟩ (by simp [Expr.children]))⟩
    | paren inner => exact .paren (hbelow ⟨inner, "inner"⟩ (by simp [Expr.children]) (by simp))
    | call callee args =>
      refine .call (fun name hname scope => ?_)
        (hbelow ⟨callee, "callee"⟩ (by simp [Expr.children]) (by simp))
        fun id hid => hbelow ⟨id, "args"⟩ (by simp [Expr.children, held, hid]) (by simp)
      obtain ⟨less, rfl⟩ := (hdepth ⟨callee, "callee"⟩ (by simp [Expr.children])).pos
      rw [exprTo_succ hname]
      rfl
    | method receiver name args =>
      exact .method (hbelow ⟨receiver, "receiver"⟩ (by simp [Expr.children]) (by simp))
        fun id hid => hbelow ⟨id, "args"⟩ (by simp [Expr.children, held, hid]) (by simp)
    | index target position =>
      exact .index (hbelow ⟨target, "target"⟩ (by simp [Expr.children]) (by simp))
        (hbelow ⟨position, "index"⟩ (by simp [Expr.children]) (by simp))
    | member target name =>
      exact .member (hbelow ⟨target, "target"⟩ (by simp [Expr.children]) (by simp))
    | _ =>
      intro scope start tokens ht
      cases ht

/-- **The text of an expression shows what its tokens show.**  Where the expression has tokens, it
has a text, and the two differ in blanks only. -/
theorem ink_expr (view : View) (id : NodeId) (scope : Scope) (tokens : Tokens)
    (halike : view.arena.Throughout (view.lang.Alike view.arena) id)
    (hkeep : view.lang = .python → view.isOn .keepComparisons = true)
    (htokens : view.lang.linearize view.arena id = .ok tokens) :
    ∃ text, view.expr id scope = .ok text scope ∧
      Text.ink text = Text.ink (String.join (tokens.toList.map Token.value)) := by
  obtain ⟨e, he⟩ := halike.exists_expr
  rw [Token.ink_join]
  exact exprTo_agrees hkeep _ id halike halike.grounded.to_depthBound scope 0 _
    (Linear.exprTo_of_linearize he htokens)

/-- `not a < b < c`: a chain under an operator that is a word. -/
theorem ink_expr_chain :
    let arena : Arena := ⟨#[.expr (.ident "a"), .expr (.ident "b"), .expr (.ident "b"),
      .expr (.ident "c"), .expr (.binary .lt ⟨0⟩ ⟨1⟩), .expr (.binary .lt ⟨2⟩ ⟨3⟩),
      .expr (.compound [⟨4⟩, ⟨5⟩]), .expr (.unary .not ⟨6⟩)]⟩
    let view : View := ⟨⟨arena, ⟨7⟩⟩, .python, { keepComparisons := some true }⟩
    ∃ tokens text, Language.python.linearize arena ⟨7⟩ = .ok tokens ∧
      view.expr ⟨7⟩ {} = .ok text {} ∧
      Text.ink text = Text.ink (String.join (tokens.toList.map Token.value)) := by
  intro arena view
  have hleaf : ∀ (id : NodeId) (name : String), arena.expr id = .ok (.ident name) →
      arena.Throughout (Language.python.Alike arena) id := fun id name he =>
    .intro he trivial (by simp [Expr.children]) (by simp [Expr.children])
  have hless : ∀ (id left right : NodeId), arena.expr id = .ok (.binary .lt left right) →
      arena.Throughout (Language.python.Alike arena) left →
      arena.Throughout (Language.python.Alike arena) right →
      arena.Throughout (Language.python.Alike arena) id := fun id left right he hl hr =>
    .intro he (by simp [Language.Alike]) (by simp [Expr.children, hl, hr]) (by simp [Expr.children])
  have hfirst := hless ⟨4⟩ ⟨0⟩ ⟨1⟩ rfl (hleaf _ "a" rfl) (hleaf _ "b" rfl)
  have hsecond := hless ⟨5⟩ ⟨2⟩ ⟨3⟩ rfl (hleaf _ "b" rfl) (hleaf _ "c" rfl)
  have hchain : arena.Throughout (Language.python.Alike arena) ⟨6⟩ :=
    .intro (e := .compound [⟨4⟩, ⟨5⟩]) rfl trivial
      (by simp [Expr.children, held, hfirst, hsecond]) (by simp [Expr.children, held])
  have hnot : arena.Throughout (Language.python.Alike arena) ⟨7⟩ :=
    .intro (e := .unary .not ⟨6⟩) rfl trivial (by simp [Expr.children, hchain])
      (by simp [Expr.children])
  obtain ⟨text, h⟩ := ink_expr view ⟨7⟩ {} _ hnot (fun _ => rfl) rfl
  exact ⟨_, text, rfl, h⟩

end View

end Interlingua
