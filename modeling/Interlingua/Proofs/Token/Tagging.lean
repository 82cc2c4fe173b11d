import Interlingua.Language.Basic
import Interlingua.Proofs.Token.Term

/-!
# Operands as spans

An operand tag names its operator by position.  The tokens of an expression fall into *phrases*,
each of them an operator with its operands around it, and tokens that are no operands; what was
tagged inside an operand is tagged over as a whole.

* `Token.IsBalanced` — every bracket that is opened is closed by its counterpart, in turn.
* `Token.Phrase` — an operator with its operands; a ternary operator has one between its two parts.
* `Token.Tagged` — tokens that fall into phrases, from a position on.
* `Tokens.Spans` — the operands of an operator are three spans around it.
* `Tagged.exists_spans`, `Tagged.exists_operator` — **in tokens that fall into phrases the operands
  of each operator are spans, and a tag names an operator that is no operand itself.**
-/

namespace Interlingua

/-! ## Brackets -/

/-- The kind of the bracket that closes one. -/
def TokenKind.closing? : TokenKind → Option TokenKind
  | .openBrace => some .closeBrace
  | .subscriptOpenBrace => some .subscriptCloseBrace
  | .callOpenBrace => some .callCloseBrace
  | .compoundOpenBrace => some .compoundCloseBrace
  | _ => none

namespace Token

/-- The brackets that are still to be closed after one more token, the innermost first; none if it
closes another one than the innermost. -/
def pending (stack : List TokenKind) (token : Token) : Option (List TokenKind) :=
  match token.kind.closing? with
  | some closing => some (closing :: stack)
  | none =>
    if token.kind.isCloseBrace then
      match stack with
      | [] => none
      | innermost :: outer => if innermost = token.kind then some outer else none
    else some stack

/-- Every bracket that is opened is closed by its counterpart, in turn, and no other is closed. -/
def IsBalanced (tokens : List Token) : Prop := tokens.foldlM pending [] = some []

variable {tokens first second : List Token}

theorem pending_append {stack next : List TokenKind} {token : Token}
    (h : pending stack token = some next) (outer : List TokenKind) :
    pending (stack ++ outer) token = some (next ++ outer) := by
  unfold pending at h ⊢
  cases hclosing : token.kind.closing? with
  | some closing =>
    rw [hclosing] at h
    cases h
    rfl
  | none =>
    rw [hclosing] at h
    cases hclose : token.kind.isCloseBrace with
    | false =>
      simp only [hclose, Bool.false_eq_true, if_false] at h ⊢
      cases h
      rfl
    | true =>
      simp only [hclose, if_true] at h ⊢
      cases stack with
      | nil => cases h
      | cons innermost rest =>
        change (if innermost = token.kind then some rest else none) = some next at h
        change (if innermost = token.kind then some (rest ++ outer) else none) =
          some (next ++ outer)
        by_cases heq : innermost = token.kind
        · rw [if_pos heq] at h ⊢
          cases h
          rfl
        · rw [if_neg heq] at h
          cases h

theorem foldlM_pending_append {stack next : List TokenKind}
    (h : tokens.foldlM pending stack = some next) (outer : List TokenKind) :
    tokens.foldlM pending (stack ++ outer) = some (next ++ outer) := by
  induction tokens generalizing stack with
  | nil =>
    cases h
    rfl
  | cons token tokens ih =>
    rw [List.foldlM_cons] at h ⊢
    obtain ⟨middle, hmiddle, h⟩ := Option.bind_eq_some_iff.1 h
    exact Option.bind_eq_some_iff.2 ⟨middle ++ outer, pending_append hmiddle outer, ih h⟩

namespace IsBalanced

/-- Balanced tokens leave the brackets around them as they are. -/
theorem foldlM_eq (h : IsBalanced tokens) (stack : List TokenKind) :
    tokens.foldlM pending stack = some stack := foldlM_pending_append h stack

theorem nil : IsBalanced [] := rfl

theorem append (h : IsBalanced first) (h' : IsBalanced second) : IsBalanced (first ++ second) := by
  unfold IsBalanced
  rw [List.foldlM_append, h.foldlM_eq]
  exact h'

/-- A token that is no bracket. -/
theorem single {token : Token} (hopen : token.kind.closing? = none)
    (hclose : token.kind.isCloseBrace = false) : IsBalanced [token] := by
  simp [IsBalanced, pending, hopen, hclose]

theorem operator (form : OperatorForm) : IsBalanced [.ofForm form] := single rfl rfl

theorem cons {token : Token} (h : IsBalanced [token]) (h' : IsBalanced tokens) :
    IsBalanced (token :: tokens) := h.append h'

/-- Balanced tokens between a bracket and its counterpart. -/
theorem enclosed {opening closing : TokenKind} (hkind : opening.closing? = some closing)
    (h : IsBalanced tokens) (before after : String) :
    IsBalanced (.plain before opening :: tokens ++ [.plain after closing]) := by
  have hclose : closing.closing? = none ∧ closing.isCloseBrace = true := by
    cases opening <;> cases hkind <;> decide
  unfold IsBalanced
  have hopening : pending [] (.plain before opening) = some [closing] := by
    simp [pending, plain, hkind]
  have hclosing : pending [closing] (.plain after closing) = some [] := by
    simp [pending, plain, hclose.1, hclose.2]
  rw [List.cons_append, List.foldlM_cons, hopening]
  change List.foldlM pending [closing] (tokens ++ [Token.plain after closing]) = some []
  rw [List.foldlM_append, h.foldlM_eq]
  change List.foldlM pending [closing] [.plain after closing] = some []
  rw [List.foldlM_cons, hclosing]
  rfl

theorem tagAll (h : IsBalanced tokens) (operator : Nat) (side : Side) :
    IsBalanced (Token.tagAll operator side tokens) := by
  unfold IsBalanced Token.tagAll
  rw [List.foldlM_map]
  exact h

end IsBalanced

/-! ## The positions of operands -/

/-- The positions, from one on, of the tokens that are an operand of an operator. -/
def positions (operator : Nat) (side : Side) : Nat → List Token → List Nat
  | _, [] => []
  | start, token :: rest =>
    if token.tag = some ⟨operator, side⟩ then start :: positions operator side (start + 1) rest
    else positions operator side (start + 1) rest

variable {operator other start : Nat} {side side' : Side}

theorem positions_cons (token : Token) (tokens : List Token) :
    positions operator side start (token :: tokens) =
      if token.tag = some ⟨operator, side⟩ then start :: positions operator side (start + 1) tokens
      else positions operator side (start + 1) tokens := rfl

theorem positions_append (operator : Nat) (side : Side) (start : Nat) (first second : List Token) :
    positions operator side start (first ++ second) =
      positions operator side start first ++
        positions operator side (start + first.length) second := by
  induction first generalizing start with
  | nil => rfl
  | cons token first ih =>
    rw [List.cons_append, positions_cons, positions_cons, ih, List.length_cons]
    have hnext : start + 1 + first.length = start + (first.length + 1) := by omega
    split
    · rw [hnext, List.cons_append]
    · rw [hnext]

theorem positions_cons_of_ne {token : Token} (h : token.tag ≠ some ⟨operator, side⟩)
    (tokens : List Token) :
    positions operator side start (token :: tokens) =
      positions operator side (start + 1) tokens := by
  rw [positions_cons, if_neg h]

theorem positions_tagAll_self (operator : Nat) (side : Side) (start : Nat) (tokens : List Token) :
    positions operator side start (tagAll operator side tokens) =
      List.range' start tokens.length := by
  induction tokens generalizing start with
  | nil => rfl
  | cons token tokens ih =>
    have hhead : (token.tagged ⟨operator, side⟩).tag = some ⟨operator, side⟩ := rfl
    rw [tagAll, List.map_cons, positions_cons, if_pos hhead, List.length_cons, List.range'_succ]
    exact congrArg (start :: ·) (ih (start + 1))

theorem positions_tagAll_of_ne (h : (⟨other, side'⟩ : OperandTag) ≠ ⟨operator, side⟩)
    (tokens : List Token) :
    positions operator side start (tagAll other side' tokens) = [] := by
  induction tokens generalizing start with
  | nil => rfl
  | cons token tokens ih =>
    have hhead : (token.tagged ⟨other, side'⟩).tag ≠ some ⟨operator, side⟩ := by
      intro heq
      exact h (Option.some.inj heq)
    rw [tagAll, List.map_cons, positions_cons_of_ne hhead]
    exact ih

theorem mem_positions {index : Nat} {token : Token} (hget : tokens[index]? = some token)
    (htag : token.tag = some ⟨operator, side⟩) :
    start + index ∈ positions operator side start tokens := by
  induction tokens generalizing start index with
  | nil => cases hget
  | cons head tokens ih =>
    cases index with
    | zero =>
      cases hget
      rw [positions_cons, if_pos htag]
      exact List.mem_cons_self ..
    | succ index =>
      have hmem : start + 1 + index ∈ positions operator side (start + 1) tokens := ih hget
      rw [Nat.add_right_comm] at hmem
      rw [positions_cons]
      split
      · exact List.mem_cons_of_mem _ hmem
      · exact hmem

theorem filter_range'_eq_positions (get? : Nat → Option Token)
    (h : ∀ index, get? (start + index) = tokens[index]?) :
    ((List.range' start tokens.length).filter fun index =>
      (get? index).any fun token => token.tag == some ⟨operator, side⟩) =
      positions operator side start tokens := by
  induction tokens generalizing start with
  | nil => rfl
  | cons token tokens ih =>
    have hhead : get? start = some token := h 0
    have htail : ∀ index, get? (start + 1 + index) = tokens[index]? := by
      intro index
      rw [Nat.add_right_comm]
      exact h (index + 1)
    rw [List.length_cons, List.range'_succ, List.filter_cons, hhead, positions_cons, ih htail]
    by_cases htag : token.tag = some ⟨operator, side⟩ <;> simp [htag]

end Token

/-- The operands of an operator are where the tokens stand that carry its tag. -/
theorem Tokens.operandsOf_eq (tokens : Tokens) (operator : Nat) (side : Side) :
    tokens.operandsOf operator side = Token.positions operator side 0 tokens.toList := by
  rw [operandsOf, List.range_eq_range']
  exact Token.filter_range'_eq_positions tokens.get? fun index => by rw [Nat.zero_add]; rfl

/-! ## Phrases -/

namespace Token

/-- An operator with its operands; an operand that is missing has no tokens. -/
structure Phrase (lang : Language) where
  left : List Token
  form : OperatorForm
  /-- The operand between the two parts of the ternary operator. -/
  center : Option (List Token)
  right : List Token
  form_ternary : center.isSome = true → form = lang.operators.ternary.1
  balanced_left : IsBalanced left
  balanced_center : ∀ tokens ∈ center, IsBalanced tokens
  balanced_right : IsBalanced right

namespace Phrase

variable {lang : Language}

/-- An operator in one part, with what it has on its sides. -/
def around {left right : List Token} (hleft : IsBalanced left) (form : OperatorForm)
    (hright : IsBalanced right) : Phrase lang where
  left := left
  form := form
  center := none
  right := right
  form_ternary h := nomatch h
  balanced_left := hleft
  balanced_center _ h := nomatch h
  balanced_right := hright

variable (phrase : Phrase lang) (start : Nat)

/-- Where the operator stands, in a phrase that starts at a position. -/
def operator : Nat := start + phrase.left.length

/-- The tokens from behind the operator up to the right operand. -/
def middle : List Token :=
  match phrase.center with
  | some tokens =>
    tagAll (phrase.operator start) .center tokens ++ [.ofForm lang.operators.ternary.2]
  | none => []

def tokens : List Token :=
  tagAll (phrase.operator start) .left phrase.left ++ .ofForm phrase.form ::
    (phrase.middle start ++ tagAll (phrase.operator start) .right phrase.right)

/-- The operand in a place. -/
def operand : Side → List Token
  | .left => phrase.left
  | .center => phrase.center.getD []
  | .right => phrase.right

/-- Where an operand starts. -/
def operandStart : Side → Nat
  | .left => start
  | .center => phrase.operator start + 1
  | .right => phrase.operator start + 1 + (phrase.middle start).length

theorem tokens_around {left right : List Token} (hleft : IsBalanced left) (form : OperatorForm)
    (hright : IsBalanced right) (start : Nat) :
    (around hleft form hright : Phrase lang).tokens start =
      tagAll (start + left.length) .left left ++
        .ofForm form :: tagAll (start + left.length) .right right := rfl

theorem isBalanced_tokens : IsBalanced (phrase.tokens start) := by
  have hmiddle : IsBalanced (phrase.middle start) := by
    unfold middle
    cases hcenter : phrase.center with
    | none => exact .nil
    | some tokens =>
      exact ((phrase.balanced_center tokens hcenter).tagAll _ _).append (.operator _)
  have hafter := hmiddle.append
    (phrase.balanced_right.tagAll (phrase.operator start) .right)
  exact (phrase.balanced_left.tagAll _ _).append ((IsBalanced.operator _).append hafter)

/-- In a phrase, each operand of its operator is one span. -/
theorem positions_tokens (side : Side) :
    positions (phrase.operator start) side start (phrase.tokens start) =
      List.range' (phrase.operandStart start side) (phrase.operand side).length := by
  have hform : (ofForm phrase.form).tag ≠ some ⟨phrase.operator start, side⟩ := nofun
  have hsecond : (ofForm lang.operators.ternary.2).tag ≠ some ⟨phrase.operator start, side⟩ := nofun
  have hlength : start + (tagAll (phrase.operator start) .left phrase.left).length =
      phrase.operator start := by simp [tagAll, operator]
  have hmiddle : positions (phrase.operator start) side (phrase.operator start + 1)
      (phrase.middle start) =
        if side = .center then
          List.range' (phrase.operator start + 1) (phrase.center.getD []).length
        else [] := by
    unfold middle
    cases phrase.center with
    | none => cases side <;> rfl
    | some tokens =>
      rw [positions_append, positions_cons_of_ne hsecond, positions, List.append_nil]
      cases side with
      | center => exact positions_tagAll_self ..
      | left | right => exact positions_tagAll_of_ne (by simp) tokens
  rw [tokens, positions_append, hlength, positions_cons_of_ne hform, positions_append, hmiddle]
  cases side with
  | left =>
    rw [positions_tagAll_self, positions_tagAll_of_ne (by simp)]
    simp [operandStart, operand]
  | center =>
    rw [positions_tagAll_of_ne (by simp), positions_tagAll_of_ne (by simp)]
    simp [operandStart, operand]
  | right =>
    rw [positions_tagAll_of_ne (by simp), positions_tagAll_self]
    simp [operandStart, operand]

/-- A phrase has no operands of other operators. -/
theorem positions_tokens_of_ne {other : Nat} (h : other ≠ phrase.operator start) (side : Side)
    (position : Nat) : positions other side position (phrase.tokens start) = [] := by
  have hne : ∀ side', (⟨phrase.operator start, side'⟩ : OperandTag) ≠ ⟨other, side⟩ := by
    intro side' heq
    exact h (congrArg OperandTag.operator heq).symm
  have hform : (ofForm phrase.form).tag ≠ some ⟨other, side⟩ := nofun
  have hsecond : (ofForm lang.operators.ternary.2).tag ≠ some ⟨other, side⟩ := nofun
  have hmiddle : ∀ position, positions other side position (phrase.middle start) = [] := by
    intro position
    unfold middle
    cases phrase.center with
    | none => rfl
    | some tokens =>
      rw [positions_append, positions_tagAll_of_ne (hne .center), positions_cons_of_ne hsecond]
      rfl
  rw [tokens, positions_append, positions_tagAll_of_ne (hne .left), positions_cons_of_ne hform,
    positions_append, hmiddle, positions_tagAll_of_ne (hne .right)]
  rfl

end Phrase

/-- Tokens that fall into phrases and tokens that are no operands, from a position on. -/
inductive Tagged (lang : Language) : Nat → List Token → Prop
  | nil (start : Nat) : Tagged lang start []
  | free {start : Nat} {token : Token} {rest : List Token} (hfree : token.tag = none)
      (hrest : Tagged lang (start + 1) rest) : Tagged lang start (token :: rest)
  | phrase {start : Nat} {rest : List Token} (phrase : Phrase lang)
      (hrest : Tagged lang (start + (phrase.tokens start).length) rest) :
      Tagged lang start (phrase.tokens start ++ rest)

namespace Tagged

variable {lang : Language} {start : Nat} {tokens first second : List Token}

theorem append (h : Tagged lang start first) (h' : Tagged lang (start + first.length) second) :
    Tagged lang start (first ++ second) := by
  induction h with
  | nil start => exact h'
  | free hfree hrest ih =>
    refine .free hfree (ih ?_)
    rw [List.length_cons] at h'
    rwa [Nat.add_right_comm, Nat.add_assoc]
  | phrase phrase hrest ih =>
    rw [List.append_assoc]
    refine .phrase phrase (ih ?_)
    rwa [List.length_append, ← Nat.add_assoc] at h'

/-- A phrase alone. -/
theorem of_phrase (phrase : Phrase lang) (start : Nat) :
    Tagged lang start (phrase.tokens start) := by
  have h : Tagged lang start (phrase.tokens start ++ []) := .phrase phrase (.nil _)
  rwa [List.append_nil] at h

/-- Operators own tokens only where the phrases are. -/
theorem positions_eq_nil (h : Tagged lang start tokens) {operator : Nat}
    (hout : operator < start ∨ start + tokens.length ≤ operator) (side : Side) :
    positions operator side start tokens = [] := by
  induction h with
  | nil start => rfl
  | free hfree hrest ih =>
    rw [List.length_cons] at hout
    rw [positions_cons_of_ne (by rw [hfree]; nofun)]
    exact ih (by omega)
  | @phrase start rest phrase hrest ih =>
    rw [List.length_append] at hout
    have hne : operator ≠ phrase.operator start := by
      have hlength : phrase.operator start < start + (phrase.tokens start).length := by
        simp [Phrase.operator, Phrase.tokens, tagAll]
      have hstart : start ≤ phrase.operator start := Nat.le_add_right ..
      omega
    rw [positions_append, phrase.positions_tokens_of_ne start hne, ih (by omega)]
    rfl

/-- An operator that owns tokens owns those of one phrase. -/
theorem exists_phrase (h : Tagged lang start tokens) {operator : Nat} {owned : Side}
    (hne : positions operator owned start tokens ≠ []) :
    ∃ (before : List Token) (phrase : Phrase lang) (after : List Token),
      tokens = before ++ (phrase.tokens (start + before.length) ++ after) ∧
      operator = phrase.operator (start + before.length) ∧
      ∀ side, positions operator side start tokens =
        positions operator side (start + before.length)
          (phrase.tokens (start + before.length)) := by
  induction h with
  | nil start => exact absurd rfl hne
  | @free start token rest hfree hrest ih =>
    have hskip : ∀ side, positions operator side start (token :: rest) =
        positions operator side (start + 1) rest := fun side =>
      positions_cons_of_ne (by rw [hfree]; nofun) rest
    rw [hskip] at hne
    obtain ⟨before, phrase, after, hsplit, hoperator, hall⟩ := ih hne
    have hnext : start + 1 + before.length = start + (token :: before).length := by
      rw [List.length_cons]
      omega
    rw [hnext] at hsplit hoperator hall
    exact ⟨token :: before, phrase, after, by rw [hsplit]; rfl, hoperator,
      fun side => (hskip side).trans (hall side)⟩
  | @phrase start rest phrase hrest ih =>
    by_cases hown : operator = phrase.operator start
    · refine ⟨[], phrase, rest, rfl, hown, fun side => ?_⟩
      have hbefore : operator < start + (phrase.tokens start).length := by
        rw [hown]
        simp [Phrase.operator, Phrase.tokens, tagAll]
      rw [positions_append, hrest.positions_eq_nil (.inl hbefore), List.append_nil]
      rfl
    · have hskip : ∀ side, positions operator side start (phrase.tokens start ++ rest) =
          positions operator side (start + (phrase.tokens start).length) rest := by
        intro side
        rw [positions_append, phrase.positions_tokens_of_ne start hown]
        rfl
      rw [hskip] at hne
      obtain ⟨before, found, after, hsplit, hoperator, hall⟩ := ih hne
      have hnext : start + (phrase.tokens start).length + before.length =
          start + (phrase.tokens start ++ before).length := by
        rw [List.length_append]
        omega
      rw [hnext] at hsplit hoperator hall
      refine ⟨phrase.tokens start ++ before, found, after, ?_, hoperator,
        fun side => (hskip side).trans (hall side)⟩
      rw [hsplit]
      simp

end Tagged

end Token

/-! ## Spans of operands -/

namespace Tokens

/-- The tokens of a span. -/
def slice (tokens : Tokens) (span : Span) : List Token :=
  (tokens.toList.drop span.start).take span.length

/-- The operands of an operator are three spans around it: one ends before it, one starts behind it,
and the one between goes from it to the second part of the ternary operator, if there is such a
part. -/
structure Spans (lang : Language) (tokens : Tokens) (operator : Nat) (span : Side → Span) :
    Prop where
  operands : ∀ side, tokens.operandsOf operator side =
    List.range' (span side).start (span side).length
  balanced : ∀ side, Token.IsBalanced (tokens.slice (span side))
  ordered : ∀ side, (span side).start ≤ (span side).stop
  left_stop : (span .left).stop = operator
  center_start : (span .center).start = operator + 1
  right_start :
    (span .center).isEmpty = true ∧ (span .right).start = operator + 1 ∨
      tokens.get? operator = some (.ofForm lang.operators.ternary.1) ∧
      tokens.get? (span .center).stop = some (.ofForm lang.operators.ternary.2) ∧
      (span .right).start = (span .center).stop + 1
  right_stop : (span .right).stop ≤ tokens.size

end Tokens

namespace Token

variable {lang : Language} {tokens : Tokens}

namespace Phrase

variable (phrase : Phrase lang) (start : Nat)

/-- The span of an operand. -/
def span (side : Side) : Span :=
  ⟨phrase.operandStart start side, phrase.operandStart start side + (phrase.operand side).length⟩

theorem isBalanced_operand (side : Side) : IsBalanced (phrase.operand side) := by
  cases side with
  | left => exact phrase.balanced_left
  | right => exact phrase.balanced_right
  | center =>
    cases hcenter : phrase.center with
    | none =>
      rw [operand, hcenter]
      exact .nil
    | some tokens =>
      rw [operand, hcenter]
      exact phrase.balanced_center tokens hcenter

/-- An operand that has tokens stands where its span says. -/
theorem exists_operand_split (side : Side) (hne : phrase.operand side ≠ []) :
    ∃ before after, phrase.tokens start =
        before ++ (tagAll (phrase.operator start) side (phrase.operand side) ++ after) ∧
      start + before.length = phrase.operandStart start side := by
  cases side with
  | left => exact ⟨[], _, rfl, rfl⟩
  | right =>
    refine ⟨tagAll (phrase.operator start) .left phrase.left ++
      Token.ofForm phrase.form :: phrase.middle start, [], ?_, ?_⟩
    · simp [tokens, operand]
    · simp [operandStart, operator, tagAll]
      omega
  | center =>
    cases hcenter : phrase.center with
    | none =>
      rw [operand, hcenter] at hne
      exact absurd rfl hne
    | some center =>
      refine ⟨tagAll (phrase.operator start) .left phrase.left ++ [Token.ofForm phrase.form],
        .ofForm lang.operators.ternary.2 :: tagAll (phrase.operator start) .right phrase.right,
        ?_, ?_⟩
      · simp [tokens, operand, middle, hcenter]
      · simp [operandStart, operator, tagAll]
        omega

theorem exists_operator_split :
    ∃ before after, phrase.tokens start = before ++ .ofForm phrase.form :: after ∧
      start + before.length = phrase.operator start :=
  ⟨tagAll (phrase.operator start) .left phrase.left, _, rfl, by simp [operator, tagAll]⟩

/-- The second part of a ternary operator stands between two of its operands. -/
theorem exists_second_split {center : List Token} (h : phrase.center = some center) :
    ∃ before after, phrase.tokens start = before ++ .ofForm lang.operators.ternary.2 :: after ∧
      start + before.length = (phrase.span start .center).stop := by
  refine ⟨tagAll (phrase.operator start) .left phrase.left ++
      Token.ofForm phrase.form :: tagAll (phrase.operator start) .center center,
    tagAll (phrase.operator start) .right phrase.right, ?_, ?_⟩
  · simp [tokens, middle, h]
  · simp [span, operandStart, operand, operator, tagAll, h]
    omega

/-- A phrase among other tokens has its operands around its operator. -/
theorem spans {before after : List Token} (hsplit : tokens.toList =
      before ++ (phrase.tokens before.length ++ after))
    (hall : ∀ side, positions (phrase.operator before.length) side 0 tokens.toList =
      positions (phrase.operator before.length) side before.length
        (phrase.tokens before.length)) :
    tokens.Spans lang (phrase.operator before.length) (phrase.span before.length) where
  operands side := by
    rw [Tokens.operandsOf_eq, hall, phrase.positions_tokens]
    simp [span, Span.length]
  balanced side := by
    by_cases hne : phrase.operand side = []
    · have hempty : tokens.slice (phrase.span before.length side) = [] := by
        simp [Tokens.slice, span, Span.length, hne]
      rw [hempty]
      exact .nil
    · obtain ⟨front, back, hphrase, hstart⟩ := phrase.exists_operand_split before.length side hne
      have hslice : tokens.slice (phrase.span before.length side) =
          tagAll (phrase.operator before.length) side (phrase.operand side) := by
        rw [Tokens.slice, hsplit, hphrase, span, Span.length, ← hstart]
        simp [tagAll]
      rw [hslice]
      exact (phrase.isBalanced_operand side).tagAll _ _
  ordered side := Nat.le_add_right ..
  left_stop := rfl
  center_start := rfl
  right_start := by
    cases hcenter : phrase.center with
    | none => exact .inl (by simp [span, operandStart, operand, middle, hcenter, Span.isEmpty])
    | some center =>
      obtain ⟨front, back, hphrase, hat⟩ := phrase.exists_operator_split before.length
      obtain ⟨front', back', hphrase', hat'⟩ := phrase.exists_second_split before.length hcenter
      have hform : phrase.form = lang.operators.ternary.1 :=
        phrase.form_ternary (by rw [hcenter]; rfl)
      refine .inr ⟨?_, ?_, ?_⟩
      · rw [Tokens.get?, hsplit, hphrase, ← hat, hform]
        simp
      · rw [Tokens.get?, hsplit, hphrase', ← hat']
        simp
      · simp [span, operandStart, operand, middle, hcenter, tagAll]
        omega
  right_stop := by
    have hsize : tokens.size =
        before.length + (phrase.tokens before.length).length + after.length := by
      simp [Tokens.size, hsplit, Nat.add_assoc]
    have hlength : (phrase.span before.length .right).stop =
        before.length + (phrase.tokens before.length).length := by
      simp [span, operandStart, operand, operator, Phrase.tokens, tagAll]
      omega
    omega

end Phrase

/-- **In tokens that fall into phrases the operands of each operator are spans around it.** -/
theorem Tagged.exists_spans (h : Tagged lang 0 tokens.toList) {operator : Nat}
    (hin : operator < tokens.size) : ∃ span, tokens.Spans lang operator span := by
  by_cases howned : ∃ owned, positions operator owned 0 tokens.toList ≠ []
  · obtain ⟨owned, hne⟩ := howned
    obtain ⟨before, phrase, after, hsplit, rfl, hall⟩ := h.exists_phrase hne
    rw [Nat.zero_add] at hsplit hall ⊢
    exact ⟨phrase.span before.length, phrase.spans hsplit hall⟩
  · have hnone : ∀ side, positions operator side 0 tokens.toList = [] := fun side =>
      Classical.not_not.1 fun hne => howned ⟨side, hne⟩
    -- an operator without operands has empty ones right beside it
    let span : Side → Span := fun side =>
      if side = .left then ⟨operator, operator⟩ else ⟨operator + 1, operator + 1⟩
    have hlength : ∀ side, (span side).length = 0 := by
      intro side
      cases side <;> exact Nat.sub_self _
    refine ⟨span, ?_, ?_, ?_, rfl, rfl, .inl ⟨beq_self_eq_true (operator + 1), rfl⟩, hin⟩
    · intro side
      rw [Tokens.operandsOf_eq, hnone, hlength]
      rfl
    · intro side
      rw [Tokens.slice, hlength, List.take_zero]
      exact .nil
    · intro side
      cases side <;> exact Nat.le_refl _

/-- **A tag names an operator that is no operand itself.** -/
theorem Tagged.exists_operator (h : Tagged lang 0 tokens.toList) {index : Nat} {token : Token}
    {tag : OperandTag} (hget : tokens.get? index = some token) (htag : token.tag = some tag) :
    ∃ operator, tokens.get? tag.operator = some operator ∧ operator.isOperator = true ∧
      operator.tag = none := by
  have howned : 0 + index ∈ positions tag.operator tag.side 0 tokens.toList :=
    mem_positions hget htag
  obtain ⟨before, phrase, after, hsplit, hoperator, -⟩ :=
    h.exists_phrase (List.ne_nil_of_mem howned)
  rw [Nat.zero_add] at hsplit hoperator
  obtain ⟨front, back, hphrase, hat⟩ := phrase.exists_operator_split before.length
  refine ⟨.ofForm phrase.form, ?_, rfl, rfl⟩
  rw [hoperator, Tokens.get?, hsplit, hphrase, ← hat]
  simp

end Token

end Interlingua
