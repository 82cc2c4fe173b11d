import Interlingua.Proofs.Emit.Agreement
import Interlingua.Proofs.Token.Tagging

/-!
# Operands in the tokens of a tree

Each way of putting runs of tokens together keeps that the tokens fall into phrases and that their
brackets are closed: an operator that joins runs tags each of them over as a whole.

* `Piece.IsPhrased` — the tokens of a run fall into phrases, wherever it starts.
* `Linear.isPhrased_exprWith` — one layer of an expression keeps it.
* `Tokens.Flanked` — everything before an operator is its left operand, and everything behind it its
  right one.
* `Language.linearize_operands` — **in the tokens of an expression or a statement the operands of
  each operator are spans around it, and an operator at the root has all other tokens.**
-/

namespace Interlingua

open Token

/-! ## Runs that fall into phrases -/

/-- The tokens of a run fall into phrases, wherever it starts, and their brackets are closed. -/
def Piece.IsPhrased (lang : Language) (piece : Piece) : Prop :=
  ∀ (start : Nat) (tokens : List Token), piece start = .ok tokens →
    Tagged lang start tokens ∧ IsBalanced tokens

namespace Piece

theorem append_assoc (first second third : Piece) :
    first ++ second ++ third = first ++ (second ++ third) := by
  funext start
  change (do
      let before ← (do
        let before ← first start
        let after ← second (start + before.length)
        return before ++ after : Except TokenError (List Token))
      let after ← third (start + before.length)
      return before ++ after) = (do
      let before ← first start
      let after ← (do
        let before' ← second (start + before.length)
        let after ← third (start + before.length + before'.length)
        return before' ++ after : Except TokenError (List Token))
      return before ++ after : Except TokenError (List Token))
  simp only [bind_assoc, pure_bind, List.append_assoc, List.length_append, Nat.add_assoc]

namespace IsPhrased

variable {lang : Language} {p q r : Piece} {form : OperatorForm}

theorem refused (error : TokenError) : IsPhrased lang fun _ => .error error := nofun

theorem empty : IsPhrased lang Piece.empty := by
  intro start tokens h
  cases h
  exact ⟨.nil start, .nil⟩

theorem plain (value : String) {kind : TokenKind} (hopen : kind.closing? = none)
    (hclose : kind.isCloseBrace = false) : IsPhrased lang (Piece.plain value kind) := by
  intro start tokens h
  cases h
  exact ⟨.free rfl (.nil _), .single hopen hclose⟩

theorem append (hp : IsPhrased lang p) (hq : IsPhrased lang q) : IsPhrased lang (p ++ q) := by
  intro start tokens h
  obtain ⟨before, after, hbefore, hafter, rfl⟩ := append_ok h
  obtain ⟨htagged, hbalanced⟩ := hp start before hbefore
  obtain ⟨htagged', hbalanced'⟩ := hq _ after hafter
  exact ⟨htagged.append htagged', hbalanced.append hbalanced'⟩

/-- A run between a bracket and its counterpart. -/
theorem enclosed {opening closing : TokenKind} (hkind : opening.closing? = some closing)
    (hp : IsPhrased lang p) (before after : String) :
    IsPhrased lang (Piece.plain before opening ++ p ++ Piece.plain after closing) := by
  intro start tokens h
  obtain ⟨opened, last, hopened, hlast, rfl⟩ := append_ok h
  obtain ⟨first, inner, hfirst, hinner, rfl⟩ := append_ok hopened
  cases hfirst
  cases hlast
  obtain ⟨htagged, hbalanced⟩ := hp _ inner hinner
  refine ⟨.free rfl (htagged.append (.free rfl (.nil _))), ?_⟩
  exact hbalanced.enclosed hkind before after

theorem concat {pieces : List Piece} (h : ∀ piece ∈ pieces, IsPhrased lang piece) :
    IsPhrased lang (Piece.concat pieces) := by
  induction pieces with
  | nil => exact .empty
  | cons piece pieces ih =>
    exact (h piece (by simp)).append (ih fun other hother => h other (by simp [hother]))

theorem commaSeparated : ∀ {pieces : List Piece}, (∀ piece ∈ pieces, IsPhrased lang piece) →
    IsPhrased lang (Piece.commaSeparated pieces)
  | [], _ => .empty
  | [piece], h => h piece (by simp)
  | piece :: next :: pieces, h => by
    have hrest : IsPhrased lang (Piece.commaSeparated (next :: pieces)) :=
      commaSeparated fun other hother => h other (List.mem_cons_of_mem _ hother)
    have hcomma : IsPhrased lang (Piece.plain "," .comma) := .plain "," rfl rfl
    exact (h piece (by simp)).append (hcomma.append hrest)

theorem leading (hp : IsPhrased lang p) : IsPhrased lang (Piece.leading form p) := by
  intro start tokens h
  obtain ⟨operand, hoperand, h⟩ := bind_ok h
  cases h
  let phrase : Phrase lang := .around .nil form (hp _ operand hoperand).2
  exact ⟨.of_phrase phrase start, phrase.isBalanced_tokens start⟩

theorem trailing (hp : IsPhrased lang p) : IsPhrased lang (Piece.trailing form p) := by
  intro start tokens h
  obtain ⟨operand, hoperand, h⟩ := bind_ok h
  cases h
  let phrase : Phrase lang := .around (hp _ operand hoperand).2 form .nil
  exact ⟨.of_phrase phrase start, phrase.isBalanced_tokens start⟩

/-- An operator tags over the tokens that are already there. -/
theorem joined (hp : IsPhrased lang p) {start : Nat} {left tokens : List Token}
    (hleft : IsBalanced left) (h : Piece.joined start left form p = .ok tokens) :
    Tagged lang start tokens ∧ IsBalanced tokens := by
  obtain ⟨right, hright, h⟩ := bind_ok h
  cases h
  let phrase : Phrase lang := .around hleft form (hp _ right hright).2
  exact ⟨.of_phrase phrase start, phrase.isBalanced_tokens start⟩

theorem between (hp : IsPhrased lang p) (hq : IsPhrased lang q) :
    IsPhrased lang (Piece.between form p q) := by
  intro start tokens h
  obtain ⟨left, hleft, h⟩ := bind_ok h
  exact hq.joined (hp start left hleft).2 h

theorem ternary (hp : IsPhrased lang p) (hq : IsPhrased lang q) (hr : IsPhrased lang r) :
    IsPhrased lang (Piece.ternary lang.operators.ternary p q r) := by
  intro start tokens h
  obtain ⟨left, hleft, h⟩ := bind_ok h
  obtain ⟨center, hcenter, h⟩ := bind_ok h
  obtain ⟨right, hright, h⟩ := bind_ok h
  cases h
  let phrase : Phrase lang :=
    { left, form := lang.operators.ternary.1, center := some center, right
      form_ternary := fun _ => rfl
      balanced_left := (hp _ left hleft).2
      balanced_center := fun tokens htokens => by
        cases htokens
        exact (hq _ center hcenter).2
      balanced_right := (hr _ right hright).2 }
  have htokens : phrase.tokens start = tagAll (start + left.length) .left left ++
      .ofForm lang.operators.ternary.1 :: (tagAll (start + left.length) .center center ++
        .ofForm lang.operators.ternary.2 :: tagAll (start + left.length) .right right) := by
    simp [phrase, Phrase.tokens, Phrase.middle, Phrase.operator]
  rw [← htokens]
  exact ⟨.of_phrase phrase start, phrase.isBalanced_tokens start⟩

end IsPhrased

end Piece

/-! ## One layer -/

namespace Linear

variable {context : Context} (hbelow : ∀ id, (context.below id).IsPhrased context.lang)

include hbelow

theorem isPhrased_grouped (id : NodeId) : (grouped (context.below id)).IsPhrased context.lang :=
  (hbelow id).enclosed rfl _ _

theorem isPhrased_operand (parent : OperatorForm) (child : NodeId) (side : Side) :
    (operand context parent child side).IsPhrased context.lang := by
  intro start tokens h
  obtain ⟨wraps, -, h⟩ := Piece.bind_ok h
  cases wraps with
  | true => exact isPhrased_grouped hbelow child start tokens h
  | false => exact hbelow child start tokens h

theorem isPhrased_between (form : OperatorForm) (left right : NodeId) :
    (between context form left right).IsPhrased context.lang :=
  (isPhrased_operand hbelow form left .left).between (isPhrased_operand hbelow form right .right)

theorem isPhrased_accessed (target : NodeId) :
    (accessed context target).IsPhrased context.lang := isPhrased_operand hbelow _ target .left

theorem isPhrased_arguments (args : List NodeId) :
    (arguments context args).IsPhrased context.lang := by
  refine Piece.IsPhrased.enclosed rfl (.commaSeparated fun piece hpiece => ?_) _ _
  obtain ⟨arg, -, rfl⟩ := List.mem_map.1 hpiece
  exact hbelow arg

/-- An operand between two operators of a chain is tagged by the first of them, and then over by the
second: the first keeps its left operand only. -/
theorem tagged_chainRest {start : Nat} {left tokens : List Token} {items : List NodeId}
    (hleft : IsBalanced left) (h : chainRest context start left items = .ok tokens) :
    (items ≠ [] → Tagged context.lang start tokens) ∧ IsBalanced tokens := by
  induction items generalizing start left tokens with
  | nil =>
    cases h
    exact ⟨fun hne => absurd rfl hne, hleft⟩
  | cons item rest ih =>
    obtain ⟨⟨form, first, second⟩, -, h⟩ := Piece.bind_ok h
    obtain ⟨right, hright, h⟩ := Piece.bind_ok h
    obtain ⟨after, hafter, h⟩ := Piece.bind_ok h
    cases h
    have hbalanced : IsBalanced right := (isPhrased_operand hbelow form second .right _ _ hright).2
    obtain ⟨htagged, hbalanced'⟩ := ih (hbalanced.tagAll _ _) hafter
    refine ⟨fun _ => ?_, (hleft.tagAll _ _).append ((IsBalanced.operator form).cons hbalanced')⟩
    cases rest with
    | nil =>
      cases hafter
      let phrase : Phrase context.lang := .around hleft form hbalanced
      exact .of_phrase phrase start
    | cons next rest =>
      let phrase : Phrase context.lang := .around hleft form .nil
      have htokens : phrase.tokens start =
          tagAll (start + left.length) .left left ++ [Token.ofForm form] := rfl
      have hlength : start + (phrase.tokens start).length = start + left.length + 1 := by
        simp [htokens, tagAll, Nat.add_assoc]
      have htail : Tagged context.lang (start + (phrase.tokens start).length) after := by
        rw [hlength]
        exact htagged (by simp)
      have hsplit : phrase.tokens start ++ after =
          tagAll (start + left.length) .left left ++ .ofForm form :: after := by
        rw [htokens, List.append_assoc]
        rfl
      rw [← hsplit]
      exact .phrase phrase htail

theorem isPhrased_chain (items : List NodeId) : (chain context items).IsPhrased context.lang := by
  intro start tokens h
  cases items with
  | nil =>
    cases h
    exact ⟨.nil start, .nil⟩
  | cons item rest =>
    obtain ⟨⟨form, first, second⟩, -, h⟩ := Piece.bind_ok h
    obtain ⟨left, hleft, h⟩ := Piece.bind_ok h
    have hbalanced := (isPhrased_operand hbelow form first .left _ _ hleft).2
    obtain ⟨htagged, hclosed⟩ := tagged_chainRest hbelow hbalanced h
    exact ⟨htagged (by simp), hclosed⟩

/-- Each further comparison tags over all before it. -/
theorem tagged_joinRest {form : OperatorForm} {start : Nat} {left tokens : List Token}
    {items : List NodeId} (htagged : Tagged context.lang start left) (hleft : IsBalanced left)
    (h : joinRest context form start left items = .ok tokens) :
    Tagged context.lang start tokens ∧ IsBalanced tokens := by
  induction items generalizing left with
  | nil =>
    cases h
    exact ⟨htagged, hleft⟩
  | cons item rest ih =>
    obtain ⟨joined, hjoined, h⟩ := Piece.bind_ok h
    obtain ⟨htagged', hleft'⟩ := (isPhrased_operand hbelow form item .right).joined hleft hjoined
    exact ih htagged' hleft' h

theorem isPhrased_conjunction (items : List NodeId) :
    (conjunction context items).IsPhrased context.lang := by
  intro start tokens h
  cases items with
  | nil =>
    cases h
    exact ⟨.nil start, .nil⟩
  | cons first rest =>
    obtain ⟨form, -, h⟩ := Piece.bind_ok h
    obtain ⟨left, hleft, h⟩ := Piece.bind_ok h
    obtain ⟨htagged, hbalanced⟩ := isPhrased_operand hbelow form first .left _ _ hleft
    exact tagged_joinRest hbelow htagged hbalanced h

theorem isPhrased_compound (items : List NodeId) :
    (compound context items).IsPhrased context.lang := by
  unfold compound
  split
  · exact .refused _
  · split
    · exact isPhrased_chain hbelow items
    · exact isPhrased_conjunction hbelow items

omit hbelow in
theorem isPhrased_word (spelled : Word) {kind : TokenKind} (construct : String)
    (hopen : kind.closing? = none) (hclose : kind.isCloseBrace = false) :
    (word context.lang spelled kind construct).IsPhrased context.lang := by
  intro start tokens h
  unfold word at h
  cases hword : context.lang.operators.word spelled with
  | none =>
    rw [hword] at h
    cases h
  | some text =>
    rw [hword] at h
    exact Piece.IsPhrased.plain text hopen hclose start tokens h

/-- **One layer of an expression falls into phrases if the expressions below it do.** -/
theorem isPhrased_exprWith (e : Expr) : (exprWith context e).IsPhrased context.lang := by
  cases e with
  | int _ | float _ | str _ _ | ident _ | «scoped» _ => exact .plain _ rfl rfl
  | bool value => cases value <;> exact isPhrased_word _ _ rfl rfl
  | null | selfRef | superRef => exact isPhrased_word _ _ rfl rfl
  | binary op left right | assign op left right =>
    intro start tokens h
    obtain ⟨form, -, h⟩ := Piece.bind_ok h
    exact isPhrased_between hbelow form left right start tokens h
  | unary op inner =>
    intro start tokens h
    obtain ⟨form, -, h⟩ := Piece.bind_ok h
    cases hleading : form.isLeading with
    | true =>
      rw [hleading] at h
      exact (isPhrased_operand hbelow form inner .right).leading start tokens h
    | false =>
      rw [hleading] at h
      exact (isPhrased_operand hbelow form inner .left).trailing start tokens h
  | ternary cond whenTrue whenFalse =>
    exact .ternary (isPhrased_operand hbelow _ _ _) (isPhrased_operand hbelow _ _ _)
      (isPhrased_operand hbelow _ _ _)
  | compound items => exact isPhrased_compound hbelow items
  | paren inner => exact isPhrased_grouped hbelow inner
  | call callee args =>
    intro start tokens h
    obtain ⟨called, -, h⟩ := Piece.bind_ok h
    have hargs := isPhrased_arguments hbelow args
    have haccessed := (isPhrased_accessed hbelow callee).append hargs
    cases called with
    | ident name =>
      exact (Piece.IsPhrased.plain name rfl rfl).append hargs start tokens h
    | _ => exact haccessed start tokens h
  | method receiver name args =>
    exact (((isPhrased_accessed hbelow receiver).append (.plain _ rfl rfl)).append
      (.plain _ rfl rfl)).append (isPhrased_arguments hbelow args)
  | index target position =>
    have hbracketed := (hbelow position).enclosed
      (show TokenKind.closing? .subscriptOpenBrace = some .subscriptCloseBrace from rfl) "[" "]"
    have h := (isPhrased_accessed hbelow target).append hbracketed
    rwa [← Piece.append_assoc, ← Piece.append_assoc] at h
  | member target name =>
    exact ((isPhrased_accessed hbelow target).append (.plain _ rfl rfl)).append (.plain _ rfl rfl)
  | _ => exact .refused _

end Linear

/-! ## Expressions and statements -/

namespace Linear

variable (lang : Language) (arena : Arena)

theorem isPhrased_exprTo (depth : Nat) (id : NodeId) :
    (exprTo lang arena depth id).IsPhrased lang := by
  induction depth generalizing id with
  | zero => exact .refused _
  | succ depth ih =>
    intro start tokens h
    obtain ⟨e, -, h⟩ := Piece.bind_ok h
    let context : Context := ⟨lang, arena, exprTo lang arena depth⟩
    have hbelow : ∀ id, (context.below id).IsPhrased context.lang := ih
    exact isPhrased_exprWith hbelow e start tokens h

theorem isPhrased_statementEnd : (statementEnd lang).IsPhrased lang := by
  unfold statementEnd
  split
  · exact .plain _ rfl rfl
  · exact .empty

theorem isPhrased_braced {piece : Piece} (h : piece.IsPhrased lang) :
    (braced lang piece).IsPhrased lang := by
  unfold braced
  split
  · exact h.enclosed rfl _ _
  · exact h

theorem isPhrased_stmtTo (depth : Nat) (s : Stmt) : (stmtTo lang arena depth s).IsPhrased lang := by
  have hexpr : ∀ id, (expr lang arena id).IsPhrased lang := isPhrased_exprTo lang arena _
  have hend := isPhrased_statementEnd lang
  have hreturn : (Piece.plain "return" .keyword).IsPhrased lang := .plain _ rfl rfl
  induction depth generalizing s with
  | zero => exact .refused _
  | succ depth ih =>
    cases s with
    | expr value => exact (hexpr value).append hend
    | assign op target value =>
      intro start tokens h
      obtain ⟨form, -, h⟩ := Piece.bind_ok h
      let context : Context := ⟨lang, arena, expr lang arena⟩
      have hbetween : (between context form target value).IsPhrased lang :=
        isPhrased_between hexpr form target value
      exact hbetween.append hend start tokens h
    | ret value? =>
      cases value? with
      | none => exact hreturn.append hend
      | some value => exact (hreturn.append (hexpr value)).append hend
    | block items =>
      refine isPhrased_braced lang (.concat fun piece hpiece => ?_)
      obtain ⟨item, -, rfl⟩ := List.mem_map.1 hpiece
      intro start tokens h
      obtain ⟨node, -, h⟩ := Piece.bind_ok h
      cases node with
      | stmt inner => exact ih inner start tokens h
      | _ => cases h
    | _ => exact .refused _

/-- What has tokens is an expression or a statement. -/
theorem tagged_linearize {id : NodeId} {tokens : Tokens}
    (h : lang.linearize arena id = .ok tokens) : Tagged lang 0 tokens.toList := by
  obtain ⟨node, -, h⟩ := Piece.bind_ok h
  cases node with
  | expr e =>
    obtain ⟨list, hlist, h⟩ := Piece.bind_ok h
    cases h
    exact (isPhrased_exprTo lang arena _ id 0 list hlist).1
  | stmt s =>
    obtain ⟨list, hlist, h⟩ := Piece.bind_ok h
    cases h
    exact (isPhrased_stmtTo lang arena _ s 0 list hlist).1
  | _ => cases h

end Linear

/-! ## An operator at the root -/

/-- Everything before an operator is its left operand, and everything behind it, up to a position,
its right one. -/
def Tokens.Flanked (tokens : Tokens) (form : OperatorForm) (stop : Nat) : Prop :=
  ∃ operator < stop, tokens.get? operator = some (.ofForm form) ∧
    tokens.operandsOf operator .left = List.range operator ∧
    tokens.operandsOf operator .right = List.range' (operator + 1) (stop - (operator + 1))

namespace Linear

variable {lang : Language} {arena : Arena} {id : NodeId} {tokens : Tokens}

/-- Two operands fill all tokens up to those behind them. -/
theorem flanked_between {context : Context}
    (hbelow : ∀ id, (context.below id).IsPhrased context.lang) {form : OperatorForm}
    {left right : NodeId} {list after : List Token}
    (hlist : between context form left right 0 = .ok list) (hsplit : tokens.toList = list ++ after)
    (hafter : Tagged context.lang list.length after) :
    tokens.Flanked form (tokens.size - after.length) := by
  obtain ⟨lefts, hlefts, hlist⟩ := Piece.bind_ok hlist
  obtain ⟨rights, hrights, hlist⟩ := Piece.bind_ok hlist
  cases hlist
  have hbalanced := (isPhrased_operand hbelow form left .left _ _ hlefts).2
  have hbalanced' := (isPhrased_operand hbelow form right .right _ _ hrights).2
  let phrase : Phrase context.lang := .around hbalanced form hbalanced'
  have hoperator : phrase.operator 0 = lefts.length := Nat.zero_add _
  have hphrase : tokens.toList = phrase.tokens 0 ++ after := hsplit
  have hlength : (phrase.tokens 0).length = lefts.length + 1 + rights.length := by
    simp [phrase, Phrase.tokens_around, tagAll]
    omega
  have hstop : tokens.size - after.length = lefts.length + 1 + rights.length := by
    rw [Tokens.size, hphrase, List.length_append, Nat.add_sub_cancel, hlength]
  have howned : ∀ side, tokens.operandsOf lefts.length side =
      List.range' (phrase.operandStart 0 side) (phrase.operand side).length := by
    intro side
    have hnone : positions lefts.length side (0 + (phrase.tokens 0).length) after = [] := by
      rw [Nat.zero_add]
      refine hafter.positions_eq_nil (.inl ?_) side
      change lefts.length < (phrase.tokens 0).length
      omega
    rw [Tokens.operandsOf_eq, hphrase, positions_append, hnone, List.append_nil, ← hoperator]
    exact phrase.positions_tokens 0 side
  have hright : phrase.operandStart 0 .right = lefts.length + 1 :=
    congrArg (· + 1) hoperator
  refine ⟨lefts.length, by omega, ?_, ?_, ?_⟩
  · rw [Tokens.get?, hphrase, Phrase.tokens_around, List.append_assoc]
    simp [tagAll]
  · rw [howned, List.range_eq_range']
    rfl
  · rw [howned, hright, hstop, Nat.add_sub_cancel_left]
    rfl

/-- The layer at the root of an expression, and the tokens below it. -/
theorem exprWith_of_linearize {e : Expr} (hnode : arena.node id = .ok (.expr e))
    (h : lang.linearize arena id = .ok tokens) :
    exprWith ⟨lang, arena, exprTo lang arena arena.size⟩ e 0 = .ok tokens.toList := by
  have he : arena.expr id = .ok e := by rw [Arena.expr, hnode]
  have hlist := exprTo_of_linearize he h
  rwa [Arena.depthBound, exprTo_succ he] at hlist

theorem stmtTo_of_linearize {s : Stmt} (hnode : arena.node id = .ok (.stmt s))
    (h : lang.linearize arena id = .ok tokens) :
    stmtTo lang arena (arena.size + 1) s 0 = .ok tokens.toList := by
  rw [Language.linearize, hnode] at h
  obtain ⟨node, hread, h⟩ := Piece.bind_ok h
  cases hread
  obtain ⟨list, hlist, h⟩ := Piece.bind_ok h
  cases h
  exact hlist

/-- Two operands at the root of an expression. -/
theorem flanked_of_between {form : OperatorForm} {left right : NodeId}
    (h : between ⟨lang, arena, exprTo lang arena arena.size⟩ form left right 0 =
      .ok tokens.toList) : tokens.Flanked form tokens.size := by
  have hbelow := isPhrased_exprTo lang arena arena.size
  exact flanked_between hbelow h (List.append_nil _).symm (.nil _)

end Linear

/-- **The operands of operators are exact spans.**  A tag names an operator that is no operand
itself; the operands of each operator are spans around it with their brackets closed; and an
operator at the root has all tokens before it and all behind it, but for the mark that ends a
statement. -/
theorem Language.linearize_operands (lang : Language) (arena : Arena) {id : NodeId}
    {tokens : Tokens} (h : lang.linearize arena id = .ok tokens) :
    (∀ index token tag, tokens.get? index = some token → token.tag = some tag →
      ∃ operator, tokens.get? tag.operator = some operator ∧ operator.isOperator = true ∧
        operator.tag = none) ∧
    (∀ operator < tokens.size, ∃ span, tokens.Spans lang operator span) ∧
    (∀ op left right, arena.node id = .ok (.expr (.binary op left right)) →
      ∃ form, lang.operators.binary op = some form ∧ tokens.Flanked form tokens.size) ∧
    (∀ op target value, arena.node id = .ok (.expr (.assign op target value)) →
      ∃ form, lang.operators.assign op = some form ∧ tokens.Flanked form tokens.size) ∧
    ∀ op target value, arena.node id = .ok (.stmt (.assign op target value)) →
      ∃ form, lang.operators.assignStatement op = some form ∧
        tokens.Flanked form (tokens.size - lang.operators.statementEnd.toList.length) := by
  have htagged := Linear.tagged_linearize lang arena h
  have hbelow : ∀ depth id, (Linear.exprTo lang arena depth id).IsPhrased lang :=
    Linear.isPhrased_exprTo lang arena
  refine ⟨fun index token tag => htagged.exists_operator, fun operator => htagged.exists_spans,
    fun op left right hnode => ?_, fun op target value hnode => ?_,
    fun op target value hnode => ?_⟩
  · obtain ⟨form, hform, hbetween⟩ := Piece.bind_ok (Linear.exprWith_of_linearize hnode h)
    exact ⟨form, Piece.required_ok hform, Linear.flanked_of_between hbetween⟩
  · obtain ⟨form, hform, hbetween⟩ := Piece.bind_ok (Linear.exprWith_of_linearize hnode h)
    exact ⟨form, Piece.required_ok hform, Linear.flanked_of_between hbetween⟩
  · obtain ⟨form, hform, hlist⟩ := Piece.bind_ok (Linear.stmtTo_of_linearize hnode h)
    obtain ⟨list, mark, hbetween, hmark, hsplit⟩ := Piece.append_ok hlist
    have hafter := (Linear.isPhrased_statementEnd lang _ mark hmark).1
    rw [Nat.zero_add] at hafter
    refine ⟨form, Piece.required_ok hform, ?_⟩
    have hlength : mark.length = lang.operators.statementEnd.toList.length := by
      unfold Linear.statementEnd at hmark
      cases hend : lang.operators.statementEnd <;>
        · rw [hend] at hmark
          cases hmark
          rfl
    rw [← hlength]
    have hbelow := Linear.isPhrased_exprTo lang arena arena.depthBound
    exact Linear.flanked_between hbelow hbetween hsplit hafter

/-- `(c ? a : b) + d`: the tokens of the grouped operand all belong to the sum, also those that the
ternary operator owned before. -/
theorem Language.linearize_operands_sum :
    let arena : Arena := ⟨#[.expr (.ident "c"), .expr (.ident "a"), .expr (.ident "b"),
      .expr (.ternary ⟨0⟩ ⟨1⟩ ⟨2⟩), .expr (.ident "d"), .expr (.binary .add ⟨3⟩ ⟨4⟩)]⟩
    ∃ tokens, Language.java.linearize arena ⟨5⟩ = .ok tokens ∧
      tokens.values = ["(", "c", "?", "a", ":", "b", ")", "+", "d"] ∧
      ∃ form, Language.java.operators.binary .add = some form ∧ tokens.Flanked form 9 := by
  intro arena
  have hvalues : (Language.java.linearize arena ⟨5⟩).toOption.map Tokens.values =
      some ["(", "c", "?", "a", ":", "b", ")", "+", "d"] := by decide
  cases h : Language.java.linearize arena ⟨5⟩ with
  | error error => simp [h, Except.toOption] at hvalues
  | ok tokens =>
    rw [h] at hvalues
    have hvalues : tokens.values = ["(", "c", "?", "a", ":", "b", ")", "+", "d"] := by
      simpa [Except.toOption] using hvalues
    have hsize : tokens.size = 9 := by
      have hlength := congrArg List.length hvalues
      rwa [Tokens.values, List.length_map] at hlength
    obtain ⟨-, -, hbinary, -, -⟩ := Language.linearize_operands .java arena h
    obtain ⟨form, hform, hflanked⟩ := hbinary .add ⟨3⟩ ⟨4⟩ rfl
    exact ⟨tokens, rfl, hvalues, form, hform, hsize ▸ hflanked⟩

end Interlingua
