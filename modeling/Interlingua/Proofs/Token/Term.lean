import Interlingua.Proofs.Arena.Grounded
import Interlingua.Token.Linear

/-!
# Expressions as trees

The expressions made of operators, literals, names, calls and access, apart from the arena that
holds them.

* `Term` — such an expression; `Term.At` says that an identity of an arena names it.
* `Term.tokens?` — its tokens in a language, without operand tags; none where the language has no
  token form for some part of it.
* `Term.prints` — the linearizer yields these tokens for every arena that holds the term: what it
  prints depends on the tree alone.
-/

namespace Interlingua

/-- An expression made of operators, literals, names, calls and access. -/
inductive Term where
  | ident (name : String)
  | int (value : Nat)
  | bool (value : Bool)
  | null
  | str (value : String)
  | binary (op : BinaryOp) (left right : Term)
  | unary (op : UnaryOp) (operand : Term)
  | assign (op : AssignOp) (target value : Term)
  | ternary (cond whenTrue whenFalse : Term)
  | paren (inner : Term)
  | call (callee : Term) (args : List Term)
  | method (receiver : Term) (name : String) (args : List Term)
  | index (target position : Term)
  | member (target : Term) (name : String)

/-! ## Terms in an arena -/

mutual
/-- An identity names a term. -/
def Term.At (arena : Arena) : Term → NodeId → Prop
  | .ident name, id => arena.expr id = .ok (.ident name)
  | .int value, id => arena.expr id = .ok (.int value)
  | .bool value, id => arena.expr id = .ok (.bool value)
  | .null, id => arena.expr id = .ok .null
  | .str value, id => arena.expr id = .ok (.str value .plain)
  | .binary op left right, id =>
    ∃ l r, arena.expr id = .ok (.binary op l r) ∧ left.At arena l ∧ right.At arena r
  | .unary op operand, id => ∃ o, arena.expr id = .ok (.unary op o) ∧ operand.At arena o
  | .assign op target value, id =>
    ∃ t v, arena.expr id = .ok (.assign op t v) ∧ target.At arena t ∧ value.At arena v
  | .ternary cond whenTrue whenFalse, id =>
    ∃ c t f, arena.expr id = .ok (.ternary c t f) ∧ cond.At arena c ∧ whenTrue.At arena t ∧
      whenFalse.At arena f
  | .paren inner, id => ∃ i, arena.expr id = .ok (.paren i) ∧ inner.At arena i
  | .call callee args, id =>
    ∃ c as, arena.expr id = .ok (.call c as) ∧ callee.At arena c ∧ Term.AllAt arena args as
  | .method receiver name args, id =>
    ∃ r as, arena.expr id = .ok (.method r name as) ∧ receiver.At arena r ∧
      Term.AllAt arena args as
  | .index target position, id =>
    ∃ t p, arena.expr id = .ok (.index t p) ∧ target.At arena t ∧ position.At arena p
  | .member target name, id => ∃ t, arena.expr id = .ok (.member t name) ∧ target.At arena t

/-- Identities name terms, each in its turn. -/
def Term.AllAt (arena : Arena) : List Term → List NodeId → Prop
  | [], [] => True
  | term :: terms, id :: ids => term.At arena id ∧ Term.AllAt arena terms ids
  | _, _ => False
end

namespace Term

variable {arena : Arena}

mutual
/-- A term is finite, so the identity that names it is grounded. -/
theorem At.grounded : ∀ {term : Term} {id : NodeId}, term.At arena id → arena.Grounded id
  | .ident _, _, h | .int _, _, h | .bool _, _, h | .null, _, h | .str _, _, h => by
    simp only [At] at h
    exact .intro (Arena.node_of_expr h) fun child hc => by cases hc
  | .binary .., _, h | .assign .., _, h | .index .., _, h => by
    simp only [At] at h
    obtain ⟨l, r, he, hl, hr⟩ := h
    refine .intro (Arena.node_of_expr he) fun child hc => ?_
    simp only [Node.children, Expr.children, List.mem_cons, List.not_mem_nil, or_false] at hc
    rcases hc with rfl | rfl
    · exact hl.grounded
    · exact hr.grounded
  | .unary .., _, h | .paren _, _, h | .member .., _, h => by
    simp only [At] at h
    obtain ⟨o, he, ho⟩ := h
    refine .intro (Arena.node_of_expr he) fun child hc => ?_
    simp only [Node.children, Expr.children, List.mem_cons, List.not_mem_nil, or_false] at hc
    subst hc
    exact ho.grounded
  | .ternary .., _, h => by
    simp only [At] at h
    obtain ⟨c, t, f, he, hc', ht, hf⟩ := h
    refine .intro (Arena.node_of_expr he) fun child hc => ?_
    simp only [Node.children, Expr.children, List.mem_cons, List.not_mem_nil, or_false] at hc
    rcases hc with rfl | rfl | rfl
    · exact hc'.grounded
    · exact ht.grounded
    · exact hf.grounded
  | .call .., _, h | .method .., _, h => by
    simp only [At] at h
    obtain ⟨c, as, he, hc', has⟩ := h
    refine .intro (Arena.node_of_expr he) fun child hc => ?_
    simp only [Node.children, Expr.children, held, List.mem_cons, List.mem_map] at hc
    rcases hc with rfl | ⟨id, hid, rfl⟩
    · exact hc'.grounded
    · exact has.grounded id hid

theorem AllAt.grounded : ∀ {terms : List Term} {ids : List NodeId}, AllAt arena terms ids →
    ∀ id ∈ ids, arena.Grounded id
  | [], [], _, _, hid => by cases hid
  | term :: terms, first :: ids, h, id, hid => by
    simp only [AllAt] at h
    rcases List.mem_cons.1 hid with rfl | hid
    · exact h.1.grounded
    · exact h.2.grounded id hid
  | [], _ :: _, h, _, _ => by simp only [AllAt] at h
  | _ :: _, [], _, _, hid => by cases hid
end

/-! ## Tokens of a term -/

/-- The operator a term is written with; an atom has none. -/
def form? (lang : Language) : Term → Option OperatorForm
  | .binary op _ _ => lang.operators.binary op
  | .unary op _ => lang.operators.unary op
  | .assign op _ _ => (lang.operators.assign op).or (lang.operators.assign .plain)
  | .ternary .. => some lang.operators.ternary.1
  | .ident _ | .int _ | .bool _ | .null | .str _ | .paren _ | .call .. | .method .. | .index ..
  | .member .. => none

/-- Whether a term is grouped as an operand. -/
def wraps (lang : Language) (parent : OperatorForm) (side : Side) (term : Term) : Bool :=
  (term.form? lang).any fun form => parent.mustGroup form side

/-- The tokens of an operand, given those of the term itself. -/
def placed (lang : Language) (parent : OperatorForm) (side : Side) (term : Term)
    (tokens : List Token) : List Token :=
  if term.wraps lang parent side then
    Token.plain "(" .openBrace :: tokens ++ [Token.plain ")" .closeBrace]
  else tokens

/-- The token of a literal that is spelled as a word. -/
def wordTokens? (lang : Language) (word : Word) : Option (List Token) :=
  (lang.operators.word word).map fun text => [.plain text .const]

/-- The tokens of what is called, given those of the term itself: a function is called by its
name. -/
def calleeTokens (lang : Language) (callee : Term) (tokens? : Option (List Token)) :
    Option (List Token) :=
  match callee with
  | .ident name => some [.plain name .callableIdentifier]
  | _ => tokens?.map (callee.placed lang lang.operators.access .left)

mutual
/-- The tokens of a term without operand tags. -/
def tokens? (lang : Language) : Term → Option (List Token)
  | .ident name => some [.plain name .identifier]
  | .int value => some [.plain (Text.numeral value) .const]
  | .bool true => wordTokens? lang .true
  | .bool false => wordTokens? lang .false
  | .null => wordTokens? lang .null
  | .str value => some [.plain (Text.quote value) .const]
  | .binary op left right => do
    let form ← lang.operators.binary op
    let lefts ← left.tokens? lang
    let rights ← right.tokens? lang
    return left.placed lang form .left lefts ++ .ofForm form ::
      right.placed lang form .right rights
  | .assign op target value => do
    let form ← lang.operators.assign op
    let lefts ← target.tokens? lang
    let rights ← value.tokens? lang
    return target.placed lang form .left lefts ++ .ofForm form ::
      value.placed lang form .right rights
  | .unary op operand => do
    let form ← lang.operators.unary op
    let tokens ← operand.tokens? lang
    return if form.isLeading then .ofForm form :: operand.placed lang form .right tokens
      else operand.placed lang form .left tokens ++ [.ofForm form]
  | .ternary cond whenTrue whenFalse => do
    let conds ← cond.tokens? lang
    let trues ← whenTrue.tokens? lang
    let falses ← whenFalse.tokens? lang
    let (first, second) := lang.operators.ternary
    let (lefts, centers) := match lang.operators.ternaryLayout with
      | .condFirst => (cond.placed lang first .left conds, whenTrue.placed lang first .center trues)
      | .thenFirst => (whenTrue.placed lang first .left trues, cond.placed lang first .center conds)
    return lefts ++ .ofForm first :: (centers ++ .ofForm second ::
      whenFalse.placed lang first .right falses)
  | .paren inner => do
    let tokens ← inner.tokens? lang
    return .plain "(" .openBrace :: tokens ++ [.plain ")" .closeBrace]
  | .call callee args => do
    let targets ← callee.calleeTokens lang (callee.tokens? lang)
    let list ← argTokens? lang args
    return targets ++ .plain "(" .callOpenBrace :: list ++ [.plain ")" .callCloseBrace]
  | .method receiver name args => do
    let targets ← receiver.tokens? lang
    let list ← argTokens? lang args
    return receiver.placed lang lang.operators.access .left targets ++ .plain "." .separator ::
      .plain name .callableIdentifier :: .plain "(" .callOpenBrace :: list ++
      [.plain ")" .callCloseBrace]
  | .index target position => do
    let targets ← target.tokens? lang
    let tokens ← position.tokens? lang
    return target.placed lang lang.operators.access .left targets ++
      .plain "[" .subscriptOpenBrace :: tokens ++ [.plain "]" .subscriptCloseBrace]
  | .member target name => do
    let targets ← target.tokens? lang
    return target.placed lang lang.operators.access .left targets ++
      [.plain "." .separator, .plain name .identifier]

/-- The tokens of arguments, with a comma between any two. -/
def argTokens? (lang : Language) : List Term → Option (List Token)
  | [] => some []
  | [arg] => arg.tokens? lang
  | arg :: args => do
    let tokens ← arg.tokens? lang
    let rest ← argTokens? lang args
    return tokens ++ .plain "," .comma :: rest
end

theorem calleeTokens_cases {lang : Language} {callee : Term} {tokens? : Option (List Token)}
    {targets : List Token} (h : callee.calleeTokens lang tokens? = some targets) :
    (∃ name, callee = .ident name ∧ targets = [.plain name .callableIdentifier]) ∨
      ∃ tokens, tokens? = some tokens ∧
        targets = callee.placed lang lang.operators.access .left tokens := by
  unfold calleeTokens at h
  split at h
  · rename_i name
    cases h
    exact .inl ⟨name, rfl, rfl⟩
  · obtain ⟨tokens, htokens, rfl⟩ := Option.map_eq_some_iff.1 h
    exact .inr ⟨tokens, htokens, rfl⟩

theorem argTokens?_cons_cons (lang : Language) (arg next : Term) (args : List Term) :
    argTokens? lang (arg :: next :: args) = do
      let tokens ← arg.tokens? lang
      let rest ← argTokens? lang (next :: args)
      return tokens ++ .plain "," .comma :: rest := rfl

end Term

/-! ## Pieces without tags -/

/-- The token as no operand. -/
def Token.untagged (token : Token) : Token := { token with tag := none }

@[simp] theorem Token.untagged_plain (value : String) (kind : TokenKind) :
    (Token.plain value kind).untagged = .plain value kind := rfl

@[simp] theorem Token.untagged_ofForm (form : OperatorForm) :
    (Token.ofForm form).untagged = .ofForm form := rfl

@[simp] theorem Token.map_untagged_tagAll (operator : Nat) (side : Side) (tokens : List Token) :
    (Token.tagAll operator side tokens).map Token.untagged = tokens.map Token.untagged := by
  simp [Token.tagAll, Token.untagged, Token.tagged]

namespace Piece

/-- Wherever the piece starts, its tokens are the given ones up to tags; none says that it
fails. -/
def Prints (piece : Piece) (tokens? : Option (List Token)) : Prop :=
  ∀ start, (piece start).toOption.map (List.map Token.untagged) = tokens?

variable {p q r : Piece} {x y z : Option (List Token)}

/-- What a piece that prints something yields. -/
theorem Prints.ok_or_error (h : Prints p x) (start : Nat) :
    (∃ tokens, p start = .ok tokens ∧ x = some (tokens.map Token.untagged)) ∨
      ∃ error, p start = .error error ∧ x = none := by
  have hs := h start
  cases hp : p start with
  | ok tokens =>
    rw [hp] at hs
    exact .inl ⟨tokens, rfl, hs.symm⟩
  | error error =>
    rw [hp] at hs
    exact .inr ⟨error, rfl, hs.symm⟩

theorem Prints.congr (h : Prints p x) (hxy : x = y) : Prints p y := hxy ▸ h

theorem Prints.empty : Prints Piece.empty (some []) := fun _ => rfl

theorem Prints.plain (value : String) (kind : TokenKind) :
    Prints (Piece.plain value kind) (some [.plain value kind]) := fun _ => rfl

theorem Prints.append (hp : Prints p x) (hq : Prints q y) :
    Prints (p ++ q) (x.bind fun a => y.map fun b => a ++ b) := by
  intro start
  change ((Piece.append p q) start).toOption.map _ = _
  unfold Piece.append
  obtain ⟨before, hb, rfl⟩ | ⟨error, hb, rfl⟩ := hp.ok_or_error start
  · obtain ⟨after, ha, rfl⟩ | ⟨error, ha, rfl⟩ := hq.ok_or_error (start + before.length)
    · simp [hb, ha, bind, Except.bind, pure, Except.pure, Except.toOption]
    · simp [hb, ha, bind, Except.bind, Except.toOption]
  · simp [hb, bind, Except.bind, Except.toOption]

theorem Prints.leading (form : OperatorForm) (hp : Prints p x) :
    Prints (Piece.leading form p) (x.map fun a => .ofForm form :: a) := by
  intro start
  unfold Piece.leading
  obtain ⟨tokens, ht, rfl⟩ | ⟨error, ht, rfl⟩ := hp.ok_or_error (start + 1)
  · simp [ht, bind, Except.bind, pure, Except.pure, Except.toOption]
  · simp [ht, bind, Except.bind, Except.toOption]

theorem Prints.trailing (form : OperatorForm) (hp : Prints p x) :
    Prints (Piece.trailing form p) (x.map fun a => a ++ [.ofForm form]) := by
  intro start
  unfold Piece.trailing
  obtain ⟨tokens, ht, rfl⟩ | ⟨error, ht, rfl⟩ := hp.ok_or_error start
  · simp [ht, bind, Except.bind, pure, Except.pure, Except.toOption]
  · simp [ht, bind, Except.bind, Except.toOption]

theorem Prints.between (form : OperatorForm) (hp : Prints p x) (hq : Prints q y) :
    Prints (Piece.between form p q) (x.bind fun a => y.map fun b => a ++ .ofForm form :: b) := by
  intro start
  unfold Piece.between Piece.joined
  obtain ⟨lefts, hl, rfl⟩ | ⟨error, hl, rfl⟩ := hp.ok_or_error start
  · obtain ⟨rights, hr, rfl⟩ | ⟨error, hr, rfl⟩ := hq.ok_or_error (start + lefts.length + 1)
    · simp [hl, hr, bind, Except.bind, pure, Except.pure, Except.toOption]
    · simp [hl, hr, bind, Except.bind, Except.toOption]
  · simp [hl, bind, Except.bind, Except.toOption]

theorem Prints.ternary (forms : OperatorForm × OperatorForm) (hp : Prints p x) (hq : Prints q y)
    (hr : Prints r z) :
    Prints (Piece.ternary forms p q r) (x.bind fun a => y.bind fun b => z.map fun c =>
      a ++ .ofForm forms.1 :: (b ++ .ofForm forms.2 :: c)) := by
  intro start
  unfold Piece.ternary
  obtain ⟨lefts, hl, rfl⟩ | ⟨error, hl, rfl⟩ := hp.ok_or_error start
  · obtain ⟨centers, hc, rfl⟩ | ⟨error, hc, rfl⟩ := hq.ok_or_error (start + lefts.length + 1)
    · obtain ⟨rights, hr', rfl⟩ | ⟨error, hr', rfl⟩ :=
        hr.ok_or_error (start + lefts.length + 1 + centers.length + 1)
      · simp [hl, hc, hr', bind, Except.bind, pure, Except.pure, Except.toOption]
      · simp [hl, hc, hr', bind, Except.bind, Except.toOption]
    · simp [hl, hc, bind, Except.bind, Except.toOption]
  · simp [hl, bind, Except.bind, Except.toOption]

/-- A run that needs a form fails without it. -/
theorem Prints.required (lang : Language) (construct : String) {form? : Option OperatorForm}
    {piece : OperatorForm → Piece} {tokens? : OperatorForm → Option (List Token)}
    (h : ∀ form, form? = some form → Prints (piece form) (tokens? form)) :
    Prints (fun start => do
      let form ← Linear.required lang construct form?
      piece form start) (form?.bind tokens?) := by
  intro start
  cases form? with
  | none => rfl
  | some form => exact h form rfl start

end Piece

/-! ## What the linearizer prints -/

section Linearizer

variable {lang : Language} {arena : Arena} {depth : Nat} {id : NodeId}

theorem Linear.exprTo_succ {e : Expr} (h : arena.expr id = .ok e) :
    Linear.exprTo lang arena (depth + 1) id =
      Linear.exprWith ⟨lang, arena, Linear.exprTo lang arena depth⟩ e := by
  funext start
  rw [Linear.exprTo, h]
  rfl

theorem Language.linearize_of_expr {e : Expr} (h : arena.expr id = .ok e) :
    lang.linearize arena id =
      (Linear.exprTo lang arena arena.depthBound id 0).map Tokens.mk := by
  rw [linearize, Arena.node_of_expr h]
  rfl

/-- The tokens of an expression are those of the run that starts at position 0. -/
theorem Linear.exprTo_of_linearize {e : Expr} {tokens : Tokens} (h : arena.expr id = .ok e)
    (htokens : lang.linearize arena id = .ok tokens) :
    Linear.exprTo lang arena arena.depthBound id 0 = .ok tokens.toList := by
  rw [Language.linearize_of_expr h] at htokens
  cases hlist : Linear.exprTo lang arena arena.depthBound id 0 with
  | error error =>
    rw [hlist] at htokens
    cases htokens
  | ok list =>
    rw [hlist] at htokens
    cases htokens
    rfl

namespace Term

theorem At.exists_expr {term : Term} (h : term.At arena id) : ∃ e, arena.expr id = .ok e := by
  cases term with
  | ident _ | int _ | bool _ | null | str _ => exact ⟨_, h⟩
  | binary _ _ _ | assign _ _ _ | index _ _ | call _ _ | method _ _ _ =>
    simp only [At] at h
    obtain ⟨_, _, he, -⟩ := h
    exact ⟨_, he⟩
  | unary _ _ | paren _ | member _ _ =>
    simp only [At] at h
    obtain ⟨_, he, -⟩ := h
    exact ⟨_, he⟩
  | ternary _ _ _ =>
    simp only [At] at h
    obtain ⟨_, _, _, he, -⟩ := h
    exact ⟨_, he⟩

/-- Only a name is named by a node that is one. -/
theorem At.ident_iff {term : Term} (h : term.At arena id) (name : String) :
    arena.expr id = .ok (.ident name) ↔ term = .ident name := by
  cases term with
  | ident other => simp only [At] at h; simp [h]
  | int _ | bool _ | null | str _ => simp only [At] at h; simp [h]
  | binary _ _ _ | assign _ _ _ | index _ _ | call _ _ | method _ _ _ =>
    simp only [At] at h
    obtain ⟨_, _, he, -⟩ := h
    simp [he]
  | unary _ _ | paren _ | member _ _ =>
    simp only [At] at h
    obtain ⟨_, he, -⟩ := h
    simp [he]
  | ternary _ _ _ =>
    simp only [At] at h
    obtain ⟨_, _, _, he, -⟩ := h
    simp [he]

theorem At.exprForm?_eq {term : Term} (h : term.At arena id) :
    lang.exprForm? arena id = .ok (term.form? lang) := by
  have key : ∀ e : Expr, arena.expr id = .ok e → lang.formOf? e = term.form? lang →
      lang.exprForm? arena id = .ok (term.form? lang) := by
    intro e he hf
    rw [Language.exprForm?, he, ← hf]
    rfl
  cases term with
  | ident _ | bool _ | null | str _ => exact key _ h rfl
  | int value => exact key _ h (by simp [Language.formOf?, form?])
  | binary _ _ _ | assign _ _ _ | index _ _ =>
    simp only [At] at h
    obtain ⟨l, r, he, -, -⟩ := h
    exact key _ he rfl
  | unary _ _ | paren _ | member _ _ =>
    simp only [At] at h
    obtain ⟨o, he, -⟩ := h
    exact key _ he rfl
  | ternary _ _ _ =>
    simp only [At] at h
    obtain ⟨c, t, f, he, -⟩ := h
    exact key _ he rfl
  | call _ _ | method _ _ _ =>
    simp only [At] at h
    obtain ⟨c, as, he, -, -⟩ := h
    exact key _ he rfl

theorem At.wraps_eq {term : Term} (h : term.At arena id) (parent : OperatorForm) (side : Side) :
    lang.wraps arena parent id side = .ok (term.wraps lang parent side) := by
  rw [Language.wraps, h.exprForm?_eq]
  cases hf : term.form? lang with
  | none => simp [wraps, hf, bind, Except.bind, pure, Except.pure]
  | some form => simp [wraps, hf, bind, Except.bind, pure, Except.pure]

theorem prints_word (word : Word) (construct : String) :
    (Linear.word lang word .const construct).Prints (wordTokens? lang word) := by
  intro start
  unfold Linear.word wordTokens?
  cases lang.operators.word word <;> rfl

/-- An operand prints the tokens of its term, grouped where grouping is needed. -/
theorem prints_operand {context : Linear.Context} {term : Term} {tokens? : Option (List Token)}
    (parent : OperatorForm) (side : Side) (hat : term.At context.arena id)
    (hp : (context.below id).Prints tokens?) :
    (Linear.operand context parent id side).Prints
      (tokens?.map (term.placed context.lang parent side)) := by
  have hop : Linear.operand context parent id side =
      if term.wraps context.lang parent side then Linear.grouped (context.below id)
      else context.below id := by
    funext start
    rw [Linear.operand, hat.wraps_eq]
    cases term.wraps context.lang parent side <;> rfl
  have hgroup := ((Piece.Prints.plain "(" .openBrace).append hp).append
    (Piece.Prints.plain ")" .closeBrace)
  intro start
  rw [hop]
  cases hw : term.wraps context.lang parent side with
  | true =>
    have hg := hgroup start
    simp only [if_true, Linear.grouped]
    rw [hg]
    cases tokens? <;> simp [placed, hw]
  | false =>
    simp only [Bool.false_eq_true, if_false]
    rw [hp start]
    cases tokens? <;> simp [placed, hw]

theorem prints_between {context : Linear.Context} {left right : Term} {l r : NodeId}
    {lefts? rights? : Option (List Token)} (form : OperatorForm) (hl : left.At context.arena l)
    (hr : right.At context.arena r) (pl : (context.below l).Prints lefts?)
    (pr : (context.below r).Prints rights?) :
    (Linear.between context form l r).Prints (do
      let lefts ← lefts?
      let rights ← rights?
      return left.placed context.lang form .left lefts ++ .ofForm form ::
        right.placed context.lang form .right rights) := by
  refine (Piece.Prints.between form (prints_operand form .left hl pl)
    (prints_operand form .right hr pr)).congr ?_
  cases lefts? <;> cases rights? <;> simp

theorem prints_arguments {context : Linear.Context} {ids : List NodeId}
    {list? : Option (List Token)}
    (h : (Piece.commaSeparated (ids.map context.below)).Prints list?) :
    (Linear.arguments context ids).Prints (list?.map fun list =>
      .plain "(" .callOpenBrace :: list ++ [.plain ")" .callCloseBrace]) := by
  refine (((Piece.Prints.plain "(" .callOpenBrace).append h).append
    (.plain ")" .callCloseBrace)).congr ?_
  cases list? <;> simp

/-- What is called prints its name, or else its tokens as those of an operand. -/
theorem prints_call {context : Linear.Context} {callee : Term} {ids : List NodeId}
    {tokens? list? : Option (List Token)} (hat : callee.At context.arena id)
    (hp : (context.below id).Prints tokens?)
    (hlist : (Piece.commaSeparated (ids.map context.below)).Prints list?) :
    (Linear.exprWith context (.call id ids)).Prints (do
      let targets ← callee.calleeTokens context.lang tokens?
      let list ← list?
      return targets ++ .plain "(" .callOpenBrace :: list ++ [.plain ")" .callCloseBrace]) := by
  have hargs := prints_arguments hlist
  by_cases hname : ∃ name, callee = .ident name
  · obtain ⟨name, rfl⟩ := hname
    have hcall : Linear.exprWith context (.call id ids) =
        Piece.plain name .callableIdentifier ++ Linear.arguments context ids := by
      funext start
      rw [Linear.exprWith, (hat.ident_iff name).2 rfl]
      rfl
    rw [hcall]
    refine ((Piece.Prints.plain name .callableIdentifier).append hargs).congr ?_
    cases list? <;> simp [calleeTokens]
  · obtain ⟨e, he⟩ := hat.exists_expr
    have hne : ∀ name, e ≠ .ident name := fun name hename =>
      hname ⟨name, (hat.ident_iff name).1 (hename ▸ he)⟩
    have hcall : Linear.exprWith context (.call id ids) =
        Linear.accessed context id ++ Linear.arguments context ids := by
      funext start
      rw [Linear.exprWith, he]
      cases e with
      | ident name => exact absurd rfl (hne name)
      | _ => rfl
    have htokens : callee.calleeTokens context.lang tokens? =
        tokens?.map (callee.placed context.lang context.lang.operators.access .left) := by
      cases callee with
      | ident name => exact absurd ⟨name, rfl⟩ hname
      | _ => rfl
    rw [hcall, htokens]
    refine ((prints_operand context.lang.operators.access .left hat hp).append hargs).congr ?_
    cases tokens? <;> cases list? <;> simp

mutual
/-- **The linearizer prints the tokens of the term**, whatever arena holds it. -/
theorem prints : ∀ (term : Term) {depth : Nat} {id : NodeId}, term.At arena id →
    arena.GroundedTo depth id → (Linear.exprTo lang arena depth id).Prints (term.tokens? lang)
  | .ident _, _, _, h, hd | .int _, _, _, h, hd | .str _, _, _, h, hd => by
    simp only [At] at h
    obtain ⟨less, rfl⟩ := hd.pos
    rw [Linear.exprTo_succ h]
    exact fun _ => rfl
  | .bool true, _, _, h, hd | .bool false, _, _, h, hd | .null, _, _, h, hd => by
    simp only [At] at h
    obtain ⟨less, rfl⟩ := hd.pos
    rw [Linear.exprTo_succ h]
    exact prints_word _ _
  | .binary op left right, _, _, h, hd => by
    simp only [At] at h
    obtain ⟨l, r, he, hl, hr⟩ := h
    obtain ⟨less, rfl⟩ := hd.pos
    have hbelow := hd.belowExpr he
    have pl := prints left hl (hbelow ⟨l, "left"⟩ (by simp [Expr.children]))
    have pr := prints right hr (hbelow ⟨r, "right"⟩ (by simp [Expr.children]))
    rw [Linear.exprTo_succ he, tokens?]
    exact .required lang _ fun form _ => prints_between form hl hr pl pr
  | .assign op target value, _, _, h, hd => by
    simp only [At] at h
    obtain ⟨l, r, he, hl, hr⟩ := h
    obtain ⟨less, rfl⟩ := hd.pos
    have hbelow := hd.belowExpr he
    have pl := prints target hl (hbelow ⟨l, "target"⟩ (by simp [Expr.children]))
    have pr := prints value hr (hbelow ⟨r, "value"⟩ (by simp [Expr.children]))
    rw [Linear.exprTo_succ he, tokens?]
    exact .required lang _ fun form _ => prints_between form hl hr pl pr
  | .unary op operand, _, _, h, hd => by
    simp only [At] at h
    obtain ⟨o, he, ho⟩ := h
    obtain ⟨less, rfl⟩ := hd.pos
    have po := prints operand ho (hd.belowExpr he ⟨o, "operand"⟩ (by simp [Expr.children]))
    rw [Linear.exprTo_succ he, tokens?]
    refine .required lang _ fun form _ => ?_
    cases hform : form.isLeading with
    | true =>
      refine (Piece.Prints.leading form (prints_operand form .right ho po)).congr ?_
      cases operand.tokens? lang <;> simp
    | false =>
      refine (Piece.Prints.trailing form (prints_operand form .left ho po)).congr ?_
      cases operand.tokens? lang <;> simp
  | .ternary cond whenTrue whenFalse, _, _, h, hd => by
    simp only [At] at h
    obtain ⟨c, t, f, he, hc, ht, hf⟩ := h
    obtain ⟨less, rfl⟩ := hd.pos
    have hbelow := hd.belowExpr he
    have pc := prints cond hc (hbelow ⟨c, "cond"⟩ (by simp [Expr.children]))
    have pt := prints whenTrue ht (hbelow ⟨t, "then"⟩ (by simp [Expr.children]))
    have pf := prints whenFalse hf (hbelow ⟨f, "otherwise"⟩ (by simp [Expr.children]))
    rw [Linear.exprTo_succ he, tokens?]
    simp only [Linear.exprWith]
    cases lang.operators.ternaryLayout with
    | condFirst =>
      refine (Piece.Prints.ternary lang.operators.ternary
        (prints_operand lang.operators.ternary.1 .left hc pc)
        (prints_operand lang.operators.ternary.1 .center ht pt)
        (prints_operand lang.operators.ternary.1 .right hf pf)).congr ?_
      cases cond.tokens? lang <;> cases whenTrue.tokens? lang <;>
        cases whenFalse.tokens? lang <;> simp
    | thenFirst =>
      refine (Piece.Prints.ternary lang.operators.ternary
        (prints_operand lang.operators.ternary.1 .left ht pt)
        (prints_operand lang.operators.ternary.1 .center hc pc)
        (prints_operand lang.operators.ternary.1 .right hf pf)).congr ?_
      cases cond.tokens? lang <;> cases whenTrue.tokens? lang <;>
        cases whenFalse.tokens? lang <;> simp
  | .paren inner, _, _, h, hd => by
    simp only [At] at h
    obtain ⟨i, he, hi⟩ := h
    obtain ⟨less, rfl⟩ := hd.pos
    have pi := prints inner hi (hd.belowExpr he ⟨i, "inner"⟩ (by simp [Expr.children]))
    rw [Linear.exprTo_succ he, tokens?]
    refine (((Piece.Prints.plain "(" .openBrace).append pi).append
      (.plain ")" .closeBrace)).congr ?_
    cases inner.tokens? lang <;> simp
  | .call callee args, _, _, h, hd => by
    simp only [At] at h
    obtain ⟨c, as, he, hc, has⟩ := h
    obtain ⟨less, rfl⟩ := hd.pos
    have hbelow := hd.belowExpr he
    have pc := prints callee hc (hbelow ⟨c, "callee"⟩ (by simp [Expr.children]))
    have pa := prints_args args has fun id hid =>
      hbelow ⟨id, "args"⟩ (by simp [Expr.children, held, hid])
    rw [Linear.exprTo_succ he, tokens?]
    exact prints_call hc pc pa
  | .method receiver name args, _, _, h, hd => by
    simp only [At] at h
    obtain ⟨c, as, he, hc, has⟩ := h
    obtain ⟨less, rfl⟩ := hd.pos
    have hbelow := hd.belowExpr he
    have pc := prints receiver hc (hbelow ⟨c, "receiver"⟩ (by simp [Expr.children]))
    have pa := prints_args args has fun id hid =>
      hbelow ⟨id, "args"⟩ (by simp [Expr.children, held, hid])
    rw [Linear.exprTo_succ he, tokens?]
    refine ((((prints_operand lang.operators.access .left hc pc).append
      (.plain "." .separator)).append (.plain name .callableIdentifier)).append
      (prints_arguments pa)).congr ?_
    cases receiver.tokens? lang <;> cases argTokens? lang args <;> simp
  | .index target position, _, _, h, hd => by
    simp only [At] at h
    obtain ⟨t, p, he, ht, hp⟩ := h
    obtain ⟨less, rfl⟩ := hd.pos
    have hbelow := hd.belowExpr he
    have pt := prints target ht (hbelow ⟨t, "target"⟩ (by simp [Expr.children]))
    have pp := prints position hp (hbelow ⟨p, "index"⟩ (by simp [Expr.children]))
    rw [Linear.exprTo_succ he, tokens?]
    refine ((((prints_operand lang.operators.access .left ht pt).append
      (.plain "[" .subscriptOpenBrace)).append pp).append (.plain "]" .subscriptCloseBrace)).congr ?_
    cases target.tokens? lang <;> cases position.tokens? lang <;> simp
  | .member target name, _, _, h, hd => by
    simp only [At] at h
    obtain ⟨t, he, ht⟩ := h
    obtain ⟨less, rfl⟩ := hd.pos
    have pt := prints target ht (hd.belowExpr he ⟨t, "target"⟩ (by simp [Expr.children]))
    rw [Linear.exprTo_succ he, tokens?]
    refine (((prints_operand lang.operators.access .left ht pt).append
      (.plain "." .separator)).append (.plain name .identifier)).congr ?_
    cases target.tokens? lang <;> simp

/-- Arguments print their tokens with a comma between any two. -/
theorem prints_args : ∀ (args : List Term) {depth : Nat} {ids : List NodeId},
    AllAt arena args ids → (∀ id ∈ ids, arena.GroundedTo depth id) →
    (Piece.commaSeparated (ids.map (Linear.exprTo lang arena depth))).Prints (argTokens? lang args)
  | [], _, [], _, _ => .empty
  | [arg], _, [id], h, hd => prints arg h.1 (hd id (List.mem_cons_self ..))
  | arg :: next :: args, depth, id :: next' :: ids, h, hd => by
    have pa := prints arg h.1 (hd id (List.mem_cons_self ..))
    have pr := prints_args (next :: args) h.2 fun id hid => hd id (List.mem_cons_of_mem _ hid)
    refine (pa.append ((Piece.Prints.plain "," .comma).append pr)).congr ?_
    rw [argTokens?_cons_cons]
    cases arg.tokens? lang <;> cases argTokens? lang (next :: args) <;> simp
end

/-- The tokens of an identity that names a term, up to tags. -/
theorem At.linearize_eq (lang : Language) {term : Term} (h : term.At arena id) :
    (lang.linearize arena id).toOption.map (fun tokens => tokens.toList.map Token.untagged) =
      term.tokens? lang := by
  obtain ⟨e, he⟩ := h.exists_expr
  have hp : (Linear.exprTo lang arena arena.depthBound id).Prints (term.tokens? lang) :=
    prints term h h.grounded.to_depthBound
  rw [← hp 0, Language.linearize_of_expr he]
  cases Linear.exprTo lang arena arena.depthBound id 0 <;> rfl

end Term

end Linearizer

end Interlingua
