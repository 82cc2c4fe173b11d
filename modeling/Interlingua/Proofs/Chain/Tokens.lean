import Interlingua.Proofs.Emit.Agreement
import Interlingua.Proofs.Surface.Python
import Interlingua.Proofs.Surface.Split

/-!
# Chains read off tokens

In tokens, operators are marked as such, and brackets have kinds of their own; a reader takes tokens
apart at the operators that are outside of all brackets.

* `Token.Keeps` — tokens close the brackets that they open, and outside of these no operator is
  weaker than a bound.
* `Token.operands?` — the operands between the operators of one level.
* `View.keeps_exprTo` — the tokens of an expression keep to its operator, by induction on the depth.
* `Python.readTokens?` — the chain that tokens are.
* `Python.chain_tokens` — **the tokens of comparisons that line up are read as their chain.**
-/

namespace Interlingua

namespace Token

/-! ## Operators outside of brackets -/

/-- How many brackets are open after a token. -/
def depthAfter (depth : Nat) (token : Token) : Nat :=
  if token.kind.isOpenBrace then depth + 1
  else if token.kind.isCloseBrace then depth - 1
  else depth

/-- How many brackets are open after some tokens. -/
def depthAfterAll (depth : Nat) : List Token → Nat
  | [] => depth
  | token :: rest => depthAfterAll (depthAfter depth token) rest

/-- The operators outside of all brackets. -/
def outerForms (depth : Nat) : List Token → List OperatorForm
  | [] => []
  | token :: rest =>
    (if depth = 0 then token.form.toList else []) ++ outerForms (depthAfter depth token) rest

variable {depth bound level : Nat} {tokens first second rest : List Token} {form : OperatorForm}

theorem depthAfterAll_append :
    depthAfterAll depth (first ++ second) = depthAfterAll (depthAfterAll depth first) second := by
  induction first generalizing depth with
  | nil => rfl
  | cons token first ih => exact ih

theorem outerForms_cons (token : Token) :
    outerForms depth (token :: rest) =
      (if depth = 0 then token.form.toList else []) ++
        outerForms (depthAfter depth token) rest := rfl

theorem outerForms_singleton (token : Token) :
    outerForms depth [token] = if depth = 0 then token.form.toList else [] :=
  List.append_nil _

theorem outerForms_append :
    outerForms depth (first ++ second) =
      outerForms depth first ++ outerForms (depthAfterAll depth first) second := by
  induction first generalizing depth with
  | nil => rfl
  | cons token first ih =>
    rw [List.cons_append, outerForms_cons, outerForms_cons, ih, List.append_assoc]
    rfl

theorem depthAfter_untagged (token : Token) :
    depthAfter depth token.untagged = depthAfter depth token := rfl

theorem depthAfterAll_untagged :
    depthAfterAll depth (tokens.map untagged) = depthAfterAll depth tokens := by
  induction tokens generalizing depth with
  | nil => rfl
  | cons token tokens ih => exact ih

theorem outerForms_untagged : outerForms depth (tokens.map untagged) = outerForms depth tokens := by
  induction tokens generalizing depth with
  | nil => rfl
  | cons token tokens ih =>
    rw [List.map_cons, outerForms_cons, outerForms_cons, depthAfter_untagged, ih]
    rfl

/-- Tokens close the brackets that they open, and outside of these no operator is weaker than a
bound. -/
def Keeps (bound : Nat) (tokens : List Token) : Prop :=
  ∀ depth, depthAfterAll depth tokens = depth ∧
    ∀ form ∈ outerForms depth tokens, depth = 0 ∧ form.level ≤ bound

namespace Keeps

/-- Tags make no difference. -/
theorem congr (h : Keeps bound first) (heq : second.map untagged = first.map untagged) :
    Keeps bound second := by
  intro depth
  rw [← depthAfterAll_untagged, ← outerForms_untagged, heq, depthAfterAll_untagged,
    outerForms_untagged]
  exact h depth

theorem mono {less : Nat} (h : Keeps less tokens) (hle : less ≤ bound) : Keeps bound tokens :=
  fun depth => ⟨(h depth).1, fun form hform =>
    ⟨((h depth).2 form hform).1, Nat.le_trans ((h depth).2 form hform).2 hle⟩⟩

theorem nil : Keeps bound [] := fun _ => ⟨rfl, fun _ hform => absurd hform List.not_mem_nil⟩

theorem append (h : Keeps bound first) (h' : Keeps bound second) :
    Keeps bound (first ++ second) := by
  intro depth
  obtain ⟨hdepth, hforms⟩ := h depth
  obtain ⟨hdepth', hforms'⟩ := h' depth
  rw [depthAfterAll_append, outerForms_append, hdepth]
  exact ⟨hdepth', List.forall_mem_append.2 ⟨hforms, hforms'⟩⟩

theorem tagAll (h : Keeps bound tokens) (operator : Nat) (side : Side) :
    Keeps bound (Token.tagAll operator side tokens) := h.congr (by simp)

/-- A token that is no operator and no bracket. -/
theorem plain {kind : TokenKind} (hopen : kind.isOpenBrace = false)
    (hclose : kind.isCloseBrace = false) (value : String) : Keeps bound [.plain value kind] := by
  intro depth
  refine ⟨?_, by simp [outerForms_singleton, Token.plain]⟩
  simp [depthAfterAll, depthAfter, Token.plain, hopen, hclose]

theorem operator (hlevel : form.level ≤ bound) : Keeps bound [.ofForm form] := by
  intro depth
  refine ⟨rfl, fun found hfound => ?_⟩
  by_cases hdepth : depth = 0
  · subst hdepth
    have hform : found = form := by simpa [outerForms_singleton, ofForm] using hfound
    exact ⟨rfl, hform ▸ hlevel⟩
  · simp [outerForms_singleton, hdepth] at hfound

/-- Between brackets, operators may be as weak as they like. -/
theorem enclosed {inside : Nat} {opening closing : TokenKind} (hopen : opening.isOpenBrace = true)
    (hclose : closing.isCloseBrace = true) (hkind : closing.isOpenBrace = false)
    (h : Keeps inside tokens) (before after : String) :
    Keeps bound (.plain before opening :: tokens ++ [.plain after closing]) := by
  intro depth
  obtain ⟨hdepth, hforms⟩ := h (depth + 1)
  have hbefore : depthAfter depth (.plain before opening) = depth + 1 := by
    simp [depthAfter, Token.plain, hopen]
  have hafter : depthAfter (depth + 1) (.plain after closing) = depth := by
    simp [depthAfter, Token.plain, hclose, hkind]
  have hnone : outerForms (depth + 1) tokens = [] := by
    refine List.eq_nil_iff_forall_not_mem.2 fun form hform => ?_
    exact Nat.succ_ne_zero depth (hforms form hform).1
  have hinside : depthAfterAll depth (.plain before opening :: tokens) = depth + 1 := by
    rw [depthAfterAll, hbefore, hdepth]
  refine ⟨?_, ?_⟩
  · rw [depthAfterAll_append, hinside, depthAfterAll, hafter, depthAfterAll]
  · rw [outerForms_append, hinside, outerForms_cons, hbefore, hnone]
    simp [outerForms_singleton, Token.plain]

end Keeps

/-! ## Operands with operators between them -/

/-- The tokens up to the first operator of a level that is outside of all brackets, and each such
operator with the tokens up to the next. -/
def alternate (level depth : Nat) : List Token → List Token × List (OperatorForm × List Token)
  | [] => ([], [])
  | token :: rest =>
    let later := alternate level (depthAfter depth token) rest
    match token.form with
    | some form =>
      if depth = 0 ∧ form.level = level then ([], (form, later.1) :: later.2)
      else (token :: later.1, later.2)
    | none => (token :: later.1, later.2)

/-- The operands of some tokens, and the operators of one level between them; none if there is an
operator that is weaker. -/
def operands? (level : Nat) (tokens : List Token) :
    Option (List Token × List (OperatorForm × List Token)) :=
  if (outerForms 0 tokens).all (·.level ≤ level) then some (alternate level 0 tokens) else none

/-- An operand, and operators each with an operand after it. -/
def linked (first : List Token) : List (OperatorForm × List Token) → List Token
  | [] => first
  | (form, next) :: links => first ++ .ofForm form :: linked next links

theorem alternate_append (h : ∀ form ∈ outerForms depth tokens, form.level ≠ level) :
    alternate level depth (tokens ++ rest) =
      (tokens ++ (alternate level (depthAfterAll depth tokens) rest).1,
        (alternate level (depthAfterAll depth tokens) rest).2) := by
  induction tokens generalizing depth with
  | nil => rfl
  | cons token tokens ih =>
    rw [outerForms_cons, List.forall_mem_append] at h
    rw [List.cons_append, alternate, ih h.2]
    cases hform : token.form with
    | none => rfl
    | some form =>
      refine if_neg fun hfound => h.1 form ?_ hfound.2
      simp [hfound.1, hform]

/-- Tokens that keep to tighter operators belong to one operand. -/
theorem Keeps.alternate (hlt : bound < level) (h : Keeps bound tokens) (rest : List Token) :
    Token.alternate level 0 (tokens ++ rest) =
      (tokens ++ (Token.alternate level 0 rest).1, (Token.alternate level 0 rest).2) := by
  obtain ⟨hdepth, hforms⟩ := h 0
  have hother : ∀ form ∈ outerForms 0 tokens, form.level ≠ level := by
    intro form hform
    have hle := (hforms form hform).2
    omega
  rw [alternate_append hother, hdepth]

/-- Each operator is one of a level, and the operands keep to tighter ones. -/
structure Level (level : Nat) (first : List Token) (links : List (OperatorForm × List Token)) :
    Prop where
  first : Keeps (level - 1) first
  form : ∀ link ∈ links, link.1.level = level
  next : ∀ link ∈ links, Keeps (level - 1) link.2

namespace Level

variable {links : List (OperatorForm × List Token)}

theorem tail {link : OperatorForm × List Token} (h : Level level first (link :: links)) :
    Level level link.2 links :=
  ⟨h.next link (by simp), fun other hother => h.form other (by simp [hother]),
    fun other hother => h.next other (by simp [hother])⟩

theorem keeps (h : Level level first links) : Keeps level (linked first links) := by
  induction links generalizing first with
  | nil => exact h.first.mono (Nat.sub_le _ _)
  | cons link rest ih =>
    have hform : Keeps level [.ofForm link.1] := .operator (Nat.le_of_eq (h.form link (by simp)))
    exact (h.first.mono (Nat.sub_le _ _)).append (hform.append (ih h.tail))

theorem alternate (hpos : 0 < level) (h : Level level first links) :
    Token.alternate level 0 (linked first links) = (first, links) := by
  induction links generalizing first with
  | nil =>
    have hfirst := h.first.alternate (by omega : level - 1 < level) []
    simpa [linked, Token.alternate] using hfirst
  | cons link rest ih =>
    have hoperator : Token.alternate level 0 (.ofForm link.1 :: linked link.2 rest) =
        ([], (link.1, (Token.alternate level 0 (linked link.2 rest)).1) ::
          (Token.alternate level 0 (linked link.2 rest)).2) :=
      if_pos ⟨rfl, h.form link (by simp)⟩
    rw [linked, h.first.alternate (by omega : level - 1 < level), hoperator, ih h.tail,
      List.append_nil]

/-- **Operands with operators of one level between them are read back.** -/
theorem operands?_linked (hpos : 0 < level) (h : Level level first links) :
    operands? level (linked first links) = some (first, links) := by
  have hforms : (outerForms 0 (linked first links)).all (·.level ≤ level) = true := by
    rw [List.all_eq_true]
    exact fun form hform => decide_eq_true ((h.keeps 0).2 form hform).2
  rw [operands?, if_pos hforms, h.alternate hpos]

end Level

end Token

/-! ## Tokens of expressions -/

/-- How weak an operator can be that is outside of brackets in the tokens of an expression. -/
def Language.reach (lang : Language) (e : Expr) : Nat :=
  max (lang.boundOf e) lang.operators.access.level

theorem OperatorForm.limit_le_level (form : OperatorForm) (side : Side) :
    form.limit side ≤ form.level := by
  unfold limit
  split
  · exact Nat.sub_le _ _
  · split
    · exact Nat.le_refl _
    · exact Nat.le_refl _
    · exact Nat.sub_le _ _

namespace Piece

/-- Whatever tokens a run yields, they keep to a bound. -/
def Keeps (bound : Nat) (piece : Piece) : Prop :=
  ∀ start tokens, piece start = .ok tokens → Token.Keeps bound tokens

variable {bound : Nat} {p q r : Piece} {form : OperatorForm}

theorem Keeps.mono {less : Nat} (h : Keeps less p) (hle : less ≤ bound) : Keeps bound p :=
  fun start tokens hrun => (h start tokens hrun).mono hle

theorem Keeps.fail {error : TokenError} : Keeps bound fun _ => .error error := by
  intro start tokens hrun
  cases hrun

theorem Keeps.plain {kind : TokenKind} (hopen : kind.isOpenBrace = false)
    (hclose : kind.isCloseBrace = false) (value : String) :
    Keeps bound (Piece.plain value kind) := by
  intro start tokens hrun
  cases hrun
  exact .plain hopen hclose value

theorem Keeps.append (hp : Keeps bound p) (hq : Keeps bound q) : Keeps bound (p ++ q) := by
  intro start tokens hrun
  obtain ⟨before, after, hbefore, hafter, rfl⟩ := append_ok hrun
  exact (hp _ _ hbefore).append (hq _ _ hafter)

theorem Keeps.leading (hlevel : form.level ≤ bound) (hp : Keeps bound p) :
    Keeps bound (Piece.leading form p) := by
  intro start tokens hrun
  obtain ⟨operand, hoperand, hrun⟩ := bind_ok hrun
  cases hrun
  exact (Token.Keeps.operator hlevel).append ((hp _ _ hoperand).tagAll _ _)

theorem Keeps.trailing (hlevel : form.level ≤ bound) (hp : Keeps bound p) :
    Keeps bound (Piece.trailing form p) := by
  intro start tokens hrun
  obtain ⟨operand, hoperand, hrun⟩ := bind_ok hrun
  cases hrun
  exact ((hp _ _ hoperand).tagAll _ _).append (.operator hlevel)

theorem keeps_joined {start : Nat} {left tokens : List Token} (hlevel : form.level ≤ bound)
    (hleft : Token.Keeps bound left) (hp : Keeps bound p)
    (hrun : joined start left form p = .ok tokens) : Token.Keeps bound tokens := by
  obtain ⟨right, hright, hrun⟩ := bind_ok hrun
  cases hrun
  exact (hleft.tagAll _ _).append ((Token.Keeps.operator hlevel).append
    ((hp _ _ hright).tagAll _ _))

theorem Keeps.between (hlevel : form.level ≤ bound) (hp : Keeps bound p) (hq : Keeps bound q) :
    Keeps bound (Piece.between form p q) := by
  intro start tokens hrun
  obtain ⟨left, hleft, hrun⟩ := bind_ok hrun
  exact keeps_joined hlevel (hp _ _ hleft) hq hrun

theorem Keeps.ternary {forms : OperatorForm × OperatorForm} (hfirst : forms.1.level ≤ bound)
    (hsecond : forms.2.level ≤ bound) (hp : Keeps bound p) (hq : Keeps bound q)
    (hr : Keeps bound r) : Keeps bound (Piece.ternary forms p q r) := by
  intro start tokens hrun
  obtain ⟨left, hleft, hrun⟩ := bind_ok hrun
  obtain ⟨center, hcenter, hrun⟩ := bind_ok hrun
  obtain ⟨right, hright, hrun⟩ := bind_ok hrun
  cases hrun
  have hrest := (Token.Keeps.operator hsecond).append ((hr _ _ hright).tagAll
    (start + left.length) .right)
  exact ((hp _ _ hleft).tagAll _ _).append ((Token.Keeps.operator hfirst).append
    (((hq _ _ hcenter).tagAll _ _).append hrest))

/-- A run that needs an operator. -/
theorem Keeps.required {lang : Language} {construct : String} {form? : Option OperatorForm}
    {piece : OperatorForm → Piece} (h : ∀ form, form? = some form → Keeps bound (piece form)) :
    Keeps bound (fun start => do
      let form ← Linear.required lang construct form?
      piece form start) := by
  intro start tokens hrun
  obtain ⟨form, hform, hrun⟩ := bind_ok hrun
  exact h form (required_ok hform) start tokens hrun

/-- Whatever tokens a run yields, they close the brackets that they open. -/
def Closes (piece : Piece) : Prop :=
  ∀ start tokens, piece start = .ok tokens → ∃ bound, Token.Keeps bound tokens

theorem Keeps.closes (h : Keeps bound p) : Closes p :=
  fun start tokens hrun => ⟨bound, h start tokens hrun⟩

theorem Closes.append (hp : Closes p) (hq : Closes q) : Closes (p ++ q) := by
  intro start tokens hrun
  obtain ⟨before, after, hbefore, hafter, rfl⟩ := append_ok hrun
  obtain ⟨first, hfirst⟩ := hp _ _ hbefore
  obtain ⟨second, hsecond⟩ := hq _ _ hafter
  exact ⟨max first second, (hfirst.mono (Nat.le_max_left _ _)).append
    (hsecond.mono (Nat.le_max_right _ _))⟩

theorem Closes.commaSeparated {pieces : List Piece} (h : ∀ piece ∈ pieces, Closes piece) :
    Closes (Piece.commaSeparated pieces) := by
  induction pieces with
  | nil =>
    intro start tokens hrun
    cases hrun
    exact ⟨0, .nil⟩
  | cons piece pieces ih =>
    have hpiece := h piece (by simp)
    cases pieces with
    | nil => exact hpiece
    | cons next pieces =>
      have hcomma : Keeps 0 (Piece.plain "," .comma) := .plain rfl rfl _
      exact hpiece.append (hcomma.closes.append (ih fun other hother => h other (by simp [hother])))

/-- A run between brackets. -/
theorem Closes.enclosed {opening closing : TokenKind} (hopen : opening.isOpenBrace = true)
    (hclose : closing.isCloseBrace = true) (hkind : closing.isOpenBrace = false) (h : Closes p)
    (before after : String) :
    Keeps bound (Piece.plain before opening ++ p ++ Piece.plain after closing) := by
  intro start tokens hrun
  obtain ⟨front, back, hfront, hback, rfl⟩ := append_ok hrun
  obtain ⟨first, inner, hfirst, hinner, rfl⟩ := append_ok hfront
  cases hfirst
  cases hback
  obtain ⟨inside, hinside⟩ := h _ _ hinner
  exact .enclosed hopen hclose hkind hinside before after

theorem Closes.grouped (h : Closes p) : Keeps bound (Linear.grouped p) :=
  h.enclosed rfl rfl rfl "(" ")"

end Piece

namespace Linear

variable {context : Context} {bound : Nat} {id child target : NodeId} {ids items : List NodeId}
  {form : OperatorForm} {side : Side}

/-- The tokens of an expression keep to its operator. -/
def Context.Keeps (context : Context) (id : NodeId) : Prop :=
  ∀ start tokens, context.below id start = .ok tokens →
    ∃ e, context.arena.expr id = .ok e ∧ Token.Keeps (context.lang.reach e) tokens

theorem Context.Keeps.closes (h : context.Keeps id) : Piece.Closes (context.below id) := by
  intro start tokens hrun
  obtain ⟨e, -, hkeeps⟩ := h start tokens hrun
  exact ⟨_, hkeeps⟩

/-- **An operand shows no operator that is weaker than its limit.** -/
theorem keeps_operand (h : context.Keeps child) (form : OperatorForm) (side : Side) :
    Piece.Keeps (max (form.limit side) context.lang.operators.access.level)
      (operand context form child side) := by
  intro start tokens hrun
  obtain ⟨wrapped, hwrapped, hrun⟩ := Piece.bind_ok hrun
  cases wrapped with
  | true => exact h.closes.grouped _ _ hrun
  | false =>
    obtain ⟨e, he, hkeeps⟩ := h start tokens hrun
    have hle := Site.boundOf_le_limit he (Piece.lift_ok hwrapped)
    exact hkeeps.mono (by unfold Language.reach; omega)

theorem keeps_operand_level (h : context.Keeps child) (side : Side)
    (hbound : max form.level context.lang.operators.access.level ≤ bound) :
    Piece.Keeps bound (operand context form child side) := by
  refine (keeps_operand h form side).mono ?_
  have hle := form.limit_le_level side
  omega

theorem keeps_accessed (h : context.Keeps target) :
    Piece.Keeps context.lang.operators.access.level (accessed context target) :=
  keeps_operand_level h .left (by omega)

theorem keeps_arguments (h : ∀ id ∈ ids, context.Keeps id) :
    Piece.Keeps bound (arguments context ids) := by
  have hlist : Piece.Closes (Piece.commaSeparated (ids.map context.below)) := by
    refine .commaSeparated fun piece hpiece => ?_
    obtain ⟨id, hid, rfl⟩ := List.mem_map.1 hpiece
    exact (h id hid).closes
  exact hlist.enclosed rfl rfl rfl "(" ")"

theorem keeps_word (word : Word) {kind : TokenKind} (hopen : kind.isOpenBrace = false)
    (hclose : kind.isCloseBrace = false) (construct : String) :
    Piece.Keeps bound (Linear.word context.lang word kind construct) := by
  intro start tokens hrun
  unfold Linear.word at hrun
  split at hrun
  · exact Piece.Keeps.plain hopen hclose _ _ _ hrun
  · cases hrun

/-! ### Comparisons -/

/-- Comparisons whose operators are within a bound. -/
def Context.Compares (context : Context) (bound : Nat) (item : NodeId) : Prop :=
  ∀ form left right, comparison context item = .ok (form, left, right) →
    max form.level context.lang.operators.access.level ≤ bound ∧ context.Keeps left ∧
      context.Keeps right

theorem keeps_chainRest (h : ∀ item ∈ items, context.Compares bound item) {start : Nat}
    {left tokens : List Token} (hleft : Token.Keeps bound left)
    (hrun : chainRest context start left items = .ok tokens) : Token.Keeps bound tokens := by
  induction items generalizing start left tokens with
  | nil =>
    cases hrun
    exact hleft
  | cons item items ih =>
    obtain ⟨⟨form, first, right⟩, hcompare, hrun⟩ := Piece.bind_ok hrun
    obtain ⟨rights, hrights, hrun⟩ := Piece.bind_ok hrun
    obtain ⟨after, hafter, hrun⟩ := Piece.bind_ok hrun
    cases hrun
    obtain ⟨hlevel, -, hright⟩ := h item (by simp) form first right hcompare
    have hnext := keeps_operand_level hright .right hlevel _ _ hrights
    have hrest := ih (fun other hother => h other (by simp [hother])) (hnext.tagAll _ _) hafter
    exact (hleft.tagAll _ _).append ((Token.Keeps.operator (by omega)).append hrest)

theorem keeps_chain (h : ∀ item ∈ items, context.Compares bound item) :
    Piece.Keeps bound (chain context items) := by
  intro start tokens hrun
  cases items with
  | nil =>
    cases hrun
    exact .nil
  | cons item items =>
    obtain ⟨⟨form, left, right⟩, hcompare, hrun⟩ := Piece.bind_ok hrun
    obtain ⟨first, hfirst, hrun⟩ := Piece.bind_ok hrun
    obtain ⟨hlevel, hleft, -⟩ := h item (by simp) form left right hcompare
    exact keeps_chainRest h (keeps_operand_level hleft .left hlevel _ _ hfirst) hrun

theorem keeps_joinRest (hbound : max form.level context.lang.operators.access.level ≤ bound)
    (h : ∀ item ∈ items, context.Keeps item) {start : Nat} {left tokens : List Token}
    (hleft : Token.Keeps bound left) (hrun : joinRest context form start left items = .ok tokens) :
    Token.Keeps bound tokens := by
  induction items generalizing left tokens with
  | nil =>
    cases hrun
    exact hleft
  | cons item items ih =>
    obtain ⟨joined, hjoined, hrun⟩ := Piece.bind_ok hrun
    have hright := keeps_operand_level (h item (by simp)) .right hbound
    exact ih (fun other hother => h other (by simp [hother]))
      (Piece.keeps_joined (by omega) hleft hright hjoined) hrun

theorem keeps_conjunction (h : ∀ item ∈ items, context.Keeps item)
    (hbound : ∀ form, context.lang.operators.binary .and = some form →
      max form.level context.lang.operators.access.level ≤ bound) :
    Piece.Keeps bound (conjunction context items) := by
  intro start tokens hrun
  cases items with
  | nil =>
    cases hrun
    exact .nil
  | cons item items =>
    obtain ⟨form, hform, hrun⟩ := Piece.bind_ok hrun
    obtain ⟨first, hfirst, hrun⟩ := Piece.bind_ok hrun
    have hlevel := hbound form (Piece.required_ok hform)
    exact keeps_joinRest hlevel (fun other hother => h other (by simp [hother]))
      (keeps_operand_level (h item (by simp)) .left hlevel _ _ hfirst) hrun

/-! ### One layer -/

theorem reach_eq {lang : Language} {e : Expr} (h : lang.formOf? e = some form) :
    max form.level lang.operators.access.level = lang.reach e := by
  rw [Language.reach, Language.boundOf_eq h]

/-- What is made of a term that is accessed keeps to access. -/
theorem access_le_reach (lang : Language) (e : Expr) :
    lang.operators.access.level ≤ lang.reach e := Nat.le_max_right _ _

theorem keeps_between {e : Expr} {left right : NodeId}
    (hform : context.lang.formOf? e = some form) (hl : context.Keeps left)
    (hr : context.Keeps right) :
    Piece.Keeps (context.lang.reach e) (between context form left right) := by
  have hbound := Nat.le_of_eq (reach_eq hform)
  exact .between (by omega) (keeps_operand_level hl .left hbound)
    (keeps_operand_level hr .right hbound)

theorem keeps_ternary {cond whenTrue whenFalse : NodeId} (hc : context.Keeps cond)
    (ht : context.Keeps whenTrue) (hf : context.Keeps whenFalse) :
    Piece.Keeps (context.lang.reach (.ternary cond whenTrue whenFalse))
      (exprWith context (.ternary cond whenTrue whenFalse)) := by
  have hform : context.lang.formOf? (.ternary cond whenTrue whenFalse) =
      some context.lang.operators.ternary.1 := rfl
  have hbound := Nat.le_of_eq (reach_eq hform)
  have hsecond : context.lang.operators.ternary.2.level =
      context.lang.operators.ternary.1.level := by
    cases context.lang <;> rfl
  have hall : ∀ {left center}, context.Keeps left → context.Keeps center →
      Piece.Keeps (context.lang.reach (.ternary cond whenTrue whenFalse))
        (Piece.ternary context.lang.operators.ternary
          (operand context context.lang.operators.ternary.1 left .left)
          (operand context context.lang.operators.ternary.1 center .center)
          (operand context context.lang.operators.ternary.1 whenFalse .right)) := by
    intro left center hleft hcenter
    exact .ternary (by omega) (by omega) (keeps_operand_level hleft .left hbound)
      (keeps_operand_level hcenter .center hbound) (keeps_operand_level hf .right hbound)
  refine hall ?_ ?_
  · cases context.lang.operators.ternaryLayout with
    | condFirst => exact hc
    | thenFirst => exact ht
  · cases context.lang.operators.ternaryLayout with
    | condFirst => exact ht
    | thenFirst => exact hc

theorem keeps_compound (h : ∀ item ∈ items, context.Keeps item)
    (hchain : context.lang.operators.chains = true →
      ∀ item ∈ items, context.Compares (context.lang.reach (.compound items)) item) :
    Piece.Keeps (context.lang.reach (.compound items)) (compound context items) := by
  unfold compound
  split
  · exact .fail
  · split
    · rename_i hchains
      exact keeps_chain (hchain hchains)
    · rename_i hchains
      refine keeps_conjunction h fun form hform => Nat.le_of_eq (reach_eq ?_)
      rw [Language.formOf?, if_neg hchains, hform]

/-- **Each layer keeps to its operator**, if what is below it does. -/
theorem keeps_exprWith {e : Expr} (hbelow : ∀ child ∈ e.children.map Child.id, context.Keeps child)
    (hchain : ∀ items, e = .compound items → context.lang.operators.chains = true →
      ∀ item ∈ items, context.Compares (context.lang.reach e) item) :
    Piece.Keeps (context.lang.reach e) (exprWith context e) := by
  have hheld : ∀ {field ids}, Interlingua.held field ids ⊆ e.children →
      ∀ id ∈ ids, context.Keeps id := by
    intro field ids hids id hid
    refine hbelow id (List.mem_map.2 ⟨⟨id, field⟩, hids ?_, rfl⟩)
    simpa [Interlingua.held] using hid
  cases e with
  | int value | float bits | str value kind => exact .plain rfl rfl _
  | ident name | «scoped» path => exact .plain rfl rfl _
  | bool value => cases value <;> exact keeps_word _ rfl rfl _
  | null | selfRef | superRef => exact keeps_word _ rfl rfl _
  | binary op left right =>
    refine .required fun form hform => ?_
    exact keeps_between hform (hbelow left (by simp [Expr.children]))
      (hbelow right (by simp [Expr.children]))
  | assign op target value =>
    refine .required fun form hform => ?_
    exact keeps_between (by simp [Language.formOf?, hform])
      (hbelow target (by simp [Expr.children])) (hbelow value (by simp [Expr.children]))
  | unary op inner =>
    have hinner := hbelow inner (by simp [Expr.children])
    intro start tokens hrun
    obtain ⟨form, hform, hrun⟩ := Piece.bind_ok hrun
    have hform : context.lang.formOf? (.unary op inner) = some form := Piece.required_ok hform
    have hbound := Nat.le_of_eq (reach_eq hform)
    split at hrun
    · exact Piece.Keeps.leading (by omega) (keeps_operand_level hinner .right hbound) _ _ hrun
    · exact Piece.Keeps.trailing (by omega) (keeps_operand_level hinner .left hbound) _ _ hrun
  | ternary cond whenTrue whenFalse =>
    exact keeps_ternary (hbelow cond (by simp [Expr.children]))
      (hbelow whenTrue (by simp [Expr.children])) (hbelow whenFalse (by simp [Expr.children]))
  | compound items => exact keeps_compound (hheld (List.Subset.refl _)) (hchain items rfl)
  | paren inner => exact (hbelow inner (by simp [Expr.children])).closes.grouped
  | call callee args =>
    have hargs : Piece.Keeps (context.lang.reach (.call callee args)) (arguments context args) :=
      keeps_arguments (hheld (List.subset_cons_self _ _))
    intro start tokens hrun
    obtain ⟨named, -, hrun⟩ := Piece.bind_ok hrun
    split at hrun
    · exact Piece.Keeps.append (.plain rfl rfl _) hargs _ _ hrun
    · have hcallee := keeps_accessed (hbelow callee (by simp [Expr.children]))
      exact Piece.Keeps.append (hcallee.mono (access_le_reach _ _)) hargs _ _ hrun
  | method receiver name args =>
    have htarget := keeps_accessed (hbelow receiver (by simp [Expr.children]))
    have hargs : Piece.Keeps (context.lang.reach (.method receiver name args))
        (arguments context args) :=
      keeps_arguments (hheld (List.subset_cons_self _ _))
    exact (((htarget.mono (access_le_reach _ _)).append (.plain rfl rfl _)).append
      (.plain rfl rfl _)).append hargs
  | index target position =>
    have htarget := keeps_accessed (hbelow target (by simp [Expr.children]))
    have hposition := (hbelow position (by simp [Expr.children])).closes
    intro start tokens hrun
    obtain ⟨front, closing, hfront, hclosing, rfl⟩ := Piece.append_ok hrun
    obtain ⟨opened, inner, hopened, hinner, rfl⟩ := Piece.append_ok hfront
    obtain ⟨targets, opening, htargets, hopening, rfl⟩ := Piece.append_ok hopened
    cases hclosing
    cases hopening
    obtain ⟨inside, hinside⟩ := hposition _ _ hinner
    have hbrackets : Token.Keeps (context.lang.reach (.index target position))
        (.plain "[" .subscriptOpenBrace :: inner ++ [Token.plain "]" .subscriptCloseBrace]) :=
      .enclosed rfl rfl rfl hinside "[" "]"
    simpa using ((htarget _ _ htargets).mono (access_le_reach _ _)).append hbrackets
  | member target name =>
    have htarget := keeps_accessed (hbelow target (by simp [Expr.children]))
    exact ((htarget.mono (access_le_reach _ _)).append (.plain rfl rfl _)).append
      (.plain rfl rfl _)
  | char _ | interpolated _ | collection _ _ | dict _ | cast _ _ | sizeOf _ | new _ _
  | newArray _ _ _ | sequence _ => exact .fail

end Linear

/-- Where comparisons chain, those that are no conjunctions bind as a chain does. -/
theorem Language.level_le_chain {lang : Language} {op : BinaryOp} {form : OperatorForm}
    {items : List NodeId} (hchains : lang.operators.chains = true)
    (hform : lang.operators.binary op = some form) (hop : op.isLogical = false) :
    max form.level lang.operators.access.level ≤ lang.reach (.compound items) := by
  cases lang with
  | python =>
    have hlevel : (Python.binary op).map OperatorForm.level = some form.level :=
      congrArg (Option.map OperatorForm.level) hform
    have hle := Python.level_le_comparison hop hlevel
    have haccess : Language.python.operators.access.level ≤ Python.comparisonLevel := by decide
    exact Nat.max_le.2 ⟨hle, haccess⟩
  | java | cpp => cases hchains

namespace View

variable {view : View} {id : NodeId}

/-- **The tokens of a tight expression keep to its operator.** -/
theorem keeps_exprTo (depth : Nat) (htight : view.Tight id) :
    Linear.Context.Keeps ⟨view.lang, view.arena, Linear.exprTo view.lang view.arena depth⟩ id := by
  induction depth generalizing id with
  | zero =>
    intro start tokens hrun
    cases hrun
  | succ depth ih =>
    intro start tokens hrun
    obtain ⟨e, he, hrun⟩ := Piece.bind_ok hrun
    have he := Piece.lift_ok he
    refine ⟨e, he, Linear.keeps_exprWith (fun child hchild => ih (htight.child he hchild)) ?_ start
      tokens hrun⟩
    rintro items rfl hchains item hitem form left right hcompare
    obtain ⟨op, hitem', hform⟩ := Linear.comparison_ok hcompare
    have hlang : view.lang = .python := by
      cases hlang : view.lang with
      | python => rfl
      | java | cpp =>
        rw [hlang] at hchains
        cases hchains
    have hop : op.isLogical = false := htight.keepsForm he hlang item hitem op left right hitem'
    obtain ⟨hl, hr⟩ := (htight.held "comparisons" he (List.Subset.refl _) item hitem).binary hitem'
    exact ⟨Language.level_le_chain hchains hform hop, ih hl, ih hr⟩

/-- Tokens stand for an expression: but for their tags they are its tokens, bare or in
parentheses. -/
def OffersTokens (view : View) (id : NodeId) (tokens : List Token) : Prop :=
  ∃ depth start inner, Linear.exprTo view.lang view.arena depth id start = .ok inner ∧
    (tokens.map Token.untagged = inner.map Token.untagged ∨ tokens.map Token.untagged =
      .plain "(" .openBrace :: inner.map Token.untagged ++ [.plain ")" .closeBrace])

theorem OffersTokens.congr {tokens other : List Token} (h : view.OffersTokens id tokens)
    (heq : other.map Token.untagged = tokens.map Token.untagged) : view.OffersTokens id other := by
  obtain ⟨depth, start, inner, hrun, hinner⟩ := h
  exact ⟨depth, start, inner, hrun, by rwa [heq]⟩

/-- The tokens of an operand stand for it. -/
theorem offersTokens_operand {depth start : Nat} {form : OperatorForm} {side : Side}
    {tokens : List Token}
    (hrun : Linear.operand ⟨view.lang, view.arena, Linear.exprTo view.lang view.arena depth⟩ form id
      side start = .ok tokens) : view.OffersTokens id tokens := by
  obtain ⟨wrapped, -, hrun⟩ := Piece.bind_ok hrun
  cases wrapped with
  | true =>
    obtain ⟨front, closing, hfront, hclosing, rfl⟩ := Piece.append_ok hrun
    obtain ⟨opening, inner, hopening, hinner, rfl⟩ := Piece.append_ok hfront
    cases hopening
    cases hclosing
    exact ⟨depth, _, inner, hinner, .inr (by simp)⟩
  | false => exact ⟨depth, start, tokens, hrun, .inl rfl⟩

end View

/-! ## Reading a chain -/

namespace Python

/-- The comparison that an operator is. -/
def comparisonOf? (form : OperatorForm) : Option BinaryOp :=
  BinaryOp.all.find? fun op => op.isComparison && binary op == some form

/-- What is compared by operators, each with the operand after it. -/
def comparisonsOf? : List (OperatorForm × List Token) → Option (List (BinaryOp × List Token))
  | [] => some []
  | (form, operand) :: rest => do
    let op ← comparisonOf? form
    let links ← comparisonsOf? rest
    return (op, operand) :: links

/-- The chain that tokens are. -/
def readTokens? (tokens : List Token) : Option (Chain (List Token)) := do
  let (first, operators) ← Token.operands? comparisonLevel tokens
  let links ← comparisonsOf? operators
  return ⟨first, links⟩

theorem comparisonOf?_eq {op : BinaryOp} (hop : op.isComparison = true) {form : OperatorForm}
    (hform : binary op = some form) :
    comparisonOf? form = some op ∧ form.level = comparisonLevel ∧
      ∀ side, form.limit side = comparisonLevel - 1 := by
  cases op <;> cases hop <;> cases hform <;> exact ⟨rfl, rfl, fun side => by cases side <;> rfl⟩

variable {view : View} {depth : Nat} (hlang : view.lang = .python)

/-- Tokens stand for the operands of links, and the operators before them are those of the links. -/
def Marks (view : View) (links : List (BinaryOp × NodeId)) (first : List Token)
    (forms : List (OperatorForm × List Token)) : Prop :=
  Token.Level comparisonLevel first forms ∧ ∃ pieces, comparisonsOf? forms = some pieces ∧
    List.Forall₂ (fun link piece => link.1 = piece.1 ∧ view.OffersTokens link.2 piece.2) links pieces

variable {items : List NodeId} {links : List (BinaryOp × NodeId)} {tokens lefts : List Token}
  {start : Nat}

include hlang in
/-- An operand of a comparison keeps to tighter operators. -/
theorem operand_tokens {child : NodeId} {form : OperatorForm} {side : Side}
    (hlimit : form.limit side = comparisonLevel - 1) (htight : view.Tight child)
    (hrun : Linear.operand ⟨view.lang, view.arena, Linear.exprTo view.lang view.arena depth⟩ form
      child side start = .ok tokens) :
    Token.Keeps (comparisonLevel - 1) tokens ∧ view.OffersTokens child tokens := by
  refine ⟨?_, View.offersTokens_operand hrun⟩
  have hkeeps := Linear.keeps_operand (view.keeps_exprTo depth htight) form side _ _ hrun
  rw [hlimit, hlang] at hkeeps
  exact hkeeps

include hlang in
/-- **The tokens of a chain go on with those of the next comparisons.** -/
theorem chainRest_tokens (h : List.Forall₂ view.arena.Ends items links)
    (htight : ∀ item ∈ items, view.Tight item) (hleft : Token.Keeps (comparisonLevel - 1) lefts)
    (hrun : Linear.chainRest ⟨view.lang, view.arena, Linear.exprTo view.lang view.arena depth⟩ start
      lefts items = .ok tokens) :
    ∃ first forms, tokens = Token.linked first forms ∧
      first.map Token.untagged = lefts.map Token.untagged ∧ Marks view links first forms := by
  induction h generalizing start lefts tokens with
  | nil =>
    cases hrun
    exact ⟨_, [], rfl, rfl, ⟨hleft, by simp, by simp⟩, [], rfl, .nil⟩
  | @cons item link items links hitem _ ih =>
    obtain ⟨left, he, hop⟩ := hitem
    obtain ⟨⟨form, left', right'⟩, hcompare, hrun⟩ := Piece.bind_ok hrun
    obtain ⟨rights, hrights, hrun⟩ := Piece.bind_ok hrun
    obtain ⟨after, hafter, hrun⟩ := Piece.bind_ok hrun
    cases hrun
    obtain ⟨op', he', hform⟩ := Linear.comparison_ok hcompare
    cases he.symm.trans he'
    obtain ⟨hread, hlevel, hlimit⟩ := comparisonOf?_eq hop (hlang ▸ hform)
    obtain ⟨-, hr⟩ := (htight item (by simp)).binary he
    obtain ⟨hkeeps, hoffers⟩ := operand_tokens hlang (hlimit .right) hr hrights
    obtain ⟨next, forms, rfl, hnext, ⟨hforms, pieces, hpieces, hrel⟩⟩ :=
      ih (fun other hother => htight other (by simp [hother])) (hkeeps.tagAll _ _) hafter
    have hnext : next.map Token.untagged = rights.map Token.untagged := by simpa using hnext
    refine ⟨Token.tagAll _ .left lefts, (form, next) :: forms, rfl, by simp, ⟨?_, ?_, ?_⟩,
      (link.1, next) :: pieces, ?_, .cons ⟨rfl, hoffers.congr hnext⟩ hrel⟩
    · exact hleft.tagAll _ _
    · exact List.forall_mem_cons.2 ⟨hlevel, hforms.form⟩
    · exact List.forall_mem_cons.2 ⟨hforms.first, hforms.next⟩
    · simp only [comparisonsOf?, hread, hpieces, Option.bind_eq_bind, Option.bind_some,
        Option.pure_def]

include hlang in
/-- **The tokens of comparisons that line up are read as their chain.** -/
theorem chain_tokens {nodes : Chain NodeId} (h : view.arena.Lines items nodes)
    (htight : ∀ item ∈ items, view.Tight item)
    (hrun : Linear.chain ⟨view.lang, view.arena, Linear.exprTo view.lang view.arena depth⟩ items
      start = .ok tokens) :
    ∃ pieces, readTokens? tokens = some pieces ∧ nodes.Rel view.OffersTokens pieces := by
  have hends := h.ends
  cases h with
  | @intro item left right op items links he hop rest =>
    obtain ⟨⟨form, left', right'⟩, hcompare, hnext⟩ := Piece.bind_ok hrun
    obtain ⟨lefts, hlefts, hrest⟩ := Piece.bind_ok hnext
    obtain ⟨op', he', hform⟩ := Linear.comparison_ok hcompare
    cases he.symm.trans he'
    obtain ⟨-, -, hlimit⟩ := comparisonOf?_eq hop (hlang ▸ hform)
    obtain ⟨hl, -⟩ := (htight item (by simp)).binary he
    obtain ⟨hkeeps, hoffers⟩ := operand_tokens hlang (hlimit .left) hl hlefts
    obtain ⟨first, forms, rfl, hfirst, hlevel, pieces, hpieces, hrel⟩ :=
      chainRest_tokens hlang hends htight hkeeps hrest
    refine ⟨⟨first, pieces⟩, ?_, ⟨hoffers.congr hfirst, hrel⟩⟩
    rw [readTokens?, hlevel.operands?_linked (by decide)]
    simp only [hpieces, Option.bind_eq_bind, Option.bind_some, Option.pure_def]

end Python

end Interlingua
