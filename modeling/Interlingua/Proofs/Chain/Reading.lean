import Interlingua.Proofs.Chain.Meaning
import Interlingua.Proofs.Emit.Structure
import Interlingua.Proofs.Surface.Clear
import Interlingua.Proofs.Surface.Split

/-!
# Chains read off a text

A reader of Python takes a text apart at its comparisons; each compares the operands on either side
of it.

* `View.Offers` — a text stands for an expression: it is its text, bare or in parentheses.
* `Python.readChain?` — the chain that a text is; identity is a comparison with `None`.
* `Python.yields_chain` — what is written for comparisons that line up is read as their chain.
* `View.chain_truth` — **a conjunction of comparisons that is written as a chain is as true as the
  chain that is read.**
-/

namespace Interlingua

open Surface

/-! ## Operands -/

/-- A text stands for an expression: it is its text, bare or in parentheses. -/
def View.Offers (view : View) (id : NodeId) (piece : String) : Prop :=
  ∃ depth before text after, view.exprTo depth id before = .ok text after ∧
    (piece = text ∨ piece = parenthesized text)

/-- The text of an operand that shows no operator weaker than a bound. -/
structure View.Piece (view : View) (bound : Nat) (id : NodeId) (piece : String) : Prop where
  offers : view.Offers id piece
  shows : Surface.Shows view.lang bound piece
  null : view.arena.expr id = .ok .null → view.lang.operators.word .null = some piece

/-- What a result that is yielded comes from. -/
theorem Yields.traced {ε σ α : Type} {inv : σ → Prop} {action : EStateM ε σ α}
    {post : α → Prop} (h : Yields inv action post) :
    Yields inv action fun a => post a ∧ ∃ before after, action before = .ok a after := by
  intro before a after hbefore hrun
  obtain ⟨hafter, ha⟩ := h before a after hbefore hrun
  exact ⟨hafter, ha, before, after, hrun⟩

namespace View

variable {view : View} {id : NodeId}

/-- The null value is written as a word, and never grouped. -/
theorem null_text {depth : Nat} {before after : Scope} {text : String}
    (he : view.arena.expr id = .ok .null) (hrun : view.exprTo depth id before = .ok text after) :
    view.lang.operators.word .null = some text := by
  cases depth with
  | zero => cases hrun
  | succ depth =>
    have hword : view.exprTo (depth + 1) id = Site.word ⟨view, view.exprTo depth⟩ .null .null :=
      exprTo_succ he
    rw [hword] at hrun
    cases hfound : view.lang.operators.word .null with
    | some word =>
      simp only [Site.word, Site.lang, hfound] at hrun
      cases hrun
      rfl
    | none =>
      simp only [Site.word, Site.lang, hfound] at hrun
      cases hrun

theorem yields_piece (depth : Nat) (htypes : view.arena.TypesPlain) (htight : view.Tight id)
    (parent : OperatorForm) (side : Side) :
    Yields Scope.Plain (Site.operand ⟨view, view.exprTo depth⟩ parent id side)
      (view.Piece (parent.limit side) id) := by
  refine (Yields.traced (written_exprTo htypes depth id htight)).bind fun text hall => ?_
  obtain ⟨⟨e, he, hshows⟩, before, after, hrun⟩ := hall
  refine (Render.yields_follow fun wrapped hwrapped => hwrapped).bind fun wrapped hwrapped => ?_
  cases wrapped with
  | true =>
    obtain ⟨face, hface⟩ := hshows.neat
    refine .pure ⟨⟨depth, before, text, after, hrun, .inr rfl⟩, .grouped hface, fun hnull => ?_⟩
    -- the null value has no operator
    have hbare : view.lang.wraps view.arena parent id side = .ok false := by
      rw [Language.wraps, Language.exprForm?, hnull]
      rfl
    cases hwrapped.symm.trans hbare
  | false =>
    exact .pure ⟨⟨depth, before, text, after, hrun, .inl rfl⟩,
      hshows.mono (Site.boundOf_le_limit he hwrapped), fun hnull => null_text hnull hrun⟩

end View

/-! ## Reading a chain -/

namespace Python

/-- What is compared by a relation between two operands.  Identity is a comparison with `None`. -/
def readRelation? (left relation right : String) : Option BinaryOp :=
  if relation = "is" ∨ relation = "is not" then
    if left = "None" ∨ right = "None" then
      some (if relation = "is" then .eq else .notEq)
    else none
  else BinaryOp.all.find? fun op => op.isComparison && (binary op).any (·.value == relation)

/-- What is compared after an operand. -/
def readLinks? : String → List (String × String) → Option (List (BinaryOp × String))
  | _, [] => some []
  | left, (relation, right) :: rest => do
    let op ← readRelation? left relation right
    let links ← readLinks? right rest
    return (op, right) :: links

/-- The chain that a text is. -/
def readChain? (text : String) : Option (Chain String) := do
  let (first, relations) ← operands? .python comparisonLevel text
  let links ← readLinks? first relations
  return ⟨first, links⟩

/-- How a comparison is written between two operands. -/
structure Relates (arena : Arena) (op : BinaryOp) (left right : NodeId) (form : OperatorForm) :
    Prop where
  mem : form ∈ Language.python.infixes
  level : form.level = comparisonLevel
  limit : ∀ side, form.limit side = comparisonLevel - 1
  read : ∀ leftText rightText, (arena.expr left = .ok .null → leftText = "None") →
    (arena.expr right = .ok .null → rightText = "None") →
      readRelation? leftText form.value rightText = some op

section Comparisons

variable {arena : Arena} {left right : NodeId} {op : BinaryOp}

/-- A comparison with its own operator. -/
theorem relates_binary (hop : op.isComparison = true) {form : OperatorForm}
    (hform : binary op = some form) : Relates arena op left right form := by
  cases op <;> cases hop <;> cases hform <;>
    exact ⟨by decide, rfl, fun side => by cases side <;> rfl, fun _ _ _ _ => rfl⟩

/-- How a comparison with the null value is written. -/
def identity : BinaryOp → Option OperatorForm
  | .eq => binary .refEq
  | .notEq => binary .refNotEq
  | op => binary op

/-- A comparison with the null value is one of identity. -/
theorem relates_identity (hop : op.isComparison = true)
    (hnull : arena.expr left = .ok .null ∨ arena.expr right = .ok .null) {form : OperatorForm}
    (hform : identity op = some form) : Relates arena op left right form := by
  have hnone : ∀ {leftText rightText : String}, (arena.expr left = .ok .null → leftText = "None") →
      (arena.expr right = .ok .null → rightText = "None") →
        leftText = "None" ∨ rightText = "None" := fun hl hr => hnull.imp hl hr
  cases op with
  | eq =>
    cases hform
    exact ⟨by decide, rfl, fun side => by cases side <;> rfl, fun _ _ hl hr => if_pos (hnone hl hr)⟩
  | notEq =>
    cases hform
    exact ⟨by decide, rfl, fun side => by cases side <;> rfl, fun _ _ hl hr => if_pos (hnone hl hr)⟩
  | _ => exact relates_binary hop hform

theorem isNull_eq_true {id : NodeId} (h : isNull arena id = .ok true) :
    arena.expr id = .ok .null := by
  unfold isNull at h
  obtain ⟨e, he, h⟩ := Except.exists_of_bind h
  cases e with
  | null => exact he
  | _ => cases h

/-- **How a comparison is written says what is compared.** -/
theorem yields_relates {site : Site} {inv : Scope → Prop} (hop : op.isComparison = true) :
    Yields inv (binaryForm? site op left right) fun found =>
      ∀ form ∈ found, Relates site.arena op left right form := by
  unfold binaryForm?
  refine (Render.yields_follow fun isNullLeft hleft => hleft).bind fun isNullLeft hleft => ?_
  cases isNullLeft with
  | true =>
    refine .pure fun form hform => relates_identity hop (.inl (isNull_eq_true hleft)) ?_
    cases op <;> exact hform
  | false =>
    refine (Render.yields_follow fun withNull hright => hright).bind fun withNull hright => ?_
    cases withNull with
    | true =>
      refine .pure fun form hform => relates_identity hop (.inr (isNull_eq_true hright)) ?_
      cases op <;> exact hform
    | false =>
      refine .pure fun form hform => relates_binary hop ?_
      cases op <;> exact hform

end Comparisons

section Chains

variable {view : View} {depth : Nat} (hlang : view.lang = .python)
  (htypes : view.arena.TypesPlain)

/-- Texts stand for the operands of links, and the relations before them are those of the links. -/
def Tells (view : View) (links : List (BinaryOp × NodeId)) (first : String)
    (forms : List (OperatorForm × String)) : Prop :=
  Level .python comparisonLevel first forms ∧
    ∃ pieces, readLinks? first (forms.map fun link => (link.1.value, link.2)) = some pieces ∧
      List.Forall₂ (fun link piece => link.1 = piece.1 ∧ view.Offers link.2 piece.2) links pieces

variable {previous item left right : NodeId} {op : BinaryOp} {items : List NodeId}
  {links : List (BinaryOp × NodeId)} {first next : String} {form : OperatorForm}
  {forms : List (OperatorForm × String)}

include hlang in
theorem Tells.cons (hform : Relates view.arena op left right form)
    (hfirst : view.Piece (comparisonLevel - 1) previous first)
    (hnull : view.arena.expr left = .ok .null → view.arena.expr previous = .ok .null)
    (hnext : view.Piece (comparisonLevel - 1) right next) (h : Tells view links next forms) :
    Tells view ((op, right) :: links) first ((form, next) :: forms) := by
  have hword : ∀ {id piece}, view.Piece (comparisonLevel - 1) id piece →
      view.arena.expr id = .ok .null → piece = "None" := by
    intro id piece hpiece he
    have hfound := hpiece.null he
    rw [hlang] at hfound
    exact (Option.some.inj hfound).symm
  obtain ⟨hlevel, pieces, hpieces, hrel⟩ := h
  refine ⟨⟨hlang ▸ hfirst.shows, ?_, ?_⟩, (op, next) :: pieces, ?_, .cons ⟨rfl, hnext.offers⟩ hrel⟩
  · exact List.forall_mem_cons.2 ⟨⟨hform.mem, hform.level⟩, hlevel.form⟩
  · exact List.forall_mem_cons.2 ⟨hlang ▸ hnext.shows, hlevel.next⟩
  · have hread := hform.read first next (fun he => hword hfirst (hnull he)) (hword hnext)
    simp only [List.map_cons, readLinks?, hread, hpieces, Option.bind_eq_bind, Option.bind_some,
      Option.pure_def]

/-- What is the same as the null value is the null value. -/
theorem null_of_same {arena : Arena} {a b : NodeId} (h : arena.same a arena b = .ok true)
    (hb : arena.expr b = .ok .null) : arena.expr a = .ok .null := by
  obtain ⟨_, x, y, hx, hy, hskeleton, -⟩ := Arena.nodes_of_sameTo h
  cases (Arena.node_of_expr hb).symm.trans hy
  cases x with
  | expr e =>
    cases e with
    | null => exact Arena.expr_of_node hx
    | _ => cases hskeleton
  | _ => cases hskeleton

include htypes in
/-- A comparison of a chain; the first one brings its left operand. -/
theorem yields_link (isFirst : Bool) (he : view.arena.expr item = .ok (.binary op left right))
    (hop : op.isComparison = true) (htight : view.Tight item) :
    Yields Scope.Plain (chainLink ⟨view, view.exprTo depth⟩ isFirst item) fun text =>
      ∃ form first next, text = first ++ " " ++ form.value ++ " " ++ next ∧
        Relates view.arena op left right form ∧ view.Piece (comparisonLevel - 1) right next ∧
        if isFirst then view.Piece (comparisonLevel - 1) left first else first = "" := by
  obtain ⟨hl, hr⟩ := htight.binary he
  refine (Render.yields_follow fun e he => he).bind fun e he' => ?_
  cases he.symm.trans he'
  refine (yields_relates hop).bind fun found hfound => ?_
  cases found with
  | none => exact .throw _
  | some form =>
    have hform := hfound form rfl
    have hleft := View.yields_piece depth htypes hl form .left
    have hright := View.yields_piece depth htypes hr form .right
    rw [hform.limit] at hleft hright
    cases isFirst with
    | true =>
      refine hleft.bind fun first hfirst => hright.bind fun next hnext => .pure ?_
      exact ⟨form, first, next, rfl, hform, hnext, hfirst⟩
    | false =>
      refine hright.bind fun next hnext => .pure ?_
      exact ⟨form, "", next, rfl, hform, hnext, rfl⟩

include hlang htypes in
/-- **A chain goes on with the comparisons that go on.** -/
theorem yields_links (h : view.arena.Follows previous items links)
    (htight : ∀ item ∈ items, view.Tight item) :
    Yields Scope.Plain (items.mapM (chainLink ⟨view, view.exprTo depth⟩ false)) fun texts =>
      ∃ forms : List (OperatorForm × String),
        texts = forms.map (fun link => " " ++ link.1.value ++ " " ++ link.2) ∧
        ∀ first, view.Piece (comparisonLevel - 1) previous first →
          Tells view links first forms := by
  induction h with
  | nil =>
    refine .pure ⟨[], rfl, fun first hfirst => ⟨⟨hlang ▸ hfirst.shows, by simp, by simp⟩, ?_⟩⟩
    exact ⟨[], rfl, .nil⟩
  | @cons previous item left right op items links he hop hsame rest ih =>
    rw [List.mapM_cons]
    refine (yields_link htypes false he hop (htight item (by simp))).bind fun text htext => ?_
    obtain ⟨form, _, next, rfl, hform, hnext, rfl⟩ := htext
    refine (ih fun item hitem => htight item (by simp [hitem])).bind fun texts htexts => ?_
    obtain ⟨forms, rfl, hforms⟩ := htexts
    refine .pure ⟨(form, next) :: forms, by simp, fun first hfirst => ?_⟩
    exact .cons hlang hform hfirst (null_of_same hsame) hnext (hforms next hnext)

include hlang htypes in
/-- **What is written for comparisons that line up is read as their chain.** -/
theorem yields_chain {nodes : Chain NodeId} (h : view.arena.Lines items nodes)
    (htight : ∀ item ∈ items, view.Tight item) :
    Yields Scope.Plain (chain ⟨view, view.exprTo depth⟩ items) fun text =>
      ∃ pieces, readChain? text = some pieces ∧ nodes.Rel view.Offers pieces := by
  cases h with
  | @intro item left right op items links he hop rest =>
    refine (yields_link htypes true he hop (htight item (by simp))).bind fun text htext => ?_
    obtain ⟨form, first, next, rfl, hform, hnext, hfirst⟩ := htext
    refine (yields_links hlang htypes rest fun item hitem =>
      htight item (by simp [hitem])).bind fun texts htexts => .pure ?_
    obtain ⟨forms, rfl, hforms⟩ := htexts
    obtain ⟨hlevel, pieces, hpieces, hrel⟩ :=
      Tells.cons hlang hform hfirst id hnext (hforms next hnext)
    have htext : first ++ " " ++ form.value ++ " " ++ next ++
        String.join (forms.map fun link => " " ++ link.1.value ++ " " ++ link.2) =
          linked first ((form, next) :: forms) := by
      rw [linked, linked_eq_append]
      simp only [String.append_assoc]
    refine ⟨⟨first, pieces⟩, ?_, ⟨hfirst.offers, hrel⟩⟩
    rw [htext, readChain?, hlevel.operands?_linked (by decide)]
    simp only [hpieces, Option.bind_eq_bind, Option.bind_some, Option.pure_def]

end Chains

/-- Where comparisons are chained, a conjunction that makes a chain is written as one. -/
theorem binaryExpr_and {site : Site} {left right : NodeId} {items : List NodeId}
    (hkeep : site.view.isOn .keepComparisons = false)
    (h : chainOf? site.arena left right = .ok (some items)) :
    binaryExpr site .and left right = chain site items := by
  unfold binaryExpr
  rw [hkeep, h]
  rfl

end Python

/-- What the comparisons say about whole numbers. -/
def BinaryOp.compareInts : BinaryOp → Int → Int → Bool
  | .eq, a, b => a == b
  | .notEq, a, b => a != b
  | .lt, a, b => a < b
  | .ltEq, a, b => a ≤ b
  | .gt, a, b => b < a
  | .gtEq, a, b => b ≤ a
  | _, _, _ => false

/-- The name that an expression is. -/
def Arena.name? (arena : Arena) (id : NodeId) : Option String :=
  match arena.expr id with
  | .ok (.ident name) => some name
  | _ => none

theorem Arena.name?_eq_some {arena : Arena} {id : NodeId} {name : String} :
    arena.name? id = some name ↔ arena.expr id = .ok (.ident name) := by
  unfold name?
  split
  · rename_i other he
    rw [he]
    simp
  · rename_i hother
    refine ⟨fun hnone => ?_, fun he => absurd he (hother name)⟩
    cases hnone

theorem Arena.name?_of_skeleton {arena : Arena} {a b : NodeId} {x y : Node}
    (hx : arena.node a = .ok x) (hy : arena.node b = .ok y) (h : x.skeleton = y.skeleton)
    {name : String} (ha : arena.name? a = some name) : arena.name? b = some name := by
  cases (Arena.node_of_expr (name?_eq_some.1 ha)).symm.trans hx
  rw [name?_eq_some]
  cases y with
  | expr e =>
    cases e with
    | ident other =>
      cases h
      exact Arena.expr_of_node hy
    | _ => cases h
  | _ => cases h

/-- Values of names; what is no name is zero. -/
def Valuation.ofNames (arena : Arena) (values : String → Int) : Valuation arena where
  Value := Int
  value id := (arena.name? id).elim 0 values
  holds := BinaryOp.compareInts
  same a b h := by
    obtain ⟨_, x, y, hx, hy, hskeleton, -⟩ := Arena.nodes_of_sameTo h
    have hname : arena.name? a = arena.name? b := by
      refine Option.ext fun name => ⟨?_, ?_⟩
      · exact Arena.name?_of_skeleton hx hy hskeleton
      · exact Arena.name?_of_skeleton hy hx hskeleton.symm
    rw [hname]

namespace View

variable {view : View} {id left right : NodeId} {items : List NodeId}

/-- **A conjunction that Python writes as a chain is as true as the chain that is read.**  Each
operand of the chain that is read stands for one of the conjunction; whatever the values of these
are, the chain holds if and only if the conjunction does, however its conjunctions are nested. -/
theorem chain_truth (hlang : view.lang = .python)
    (hkeep : view.isOn .keepComparisons = false) (htypes : view.arena.TypesPlain)
    (htight : view.Tight id) (he : view.arena.expr id = .ok (.binary .and left right))
    (hchain : Python.chainOf? view.arena left right = .ok (some items)) {scope after : Scope}
    {text : String} (hscope : scope.Plain) (hrun : view.expr id scope = .ok text after) :
    ∃ (nodes : Chain NodeId) (pieces : Chain String), Python.readChain? text = some pieces ∧
      nodes.Rel view.Offers pieces ∧
      ∀ v : Valuation view.arena, v.Decides id (nodes.truth v.compare) := by
  obtain ⟨nodes, hlines, htruth⟩ := Arena.decides_chain he hchain
  obtain ⟨hl, hr⟩ := htight.binary he
  have hitems : ∀ item ∈ items, view.Tight item := by
    obtain ⟨_, lefts, rights, hlefts, hrights, rfl, -⟩ := Arena.exists_lines_of_chainOf? hchain
    intro item hitem
    rcases List.mem_append.1 hitem with hitem | hitem
    · exact Python.tight_conjuncts hlefts hl item hitem
    · exact Python.tight_conjuncts hrights hr item hitem
  have htext : view.expr id = Python.chain ⟨view, view.exprTo view.arena.size⟩ items := by
    rw [View.expr, Arena.depthBound, exprTo_succ he, hlang]
    exact Python.binaryExpr_and hkeep hchain
  rw [htext] at hrun
  obtain ⟨-, pieces, hpieces, hrel⟩ :=
    Python.yields_chain hlang htypes hlines hitems scope text after hscope hrun
  exact ⟨nodes, pieces, hpieces, hrel, htruth⟩

/-- `a < b` and, nested, `b <= c` and that `c` is not null. -/
theorem chain_truth_nested :
    let arena : Arena := ⟨#[.expr (.ident "a"), .expr (.ident "b"), .expr (.binary .lt ⟨0⟩ ⟨1⟩),
      .expr (.ident "b"), .expr (.ident "c"), .expr (.binary .ltEq ⟨3⟩ ⟨4⟩), .expr (.ident "c"),
      .expr .null, .expr (.binary .notEq ⟨6⟩ ⟨7⟩), .expr (.binary .and ⟨5⟩ ⟨8⟩),
      .expr (.binary .and ⟨2⟩ ⟨9⟩)]⟩
    let view : View := ⟨⟨arena, ⟨10⟩⟩, .python, {}⟩
    let text := "a < b <= c is not None"
    (view.expr ⟨10⟩ {} = .ok text {} ∧ Python.readChain? text =
      some ⟨"a", [(.lt, "b"), (.ltEq, "c"), (.notEq, "None")]⟩) ∧
    ∃ (nodes : Chain NodeId) (pieces : Chain String), Python.readChain? text = some pieces ∧
      nodes.Rel view.Offers pieces ∧
      ∀ v : Valuation view.arena, v.Decides ⟨10⟩ (nodes.truth v.compare) := by
  intro arena view text
  have hitems : Python.chainOf? view.arena ⟨2⟩ ⟨9⟩ = .ok (some [⟨2⟩, ⟨5⟩, ⟨8⟩]) := by
    decide +revert
  have hrun : view.expr ⟨10⟩ {} = .ok text {} := rfl
  have hname : ∀ (id : NodeId) (name : String), arena.expr id = .ok (.ident name) →
      Language.python.isName name = true → view.Tight id := fun id name he hname =>
    .of_expr he hname trivial (by simp [Expr.children])
  have ha := hname ⟨0⟩ "a" rfl (by decide)
  have hb := hname ⟨1⟩ "b" rfl (by decide)
  have hb' := hname ⟨3⟩ "b" rfl (by decide)
  have hc := hname ⟨4⟩ "c" rfl (by decide)
  have hc' := hname ⟨6⟩ "c" rfl (by decide)
  have hnull : view.Tight ⟨7⟩ := .of_expr (e := .null) rfl rfl trivial (by simp [Expr.children])
  have hlt : view.Tight ⟨2⟩ :=
    .of_expr (e := .binary .lt ⟨0⟩ ⟨1⟩) rfl rfl trivial (by simp [Expr.children, ha, hb])
  have hle : view.Tight ⟨5⟩ :=
    .of_expr (e := .binary .ltEq ⟨3⟩ ⟨4⟩) rfl rfl trivial (by simp [Expr.children, hb', hc])
  have hne : view.Tight ⟨8⟩ :=
    .of_expr (e := .binary .notEq ⟨6⟩ ⟨7⟩) rfl rfl trivial (by simp [Expr.children, hc', hnull])
  have hand : view.Tight ⟨9⟩ :=
    .of_expr (e := .binary .and ⟨5⟩ ⟨8⟩) rfl rfl trivial (by simp [Expr.children, hle, hne])
  have hall : view.Tight ⟨10⟩ :=
    .of_expr (e := .binary .and ⟨2⟩ ⟨9⟩) rfl rfl trivial (by simp [Expr.children, hlt, hand])
  refine ⟨⟨hrun, by decide⟩, ?_⟩
  exact chain_truth rfl rfl (Arena.typesPlain_of_all (by decide)) hall rfl hitems .empty hrun

/-- `a < b` cast to a class that Python has no conversion to: the comparison is bare under `<`, and
the chain that is read compares `b` with `c`. -/
theorem chain_truth_cast :
    let arena : Arena := ⟨#[.expr (.ident "a"), .expr (.ident "b"), .expr (.binary .lt ⟨0⟩ ⟨1⟩),
      .type (.user "T"), .expr (.cast ⟨3⟩ ⟨2⟩), .expr (.ident "c"), .expr (.binary .lt ⟨4⟩ ⟨5⟩),
      .expr (.ident "c"), .expr (.ident "d"), .expr (.binary .lt ⟨7⟩ ⟨8⟩),
      .expr (.binary .and ⟨6⟩ ⟨9⟩)]⟩
    let view : View := ⟨⟨arena, ⟨10⟩⟩, .python, {}⟩
    let values : String → Int := fun name => if name = "b" then 0 else if name = "d" then 2 else 1
    let v : Valuation arena := .ofNames arena values
    let pieces : Chain String := ⟨"a", [(.lt, "b"), (.lt, "c"), (.lt, "d")]⟩
    Python.chainOf? arena ⟨6⟩ ⟨9⟩ = .ok (some [⟨6⟩, ⟨9⟩]) ∧
      view.expr ⟨10⟩ {} = .ok "a < b < c < d" {} ∧
      Python.readChain? "a < b < c < d" = some pieces ∧
      pieces.truth (fun op left right => op.compareInts (values left) (values right)) = false ∧
      v.Decides ⟨10⟩ true := by
  intro arena view values v pieces
  refine ⟨?_, rfl, ?_, ?_, ?_⟩
  · decide +revert
  · decide +revert
  · decide +revert
  · have hand : arena.expr ⟨10⟩ = .ok (.binary .and ⟨6⟩ ⟨9⟩) := rfl
    have hfirst : arena.expr ⟨6⟩ = .ok (.binary .lt ⟨4⟩ ⟨5⟩) := rfl
    have hsecond : arena.expr ⟨9⟩ = .ok (.binary .lt ⟨7⟩ ⟨8⟩) := rfl
    exact .conjunction hand (.comparison hfirst rfl) (.comparison hsecond rfl)

end View

end Interlingua
