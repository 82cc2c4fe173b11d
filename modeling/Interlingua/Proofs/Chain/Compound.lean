import Interlingua.Proofs.Chain.Reading
import Interlingua.Proofs.Chain.Tokens
import Interlingua.Proofs.Token.Climbing

/-!
# Compound comparisons

A compound comparison is a list of comparisons.  Where comparisons chain, it is written as a chain,
each shared operand once; elsewhere as a conjunction.

* `Arena.addCompound_ok` — what the constructor of compound comparisons checks.
* `Chain.steps` — the comparisons of neighbours; `Arena.Lines.steps` says how they go with the
  comparisons that line up.
* `Braced.readConjunction?` — the comparisons that a text joins.
* `Braced.yields_compound` — what is written for comparisons is read as these comparisons.
* `View.compound_truth` — **if comparisons share their operands, a compound comparison means the
  same in all languages, in text and in tokens.**
-/

namespace Interlingua

open Surface

/-! ## What the constructor checks -/

namespace Arena

variable {arena added : Arena} {id : NodeId} {items : List NodeId}

theorem checkComparison_ok (h : arena.checkComparison id = .ok ()) :
    arena.IsComparison id := by
  unfold checkComparison at h
  cases he : arena.expr id with
  | error fault =>
    rw [he] at h
    cases h
  | ok e =>
    rw [he] at h
    cases e with
    | binary op left right =>
      refine ⟨op, left, right, he, ?_⟩
      by_contra hop
      have hrefuse : (if op.isComparison then .ok () else
          .error (checkComparison.refusal (.binary op left right)) : Except TreeError Unit) =
            .ok () := h
      rw [if_neg hop] at hrefuse
      cases hrefuse
    | _ => cases h

theorem checkComparisons_ok {u : PUnit} (h : items.forM arena.checkComparison = .ok u) :
    ∀ item ∈ items, arena.IsComparison item := by
  induction items with
  | nil => simp
  | cons item items ih =>
    obtain ⟨_, hitem, h⟩ := Except.exists_of_bind h
    exact List.forall_mem_cons.2 ⟨checkComparison_ok hitem, ih h⟩

/-- **What is accepted is a list of comparisons**, at least two, and becomes a node. -/
theorem addCompound_ok (h : arena.addCompound items = .ok (id, added)) :
    2 ≤ items.length ∧ (∀ item ∈ items, arena.IsComparison item) ∧
      arena.Extends added ∧ added.expr id = .ok (.compound items) := by
  unfold addCompound at h
  split at h
  · cases h
  · rename_i hlength
    obtain ⟨_, hall, h⟩ := Except.exists_of_bind h
    have hadd : arena.addExpr (.compound items) = (id, added) := Except.ok.inj h
    have hthere := arena.extends_addExpr (.compound items)
    have hfound := arena.expr_addExpr (.compound items)
    rw [hadd] at hthere hfound
    exact ⟨by omega, checkComparisons_ok hall, hthere, hfound⟩

end Arena

/-! ## Comparisons of neighbours -/

/-- A comparison of two operands. -/
structure Compared (α : Type) where
  left : α
  op : BinaryOp
  right : α
  deriving DecidableEq, Repr

namespace Chain

variable {α : Type}

def stepsFrom : α → List (BinaryOp × α) → List (Compared α)
  | _, [] => []
  | left, (op, right) :: rest => ⟨left, op, right⟩ :: stepsFrom right rest

/-- The comparisons of neighbours. -/
def steps (chain : Chain α) : List (Compared α) := stepsFrom chain.first chain.links

theorem truth_eq_all (holds : BinaryOp → α → α → Bool) (chain : Chain α) :
    chain.truth holds = chain.steps.all fun step => holds step.op step.left step.right := by
  obtain ⟨first, links⟩ := chain
  rw [truth, steps]
  induction links generalizing first with
  | nil => rfl
  | cons link rest ih =>
    obtain ⟨op, right⟩ := link
    rw [holdsFrom, stepsFrom, List.all_cons, ih]

end Chain

namespace Arena

variable {arena : Arena}

/-- A comparison of a chain stands for a listed one: its right operand is the listed one, and its
left operand that one or the same. -/
def Stands (arena : Arena) (item : NodeId) (step : Compared NodeId) : Prop :=
  ∃ left, arena.expr item = .ok (.binary step.op left step.right) ∧
    (step.left = left ∨ arena.same step.left arena left = .ok true)

theorem Follows.steps {previous : NodeId} {items : List NodeId} {links : List (BinaryOp × NodeId)}
    (h : arena.Follows previous items links) :
    List.Forall₂ arena.Stands items (Chain.stepsFrom previous links) := by
  induction h with
  | nil => exact .nil
  | cons he _ hsame _ ih => exact .cons ⟨_, he, .inr hsame⟩ ih

/-- **Of comparisons that line up, no operand is lost** unless the same one stands in its place. -/
theorem Lines.steps {items : List NodeId} {chain : Chain NodeId} (h : arena.Lines items chain) :
    List.Forall₂ arena.Stands items chain.steps := by
  cases h with
  | intro he _ rest => exact .cons ⟨_, he, .inl rfl⟩ rest.steps

end Arena

/-! ## Conjunctions of comparisons -/

/-- What is read stands for a comparison: the operator is its operator, and the texts stand for its
operands. -/
def View.Compares (view : View) (item : NodeId) (read : Compared String) : Prop :=
  ∃ left right, view.arena.expr item = .ok (.binary read.op left right) ∧
    view.Offers left read.left ∧ view.Offers right read.right

/-- Texts with an operator between any two. -/
theorem Surface.intercalate_eq_linked (form : OperatorForm) (first : String) (rest : List String) :
    (" " ++ form.value ++ " ").intercalate (first :: rest) =
      linked first (rest.map fun text => (form, text)) := by
  induction rest generalizing first with
  | nil => simp [linked]
  | cons next rest ih =>
    rw [String.intercalate_cons_cons, ih, List.map_cons, linked]
    simp only [String.append_assoc]

namespace Braced

/-- The comparison that a word is. -/
def comparisonOf? (lang : Language) (word : List Char) : Option BinaryOp :=
  BinaryOp.all.find? fun op =>
    op.isComparison && (lang.operators.binary op).any (·.value.toList == word)

/-- The comparison that a text is. -/
def readComparison? (lang : Language) (text : String) : Option (Compared String) := do
  let (left, word, right) ← lang.outermost? (outerWords text)
  let op ← comparisonOf? lang word
  return ⟨textOf left, op, textOf right⟩

def readComparisons? (lang : Language) : List String → Option (List (Compared String))
  | [] => some []
  | text :: rest => do
    let first ← readComparison? lang text
    let more ← readComparisons? lang rest
    return first :: more

/-- The comparisons that a text joins. -/
def readConjunction? (lang : Language) (text : String) : Option (List (Compared String)) := do
  let form ← lang.operators.binary .and
  let (first, more) ← operands? lang form.level text
  if more.all (·.1 == form.value) then readComparisons? lang (first :: more.map Prod.snd) else none

variable {lang : Language} {op : BinaryOp} {form conjunction : OperatorForm}

/-- How the languages with braces write a comparison. -/
theorem comparison_form (hlang : lang ≠ .python) (hop : op.isComparison = true)
    (hform : lang.operators.binary op = some form) :
    form.words = [form.value.toList] ∧ form.limit .left = form.level ∧
      form.limit .right = form.level - 1 ∧ comparisonOf? lang form.value.toList = some op ∧
      ∀ conjunction, lang.operators.binary .and = some conjunction →
        form.level < conjunction.level := by
  cases lang with
  | python => exact absurd rfl hlang
  | java =>
    cases op <;> cases hop <;> cases hform <;>
      refine ⟨by decide, rfl, rfl, by decide, fun conjunction hand => ?_⟩ <;> cases hand <;> decide
  | cpp =>
    cases op <;> cases hop <;> cases hform <;>
      refine ⟨by decide, rfl, rfl, by decide, fun conjunction hand => ?_⟩ <;> cases hand <;> decide

/-- A text that shows tight operators only is read as a comparison. -/
structure Conjunct (view : View) (bound : Nat) (item : NodeId) (text : String) : Prop where
  shows : Shows view.lang bound text
  reads : ∃ read, readComparison? view.lang text = some read ∧ view.Compares item read

variable {view : View} {depth bound : Nat} {item left right : NodeId} {items : List NodeId}

/-- Java and C++ write a comparison with its operator. -/
theorem exprTo_comparison (hlang : view.lang ≠ .python)
    (he : view.arena.expr item = .ok (.binary op left right)) (hop : op.isComparison = true) :
    view.exprTo (depth + 1) item = Site.binary ⟨view, view.exprTo depth⟩ op left right := by
  rw [View.exprTo_succ he]
  cases hview : view.lang with
  | python => exact absurd hview hlang
  | java | cpp => cases op <;> first | rfl | cases hop

/-- **What is written for a comparison is read as it.** -/
theorem yields_comparison (hlang : view.lang ≠ .python) (htypes : view.arena.TypesPlain)
    (htight : view.Tight item) (he : view.arena.expr item = .ok (.binary op left right))
    (hop : op.isComparison = true) :
    Yields Scope.Plain (view.exprTo depth item) fun text =>
      ∃ form, view.lang.operators.binary op = some form ∧ Conjunct view form.level item text := by
  cases depth with
  | zero => exact .throw _
  | succ depth =>
    rw [exprTo_comparison hlang he hop, Site.binary]
    cases hform : (Site.lang ⟨view, view.exprTo depth⟩).operators.binary op with
    | none => exact .throw _
    | some form =>
      have hform : view.lang.operators.binary op = some form := hform
      obtain ⟨hwords, hleft, hright, hfound, -⟩ := comparison_form hlang hop hform
      obtain ⟨hl, hr⟩ := htight.binary he
      have hlefts := View.yields_piece depth htypes hl form .left
      have hrights := View.yields_piece depth htypes hr form .right
      rw [hleft] at hlefts
      rw [hright] at hrights
      refine hlefts.bind fun first hfirst => hrights.bind fun next hnext => .pure ?_
      have hmem := Language.binary_mem_infixes hform
      refine ⟨form, hform, ?_, ⟨first, op, next⟩, ?_, left, right, he, hfirst.offers, hnext.offers⟩
      · exact hfirst.shows.between hmem (Nat.le_refl _) (hnext.shows.mono (Nat.sub_le _ _))
      rw [readComparison?, hfirst.shows.outermost?_between hmem hwords hnext.shows]
      simp only [hfound, textOf_outerWords, Option.bind_eq_bind, Option.bind_some, Option.pure_def]

/-- A comparison needs no parentheses in a conjunction. -/
theorem yields_conjunct (hlang : view.lang ≠ .python) (htypes : view.arena.TypesPlain)
    (hand : view.lang.operators.binary .and = some conjunction)
    (htight : view.Tight item) (he : view.arena.expr item = .ok (.binary op left right))
    (hop : op.isComparison = true) (side : Side) :
    Yields Scope.Plain (Site.operand ⟨view, view.exprTo depth⟩ conjunction item side)
      (Conjunct view (conjunction.level - 1) item) := by
  refine (yields_comparison hlang htypes htight he hop).bind fun text htext => ?_
  obtain ⟨form, hform, htext⟩ := htext
  obtain ⟨-, -, -, -, hlevel⟩ := comparison_form hlang hop hform
  have hlevel := hlevel conjunction hand
  refine (Render.yields_follow fun wrapped hwrapped => hwrapped).bind fun wrapped hwrapped => ?_
  have hbare : view.lang.wraps view.arena conjunction item side = .ok false := by
    have hgroup : conjunction.mustGroup form side = false := by
      unfold OperatorForm.mustGroup
      rw [if_pos (by omega)]
      exact decide_eq_false (by omega)
    rw [Language.wraps, Language.exprForm?, he]
    simp [bind, Except.bind, pure, Except.pure, Language.formOf?, hform, hgroup]
  cases hwrapped.symm.trans hbare
  exact .pure ⟨htext.shows.mono (by omega), htext.reads⟩

theorem exists_readComparisons? {texts : List String}
    (h : List.Forall₂ (Conjunct view bound) items texts) :
    (∀ text ∈ texts, Shows view.lang bound text) ∧
      ∃ parts, readComparisons? view.lang texts = some parts ∧
        List.Forall₂ view.Compares items parts := by
  induction h with
  | nil => exact ⟨by simp, [], rfl, .nil⟩
  | cons hitem _ ih =>
    obtain ⟨read, hread, hcompares⟩ := hitem.reads
    obtain ⟨hshows, parts, hparts, hrel⟩ := ih
    refine ⟨List.forall_mem_cons.2 ⟨hitem.shows, hshows⟩, read :: parts, ?_, .cons hcompares hrel⟩
    simp only [readComparisons?, hread, hparts, Option.bind_eq_bind, Option.bind_some,
      Option.pure_def]

/-- **What is written for comparisons is read as these comparisons.** -/
theorem yields_compound (depth : Nat) (hlang : view.lang ≠ .python) (htypes : view.arena.TypesPlain)
    (hne : items ≠ []) (hitems : ∀ item ∈ items, view.arena.IsComparison item)
    (htight : ∀ item ∈ items, view.Tight item) :
    Yields Scope.Plain (compound ⟨view, view.exprTo depth⟩ items) fun text =>
      ∃ parts, readConjunction? view.lang text = some parts ∧
        List.Forall₂ view.Compares items parts := by
  unfold compound
  cases hand : (Site.lang ⟨view, view.exprTo depth⟩).operators.binary .and with
  | none => exact .throw _
  | some conjunction =>
    have hand : view.lang.operators.binary .and = some conjunction := hand
    have hjoint : ∀ item ∈ items, ∀ side,
        Yields Scope.Plain (Site.operand ⟨view, view.exprTo depth⟩ conjunction item side)
          (Conjunct view (conjunction.level - 1) item) := by
      intro item hitem side
      obtain ⟨op, left, right, he, hop⟩ := hitems item hitem
      exact yields_conjunct hlang htypes hand (htight item hitem) he hop side
    obtain ⟨first, rest, rfl⟩ := List.exists_cons_of_ne_nil hne
    refine (hjoint first (by simp) .left).bind fun text htext => ?_
    refine (Yields.mapM_rel fun item hitem => hjoint item (by simp [hitem]) .right).bind
      fun texts htexts => .pure ?_
    obtain ⟨hshows, parts, hparts, hrel⟩ := exists_readComparisons? (.cons htext htexts)
    refine ⟨parts, ?_, hrel⟩
    have hlevel : Level view.lang conjunction.level text
        (texts.map fun text => (conjunction, text)) := by
      refine ⟨htext.shows, fun link hlink => ?_, fun link hlink => ?_⟩
      · obtain ⟨next, -, rfl⟩ := List.mem_map.1 hlink
        exact ⟨Language.binary_mem_infixes hand, rfl⟩
      · obtain ⟨next, hnext, rfl⟩ := List.mem_map.1 hlink
        exact hshows next (List.mem_cons_of_mem _ hnext)
    have hpos : 0 < conjunction.level := by
      have haccess := infix_level (Language.binary_mem_infixes hand)
      omega
    rw [intercalate_eq_linked, readConjunction?, hand]
    simp [hlevel.operands?_linked hpos, Function.comp_def, hparts]

end Braced

/-! ## Compound comparisons -/

namespace Python

/-- The tokens of a compound comparison are those of the chain. -/
theorem exists_chain_tokens {arena : Arena} {id : NodeId} {items : List NodeId} {tokens : Tokens}
    (he : arena.expr id = .ok (.compound items))
    (hrun : Language.python.linearize arena id = .ok tokens) :
    Linear.chain ⟨.python, arena, Linear.exprTo .python arena arena.size⟩ items 0 =
      .ok tokens.toList := by
  unfold Language.linearize at hrun
  obtain ⟨node, hnode, hrun⟩ := Piece.bind_ok hrun
  cases (Piece.lift_ok hnode).symm.trans (Arena.node_of_expr he)
  obtain ⟨list, hlist, hrun⟩ := Piece.bind_ok hrun
  cases hrun
  have hexpr : Linear.expr .python arena id =
      Linear.compound ⟨.python, arena, Linear.exprTo .python arena arena.size⟩ items :=
    Linear.exprTo_succ he
  rw [hexpr, Linear.compound] at hlist
  split at hlist
  · cases hlist
  · exact hlist

end Python

namespace View

variable {view : View} {id : NodeId} {items : List NodeId}

/-- What a reader of a language takes a text for: a chain, or each of the comparisons. -/
def Says (view : View) (items : List NodeId) (nodes : Chain NodeId) (text : String) : Prop :=
  match view.lang with
  | .python => ∃ pieces, Python.readChain? text = some pieces ∧ nodes.Rel view.Offers pieces
  | .java | .cpp => ∃ parts, Braced.readConjunction? view.lang text = some parts ∧
      List.Forall₂ view.Compares items parts

/-- **The text of a compound comparison says its comparisons**, if they line up. -/
theorem says_compound {nodes : Chain NodeId} (hlines : view.arena.Lines items nodes)
    (he : view.arena.expr id = .ok (.compound items)) (htypes : view.arena.TypesPlain)
    (htight : view.Tight id) : Yields Scope.Plain (view.expr id) (view.Says items nodes) := by
  have hne : items ≠ [] := by
    cases hlines
    simp
  have hitems : ∀ item ∈ items, view.Tight item :=
    htight.held "comparisons" he (List.Subset.refl _)
  rw [View.expr, Arena.depthBound, exprTo_succ he]
  unfold Says
  cases hlang : view.lang with
  | python => exact Python.yields_chain hlang htypes hlines hitems
  | java =>
    have hcompound := Braced.yields_compound view.arena.size (by rw [hlang]; decide) htypes hne
      hlines.isComparison hitems
    rwa [hlang] at hcompound
  | cpp =>
    have hcompound := Braced.yields_compound view.arena.size (by rw [hlang]; decide) htypes hne
      hlines.isComparison hitems
    rwa [hlang] at hcompound

/-- **If comparisons share their operands, a compound comparison means the same in all languages.**
The chain that Python's text and tokens are read as has the same truth, whatever the values of the
operands are, as the comparisons that the texts of the other languages join; each comparison of it
is the listed one, but for a left operand in whose place the same one before it stands. -/
theorem compound_truth {built added : Arena} {items : List NodeId} {id : NodeId}
    (hadd : built.addCompound items = .ok (id, added)) {tree : Tree}
    (hthere : added.Extends tree.arena)
    (hshared : Python.isChain tree.arena none items = .ok true) (htypes : tree.arena.TypesPlain)
    {options : Options} (htight : ∀ lang, (View.make tree lang options).Tight id) :
    ∃ nodes : Chain NodeId, List.Forall₂ tree.arena.Stands items nodes.steps ∧
      (∀ v : Valuation tree.arena, nodes.truth v.compare = items.all v.decides) ∧
      (∀ lang scope text after, scope.Plain →
        (View.make tree lang options).expr id scope = .ok text after →
          (View.make tree lang options).Says items nodes text) ∧
      ∀ tokens, Language.python.linearize tree.arena id = .ok tokens →
        ∃ pieces, Python.readTokens? tokens.toList = some pieces ∧
          nodes.Rel (View.make tree .python options).OffersTokens pieces := by
  obtain ⟨hlength, -, -, hadded⟩ := Arena.addCompound_ok hadd
  have he : tree.arena.expr id = .ok (.compound items) := hthere.expr hadded
  have hne : items ≠ [] := by
    rintro rfl
    cases hlength
  obtain ⟨nodes, hlines⟩ := Arena.exists_lines hne hshared
  refine ⟨nodes, hlines.steps, fun v => v.truth_eq hlines, ?_, ?_⟩
  · intro lang scope text after hscope hrun
    have htext : Yields Scope.Plain ((View.make tree lang options).expr id)
        ((View.make tree lang options).Says items nodes) :=
      says_compound hlines he htypes (htight lang)
    exact (htext scope text after hscope hrun).2
  · intro tokens hrun
    have hitems := (htight .python).held "comparisons" he (List.Subset.refl _)
    exact Python.chain_tokens rfl hlines hitems (Python.exists_chain_tokens he hrun)

/-- `a < b` and `b <= c` and that `c` is not null. -/
theorem compound_truth_shared :
    let built : Arena := ⟨#[.expr (.ident "a"), .expr (.ident "b"), .expr (.binary .lt ⟨0⟩ ⟨1⟩),
      .expr (.ident "b"), .expr (.ident "c"), .expr (.binary .ltEq ⟨3⟩ ⟨4⟩), .expr (.ident "c"),
      .expr .null, .expr (.binary .notEq ⟨6⟩ ⟨7⟩)]⟩
    let items : List NodeId := [⟨2⟩, ⟨5⟩, ⟨8⟩]
    let added : Arena := (built.addExpr (.compound items)).2
    let tree : Tree := ⟨added, ⟨9⟩⟩
    (built.addCompound items = .ok (⟨9⟩, added) ∧
      (View.make tree .python {}).expr ⟨9⟩ {} = .ok "a < b <= c is not None" {} ∧
      (View.make tree .java {}).expr ⟨9⟩ {} = .ok "a < b && b <= c && c != null" {}) ∧
    ∃ nodes : Chain NodeId, List.Forall₂ tree.arena.Stands items nodes.steps ∧
      (∀ v : Valuation tree.arena, nodes.truth v.compare = items.all v.decides) ∧
      (∀ lang scope text after, scope.Plain →
        (View.make tree lang {}).expr ⟨9⟩ scope = .ok text after →
          (View.make tree lang {}).Says items nodes text) ∧
      ∀ tokens, Language.python.linearize tree.arena ⟨9⟩ = .ok tokens →
        ∃ pieces, Python.readTokens? tokens.toList = some pieces ∧
          nodes.Rel (View.make tree .python {}).OffersTokens pieces := by
  intro built items added tree
  have hshared : Python.isChain tree.arena none items = .ok true := by decide +revert
  have hadd : built.addCompound items = .ok (⟨9⟩, added) := rfl
  refine ⟨⟨hadd, rfl, rfl⟩, ?_⟩
  refine compound_truth hadd (.refl added) hshared (Arena.typesPlain_of_all (by decide)) ?_
  intro lang
  have hname : ∀ (id : NodeId) (name : String), added.expr id = .ok (.ident name) →
      lang.isName name = true → (View.make tree lang {}).Tight id := fun id name he hname =>
    .of_expr he hname (by cases lang <;> trivial) (by simp [Expr.children])
  have ha := hname ⟨0⟩ "a" rfl (by cases lang <;> decide)
  have hb := hname ⟨1⟩ "b" rfl (by cases lang <;> decide)
  have hb' := hname ⟨3⟩ "b" rfl (by cases lang <;> decide)
  have hc := hname ⟨4⟩ "c" rfl (by cases lang <;> decide)
  have hc' := hname ⟨6⟩ "c" rfl (by cases lang <;> decide)
  have hnull : (View.make tree lang {}).Tight ⟨7⟩ :=
    .of_expr (e := .null) rfl rfl (by cases lang <;> trivial) (by simp [Expr.children])
  have hcompare : ∀ (id : NodeId) (op : BinaryOp) (left right : NodeId),
      added.expr id = .ok (.binary op left right) → (View.make tree lang {}).Tight left →
      (View.make tree lang {}).Tight right → (View.make tree lang {}).Tight id :=
    fun id op left right he hl hr =>
      .of_expr he rfl (by cases lang <;> trivial) (by simp [Expr.children, hl, hr])
  have hlt := hcompare ⟨2⟩ .lt ⟨0⟩ ⟨1⟩ rfl ha hb
  have hle := hcompare ⟨5⟩ .ltEq ⟨3⟩ ⟨4⟩ rfl hb' hc
  have hne := hcompare ⟨8⟩ .notEq ⟨6⟩ ⟨7⟩ rfl hc' hnull
  refine .of_expr (e := .compound items) rfl rfl ?_
    (by simp [items, Expr.children, held, hlt, hle, hne])
  cases lang with
  | java | cpp => trivial
  | python =>
    intro item hitem op left right he
    obtain ⟨-, hitems, hthere, -⟩ := Arena.addCompound_ok hadd
    obtain ⟨op', left', right', he', hop⟩ := hitems item hitem
    cases (hthere.expr he').symm.trans he
    cases op <;> first | rfl | cases hop

/-- `a < b` and `c < d`, which share no operand: the constructor accepts them, and of `c`, Python's
text and tokens say nothing. -/
theorem compound_truth_apart :
    let built : Arena := ⟨#[.expr (.ident "a"), .expr (.ident "b"), .expr (.binary .lt ⟨0⟩ ⟨1⟩),
      .expr (.ident "c"), .expr (.ident "d"), .expr (.binary .lt ⟨3⟩ ⟨4⟩)]⟩
    let items : List NodeId := [⟨2⟩, ⟨5⟩]
    let added : Arena := (built.addExpr (.compound items)).2
    let tree : Tree := ⟨added, ⟨6⟩⟩
    let values : String → Int := fun name =>
      if name = "a" then 0 else if name = "b" then 1 else if name = "d" then 2 else 3
    let pieces : Chain String := ⟨"a", [(.lt, "b"), (.lt, "d")]⟩
    let parts : List (Compared String) := [⟨"a", .lt, "b"⟩, ⟨"c", .lt, "d"⟩]
    let holds : BinaryOp → String → String → Bool := fun op left right =>
      op.compareInts (values left) (values right)
    built.addCompound items = .ok (⟨6⟩, added) ∧
      (View.make tree .python {}).expr ⟨6⟩ {} = .ok "a < b < d" {} ∧
      (View.make tree .java {}).expr ⟨6⟩ {} = .ok "a < b && c < d" {} ∧
      (View.make tree .cpp {}).expr ⟨6⟩ {} = .ok "a < b && c < d" {} ∧
      (Language.python.linearize added ⟨6⟩).toOption.map Tokens.values =
        some ["a", "<", "b", "<", "d"] ∧
      Python.readChain? "a < b < d" = some pieces ∧ pieces.truth holds = true ∧
      Braced.readConjunction? .java "a < b && c < d" = some parts ∧
      Braced.readConjunction? .cpp "a < b && c < d" = some parts ∧
      (parts.all fun part => holds part.op part.left part.right) = false ∧
      items.all (Valuation.ofNames added values).decides = false := by
  intro built items added tree values pieces parts holds
  refine ⟨rfl, rfl, rfl, rfl, rfl, ?_, ?_, ?_, ?_, ?_, ?_⟩
  · decide +revert
  · decide +revert
  · decide +revert
  · decide +revert
  · decide +revert
  · decide +revert

end View

end Interlingua
