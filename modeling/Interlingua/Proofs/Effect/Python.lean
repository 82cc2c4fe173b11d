import Interlingua.Proofs.Effect.Written
import Interlingua.Proofs.Surface.Python

/-!
# What Python writes

Every expression of Python is spelled of its own words and of what it writes.

* `Python.draws_chain` — comparisons that chain write each shared operand once.
* `Python.yields_binaryExpr`, `Python.yields_assignment` — the rules for binary operators in terms of
  what they write, and for assignments that are statements.
* `Python.draws_expr` — all expressions.
-/

namespace Interlingua.Python

variable {site : Site} {own : String → Prop} {known : String → Prop} {inv : Scope → Prop}
  {below : NodeId → String → List NodeId → Prop} {id left right : NodeId}

/-! ## Comparisons -/

/-- **Comparisons that chain write each shared operand once.** -/
theorem draws_chain (hown : ∀ text ∈ site.lang.reserved, own text)
    (hlang : site.lang = .python) {items : List NodeId}
    (h : ∀ c ∈ site.arena.links items, site.Renders inv below c) :
    Yields inv (chain site items) (Spelled own below (site.arena.links items)) := by
  cases items with
  | nil => exact .pure .nil
  | cons first rest =>
    have hlinks : site.arena.links (first :: rest) =
        site.arena.leftOf first ++ (first :: rest).flatMap site.arena.rightOf := by
      simp [Arena.links]
    rw [hlinks] at h ⊢
    refine yields_chain_of_links (fun done =>
      Spelled own below (site.arena.leftOf first ++ done.flatMap site.arena.rightOf)) ?_
      fun item hitem => ?_
    · refine yields_firstLink hlang fun op left right he form hform _ => ?_
      have hids : site.arena.leftOf first ++ [first].flatMap site.arena.rightOf = [left, right] := by
        simp [Arena.leftOf, Arena.rightOf, he]
      rw [hids]
      exact Site.draws_between (hown _ (Language.infix_mem_reserved hform))
        (h left (by simp [Arena.leftOf, he])) (h right (by simp [Arena.rightOf, he]))
    · refine yields_nextLink hlang fun op left right he form hform _ => ?_
      have hright : right ∈ site.arena.rightOf item := by simp [Arena.rightOf, he]
      have hmem : right ∈ (first :: rest).flatMap site.arena.rightOf :=
        List.mem_flatMap.2 ⟨item, List.mem_cons_of_mem _ hitem, hright⟩
      refine (Site.draws_operand own (h right (List.mem_append_right _ hmem)) form .right).mono
        fun text htext done before hbefore => ?_
      have hall := hbefore.infixed (hown _ (Language.infix_mem_reserved hform)) htext
      simpa [Arena.rightOf, he, String.append_assoc] using hall

/-- The rule for a binary operator: it is a call of the class test, a chain, or stands between its
operands. -/
theorem yields_binaryExpr {post : String → Prop} (hlang : site.lang = .python) (op : BinaryOp)
    (hcall : site.view.written (.binary op left right) = [left, right] →
      Yields inv (do
        let leftText ← site.below left
        let rightText ← site.below right
        return "isinstance" ++ parenthesized (commas [leftText, rightText])) post)
    (hinfixed : site.view.written (.binary op left right) = [left, right] →
      Yields inv (binaryExpr.infixed site op left right) post)
    (hchain : ∀ items, site.view.written (.binary op left right) = site.arena.links items →
      Yields inv (chain site items) post) :
    Yields inv (binaryExpr site op left right) post := by
  have hplain : site.view.chained op left right = none →
      site.view.written (.binary op left right) = [left, right] := fun hchained => by
    simp only [View.written, hchained]
  unfold binaryExpr
  cases op with
  | instanceOf => exact hcall (hplain (by simp [View.chained]))
  | and =>
    cases hkeep : site.view.isOn .keepComparisons with
    | true => exact hinfixed (hplain (by simp [View.chained, hkeep]))
    | false =>
      refine (Render.yields_follow fun found hfound => hfound).bind fun found hfound => ?_
      have hchained : site.view.chained .and left right = found := by
        rw [View.chained, if_pos ⟨hlang, rfl, hkeep⟩,
          show chainOf? site.view.arena left right = .ok found from hfound]
      cases found with
      | none => exact hinfixed (hplain hchained)
      | some items =>
        refine hchain items ?_
        simp only [View.written, hchained]
        rfl
  | _ => exact hinfixed (hplain (by simp [View.chained]))

theorem draws_binary (hown : ∀ text ∈ site.lang.reserved, own text) (hlang : site.lang = .python)
    (op : BinaryOp)
    (h : ∀ c ∈ site.view.written (.binary op left right), site.Renders inv below c) :
    Yields inv (binaryExpr site op left right)
      (Spelled own below (site.view.written (.binary op left right))) := by
  refine yields_binaryExpr hlang op (fun hwritten => ?_) (fun hwritten => ?_)
    fun items hwritten => ?_
  · rw [hwritten] at h ⊢
    refine ((h left (by simp)).draws own).bind fun leftText hleft => ?_
    refine ((h right (by simp)).draws own).bind fun rightText hright => .pure ?_
    have hlist := Spelled.commas (.cons hleft (.cons hright .nil))
    refine hlist.called (hown _ (Language.helper_mem_reserved ?_))
    rw [hlang]
    decide
  · rw [hwritten] at h ⊢
    refine yields_infixed hlang op fun form hform _ => ?_
    exact Site.draws_between (hown _ (Language.infix_mem_reserved hform)) (h left (by simp))
      (h right (by simp))
  · rw [hwritten] at h ⊢
    exact draws_chain hown hlang h

/-! ## Assignments and steps -/

/-- The rule for the value of an assignment, which may be grouped. -/
theorem yields_assignedValue {mid post : String → Prop} {value : NodeId}
    (h : Yields inv (site.below value) mid) (hbare : ∀ text, mid text → post text)
    (hgrouped : ∀ text, mid text → post (parenthesized text)) :
    Yields inv (assignedValue site value) post := by
  refine (Render.yields_follow fun _ _ => trivial).bind fun e _ => ?_
  refine h.bind fun text htext => ?_
  cases e with
  | assign op target value => exact .pure (hgrouped text htext)
  | _ => exact .pure (hbare text htext)

/-- A name is declared only where the target is this name. -/
theorem yields_declaredName? (op : AssignOp) (target : NodeId) :
    Yields inv (site.view.declaredName? op target) fun found =>
      ∀ name ∈ found, site.arena.expr target = .ok (.ident name) := by
  unfold View.declaredName?
  refine (Render.yields_follow fun e he => he).bind fun e he => ?_
  split
  · refine Yields.get.bind fun scope _ => .pure fun name hname => ?_
    split at hname
    · cases hname
      exact he
    · cases hname
  · exact .pure (by simp)

/-- The rule for an assignment as a statement: it declares a name, perhaps with a type, or not. -/
theorem yields_assignment {mid post : String → Prop}
    (htypes : ∀ id ty, site.arena.ty id = .ok ty → ty.Named known) (op : AssignOp)
    {target value : NodeId} (hvalue : Yields (Scope.Named known) (assignedValue site value) mid)
    (hdeclares : ∀ name, site.arena.expr target = .ok (.ident name) → ∀ typing,
      (typing = "" ∨ ∃ ty text, ty.Named known ∧ typeName ty = .ok text ∧
        typing = ": " ++ text) →
      ∀ valueText, mid valueText → post (name ++ typing ++ " = " ++ valueText))
    (hassigns : Yields (Scope.Named known) (site.below target) fun targetText =>
      ∀ valueText, mid valueText → post (targetText ++ (" " ++ op.symbol ++ " ") ++ valueText)) :
    Yields (Scope.Named known) (assignment site op target value) post := by
  have hinfer : ∀ id, Yields (Scope.Named known) (Infer.expr site.arena id) (Ty.Named known) :=
    fun id => Infer.yields_named htypes _ id
  refine hvalue.bind fun valueText hvalue => ?_
  refine (yields_declaredName? op target).bind fun found hfound => ?_
  cases found with
  | some name =>
    refine (Render.yields_infer (hinfer value)).bind fun ty hty => ?_
    extract_lets declare
    have hdeclare : ∀ typing, (typing = "" ∨ ∃ ty text, ty.Named known ∧
        typeName ty = .ok text ∧ typing = ": " ++ text) →
        Yields (Scope.Named known) (declare typing) post := fun typing htyping =>
      (Yields.modify fun scope hscope => hscope.setVariable name hty).bind fun _ _ =>
        .pure (hdeclares name (hfound name rfl) typing htyping valueText hvalue)
    split
    · exact (Render.yields_allowed fun text htext => htext).bind fun text htext =>
        hdeclare _ (.inr ⟨ty, text, hty, htext, rfl⟩)
    · exact hdeclare "" (.inl rfl)
  | none =>
    refine hassigns.bind fun targetText htarget => ?_
    refine (Render.yields_infer (Infer.yields_assignmentWith ?_ (hinfer target) (hinfer value)
      op)).bind fun _ _ => .pure ?_
    · exact fun name _ scope ty hscope hty => hscope.register name hty
    · have hall := htarget valueText hvalue
      simpa [String.append_assoc] using hall

/-- The symbol of an assignment, set off by blanks. -/
theorem isMark_symbol (op : AssignOp) :
    Text.IsMark (" " ++ op.symbol ++ " ") ∧ (" " ++ op.symbol ++ " ").toList.head? ≠ some '(' := by
  cases op <;> decide

/-- An assignment as a statement writes its target once. -/
theorem draws_assignment (hname : ∀ ty text, ty.Named known → typeName ty = .ok text → own text)
    (hident : ∀ id name, site.arena.expr id = .ok (.ident name) → below id name [id])
    (htypes : ∀ id ty, site.arena.ty id = .ok ty → ty.Named known) (op : AssignOp)
    {target value : NodeId} (ht : site.Renders (Scope.Named known) below target)
    (hv : site.Renders (Scope.Named known) below value) :
    Yields (Scope.Named known) (assignment site op target value)
      (Spelled own below [target, value]) := by
  have hvalue := yields_assignedValue (hv.draws own) (fun _ htext => htext)
    fun _ htext => htext.parenthesized
  refine yields_assignment htypes op hvalue ?_ ?_
  · intro name he typing htyping valueText hvalue
    have htarget : Spelled own below [target] name := .hole (hident target name he)
    have hfront : Spelled own below [target] (name ++ typing) := by
      obtain rfl | ⟨ty, text, hty, htext, rfl⟩ := htyping
      · simpa using htarget
      · have hall := htarget.join (by decide : Text.IsMark ": ") (by decide)
          (.word (hname ty text hty htext))
        simpa [String.append_assoc] using hall
    exact hfront.join (by decide : Text.IsMark " = ") (by decide) hvalue
  · obtain ⟨hmark, hopen⟩ := isMark_symbol op
    exact (ht.draws own).mono fun _ htarget _ hvalue => htarget.join hmark hopen hvalue

/-- An assignment expression writes its target once more if it is augmented. -/
theorem spells_assign (hlang : site.lang = .python)
    (hident : ∀ id name, site.arena.expr id = .ok (.ident name) → below id name [id])
    (htypes : ∀ id ty, site.arena.ty id = .ok ty → ty.Named known) (op : AssignOp)
    {target value : NodeId}
    (h : ∀ c ∈ site.view.written (.assign op target value),
      site.Renders (Scope.Named known) below c) :
    Yields (Scope.Named known) (assignExpr site id op target value)
      (site.view.Spells known (.assign op target value) below) := by
  have hown : ∀ text ∈ site.lang.reserved, site.view.IsOwn known (.assign op target value) text :=
    fun text => .reserved
  have hname : ∀ ty text, ty.Named known → typeName ty = .ok text →
      site.view.IsOwn known (.assign op target value) text :=
    fun ty text hty htext => .type hty (by
      unfold View.typeName
      rwa [show site.view.lang = .python from hlang])
  have ht := h target (by simp [View.written, Expr.children])
  have hv := h value (by simp [View.written, Expr.children])
  -- the text of the expression, before it is grouped: its target may stand in it twice
  let Made (text : String) : Prop := ∃ ids more,
    Spelled (site.view.IsOwn known (.assign op target value)) below ids text ∧
      ids.Perm (site.view.written (.assign op target value) ++ more) ∧
      ∀ id ∈ more, id ∈ site.view.written (.assign op target value) ∧
        site.view.Repeats (.assign op target value) id
  refine yields_assignExpr Made op (fun _ => ?_) (fun _ _ form hform => ?_)
    (fun name he applied hbinary => ?_) ?_ ?_
  · exact (draws_assignment hname hident htypes op ht hv).mono fun _ htext => .of_spelled htext rfl
  · have hmem : form ∈ site.lang.infixes := by
      rw [hlang]
      exact Language.assign_mem_infixes hform
    exact (Site.draws_between (hown _ (Language.infix_mem_reserved hmem)) ht hv).mono
      fun text htext => ⟨_, [], htext, .refl _, by simp⟩
  · have hwritten : site.view.written (.binary applied target value) = [target, value] := by
      cases op <;> cases hbinary <;> simp [View.written, View.chained]
    refine (ht.draws (site.view.IsOwn known (.assign op target value))).bind
      fun targetText htarget => ?_
    refine (draws_binary hown hlang applied fun c hc => h c (by rwa [hwritten] at hc)).bind
      fun valueText hvalue => .pure ?_
    have hall := htarget.join (by decide : Text.IsMark " := ") (by decide) hvalue
    rw [hwritten] at hall
    refine ⟨_, [target], hall, @List.perm_append_comm _ [target] [target, value], fun id hid => ?_⟩
    cases List.mem_singleton.1 hid
    exact ⟨by simp [View.written, Expr.children], .name he⟩
  · rintro text ⟨ids, more, htext, hids, hmore⟩
    exact .made htext hids hmore (View.Spells.callee_of_none rfl)
  · rintro text ⟨ids, more, htext, hids, hmore⟩
    exact .made htext.parenthesized hids hmore (View.Spells.callee_of_none rfl)

/-- A step in an expression writes its target twice. -/
theorem spells_unary (hlang : site.lang = .python) (op : UnaryOp) {operand : NodeId}
    (h : site.Renders inv below operand) :
    Yields inv (unaryExpr site id op operand) (site.view.Spells known (.unary op operand) below) := by
  have hown : ∀ text ∈ site.lang.reserved, site.view.IsOwn known (.unary op operand) text :=
    fun text => .reserved
  have hone : site.view.IsOwn known (.unary op operand) "1" := by
    refine hown _ (Language.helper_mem_reserved ?_)
    rw [hlang]
    decide
  refine yields_unaryExpr _ op (fun _ => ?_) (h.draws (site.view.IsOwn known (.unary op operand)))
    (fun _ _ target htarget => ?_) fun _ name he applied happlied target htarget => ?_
  · exact (Site.draws_unary op h fun form hform => hown _ (Language.unary_mem_reserved hform)).mono
      fun text htext => .of_spelled htext rfl
  · rw [stepStatement_eq]
    exact .of_spelled (htarget.join (isMark_symbol _).1 (isMark_symbol _).2 (.word hone)) rfl
  · have hmark : Text.IsMark (" " ++ applied.symbol ++ " ") := by
      rcases happlied with rfl | rfl <;> decide
    have hsum := htarget.join hmark (by simp) (.word hone)
    have hall := (htarget.join (by decide : Text.IsMark " := ") (by decide) hsum).parenthesized
    rw [stepAssignment_eq]
    refine .made hall (.refl [operand, operand]) ?_ (View.Spells.callee_of_none rfl)
    intro id hid
    cases List.mem_singleton.1 hid
    exact ⟨by simp [View.written, Expr.children], .name he⟩

/-! ## Other expressions -/

theorem draws_cast (hown : ∀ text ∈ Language.python.reserved, own text) {ty value : NodeId}
    (h : site.Renders inv below value) :
    Yields inv (cast site ty value) (Spelled own below [value]) := by
  refine (Render.yields_follow fun _ _ => trivial).bind fun t _ => ?_
  extract_lets convert
  have hconvert : ∀ name ∈ convert, own name := by
    intro name hname
    refine hown name (Language.typeWord_mem_reserved ?_)
    simp only [convert] at hname
    cases t <;> cases hname <;> decide
  refine (h.draws own).bind fun text htext => .pure ?_
  cases hfound : convert with
  | none => exact htext
  | some name => exact htext.called (hconvert name hfound)

theorem draws_collection (id : NodeId) (hown : ∀ text ∈ Language.python.reserved, own text)
    (kind : CollectionKind) {items : List NodeId}
    (h : ∀ item ∈ items, site.Renders inv below item) :
    Yields inv (collection site id kind items) (Spelled own below items) := by
  refine (Site.draws_args own h).bind fun list hlist => .pure ?_
  cases kind with
  | list | array => exact hlist.inSquares
  | set =>
    cases items with
    | nil =>
      have hset : own "set" := hown _ (Language.typeWord_mem_reserved (by decide))
      exact (.nil : Spelled own below [] "").called hset
    | cons first rest => exact hlist.inBraces
  | tuple =>
    dsimp only
    split
    · have hall := (hlist.before (by decide : Text.IsMark ",)") (by decide)).after
        (by decide : Text.IsMark "(")
      simpa [String.append_assoc] using hall
    · exact hlist.parenthesized

theorem draws_dict (id : NodeId) {entries : List (NodeId × NodeId)}
    (h : ∀ entry ∈ entries, site.Renders inv below entry.1 ∧ site.Renders inv below entry.2) :
    Yields inv (dict site id entries)
      (Spelled own below (entries.flatMap fun entry => [entry.1, entry.2])) := by
  have hentry : ∀ entry ∈ entries, Yields inv (do
      let keyText ← site.below entry.1
      let valueText ← site.below entry.2
      return keyText ++ ": " ++ valueText)
        (Spelled own below [entry.1, entry.2]) := by
    intro entry hentry
    refine ((h entry hentry).1.draws own).bind fun keyText hkey => ?_
    refine ((h entry hentry).2.draws own).bind fun valueText hvalue => .pure ?_
    exact hkey.join (by decide : Text.IsMark ": ") (by decide) hvalue
  refine (Yields.mapM_rel hentry).bind fun texts htexts => .pure ?_
  exact (Spelled.commas (List.forall₂_map_left_iff.2 htexts)).inBraces

/-- A part of a formatted string is a literal, or stands in braces. -/
def IsPart (site : Site) (own : String → Prop) (below : NodeId → String → List NodeId → Prop)
    (part : NodeId) (text : String) : Prop :=
  match site.arena.literal? part with
  | some value => text = formatText value
  | none => ∃ inner, text = inBraces inner ∧ Spelled own below [part] inner

/-- The texts between the expressions of a formatted string are words of its own. -/
theorem spelled_parts {parts : List NodeId} {texts : List String}
    (h : List.Forall₂ (IsPart site own below) parts texts) (before : String)
    (hfirst : own (before ++ (formatRuns site.arena parts).1))
    (hrest : ∀ run ∈ (formatRuns site.arena parts).2, own run) :
    Spelled own below (parts.filter fun part => (site.arena.literal? part).isNone)
      (before ++ String.join texts ++ "\"") := by
  induction h generalizing before with
  | nil =>
    have hall := (.word hfirst : Spelled own below [] _).before
      (by decide : Text.IsMark "\"") (by decide)
    simpa [formatRuns] using hall
  | @cons part text parts texts hpart _ ih =>
    unfold IsPart at hpart
    unfold formatRuns at hfirst hrest
    rw [List.filter_cons, String.join_cons]
    cases hliteral : site.arena.literal? part with
    | some value =>
      rw [hliteral] at hpart hfirst hrest
      subst hpart
      have hall := ih (before ++ formatText value) (by simpa [String.append_assoc] using hfirst)
        hrest
      simpa [String.append_assoc] using hall
    | none =>
      rw [hliteral] at hpart hfirst hrest
      obtain ⟨inner, rfl, hinner⟩ := hpart
      have hword : own before := by simpa using hfirst
      have hnext := ih "" (hrest _ (by simp)) fun run hrun => hrest run (by simp [hrun])
      have hall := ((Spelled.word hword).join (by decide : Text.IsMark "\x7b") (by decide)
        hinner).join (by decide : Text.IsMark "\x7d") (by decide) hnext
      simpa [inBraces, String.append_assoc] using hall

theorem draws_interpolated (hown : ∀ text ∈ Language.python.reserved, own text)
    {parts : List NodeId} (hfirst : own (formatRuns site.arena parts).1)
    (hrest : ∀ run ∈ (formatRuns site.arena parts).2, own run)
    (h : ∀ part ∈ parts.filter fun part => (site.arena.literal? part).isNone,
      site.Renders inv below part) :
    Yields inv (interpolated site parts)
      (Spelled own below (parts.filter fun part => (site.arena.literal? part).isNone)) := by
  have hpart : ∀ part ∈ parts, Yields inv (formatPart site part) (IsPart site own below part) := by
    intro part hpart
    refine (Render.yields_follow fun e he => he).bind fun e he => ?_
    have hliteral := Arena.literal?_eq he
    unfold IsPart
    rw [hliteral]
    cases e with
    | str value kind => exact .pure rfl
    | _ =>
      refine ((h part (List.mem_filter.2 ⟨hpart, by rw [hliteral]; rfl⟩)).draws own).bind
        fun text htext => .pure ⟨text, rfl, htext⟩
  refine (Yields.mapM_rel hpart).bind fun texts htexts => .pure ?_
  have hword : own "f" := hown _ (Language.helper_mem_reserved (by decide))
  have hall := (spelled_parts htexts "" (by simpa using hfirst) hrest).headed hword
    (by decide : Text.IsMark "\"")
  simpa [String.append_assoc] using hall

/-- Nested lists, one for each size. -/
theorem spelled_nested (hown : ∀ text ∈ Language.python.reserved, own text) {ids outer : List NodeId}
    {text : String} {sizes : List String} (h : Spelled own below ids text)
    (hsizes : List.Forall₂ (fun id => Spelled own below [id]) outer sizes) :
    Spelled own below (ids ++ outer) (sizes.foldl
      (fun text size => "[" ++ text ++ " for _ in range(" ++ size ++ ")]") text) := by
  induction hsizes generalizing ids text with
  | nil => simpa using h
  | @cons id size outer sizes hsize _ ih =>
    have hhelper : ∀ word ∈ Language.python.helperWords, own word :=
      fun word hword => hown word (Language.helper_mem_reserved hword)
    have hrange := ((hsize.called (hhelper "range" (by decide))).before
      (by decide : Text.IsMark "]") (by decide))
    have hnames := ((Spelled.word (hhelper "_" (by decide))).infixed (hhelper "in" (by decide))
      hrange)
    have hall := (h.infixed (hhelper "for" (by decide)) hnames).after
      (by decide : Text.IsMark "[")
    have htext : "[" ++ text ++ " for _ in range(" ++ size ++ ")]" =
        "[" ++ (text ++ " " ++ "for" ++ " " ++ ("_" ++ " " ++ "in" ++ " " ++
          ("range" ++ parenthesized size ++ "]"))) := by
      simp [← String.toList_inj, parenthesized]
    have hids : ids ++ id :: outer = ids ++ ([] ++ [id]) ++ outer := by simp
    rw [List.foldl_cons, hids]
    refine ih ?_
    rw [htext]
    exact hall

theorem draws_newArray (hown : ∀ text ∈ Language.python.reserved, own text)
    (hlang : site.lang = .python)
    (ty : NodeId) (t : Ty) (dims : List NodeId) (init : Option NodeId)
    (h : ∀ c ∈ site.view.written (.newArray ty dims init), site.Renders inv below c) :
    Yields inv (newArray site t dims init) fun text => ∃ ids,
      ids.Perm (site.view.written (.newArray ty dims init)) ∧ Spelled own below ids text := by
  unfold newArray
  cases init with
  | some init =>
    refine (Render.yields_follow fun e he => he).bind fun e he => ?_
    have hcpp : site.view.lang ≠ .cpp := by
      rw [show site.view.lang = .python from hlang]
      decide
    have hwritten := View.written_newArray hcpp ty dims he
    rw [hwritten] at h ⊢
    cases e with
    | collection kind items =>
      exact (Site.draws_args own h).bind fun list hlist => .pure ⟨_, .refl _, hlist.inSquares⟩
    | _ => exact ((h init (by simp)).draws own).mono fun text htext => ⟨_, .refl _, htext⟩
  | none =>
    have hwritten : site.view.written (.newArray ty dims none) = dims := rfl
    rw [hwritten] at h ⊢
    have hdims : dims.reverse.Perm dims := List.reverse_perm dims
    cases hreverse : dims.reverse with
    | nil =>
      rw [hreverse] at hdims
      exact .pure ⟨_, hdims, .mark (by decide)⟩
    | cons innermost outer =>
      rw [hreverse] at hdims
      have hmem : ∀ dim ∈ innermost :: outer, site.Renders inv below dim :=
        fun dim hdim => h dim (hdims.subset hdim)
      have hfill : own (fillOf t) := by
        unfold fillOf
        split <;> exact hown _ (by decide)
      refine ((hmem innermost (by simp)).draws own).bind fun text htext => ?_
      refine (Yields.mapM_rel fun dim hdim => (hmem dim (List.mem_cons_of_mem _ hdim)).draws own).bind
        fun sizes hsizes => .pure ⟨_, hdims, ?_⟩
      have hstart := (htext.headed hfill (by decide : Text.IsMark "] * ")).after
        (by decide : Text.IsMark "[")
      have hall := spelled_nested hown hstart hsizes
      simpa [String.append_assoc] using hall

/-- **What Python writes of an expression.** -/
theorem draws_expr (hlang : site.lang = .python)
    (hident : ∀ id name, site.arena.expr id = .ok (.ident name) → below id name [id])
    (htypes : ∀ id ty, site.arena.ty id = .ok ty → ty.Named known) {e : Expr}
    (h : ∀ c ∈ site.view.written e, site.Renders (Scope.Named known) below c) :
    Yields (Scope.Named known) (dialect.expr site id e) (site.view.Spells known e below) := by
  have hreserved : ∀ text ∈ Language.python.reserved, site.view.IsOwn known e text :=
    fun text htext => .reserved (by rwa [show site.view.lang = .python from hlang])
  have hown : ∀ text ∈ site.lang.reserved, site.view.IsOwn known e text := fun text => .reserved
  cases e with
  | binary op left right =>
    exact (draws_binary hown hlang op h).mono fun text htext => .of_spelled htext rfl
  | unary op operand =>
    exact spells_unary hlang op (h operand (by simp [View.written, Expr.children]))
  | assign op target value => exact spells_assign hlang hident htypes op h
  | compound items =>
    have hwritten : site.view.written (.compound items) = site.arena.links items := if_pos hlang
    rw [hwritten] at h
    exact (draws_chain hown hlang h).mono
      fun text htext => .of_perm htext (.of_eq hwritten.symm) rfl
  | cast ty value =>
    exact (draws_cast hreserved (h value (by simp [View.written]))).mono
      fun text htext => .of_spelled htext rfl
  | sizeOf value => exact .throw _
  | new ty args =>
    refine (Render.yields_follow (htypes ty)).bind fun t ht => ?_
    refine (Render.yields_allowed fun name hfound => hfound).bind fun name hfound => ?_
    have hname : site.view.IsOwn known (.new ty args) name := .type ht (by
      unfold View.typeName
      rwa [show site.view.lang = .python from hlang])
    exact (Site.draws_args (site.view.IsOwn known (.new ty args)) h).bind fun list hlist =>
      .pure (.of_spelled (hlist.called hname) rfl)
  | newArray ty dims init =>
    refine (Render.yields_follow (htypes ty)).bind fun t _ => ?_
    refine (draws_newArray hreserved hlang ty t dims init h).mono fun text hmade => ?_
    obtain ⟨ids, hids, htext⟩ := hmade
    exact .of_perm htext hids rfl
  | collection kind items =>
    have hwritten : site.view.written (.collection kind items) = items := by
      simp [View.written, Expr.children]
    rw [hwritten] at h
    exact (draws_collection id hreserved kind h).mono
      fun text htext => .of_perm htext (.of_eq hwritten.symm) rfl
  | dict entries =>
    have hwritten := View.written_dict site.view entries
    rw [hwritten] at h
    refine (draws_dict id fun entry hentry => ⟨h entry.1 ?_, h entry.2 ?_⟩).mono
      fun text htext => .of_perm htext (.of_eq hwritten.symm) rfl
    · exact List.mem_flatMap.2 ⟨entry, hentry, by simp⟩
    · exact List.mem_flatMap.2 ⟨entry, hentry, by simp⟩
  | interpolated parts =>
    have hjava : site.view.lang ≠ .java := by
      rw [show site.view.lang = .python from hlang]
      decide
    have hwritten := View.written_interpolated hjava parts
    have hlabels : ∀ text,
        text ∈ (formatRuns site.arena parts).1 :: (formatRuns site.arena parts).2 →
          site.view.IsOwn known (.interpolated parts) text := by
      intro text htext
      refine .label ?_
      simp only [View.labels, show site.view.lang = .python from hlang]
      exact htext
    rw [hwritten] at h
    exact (draws_interpolated hreserved (hlabels _ (by simp))
      (fun run hrun => hlabels run (by simp [hrun])) h).mono
        fun text htext => .of_perm htext (.of_eq hwritten.symm) rfl
  | sequence items =>
    have hwritten : site.view.written (.sequence items) = items := by
      simp [View.written, Expr.children]
    rw [hwritten] at h
    exact (Site.draws_args _ h).mono fun text htext => .of_perm htext (.of_eq hwritten.symm) rfl
  | _ =>
    have hdialect : site.lang.dialect = dialect := by
      rw [hlang]
      rfl
    rw [← hdialect]
    exact Site.draws_common rfl h

end Interlingua.Python
