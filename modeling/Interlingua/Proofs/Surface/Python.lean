import Interlingua.Proofs.Chain.Meaning
import Interlingua.Proofs.Surface.Operands

/-!
# Python on the surface

What the expressions of Python show: each that keeps its form shows no operator weaker than the one
that its form names.

* `Python.yields_infixed`, `Python.yields_chain_of_links`, `Python.yields_assignExpr` and
  `Python.yields_unaryExpr` — the rules for binary operators, chains, assignments and steps: what
  their texts have is read off the texts that they are made of.
* `Python.prints_chain` — comparisons that chain show comparisons only.
-/

namespace Interlingua.Python

open Surface

variable {site : Site} {id left right : NodeId}

/-! ## Comparisons -/

section Rules

variable {inv : Scope → Prop} {post : String → Prop}

/-- A comparison with the null value binds like any other. -/
theorem yields_binaryForm? (hlang : site.lang = .python) (op : BinaryOp)
    (left right : NodeId) : Yields inv (binaryForm? site op left right) fun found => ∀ form ∈ found,
      form ∈ site.lang.infixes ∧ (binary op).map OperatorForm.level = some form.level := by
  unfold binaryForm?
  rw [hlang]
  refine (Render.yields_follow fun _ _ => trivial).bind fun isNullLeft _ => ?_
  cases isNullLeft with
  | true =>
    refine .pure ?_
    cases op <;> decide
  | false =>
    refine (Render.yields_follow fun _ _ => trivial).bind fun withNull _ => .pure ?_
    cases op <;> cases withNull <;> decide

/-- An operator between its operands has the level of its form. -/
theorem yields_infixed (hlang : site.lang = .python) (op : BinaryOp)
    (h : ∀ form ∈ site.lang.infixes, (binary op).map OperatorForm.level = some form.level →
      Yields inv (site.between form left right) post) :
    Yields inv (binaryExpr.infixed site op left right) post := by
  refine (yields_binaryForm? hlang op left right).bind fun found hfound => ?_
  cases found with
  | none => exact .throw _
  | some form =>
    obtain ⟨hform, hlevel⟩ := hfound form rfl
    exact h form hform hlevel

/-- The first comparison of a chain brings both operands. -/
theorem yields_firstLink (hlang : site.lang = .python) {item : NodeId}
    (h : ∀ op left right, site.arena.expr item = .ok (.binary op left right) →
      ∀ form ∈ site.lang.infixes, (binary op).map OperatorForm.level = some form.level →
        Yields inv (site.between form left right) post) :
    Yields inv (chainLink site true item) post := by
  refine (Render.yields_follow fun e he => he).bind fun e he => ?_
  cases e with
  | binary op left right =>
    refine (yields_binaryForm? hlang op left right).bind fun found hfound => ?_
    cases found with
    | none => exact .throw _
    | some form =>
      obtain ⟨hform, hlevel⟩ := hfound form rfl
      exact h op left right he form hform hlevel
  | _ => exact .throw _

/-- Another comparison of a chain brings its right operand. -/
theorem yields_nextLink (hlang : site.lang = .python) {item : NodeId}
    (h : ∀ op left right, site.arena.expr item = .ok (.binary op left right) →
      ∀ form ∈ site.lang.infixes, (binary op).map OperatorForm.level = some form.level →
        Yields inv (site.operand form right .right) fun text =>
          post (" " ++ form.value ++ " " ++ text)) :
    Yields inv (chainLink site false item) post := by
  refine (Render.yields_follow fun e he => he).bind fun e he => ?_
  cases e with
  | binary op left right =>
    refine (yields_binaryForm? hlang op left right).bind fun found hfound => ?_
    cases found with
    | none => exact .throw _
    | some form =>
      obtain ⟨hform, hlevel⟩ := hfound form rfl
      refine (h op left right he form hform hlevel).bind fun text htext => .pure ?_
      simpa using htext
  | _ => exact .throw _

/-- The rule for a chain: what its first comparison sets up, each other one keeps. -/
theorem yields_chain_of_links (post : List NodeId → String → Prop) {first : NodeId}
    {rest : List NodeId} (hfirst : Yields inv (chainLink site true first) (post [first]))
    (hnext : ∀ item ∈ rest, Yields inv (chainLink site false item) fun text =>
      ∀ done before, post done before → post (done ++ [item]) (before ++ text)) :
    Yields inv (chain site (first :: rest)) (post (first :: rest)) := by
  refine hfirst.bind fun firstText hfirst => ?_
  refine (Yields.mapM_rel hnext).bind fun texts htexts => .pure ?_
  change post ([first] ++ rest) (firstText ++ String.join texts)
  clear hnext
  generalize [first] = done at hfirst
  induction htexts generalizing firstText done with
  | nil => simpa using hfirst
  | @cons item text rest texts htext _ ih =>
    rw [String.join_cons, ← String.append_assoc, List.append_cons]
    exact ih _ _ (htext _ _ hfirst)

end Rules

/-- What is not a conjunction or a disjunction binds at least like a comparison. -/
theorem level_le_comparison {op : BinaryOp} (hop : op.isLogical = false) {level : Nat}
    (h : (binary op).map OperatorForm.level = some level) : level ≤ comparisonLevel := by
  cases op <;> cases hop <;> cases h <;> decide

/-- A comparison whose operands can be written in a chain. -/
def IsLink (site : Site) (item : NodeId) : Prop :=
  ∀ op left right, site.arena.expr item = .ok (.binary op left right) →
    op.isLogical = false ∧ site.Written left ∧ site.Written right

/-- **Comparisons that chain show no operator weaker than a comparison.** -/
theorem prints_chain (hlang : site.lang = .python) {items : List NodeId} (hne : items ≠ [])
    (h : ∀ item ∈ items, IsLink site item) : site.Prints comparisonLevel (chain site items) := by
  obtain ⟨first, rest, rfl⟩ := List.exists_cons_of_ne_nil hne
  refine yields_chain_of_links (fun _ => Shows site.lang comparisonLevel) ?_ fun item hitem => ?_
  · refine yields_firstLink hlang fun op left right he form hform hlevel => ?_
    obtain ⟨hop, hl, hr⟩ := h first (by simp) op left right he
    exact (Site.prints_between hform hl hr).mono (level_le_comparison hop hlevel)
  · refine yields_nextLink hlang fun op left right he form hform hlevel => ?_
    obtain ⟨hop, -, hr⟩ := h item (List.mem_cons_of_mem _ hitem) op left right he
    have hle := level_le_comparison hop hlevel
    refine Yields.mono (Site.prints_operand hr form .right) fun text htext _ before hbefore => ?_
    simpa [String.append_assoc] using hbefore.between hform hle (htext.mono hle)

/-- What is joined by a conjunction lies below it. -/
theorem tight_conjuncts {view : View} {items : List NodeId} (h : view.arena.Conjuncts id items)
    (htight : view.Tight id) : ∀ item ∈ items, view.Tight item := by
  induction h with
  | one => simpa using htight
  | both he _ _ ihl ihr =>
    obtain ⟨hl, hr⟩ := htight.binary he
    intro item hitem
    rcases List.mem_append.1 hitem with hitem | hitem
    · exact ihl hl item hitem
    · exact ihr hr item hitem

/-- A comparison of a chain compares tight expressions. -/
theorem isLink_of_lines (hsite : site.Writes) {items : List NodeId} {chain : Chain NodeId}
    (h : site.arena.Lines items chain) (htight : ∀ item ∈ items, site.view.Tight item) :
    ∀ item ∈ items, IsLink site item := by
  intro item hitem op left right he
  obtain ⟨op', left', right', he', hop⟩ := h.isComparison item hitem
  cases he.symm.trans he'
  obtain ⟨hl, hr⟩ := (htight item hitem).binary he
  refine ⟨?_, hsite left hl, hsite right hr⟩
  cases op <;> cases hop <;> rfl

/-- The operands of a conjunction that make a chain are comparisons. -/
theorem grants_chainOf? (hsite : site.Writes) (hl : site.view.Tight left)
    (hr : site.view.Tight right) :
    Grants (chainOf? site.arena left right) fun found => ∀ items ∈ found,
      items ≠ [] ∧ ∀ item ∈ items, IsLink site item := by
  intro found hfound items hitems
  cases hitems
  obtain ⟨chain, lefts, rights, hlefts, hrights, rfl, hlines⟩ :=
    Arena.exists_lines_of_chainOf? hfound
  refine ⟨by simp [hlefts.ne_nil], isLink_of_lines hsite hlines fun item hitem => ?_⟩
  rcases List.mem_append.1 hitem with hitem | hitem
  · exact tight_conjuncts hlefts hl item hitem
  · exact tight_conjuncts hrights hr item hitem

theorem prints_infixed (hlang : site.lang = .python) (op : BinaryOp) (hl : site.Written left)
    (hr : site.Written right) :
    site.Prints (site.lang.boundOf (.binary op left right))
      (binaryExpr.infixed site op left right) := by
  refine yields_infixed hlang op fun form hform hlevel => ?_
  have hbound : site.lang.boundOf (.binary op left right) = form.level := by
    rw [hlang]
    change ((binary op).map OperatorForm.level).getD 0 = form.level
    rw [hlevel]
    rfl
  rw [hbound]
  exact Site.prints_between hform hl hr

theorem prints_binary (hlang : site.lang = .python) (hsite : site.Writes) (op : BinaryOp)
    (hl : site.view.Tight left) (hr : site.view.Tight right) :
    site.Prints (site.lang.boundOf (.binary op left right)) (binaryExpr site op left right) := by
  have hinfixed := prints_infixed hlang op (hsite left hl) (hsite right hr)
  unfold binaryExpr
  cases op with
  | instanceOf =>
    refine (hsite left hl).neat.bind fun leftText hleft => ?_
    refine (hsite right hr).neat.bind fun rightText hright => .pure ?_
    obtain ⟨face, hface⟩ : ∃ face, Neat AroundCode (commas [leftText, rightText]).toList face :=
      Neat.commas (by simp [hleft, hright])
    exact .typed_call (.path (by decide)) hface
  | and =>
    refine .ite hinfixed ?_
    refine (Render.yields_follow (grants_chainOf? hsite hl hr)).bind fun found hfound => ?_
    cases found with
    | none => exact hinfixed
    | some items =>
      obtain ⟨hne, hlinks⟩ := hfound items rfl
      have hle : comparisonLevel ≤ andLevel := by decide
      refine (prints_chain hlang hne hlinks).mono ?_
      rw [hlang]
      exact hle
  | _ => exact hinfixed

/-! ## Assignments and steps -/

theorem exists_of_isName {target : NodeId} {named : Bool} (hnamed : named = true)
    (h : isName site.arena target = .ok named) :
    ∃ name, site.arena.expr target = .ok (.ident name) := by
  unfold isName at h
  cases he : site.arena.expr target with
  | error fault =>
    rw [he] at h
    cases h
  | ok e =>
    rw [he] at h
    subst hnamed
    cases e with
    | ident name => exact ⟨name, rfl⟩
    | _ => cases h

section Rules

variable {inv : Scope → Prop} (mid : String → Prop) {post : String → Prop}

/-- The rule for an assignment: it is a statement if its value is not used, and else an expression
that assigns to a name and may be grouped. -/
theorem yields_assignExpr (op : AssignOp) {target value : NodeId}
    (hassignment : isStatement site.view id = .ok true →
      Yields inv (assignment site op target value) post)
    (hform : ∀ name, site.arena.expr target = .ok (.ident name) → ∀ form, assign op = some form →
      Yields inv (site.between form target value) mid)
    (happlied : ∀ name, site.arena.expr target = .ok (.ident name) → ∀ applied,
      op.binary? = some applied → Yields inv (do
        let targetText ← site.below target
        let valueText ← binaryExpr site applied target value
        return targetText ++ " := " ++ valueText) mid)
    (hbare : ∀ text, mid text → post text)
    (hgrouped : ∀ text, mid text → post (parenthesized text)) :
    Yields inv (assignExpr site id op target value) post := by
  unfold assignExpr
  refine (Render.yields_follow fun statement h => h).bind fun statement hstatement => ?_
  cases statement with
  | true => exact hassignment hstatement
  | false =>
    refine (Render.yields_follow fun named hnamed => hnamed).bind fun named hnamed => ?_
    cases named with
    | false => exact .throw _
    | true =>
      obtain ⟨name, he⟩ := exists_of_isName rfl hnamed
      refine .ite (.throw _) ?_
      extract_lets write
      have hwrite : ∀ text, mid text → Yields inv (write text) post := by
        intro text htext
        refine (Render.yields_follow fun _ _ => trivial).bind fun isBare _ => .pure ?_
        split
        · exact hbare text htext
        · exact hgrouped text htext
      cases hbinary : op.binary? with
      | none =>
        cases hfound : assign op with
        | none => exact Yields.bind (.throw _) hwrite
        | some form => exact (hform name he form hfound).bind hwrite
      | some applied =>
        have hall := (happlied name he applied hbinary).bind hwrite
        simp only [bind_assoc] at hall
        exact hall

/-- The rule for a step: it is a statement if its value is not used, and else an assignment to a
name, between parentheses. -/
theorem yields_unaryExpr (op : UnaryOp) {operand : NodeId}
    (hunary : op.isStep = false → Yields inv (site.unary op operand) post)
    (htarget : Yields inv (site.below operand) mid)
    (hstatement : op.isStep = true → isStatement site.view id = .ok true → ∀ target, mid target →
      post (target ++ " " ++ (stepAssign op).symbol ++ " 1"))
    (hstep : op.isStep = true → ∀ name, site.arena.expr operand = .ok (.ident name) →
      ∀ applied : BinaryOp, applied = .add ∨ applied = .sub → ∀ target, mid target →
        post (parenthesized (target ++ " := " ++ target ++ " " ++ applied.symbol ++ " 1"))) :
    Yields inv (unaryExpr site id op operand) post := by
  unfold unaryExpr
  cases hop : op.isStep with
  | false => exact hunary hop
  | true =>
    refine htarget.bind fun target htarget => ?_
    refine (Render.yields_follow fun statement h => h).bind fun statement hfound => ?_
    cases statement with
    | true => exact .pure (hstatement hop hfound target htarget)
    | false =>
      refine (Render.yields_follow fun named hnamed => hnamed).bind fun named hnamed => ?_
      cases named with
      | false => exact .throw _
      | true =>
        obtain ⟨name, he⟩ := exists_of_isName rfl hnamed
        cases op with
        | preInc | postInc => exact .pure (hstep hop name he .add (.inl rfl) target htarget)
        | preDec | postDec => exact .pure (hstep hop name he .sub (.inr rfl) target htarget)
        | _ => cases hop

/-- A step as a statement, with its symbol set off by blanks. -/
theorem stepStatement_eq (target symbol : String) :
    target ++ " " ++ symbol ++ " 1" = target ++ (" " ++ symbol ++ " ") ++ "1" := by
  simp [← String.toList_inj]

/-- A step as an assignment, with its symbol set off by blanks. -/
theorem stepAssignment_eq (target symbol : String) :
    target ++ " := " ++ target ++ " " ++ symbol ++ " 1" =
      target ++ " := " ++ (target ++ (" " ++ symbol ++ " ") ++ "1") := by
  simp [← String.toList_inj]

end Rules

/-- The assignment expression. -/
def walrus : OperatorForm := (OperatorForm.between ":=" walrusLevel .right).strictly

theorem boundOf_le_walrus (hlang : site.lang = .python) (e : Expr) :
    site.lang.boundOf e ≤ walrusLevel := by
  have hassign : Language.python.operators.assign .plain = some walrus := rfl
  rw [hlang]
  exact Language.boundOf_le_assign hassign e

theorem shows_walrus {lang : Language} (hlang : lang = .python) {target value : String}
    (h : Shows lang walrusLevel target) (h' : Shows lang walrusLevel value) :
    Shows lang walrusLevel (target ++ " := " ++ value) := by
  have hform : walrus ∈ lang.infixes := by
    rw [hlang]
    decide
  have hall := h.between hform (Nat.le_refl _) h'
  have htext : target ++ " := " ++ value = target ++ " " ++ walrus.value ++ " " ++ value := by
    simp [← String.toList_inj, walrus, OperatorForm.strictly, OperatorForm.between,
      OperatorForm.make]
  rw [htext]
  exact hall

theorem prints_assign (hlang : site.lang = .python) (hsite : site.Writes) (op : AssignOp)
    {target value : NodeId} (hstatement : isStatement site.view id = .ok false)
    (ht : site.view.Tight target) (hv : site.view.Tight value) :
    site.Prints (site.lang.boundOf (.assign op target value))
      (assignExpr site id op target value) := by
  have hbound : site.lang.boundOf (.assign op target value) = walrusLevel := by
    rw [hlang]
    cases op <;> rfl
  rw [hbound]
  refine yields_assignExpr (Shows site.lang walrusLevel) op
    (fun htrue => by cases htrue.symm.trans hstatement) (fun _ _ form hform => ?_)
    (fun _ _ applied _ => ?_) (fun _ htext => htext) fun text htext => ?_
  · have hmem : form ∈ site.lang.infixes := by
      rw [hlang]
      exact Language.assign_mem_infixes hform
    have hle : form.level ≤ walrusLevel := by
      cases op <;> cases hform
      decide
    exact (Site.prints_between hmem (hsite target ht) (hsite value hv)).mono hle
  · refine Yields.bind (hsite target ht) fun targetText ⟨e, _, htarget⟩ => ?_
    refine (prints_binary hlang hsite applied ht hv).bind fun valueText hvalue => .pure ?_
    exact shows_walrus hlang (htarget.mono (boundOf_le_walrus hlang e))
      (hvalue.mono (boundOf_le_walrus hlang _))
  · obtain ⟨face, hface⟩ := htext.neat
    exact .grouped hface

/-- A step as an assignment of its own, in parentheses. -/
theorem shows_step {lang : Language} (hlang : lang = .python) {target : String} {bound : Nat}
    (h : Shows lang walrusLevel target) {op : BinaryOp} (hop : op = .add ∨ op = .sub) :
    Shows lang bound
      (parenthesized (target ++ " := " ++ target ++ " " ++ op.symbol ++ " 1")) := by
  have hform : OperatorForm.between op.symbol addLevel .left ∈ lang.infixes := by
    rw [hlang]
    rcases hop with rfl | rfl <;> decide
  have hone : Shows lang walrusLevel "1" := .numeral 1
  have hsum := h.between hform (by decide : addLevel ≤ walrusLevel) hone
  obtain ⟨face, hface⟩ := (shows_walrus hlang h hsum).neat
  have htext : target ++ " := " ++ target ++ " " ++ op.symbol ++ " 1" =
      target ++ " := " ++ (target ++ " " ++ op.symbol ++ " " ++ "1") := by
    simp [← String.toList_inj]
  rw [htext]
  exact .grouped hface

theorem prints_unary (hlang : site.lang = .python) (op : UnaryOp)
    (hstatement : op.isStep = true → isStatement site.view id = .ok false) {operand : NodeId}
    (h : site.Written operand) :
    site.Prints (site.lang.boundOf (.unary op operand)) (unaryExpr site id op operand) := by
  refine yields_unaryExpr (Shows site.lang walrusLevel) op
    (fun _ => Site.prints_unary op h) ?_
    (fun hstep htrue => by cases htrue.symm.trans (hstatement hstep))
    fun _ _ _ applied happlied target htarget => shows_step hlang htarget happlied
  exact Yields.mono h fun target ⟨e, _, htarget⟩ => htarget.mono (boundOf_le_walrus hlang e)

/-! ## Other expressions -/

theorem stringLiteral_shows {lang : Language} {bound : Nat} {value : String} {kind : StringKind}
    (h : kind = .plain ∨ staysIn '"' false value.toList = true) :
    Shows lang bound (stringLiteral value kind) := by
  cases kind with
  | plain => exact .quote value
  | raw =>
    have hvalue := h.resolve_left nofun
    exact .lettered (by decide : isPlain 'r' = true) (by decide) hvalue (by simp [stringLiteral])
  | multiline =>
    have hvalue := h.resolve_left nofun
    exact .tripled hvalue (by simp [stringLiteral])

theorem boundOf_eq_zero {lang : Language} {arena : Arena} {e : Expr}
    (he : arena.expr id = .ok e) (h : lang.exprForm? arena id = .ok none) : lang.boundOf e = 0 := by
  rw [Language.exprForm?, he] at h
  have hform : lang.formOf? e = none := Except.ok.inj h
  simp [Language.boundOf, hform]

/-- A cast is a call, or it leaves an atom as it is. -/
theorem prints_cast {ty value : NodeId}
    (hcast : (∃ t, site.arena.ty ty = .ok t ∧ isConversion t = true) ∨
      site.lang.exprForm? site.arena value = .ok none) (h : site.Written value) :
    site.Prints 0 (cast site ty value) := by
  refine (Render.yields_follow fun t ht => ht).bind fun t ht => ?_
  refine Yields.bind h fun text ⟨e, he, htext⟩ => .pure ?_
  obtain ⟨face, hface⟩ := htext.neat
  rcases hcast with ⟨t', ht', hconversion⟩ | hatom
  · cases ht.symm.trans ht'
    cases t <;> cases hconversion <;> exact .typed_call (.path (by decide)) hface
  · rw [boundOf_eq_zero he hatom] at htext
    cases t with
    | int | float | str | char | bool => exact .typed_call (.path (by decide)) hface
    | _ => exact htext

theorem prints_newObject {t : Ty} (ht : t.isPlain = true) {args : List NodeId}
    (h : ∀ arg ∈ args, site.Written arg) : site.Prints 0 (newObject site t args) :=
  (Render.yields_allowed (typeName_text t ht)).bind fun _ hname =>
    (Site.yields_args h).bind fun _ ⟨_, hlist⟩ => .pure (.typed_call hname hlist)

theorem prints_collection (id : NodeId) (kind : CollectionKind) {items : List NodeId}
    (h : ∀ item ∈ items, site.Written item) : site.Prints 0 (collection site id kind items) := by
  refine (Site.yields_args h).bind fun list ⟨face, hlist⟩ => .pure ?_
  cases kind with
  | list | array => exact .squared hlist
  | set =>
    dsimp only
    split
    · have hempty : Neat AroundCode "".toList [] := .nil
      have hcall : Shows site.lang 0 ("set" ++ parenthesized "") :=
        .typed_call (.path (by decide)) hempty
      exact hcall
    · exact .braced hlist
  | tuple =>
    dsimp only
    split
    · have hcomma : Neat AroundCode (list ++ ",").toList (face ++ [',']) := by
        rw [String.toList_append]
        exact hlist.append_of_head (.weaken (.plain (by decide))) (by decide)
      have htext : "(" ++ list ++ ",)" = parenthesized (list ++ ",") := by
        simp [parenthesized, ← String.toList_inj]
      rw [htext]
      exact .grouped hcomma
    · exact .grouped hlist

theorem prints_dict (id : NodeId) {entries : List (NodeId × NodeId)}
    (h : ∀ entry ∈ entries, site.Written entry.1 ∧ site.Written entry.2) :
    site.Prints 0 (dict site id entries) := by
  have hentry : ∀ entry ∈ entries, Yields Scope.Plain (do
      let keyText ← site.below entry.1
      let valueText ← site.below entry.2
      return keyText ++ ": " ++ valueText) fun text =>
        ∃ face, Neat AroundCode text.toList face := by
    intro entry hentry
    refine (h entry hentry).1.neat.bind fun keyText ⟨face, hkey⟩ => ?_
    refine (h entry hentry).2.neat.bind fun valueText ⟨other, hvalue⟩ => .pure ?_
    have hcolon : Neat AroundCode ([':'] ++ [' ']) [':', ' '] := .weaken (.plain (by decide))
    have hall := hkey.append_of_head (hcolon.append_blank hvalue) (by simp)
    exact ⟨face ++ ([':', ' '] ++ other), by simpa using hall⟩
  refine (Yields.mapM hentry).bind fun list hlist => .pure ?_
  obtain ⟨face, hface⟩ := Neat.commas hlist
  exact .braced hface

/-- The text of a string inside a format string. -/
theorem inFormat_formatText (value : String) : InFormat (formatText value).toList := by
  rw [InFormat.toList_formatText]
  induction value.toList with
  | nil => exact .nil
  | cons c rest ih =>
    rw [List.flatMap_cons]
    exact (InFormat.text_char c).append ih

theorem prints_interpolated {parts : List NodeId} (h : ∀ part ∈ parts, site.Written part)
    (hbrace : ∀ part ∈ parts, ∀ scope text after, site.below part scope = .ok text after →
      text.toList.head? ≠ some '\x7b') :
    site.Prints 0 (interpolated site parts) := by
  have hpart : ∀ part ∈ parts,
      Yields Scope.Plain (formatPart site part) fun text => InFormat text.toList := by
    intro part hpart
    have hcode : Yields Scope.Plain (site.below part) fun text =>
        InFormat (inBraces text).toList := by
      intro scope text after hscope hrun
      obtain ⟨hafter, e, -, htext⟩ := h part hpart scope text after hscope hrun
      obtain ⟨face, hface⟩ := htext.neat
      have hfield := InFormat.field hface htext.ne_nil (hbrace part hpart scope text after hrun)
      exact ⟨hafter, by simpa [inBraces] using hfield⟩
    refine (Render.yields_follow fun e _ => trivial).bind fun e _ => ?_
    cases e with
    | str value kind => exact .pure (inFormat_formatText value)
    | _ => exact hcode.bind fun text htext => .pure htext
  refine (Yields.mapM hpart).bind fun texts htexts => .pure ?_
  have hinner : InFormat (String.join texts).toList := by
    induction texts with
    | nil => exact .nil
    | cons text rest ih =>
      rw [String.join_cons, String.toList_append]
      exact (htexts text (by simp)).append (ih fun text htext => htexts text (by simp [htext]))
  have hneat : Neat AroundCode ("f\"" ++ String.join texts ++ "\"").toList ['f', '"', '"'] := by
    simpa using Neat.weaken (Neat.format hinner)
  exact .odd hneat (by decide) (by decide) (by decide)

/-- What an array is filled with. -/
theorem neat_fillOf (t : Ty) : ∃ face, Neat AroundCode (fillOf t).toList face := by
  unfold fillOf
  split
  · exact ⟨_, .weaken (.plain (by decide))⟩
  · exact ⟨_, .weaken (.plain (by decide))⟩
  · exact ⟨_, .weaken (.plain (by decide))⟩
  · exact ⟨_, .weaken (.quote "")⟩
  · exact ⟨_, .weaken (.plain (by decide))⟩

theorem neat_repeated (t : Ty) {size : String} {face : List Char}
    (hsize : Neat AroundCode size.toList face) :
    ∃ face, Neat AroundCode ("[" ++ fillOf t ++ "] * " ++ size).toList face := by
  obtain ⟨other, hfill⟩ := neat_fillOf t
  have htimes : Neat AroundCode ([' ', '*'] ++ [' ']) [' ', '*', ' '] :=
    .weaken (.plain (by decide))
  have hlist : Neat AroundCode ("[" ++ fillOf t ++ "]").toList ['[', ']'] := .inSquares hfill
  have hall := hlist.append_of_head (htimes.append_blank hsize) (by simp)
  exact ⟨['[', ']'] ++ ([' ', '*', ' '] ++ face), by simpa using hall⟩

/-- A list of as many lists as a size says. -/
def nested (text size : String) : String := "[" ++ text ++ " for _ in range(" ++ size ++ ")]"

theorem shows_nested {lang : Language} {bound : Nat} {text size : String}
    (htext : ∃ face, Neat AroundCode text.toList face)
    (hsize : ∃ face, Neat AroundCode size.toList face) : Shows lang bound (nested text size) := by
  obtain ⟨face, hface⟩ := htext
  obtain ⟨other, hother⟩ := hsize
  have hfor : Neat AroundCode " for _ in range".toList " for _ in range".toList :=
    .weaken (.plain (by decide))
  have hstart := hface.append_of_head hfor (by decide)
  have hall := hstart.append_of_head (.parenthesized hother) (Shows.head?_parenthesized size)
  have hinner : nested text size =
      "[" ++ (text ++ " for _ in range" ++ parenthesized size) ++ "]" := by
    simp [nested, parenthesized, ← String.toList_inj]
  rw [hinner]
  exact .squared (by simpa using hall)

theorem neat_nestedAll {start : String} {sizes : List String}
    (hstart : ∃ face, Neat AroundCode start.toList face)
    (hsizes : ∀ size ∈ sizes, ∃ face, Neat AroundCode size.toList face) :
    ∃ face, Neat AroundCode (sizes.foldl nested start).toList face := by
  induction sizes generalizing start with
  | nil => exact hstart
  | cons size rest ih =>
    have hnext : Shows .python 0 (nested start size) := shows_nested hstart (hsizes size (by simp))
    exact ih hnext.neat fun size hsize => hsizes size (List.mem_cons_of_mem _ hsize)

/-- With more than one size, the whole is a list. -/
theorem shows_nestedAll {lang : Language} {bound : Nat} {start : String} {sizes : List String}
    (hne : sizes ≠ []) (hstart : ∃ face, Neat AroundCode start.toList face)
    (hsizes : ∀ size ∈ sizes, ∃ face, Neat AroundCode size.toList face) :
    Shows lang bound (sizes.foldl nested start) := by
  obtain ⟨init, last, rfl⟩ : ∃ init last, sizes = init ++ [last] :=
    ⟨sizes.dropLast, sizes.getLast hne, (List.dropLast_append_getLast hne).symm⟩
  rw [List.foldl_concat]
  have hinit : ∀ size ∈ init, ∃ face, Neat AroundCode size.toList face :=
    fun size hsize => hsizes size (List.mem_append_left _ hsize)
  exact shows_nested (neat_nestedAll hstart hinit) (hsizes last (by simp))

theorem prints_newArray {t : Ty} {dims : List NodeId} {init : Option NodeId}
    (hdim : init = none → dims.length ≠ 1)
    (hatom : ∀ list ∈ init, site.lang.exprForm? site.arena list = .ok none)
    (hdims : ∀ dim ∈ dims, site.Written dim) (hinit : ∀ list ∈ init, site.Written list)
    (hitems : ∀ list ∈ init, ∀ kind items, site.arena.expr list = .ok (.collection kind items) →
      ∀ item ∈ items, site.Written item) :
    site.Prints 0 (newArray site t dims init) := by
  unfold newArray
  cases init with
  | some list =>
    have hlist : site.Prints 0 (site.below list) := by
      refine Yields.mono (hinit list rfl) fun text ⟨e, he, htext⟩ => ?_
      rw [boundOf_eq_zero he (hatom list rfl)] at htext
      exact htext
    refine (Render.yields_follow fun e he => he).bind fun e he => ?_
    cases e with
    | collection kind items =>
      refine (Site.yields_args (hitems list rfl kind items he)).bind fun text ⟨face, htext⟩ => ?_
      exact .pure (.squared htext)
    | _ => exact hlist
  | none =>
    cases hreverse : dims.reverse with
    | nil =>
      have hempty : Neat AroundCode "".toList [] := .nil
      have hall : Shows site.lang 0 ("[" ++ "" ++ "]") := .squared hempty
      exact .pure hall
    | cons innermost outer =>
      have hmem : ∀ dim ∈ innermost :: outer, site.Written dim := by
        intro dim hdim
        rw [← hreverse, List.mem_reverse] at hdim
        exact hdims dim hdim
      have hne : outer ≠ [] := by
        rintro rfl
        have hlength := congrArg List.length hreverse
        rw [List.length_reverse] at hlength
        exact hdim rfl hlength
      refine (hmem innermost (by simp)).neat.bind fun size ⟨face, hsize⟩ => ?_
      refine (Yields.mapM_length fun dim hdim => (hmem dim (List.mem_cons_of_mem _ hdim)).neat).bind
        fun sizes hsizes => .pure ?_
      refine shows_nestedAll ?_ ?_ hsizes.2
      · rintro rfl
        exact hne (by simpa using hsizes.1.symm)
      · exact neat_repeated t hsize

end Interlingua.Python
