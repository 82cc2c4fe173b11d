import Interlingua.Proofs.Surface.Braced
import Interlingua.Proofs.Surface.Python

/-!
# Operands are never regrouped

* `Dialect.Tells` — a dialect writes each tight expression with no operator weaker than the one
  that groups it.  Each of the three dialects does.
* `View.written_exprTo` — so does the rendering of whole expressions, by induction on their depth.
* `View.isClear_operand` — **hence the text of an operand is clear under its parent.**
* `View.operand_cast_not_clear` — a cast that is left out is not tight, and its text need not be
  clear.
-/

namespace Interlingua

open Surface

variable {site : Site} {id : NodeId}

/-- Of a tight expression, the text shows no operator weaker than the one that groups it. -/
def Site.Owes (site : Site) (id : NodeId) (e : Expr) (action : Render String) : Prop :=
  site.view.Tight id → site.arena.expr id = .ok e → site.Prints (site.lang.boundOf e) action

/-- What a dialect says about the kinds of expressions that are its own. -/
structure Dialect.Tells (dialect : Dialect) (site : Site) : Prop where
  charLiteral : ∀ c, Shows site.lang 0 (dialect.charLiteral c)
  stringLiteral : ∀ {value kind}, kind = .plain ∨ staysIn '"' false value.toList = true →
    Shows site.lang 0 (dialect.stringLiteral value kind)
  binary : ∀ {id op left right},
    site.Owes id (.binary op left right) (dialect.binary site op left right)
  unary : ∀ {id op operand}, site.Owes id (.unary op operand) (dialect.unary site id op operand)
  assign : ∀ {id op target value},
    site.Owes id (.assign op target value) (dialect.assign site id op target value)
  compound : ∀ {id items}, site.Owes id (.compound items) (dialect.compound site items)
  cast : ∀ {id ty value}, site.Owes id (.cast ty value) (dialect.cast site ty value)
  sizeOf : ∀ {id value}, site.Owes id (.sizeOf value) (dialect.sizeOf site value)
  newObject : ∀ {id ty t args}, site.arena.ty ty = .ok t →
    site.Owes id (.new ty args) (dialect.newObject site t args)
  newArray : ∀ {id ty t dims init}, site.arena.ty ty = .ok t →
    site.Owes id (.newArray ty dims init) (dialect.newArray site t dims init)
  collection : ∀ {id kind items},
    site.Owes id (.collection kind items) (dialect.collection site id kind items)
  dict : ∀ {id entries}, site.Owes id (.dict entries) (dialect.dict site id entries)
  interpolated : ∀ {id parts}, site.Owes id (.interpolated parts) (dialect.interpolated site parts)
  sequence : ∀ {id items}, site.Owes id (.sequence items) (dialect.sequence site items)

namespace Dialect.Tells

theorem expr {dialect : Dialect} (htells : dialect.Tells site) (hsite : site.Writes) {e : Expr} :
    site.Owes id e (dialect.expr site id e) := by
  intro htight he
  have hproper := htight.isProper he
  have hbelow : ∀ child ∈ e.children.map Child.id, site.Written child :=
    fun child hchild => hsite child (htight.child he hchild)
  unfold Dialect.expr
  cases e with
  | int value => exact .pure (.numeral value)
  | float bits => exact .pure (.float bits)
  | bool value => cases value <;> exact Site.prints_word _ _
  | char value => exact .pure (htells.charLiteral value)
  | str value kind =>
    exact .pure (htells.stringLiteral (by simpa [Language.isProper] using hproper))
  | interpolated parts => exact htells.interpolated htight he
  | null | selfRef | superRef => exact Site.prints_word _ _
  | collection kind items => exact htells.collection htight he
  | dict entries => exact htells.dict htight he
  | ident name => exact .pure (.name hproper)
  | «scoped» path => exact .pure (.path hproper)
  | binary op left right => exact htells.binary htight he
  | unary op operand => exact htells.unary htight he
  | assign op target value => exact htells.assign htight he
  | ternary cond whenTrue whenFalse =>
    exact Site.prints_ternary (hbelow cond (by simp [Expr.children]))
      (hbelow whenTrue (by simp [Expr.children])) (hbelow whenFalse (by simp [Expr.children]))
  | compound items => exact htells.compound htight he
  | paren inner =>
    refine (hbelow inner (by simp [Expr.children])).neat.bind fun text ⟨face, hface⟩ => ?_
    exact .pure (.grouped hface)
  | call callee args =>
    refine (Site.prints_accessed (hbelow callee (by simp [Expr.children]))).bind fun target ht => ?_
    refine (Site.yields_args fun arg harg => hbelow arg (by simp [Expr.children, held, harg])).bind
      fun list ⟨face, hlist⟩ => .pure (ht.called hlist)
  | method receiver name args =>
    refine (Site.prints_accessed (hbelow receiver (by simp [Expr.children]))).bind
      fun target ht => ?_
    refine (Site.yields_args fun arg harg => hbelow arg (by simp [Expr.children, held, harg])).bind
      fun list ⟨face, hlist⟩ => .pure ((ht.member hproper).called hlist)
  | index target position =>
    refine (Site.prints_accessed (hbelow target (by simp [Expr.children]))).bind fun text ht => ?_
    refine (hbelow position (by simp [Expr.children])).neat.bind fun inner ⟨face, hinner⟩ => ?_
    exact .pure (ht.indexed hinner)
  | member target name =>
    refine (Site.prints_accessed (hbelow target (by simp [Expr.children]))).bind fun text ht => ?_
    exact .pure (ht.member hproper)
  | cast ty value => exact htells.cast htight he
  | sizeOf value => exact htells.sizeOf htight he
  | new ty args =>
    exact (Render.yields_follow fun t ht => ht).bind fun t ht => htells.newObject ht htight he
  | newArray ty dims init =>
    exact (Render.yields_follow fun t ht => ht).bind fun t ht => htells.newArray ht htight he
  | sequence items => exact htells.sequence htight he

end Dialect.Tells

/-! ## The dialects -/

/-- The items of a collection that an array is made of. -/
theorem Site.Writes.items (hsite : site.Writes) {init : Option NodeId}
    (htight : ∀ list ∈ init, site.view.Tight list) : ∀ list ∈ init, ∀ kind items,
      site.arena.expr list = .ok (.collection kind items) → ∀ item ∈ items, site.Written item :=
  fun list hlist _ _ he item hitem =>
    hsite item ((htight list hlist).held "items" he (List.Subset.refl _) item hitem)

theorem Site.Writes.entries (hsite : site.Writes) {entries : List (NodeId × NodeId)}
    (htight : site.view.Tight id) (he : site.arena.expr id = .ok (.dict entries)) :
    ∀ entry ∈ entries, site.Written entry.1 ∧ site.Written entry.2 :=
  fun entry hentry => (htight.dict he entry hentry).imp (hsite _) (hsite _)

/-- The children that one field holds are written. -/
theorem Site.Writes.held (hsite : site.Writes) {e : Expr} (htight : site.view.Tight id)
    (he : site.arena.expr id = .ok e) (field : String) {ids : List NodeId}
    (hids : Interlingua.held field ids ⊆ e.children) : ∀ child ∈ ids, site.Written child :=
  fun child hchild => hsite child (htight.held field he hids child hchild)

theorem Java.tells (hlang : site.lang = .java) (hsite : site.Writes)
    (htypes : site.arena.TypesPlain) : Java.dialect.Tells site where
  charLiteral := .charLiteral
  stringLiteral _ := .quote _
  binary htight he := prints_binary _ (hsite _ (htight.binary he).1) (hsite _ (htight.binary he).2)
  unary htight he := Site.prints_unary _ (hsite _ (htight.unary he))
  assign {id op target value} htight he := by
    have ht := hsite target (htight.assign he).1
    have hv := hsite value (htight.assign he).2
    have hall := Braced.prints_assign (fun op => prints_binary op ht hv) op ht hv
    have hforms : site.lang.operators.assign = assign := by rw [hlang]; rfl
    rwa [hforms] at hall
  compound htight he := Braced.prints_compound (by rw [hlang]; rfl) (htight.compound_ne_nil he)
    (hsite.held htight he "comparisons" (List.Subset.refl _))
  cast htight he := Braced.prints_cast typeName_text htypes (hsite _ (htight.cast he))
  sizeOf _ _ := .throw _
  newObject ht htight he := Braced.prints_newObject typeName_text (htypes _ _ ht)
    (hsite.held htight he "args" (List.subset_cons_self _ _))
  newArray ht htight he := by
    obtain ⟨hdims, hinit⟩ := htight.newArray he
    exact prints_newArray (htypes _ _ ht) (htight.keepsForm he hlang)
      (fun dim hdim => hsite dim (hdims dim hdim)) (fun list hlist => hsite list (hinit list hlist))
      (hsite.items hinit)
  collection htight he := prints_collection _ htypes _
    (hsite.held htight he "items" (List.Subset.refl _))
  dict {id _} htight he := prints_dict id (hsite.entries htight he)
  interpolated htight he := prints_interpolated (htight.keepsForm he hlang)
    (hsite.held htight he "parts" (List.Subset.refl _))
  sequence _ _ := .throw _

theorem Cpp.stringLiteral_shows {lang : Language} {bound : Nat} {value : String} {kind : StringKind}
    (h : kind = .plain ∨ staysIn '"' false value.toList = true) :
    Shows lang bound (stringLiteral value kind) := by
  cases kind with
  | plain | multiline => exact .quote value
  | raw =>
    have hvalue := h.resolve_left nofun
    have hinner : staysIn '"' false ('(' :: value.toList ++ [')']) = true := by
      have hend : staysIn '"' false [')'] = true := by decide
      simpa [staysIn] using Shows.staysIn_append hvalue hend
    exact .lettered (by decide : isPlain 'R' = true) (by decide) hinner (by simp [stringLiteral])

theorem Cpp.tells (hlang : site.lang = .cpp) (hsite : site.Writes)
    (htypes : site.arena.TypesPlain) : Cpp.dialect.Tells site where
  charLiteral := .charLiteral
  stringLiteral := stringLiteral_shows
  binary htight he :=
    prints_binary hlang _ (hsite _ (htight.binary he).1) (hsite _ (htight.binary he).2)
  unary htight he := Site.prints_unary _ (hsite _ (htight.unary he))
  assign {id op target value} htight he := by
    have ht := hsite target (htight.assign he).1
    have hv := hsite value (htight.assign he).2
    have hall := Braced.prints_assign (fun op => prints_binary hlang op ht hv) op ht hv
    have hforms : site.lang.operators.assign = assign := by rw [hlang]; rfl
    rwa [hforms] at hall
  compound htight he := Braced.prints_compound (by rw [hlang]; rfl) (htight.compound_ne_nil he)
    (hsite.held htight he "comparisons" (List.Subset.refl _))
  cast htight he := Braced.prints_cast (fun ty hty => .ok (typeName_text ty hty)) htypes
    (hsite _ (htight.cast he))
  sizeOf {id value} htight he := by
    have hvalue := hsite value (htight.child he (by simp [Expr.children]))
    refine hvalue.neat.bind fun text ⟨face, htext⟩ => .pure ?_
    exact .typed_call (.path (by decide)) htext
  newObject ht htight he := Braced.prints_newObject (fun ty hty => .ok (typeName_text ty hty))
    (htypes _ _ ht) (hsite.held htight he "args" (List.subset_cons_self _ _))
  newArray ht htight he := by
    obtain ⟨hdims, hinit⟩ := htight.newArray he
    exact prints_newArray (htypes _ _ ht) (htight.keepsForm he hlang)
      (fun dim hdim => hsite dim (hdims dim hdim)) (hsite.items hinit)
  collection htight he := prints_collection _ htypes _
    (hsite.held htight he "items" (List.Subset.refl _))
  dict htight he := prints_dict _ htypes (hsite.entries htight he)
  interpolated htight he := prints_interpolated
    (hsite.held htight he "parts" (List.Subset.refl _))
  sequence htight he := (htight.keepsForm he hlang).elim

theorem Python.tells (hlang : site.lang = .python) (hsite : site.Writes)
    (htypes : site.arena.TypesPlain) {depth : Nat} (hbelow : site.below = site.view.exprTo depth) :
    Python.dialect.Tells site where
  charLiteral _ := .quote _
  stringLiteral := stringLiteral_shows
  binary htight he := prints_binary hlang hsite _ (htight.binary he).1 (htight.binary he).2
  unary htight he :=
    prints_unary hlang _ (htight.keepsForm he hlang) (hsite _ (htight.unary he))
  assign htight he := prints_assign hlang hsite _ (htight.keepsForm he hlang) (htight.assign he).1
    (htight.assign he).2
  compound {id items} htight he := by
    have hbound : site.lang.boundOf (.compound items) = comparisonLevel := by
      rw [hlang]
      rfl
    rw [hbound]
    have hne := htight.compound_ne_nil he
    refine prints_chain hlang hne fun item hitem op left right hitemExpr => ?_
    have htightItem := htight.held "comparisons" he (List.Subset.refl _) item hitem
    obtain ⟨hl, hr⟩ := htightItem.binary hitemExpr
    exact ⟨htight.keepsForm he hlang item hitem op left right hitemExpr, hsite left hl,
      hsite right hr⟩
  cast {id ty value} htight he := by
    have hbound : site.lang.boundOf (.cast ty value) = 0 := by
      rw [hlang]
      rfl
    have hkeeps := htight.keepsForm he hlang
    rw [hbound]
    refine prints_cast ?_ (hsite _ (htight.cast he))
    rw [hlang]
    exact hkeeps
  sizeOf _ _ := .throw _
  newObject ht htight he := prints_newObject (htypes _ _ ht)
    (hsite.held htight he "args" (List.subset_cons_self _ _))
  newArray {id ty t dims init} ht htight he := by
    obtain ⟨hdims, hinit⟩ := htight.newArray he
    have hkeeps := htight.keepsForm he hlang
    refine prints_newArray ?_ ?_ (fun dim hdim => hsite dim (hdims dim hdim))
      (fun list hlist => hsite list (hinit list hlist)) (hsite.items hinit)
    · rintro rfl
      exact hkeeps
    · intro list hlist
      cases hlist
      rw [hlang]
      exact hkeeps
  collection {id _ _} htight he := prints_collection id _
    (hsite.held htight he "items" (List.Subset.refl _))
  dict {id _} htight he := prints_dict id (hsite.entries htight he)
  interpolated htight he := by
    refine prints_interpolated (hsite.held htight he "parts" (List.Subset.refl _))
      fun part hpart scope text after hrun => ?_
    rw [hbelow] at hrun
    exact htight.keepsForm he hlang part hpart depth scope text after hrun
  sequence htight he := (htight.keepsForm he hlang).elim

/-! ## Whole expressions -/

namespace View

variable {view : View} {scope after : Scope} {text : String}

/-- **A tight expression shows no operator weaker than the one that groups it.** -/
theorem written_exprTo (htypes : view.arena.TypesPlain) (depth : Nat) :
    Site.Writes ⟨view, view.exprTo depth⟩ := by
  induction depth with
  | zero => exact fun id _ => .throw _
  | succ depth ih =>
    intro id htight
    have htells : view.lang.dialect.Tells ⟨view, view.exprTo depth⟩ := by
      cases hlang : view.lang with
      | java => exact Java.tells hlang ih htypes
      | python => exact Python.tells hlang ih htypes rfl
      | cpp => exact Cpp.tells hlang ih htypes
    refine (Render.yields_follow fun e he => he).bind fun e he => ?_
    exact Yields.mono (htells.expr ih htight he) fun text htext => ⟨e, he, htext⟩

/-- **An operand is never regrouped: its text, in parentheses or without them, shows neither a comma
nor an operator that binds weaker than its parent.** -/
theorem isClear_operand {depth : Nat} {parent : OperatorForm} {child : NodeId} {side : Side}
    (htypes : view.arena.TypesPlain) (hscope : scope.Plain) (htight : view.Tight child)
    (hrun : Site.operand ⟨view, view.exprTo depth⟩ parent child side scope = .ok text after) :
    view.lang.isClear parent text = true := by
  have hwritten := written_exprTo htypes depth child htight
  obtain ⟨-, htext⟩ := Site.prints_operand hwritten parent side scope text after hscope hrun
  exact htext.isClear (Nat.le_refl _)

/-- `f(a or b, c) * d` under `+`: the comma and the weaker operator are in brackets. -/
theorem isClear_operand_call :
    let arena : Arena := ⟨#[.expr (.ident "f"), .expr (.ident "a"), .expr (.ident "b"),
      .expr (.binary .or ⟨1⟩ ⟨2⟩), .expr (.ident "c"), .expr (.call ⟨0⟩ [⟨3⟩, ⟨4⟩]),
      .expr (.ident "d"), .expr (.binary .mul ⟨5⟩ ⟨6⟩)]⟩
    let view : View := ⟨⟨arena, ⟨7⟩⟩, .python, {}⟩
    let plus : OperatorForm := .between "+" Python.addLevel .left
    Site.operand ⟨view, view.exprTo 5⟩ plus ⟨7⟩ .left {} = .ok "f(a or b, c) * d" {} ∧
      view.lang.isClear plus "f(a or b, c) * d" = true := by
  intro arena view plus
  have hrun : Site.operand ⟨view, view.exprTo 5⟩ plus ⟨7⟩ .left {} =
      .ok "f(a or b, c) * d" {} := rfl
  have hname : ∀ (id : NodeId) (name : String), arena.expr id = .ok (.ident name) →
      Language.python.isName name = true → view.Tight id := fun id name he hname =>
    .of_expr he hname trivial (by simp [Expr.children])
  have hor : view.Tight ⟨3⟩ := by
    refine .of_expr (e := .binary .or ⟨1⟩ ⟨2⟩) rfl rfl trivial ?_
    simp [Expr.children, hname ⟨1⟩ "a" rfl (by decide),
      hname ⟨2⟩ "b" rfl (by decide)]
  have hcall : view.Tight ⟨5⟩ := by
    refine .of_expr (e := .call ⟨0⟩ [⟨3⟩, ⟨4⟩]) rfl rfl trivial ?_
    simp [Expr.children, held, hor, hname ⟨0⟩ "f" rfl (by decide),
      hname ⟨4⟩ "c" rfl (by decide)]
  have hmul : view.Tight ⟨7⟩ := by
    refine .of_expr (e := .binary .mul ⟨5⟩ ⟨6⟩) rfl rfl trivial ?_
    simp [Expr.children, hcall, hname ⟨6⟩ "d" rfl (by decide)]
  exact ⟨hrun, isClear_operand (Arena.typesPlain_of_all (by decide)) .empty hmul hrun⟩

/-- `a + b` cast to a class that Python has no conversion to: the sum is bare under `*`. -/
theorem operand_cast_not_clear :
    let arena : Arena := ⟨#[.expr (.ident "a"), .expr (.ident "b"), .expr (.binary .add ⟨0⟩ ⟨1⟩),
      .type (.user "T"), .expr (.cast ⟨3⟩ ⟨2⟩), .expr (.ident "c"), .expr (.binary .mul ⟨4⟩ ⟨5⟩)]⟩
    let view : View := ⟨⟨arena, ⟨6⟩⟩, .python, {}⟩
    let times : OperatorForm := .between "*" Python.mulLevel .left
    view.lang.operators.binary .mul = some times ∧
      view.lang.wraps arena times ⟨4⟩ .left = .ok false ∧
      Site.operand ⟨view, view.exprTo 5⟩ times ⟨4⟩ .left {} = .ok "a + b" {} ∧
      view.lang.isClear times "a + b" = false ∧
      view.expr ⟨6⟩ {} = .ok "a + b * c" {} := by
  refine ⟨rfl, rfl, rfl, ?_, rfl⟩
  decide

end View

end Interlingua
