import Interlingua.Proofs.Arena.Search
import Interlingua.Proofs.Effect.Braced
import Interlingua.Proofs.Emit.Rows

/-!
# Names that rendering registers

Rendering asks for the types of some expressions, which registers the names that are assigned inside
them.

* `Scope.Grows` — a scope in which more names may be visible; the outer frames stay as they are.
* `Arena.assigned` — the names that are assigned in an expression.
* `Infer.yields_grows` — inference registers these names and no others.
* `View.yields_grows` — rendering in Java and C++ registers only what is assigned in collections and
  dictionaries.
* `Braced.assignment_cases` — what an assignment that is a statement is written as, and what it
  registers.
-/

namespace Interlingua

/-! ## Scopes that grow -/

namespace Scope

variable {scope after last : Scope} {names more : Set String} {name other : String} {ty : Ty}

/-- The same outer frames, and more names visible, which are among some. -/
structure Grows (names : Set String) (scope after : Scope) : Prop where
  around : after.around = scope.around
  keeps : ∀ name, scope.hasVariable name = true → after.hasVariable name = true
  adds : ∀ name, after.hasVariable name = true → scope.hasVariable name = true ∨ name ∈ names

theorem varType?_setVariable : (scope.setVariable name ty).varType? other =
    if other = name then some ty else scope.varType? other := by
  simp only [varType?, frames, setVariable, List.findSome?_cons, Table.find?_insert]
  by_cases hname : other = name
  · simp [hname]
  · simp [hname]

theorem hasVariable_setVariable :
    (scope.setVariable name ty).hasVariable other = (other = name || scope.hasVariable other) := by
  rw [hasVariable, varType?_setVariable, hasVariable]
  by_cases hname : other = name
  · simp [hname]
  · simp [hname]

theorem hasVariable_enter : scope.enter.hasVariable name = scope.hasVariable name := by
  have hempty : ({} : Frame).vars.find? name = none := rfl
  simp [hasVariable, varType?, frames, enter, List.findSome?_cons, hempty]

theorem Grows.refl : Grows names scope scope := ⟨rfl, fun _ h => h, fun _ h => .inl h⟩

theorem Grows.trans (h : Grows names scope after) (h' : Grows names after last) :
    Grows names scope last where
  around := h'.around.trans h.around
  keeps name hname := h'.keeps name (h.keeps name hname)
  adds name hname := (h'.adds name hname).elim (h.adds name) .inr

theorem Grows.mono (h : Grows names scope after) (hsub : names ⊆ more) : Grows more scope after :=
  { h with adds := fun name hname => (h.adds name hname).imp_right (hsub ·) }

theorem grows_setVariable (h : name ∈ names) : Grows names scope (scope.setVariable name ty) where
  around := rfl
  keeps other hother := by simp [hasVariable_setVariable, hother]
  adds other hother := by
    rw [hasVariable_setVariable, Bool.or_eq_true, decide_eq_true_eq] at hother
    exact hother.elim (fun heq => .inr (heq ▸ h)) .inl

theorem grows_register (h : name ∈ names) : Grows names scope (scope.register name ty) := by
  unfold register
  split
  · exact .refl
  · exact grows_setVariable h

theorem hasVariable_register : (scope.register name ty).hasVariable name = true := by
  unfold register
  split
  · rename_i hknown
    have hany : (scope.varType? name).any Ty.isKnown = true := (Bool.and_eq_true .. ▸ hknown).2
    cases hfound : scope.varType? name with
    | none => simp [hfound] at hany
    | some found => simp [hasVariable, hfound]
  · simp [hasVariable_setVariable]

end Scope

/-! ## What inference registers -/

namespace Arena

variable {arena : Arena} {id c : NodeId}

/-- The names that are assigned in an expression. -/
def assigned (arena : Arena) (id : NodeId) : Set String :=
  {name | ∃ n op target value, arena.Above id n ∧ arena.expr n = .ok (.assign op target value) ∧
    arena.expr target = .ok (.ident name)}

/-- The names that are assigned in the collections and dictionaries of an expression. -/
def assignedInside (arena : Arena) (id : NodeId) : Set String :=
  {name | ∃ n e, arena.Above id n ∧ arena.expr n = .ok e ∧ e.isContainer = true ∧
    name ∈ arena.assigned n}

/-- The names that an assignment assigns: its target, and those in the expressions on both sides. -/
def assignedBy (arena : Arena) (target value : NodeId) : Set String :=
  {name | arena.expr target = .ok (.ident name)} ∪ (arena.assigned target ∪ arena.assigned value)

theorem assigned_subset (h : arena.Above id c) : arena.assigned c ⊆ arena.assigned id :=
  fun _ ⟨n, op, target, value, habove, hfound⟩ => ⟨n, op, target, value, h.trans habove, hfound⟩

theorem assignedInside_subset (h : arena.Above id c) :
    arena.assignedInside c ⊆ arena.assignedInside id :=
  fun _ ⟨n, e, habove, hfound⟩ => ⟨n, e, h.trans habove, hfound⟩

theorem assignedInside_subset_assigned : arena.assignedInside id ⊆ arena.assigned id :=
  fun _ ⟨_, _, habove, _, _, hname⟩ => assigned_subset habove hname

theorem assigned_target_subset {target value : NodeId} :
    arena.assigned target ⊆ arena.assignedBy target value :=
  Set.subset_union_left.trans Set.subset_union_right

theorem assigned_value_subset {target value : NodeId} :
    arena.assigned value ⊆ arena.assignedBy target value :=
  Set.subset_union_right.trans Set.subset_union_right

/-- What is assigned in an expression is its target, if it is an assignment, or assigned in a child
of it. -/
theorem assigned_cases {e : Expr} {name : String} (h : arena.expr id = .ok e)
    (hname : name ∈ arena.assigned id) :
    (∃ op target value, e = .assign op target value ∧ arena.expr target = .ok (.ident name)) ∨
      ∃ c ∈ e.children, name ∈ arena.assigned c.id := by
  obtain ⟨n, op, target, value, habove, hfound, htarget⟩ := hname
  rcases habove.cases_head with rfl | ⟨_, ⟨node, hnode, child, hchild, rfl⟩, habove⟩
  · exact .inl ⟨op, target, value, Except.ok.inj (h.symm.trans hfound), htarget⟩
  · cases (node_of_expr h).symm.trans hnode
    exact .inr ⟨child, hchild, n, op, target, value, habove, hfound, htarget⟩

/-- Nothing is assigned in an expression without parts. -/
theorem assigned_leaf {e : Expr} (h : arena.expr id = .ok e) (hleaf : e.children = []) :
    arena.assigned id = ∅ := by
  refine Set.eq_empty_of_forall_notMem fun name hname => ?_
  rcases assigned_cases h hname with ⟨op, target, value, rfl, -⟩ | ⟨c, hc, -⟩
  · cases hleaf
  · rw [hleaf] at hc
    cases hc

theorem assignedInside_eq_empty (h : arena.assigned id = ∅) : arena.assignedInside id = ∅ :=
  Set.subset_empty_iff.1 (assignedInside_subset_assigned.trans h.subset)

theorem above_of_mem_children {e : Expr} (h : arena.expr id = .ok e) {child : Child}
    (hchild : child ∈ e.children) : arena.Above id child.id :=
  .single (owns_of_mem (node_of_expr h) hchild)

end Arena

theorem Infer.yields_grows {arena : Arena} {names : Set String} {scope : Scope} (depth : Nat)
    {id : NodeId} (h : arena.assigned id ⊆ names) :
    Yields (Scope.Grows names scope) (exprTo arena depth id) (Ty.Named fun _ => True) := by
  induction depth generalizing id with
  | zero => exact .throw _
  | succ depth ih =>
    refine (yields_follow fun e he => he).bind fun e he => ?_
    refine yields_exprWith (fun scope _ => ⟨fun _ _ _ _ _ => trivial, fun _ _ _ _ _ => trivial⟩)
      (fun _ _ _ _ _ => trivial) ?_ fun child hchild =>
        ih ((Arena.assigned_subset (Arena.above_of_mem_children he hchild)).trans h)
    intro op target value name heq htarget before ty hbefore _
    exact hbefore.trans (Scope.grows_register (h ⟨id, op, target, value, .refl, heq ▸ he, htarget⟩))

/-! ## What rendering registers -/

namespace View

variable {view : View} {names : Set String} {scope : Scope}

/-- What an expression writes lies below it. -/
theorem above_of_mem_written (hlang : view.lang ≠ .python) {id c : NodeId} {e : Expr}
    (he : view.arena.expr id = .ok e) (hc : c ∈ view.written e) : view.arena.Above id c := by
  have hall : ∀ c ∈ e.children.map Child.id, view.arena.Above id c := fun c hmem => by
    obtain ⟨child, hchild, rfl⟩ := List.mem_map.1 hmem
    exact Arena.above_of_mem_children he hchild
  cases e with
  | binary op left right => exact hall c (by simpa [written_binary hlang, Expr.children] using hc)
  | compound items => exact hall c (by simpa [written, hlang, Expr.children] using hc)
  | interpolated parts =>
    refine hall c ?_
    change c ∈ (if view.lang = .java then parts else parts.filter _) at hc
    rw [Expr.children, map_id_held]
    split at hc
    · exact hc
    · exact (List.mem_filter.1 hc).1
  | cast ty value | new ty args => exact hall c (List.mem_cons_of_mem _ (by simpa [written] using hc))
  | newArray ty dims init =>
    cases init with
    | none => exact hall c (List.mem_cons_of_mem _ (by simpa [written, heldIf] using hc))
    | some init =>
      have hinit : view.arena.Above id init :=
        hall init (by simp [Expr.children, heldIf])
      have hmem : c ∈ init :: dims → view.arena.Above id c := by
        intro hmem
        refine hall c ?_
        simp only [List.mem_cons] at hmem
        simp [Expr.children, heldIf, hmem.symm]
      simp only [written] at hc
      split at hc
      · rename_i kind items hcollection
        have hitem : (⟨c, "items"⟩ : Child) ∈ (Expr.collection kind items).children :=
          List.mem_map.2 ⟨c, hc, rfl⟩
        exact hinit.trans (Arena.above_of_mem_children hcollection hitem)
      · split at hc
        · exact hmem hc
        · exact hmem (by simp_all)
  | _ => exact hall c hc

/-- An array in C++ that is initialized by something else than a collection has its dimensions. -/
theorem yields_uninitialized {site : Site} {inv : Scope → Prop} {t : Ty} {dims : List NodeId}
    {init : NodeId} (h : ∀ kind items, site.arena.expr init ≠ .ok (.collection kind items))
    (hdims : ∀ dim ∈ dims, Yields inv (site.below dim) fun _ => True) :
    Yields inv (Cpp.newArray site t dims (some init)) fun _ => True := by
  have hsizes : Yields inv (Braced.newArrayOf site (Cpp.typeName t) dims) fun _ => True :=
    (Yields.mapM hdims).bind fun _ _ => .pure trivial
  refine (Render.yields_follow fun e he => he).bind fun e he => ?_
  cases e with
  | collection kind items => exact absurd he (h kind items)
  | _ => exact hsizes

/-- **Rendering in Java and C++ registers no names but those that are assigned in collections and
dictionaries.** -/
theorem yields_grows (hlang : view.lang ≠ .python) (depth : Nat) {id : NodeId}
    (h : view.arena.assignedInside id ⊆ names) :
    Yields (Scope.Grows names scope) (view.exprTo depth id) fun _ => True := by
  induction depth generalizing id with
  | zero => exact .throw _
  | succ depth ih =>
    refine (Render.yields_follow fun e he => he).bind fun e he => ?_
    have hbelow : ∀ c, view.arena.Above id c →
        Yields (Scope.Grows names scope) (view.exprTo depth c) fun _ => True :=
      fun c habove => ih ((Arena.assignedInside_subset habove).trans h)
    have hwritten : ∀ c ∈ view.written e, Site.Renders ⟨view, view.exprTo depth⟩
        (Scope.Grows names scope) (fun _ _ _ => True) c := fun c hc =>
      (hbelow c (above_of_mem_written hlang he hc)).mono fun _ _ => ⟨[], trivial⟩
    have htypes : ∀ id ty, view.arena.ty id = .ok ty → ty.Named fun _ => True :=
      fun _ _ _ _ _ => trivial
    have hinferred : e.isContainer = true →
        Yields (Scope.Grows names scope) (view.inferred id) (Ty.Named fun _ => True) :=
      fun hcontainer => Render.yields_infer (Infer.yields_grows _ fun name hname =>
        h ⟨id, e, .refl, he, hcontainer, hname⟩)
    obtain ⟨lang, hsite⟩ : ∃ lang, Site.lang ⟨view, view.exprTo depth⟩ = lang := ⟨_, rfl⟩
    rw [show view.lang = lang from hsite] at hlang ⊢
    cases lang with
    | java => exact (Java.draws_expr hsite htypes hinferred hwritten).mono fun _ _ => trivial
    | python => exact absurd rfl hlang
    | cpp =>
      by_cases hinit : ∀ ty dims init, e = .newArray ty dims (some init) →
          ∃ kind items, view.arena.expr init = .ok (.collection kind items)
      · exact (Cpp.draws_expr hsite htypes hinferred hinit hwritten).mono fun _ _ => trivial
      · simp only [not_forall, not_exists] at hinit
        obtain ⟨ty, dims, init, rfl, hinit⟩ := hinit
        refine (Render.yields_follow fun _ _ => trivial).bind fun t _ => ?_
        refine yields_uninitialized hinit fun dim hdim => hbelow dim ?_
        exact Arena.above_of_mem_children he
          (List.mem_cons_of_mem _ (List.mem_append_left _ (List.mem_map.2 ⟨dim, hdim, rfl⟩)))

theorem yields_renders (hlang : view.lang ≠ .python) {id : NodeId}
    (h : view.arena.assignedInside id ⊆ names) :
    Yields (Scope.Grows names scope) (view.expr id) (view.Renders id) := by
  intro before text after hbefore hrun
  exact ⟨(yields_grows hlang _ h before text after hbefore hrun).1, before, after, hrun⟩

/-! ## Assignments that are statements -/

theorem declaredName?_ident {target : NodeId} {name : String}
    (h : view.arena.expr target = .ok (.ident name)) :
    view.declaredName? .plain target scope =
      .ok (if view.isOn .autoDeclaration && !scope.hasVariable name then some name else none)
        scope := by
  unfold declaredName?
  rw [h]
  rfl

theorem declaredName?_other {op : AssignOp} {target : NodeId} {e : Expr}
    (h : view.arena.expr target = .ok e) (hother : op = .plain → ∀ name, e ≠ .ident name) :
    view.declaredName? op target scope = .ok none scope := by
  unfold declaredName?
  rw [h]
  cases op with
  | plain =>
    cases e with
    | ident name => exact absurd rfl (hother rfl name)
    | _ => rfl
  | _ => rfl

/-- An assignment declares its target if declarations are automatic, and it is a plain one of a name
that is not visible. -/
theorem declaredName?_cases {op : AssignOp} {target : NodeId} {found : Option String} {after : Scope}
    (h : view.declaredName? op target scope = .ok found after) :
    after = scope ∧
      ((∃ name, found = some name ∧ op = .plain ∧ view.arena.expr target = .ok (.ident name) ∧
          view.isOn .autoDeclaration = true ∧ scope.hasVariable name = false) ∨
        (found = none ∧ ∀ name, op = .plain → view.arena.expr target = .ok (.ident name) →
          view.isOn .autoDeclaration = true → scope.hasVariable name = true)) := by
  obtain ⟨e, he⟩ : ∃ e, view.arena.expr target = .ok e := by
    cases he : view.arena.expr target with
    | error fault =>
      unfold declaredName? at h
      rw [he] at h
      cases h
    | ok e => exact ⟨e, rfl⟩
  by_cases hident : op = .plain ∧ ∃ name, e = .ident name
  · obtain ⟨rfl, name, rfl⟩ := hident
    rw [declaredName?_ident he] at h
    cases h
    refine ⟨rfl, ?_⟩
    split
    · rename_i hnew
      rw [Bool.and_eq_true, Bool.not_eq_true'] at hnew
      exact .inl ⟨name, rfl, rfl, he, hnew⟩
    · rename_i hold
      refine .inr ⟨rfl, fun other _ hother hauto => ?_⟩
      cases he.symm.trans hother
      simpa [hauto] using hold
  · have hother : op = .plain → ∀ name, e ≠ .ident name :=
      fun hop name heq => hident ⟨hop, name, heq⟩
    rw [declaredName?_other he hother] at h
    cases h
    refine ⟨rfl, .inr ⟨rfl, fun name hop hname _ => ?_⟩⟩
    cases he.symm.trans hname
    exact absurd rfl (hother hop name)

/-- What an assignment that is a statement is written as, and what it registers. -/
inductive Assigned (view : View) (op : AssignOp) (target value : NodeId) (scope : Scope)
    (text : String) (after : Scope) : Prop
  | typed {name typeText valueText : String} (hop : op = .plain)
      (htarget : view.arena.expr target = .ok (.ident name))
      (hauto : view.isOn .autoDeclaration = true) (hnew : scope.hasVariable name = false)
      (hvalue : view.Renders value valueText)
      (htext : text = typeText ++ " " ++ name ++ " = " ++ valueText)
      (hvisible : after.hasVariable name = true)
      (hgrows : scope.Grows (view.arena.assignedBy target value) after)
  | bare
      (hold : ∀ name, op = .plain → view.arena.expr target = .ok (.ident name) →
        view.isOn .autoDeclaration = true → scope.hasVariable name = true)
      (htext : ∀ name, op = .plain → view.arena.expr target = .ok (.ident name) →
        ∃ valueText, view.Renders value valueText ∧
          (text = name ++ " = " ++ valueText ∨ text = name ++ " = " ++ parenthesized valueText))
      (hgrows : scope.Grows (view.arena.assignedBy target value) after)

/-- A name is rendered as itself. -/
theorem text_of_renders {id : NodeId} {name text : String}
    (he : view.arena.expr id = .ok (.ident name)) (h : view.Renders id text) : text = name := by
  obtain ⟨before, after, hrun⟩ := h
  unfold expr at hrun
  cases hdepth : view.arena.depthBound with
  | zero =>
    rw [hdepth] at hrun
    cases hrun
  | succ depth =>
    rw [hdepth, exprTo_succ he] at hrun
    cases hrun
    rfl

section Statements

variable {op : AssignOp} {target value : NodeId}

/-- Both sides of an assignment are rendered. -/
theorem yields_assignWith (hlang : view.lang ≠ .python)
    (ht : view.arena.assignedInside target ⊆ names) (hv : view.arena.assignedInside value ⊆ names) :
    Yields (Scope.Grows names scope)
      (Braced.assignWith view.lang.operators.assignStatement view.site
        (view.lang.dialect.binary view.site) op target value) fun _ => True := by
  have hbelow : ∀ id, view.arena.assignedInside id ⊆ names →
      view.site.Renders (Scope.Grows names scope) (fun _ _ _ => True) id := fun id hid =>
    (yields_renders hlang hid).mono fun _ _ => ⟨[], trivial⟩
  have hwritten : ∀ c ∈ view.site.view.written (.assign op target value),
      view.site.Renders (Scope.Grows names scope) (fun _ _ _ => True) c := by
    intro c hc
    obtain rfl | rfl : c = target ∨ c = value := by
      simpa [written, Expr.children] using hc
    · exact hbelow _ ht
    · exact hbelow _ hv
  obtain ⟨lang, hsite⟩ : ∃ lang, view.site.lang = lang := ⟨_, rfl⟩
  rw [show view.lang = lang from hsite] at hlang ⊢
  have hspells : ∀ forms binary, view.site.lang.operators.assign = forms →
      (∀ applied, Yields (Scope.Grows names scope) (binary applied target value)
        (Spelled (view.site.view.IsOwn (fun _ => True) (.assign op target value)) (fun _ _ _ => True)
          [target, value])) →
      Yields (Scope.Grows names scope) (Braced.assignWith forms view.site binary op target value)
        fun _ => True := fun forms binary hforms hbinary =>
    (Braced.spells_assign (hsite ▸ hlang) hforms hbinary hwritten).mono fun _ _ => trivial
  refine hspells _ _ ?_ fun applied => ?_
  · rw [hsite]
    cases lang <;> first | rfl | exact absurd rfl hlang
  · cases lang with
    | java =>
      exact Java.draws_binary (fun _ h => .reserved (by rwa [← hsite] at h)) hsite applied
        (hbelow _ ht) (hbelow _ hv)
    | cpp =>
      exact Cpp.draws_binary (fun _ h => .reserved (by rwa [← hsite] at h)) hsite applied
        (hbelow _ ht) (hbelow _ hv)
    | python => exact absurd rfl hlang

/-- A plain assignment to a name starts with the name. -/
theorem yields_assignWith_ident (hlang : view.lang ≠ .python) {name : String}
    (htarget : view.arena.expr target = .ok (.ident name)) :
    Yields (fun _ => True)
      (Braced.assignWith view.lang.operators.assignStatement view.site
        (view.lang.dialect.binary view.site) .plain target value) fun text =>
      ∃ valueText, view.Renders value valueText ∧
        (text = name ++ " = " ++ valueText ∨ text = name ++ " = " ++ parenthesized valueText) := by
  have hbelow : ∀ id, view.site.Renders (fun _ => True) (fun id text _ => view.Renders id text) id :=
    fun id before text after _ hrun => ⟨trivial, [], before, after, hrun⟩
  have hform : ∃ form, view.lang.operators.assignStatement .plain = some form ∧
      form.value = "=" := by
    cases hview : view.lang with
    | java | cpp => exact ⟨_, rfl, rfl⟩
    | python => exact absurd hview hlang
  obtain ⟨form, hform, hvalue⟩ := hform
  unfold Braced.assignWith
  rw [hform]
  refine (Site.yields_operand (hbelow target) form .left).bind fun left hleft => ?_
  refine (Site.yields_operand (hbelow value) form .right).bind fun right hright => .pure ?_
  obtain ⟨inner, -, hinner, ⟨rfl, -⟩ | ⟨-, hwraps⟩⟩ := hleft
  · cases text_of_renders htarget hinner
    rw [hvalue]
    obtain ⟨valueText, -, hrenders, ⟨rfl, -⟩ | ⟨rfl, -⟩⟩ := hright
    · exact ⟨_, hrenders, .inl (by simp [String.append_assoc])⟩
    · exact ⟨_, hrenders, .inr (by simp [String.append_assoc])⟩
  · cases (Language.wraps_ident htarget form .left).symm.trans hwraps

/-- **What an assignment that is a statement is written as, and what it registers.** -/
theorem assigned_of_run (hlang : view.lang ≠ .python) {style : Braced.Style} {text : String}
    {after : Scope} (hrun : Braced.assignment style view op target value scope = .ok text after) :
    view.Assigned op target value scope text after := by
  obtain ⟨found, between, hfound, hrest⟩ := exists_of_bind hrun
  obtain ⟨rfl, ⟨name, rfl, rfl, htarget, hauto, hnew⟩ | ⟨rfl, hold⟩⟩ := declaredName?_cases hfound
  · obtain ⟨valueText, s₁, hvalue, hrest⟩ := exists_of_bind hrest
    obtain ⟨ty, s₂, hinfer, hrest⟩ := exists_of_bind hrest
    obtain ⟨typeText, s₃, htype, hrest⟩ := exists_of_bind hrest
    have hgrows₁ := (yields_grows hlang _ Arena.assignedInside_subset_assigned between valueText s₁
      .refl hvalue).1
    have hgrows₂ := (Render.yields_infer (Infer.yields_grows _ (subset_refl _)) s₁ ty s₂ hgrows₁
      hinfer).1
    have hgrows₃ := (Render.yields_allowed (fun _ _ => trivial) s₂ typeText s₃ hgrows₂ htype).1
    cases hrest
    refine .typed rfl htarget hauto hnew ⟨_, _, hvalue⟩ rfl ?_ ?_
    · simp [Scope.hasVariable_setVariable]
    · exact (hgrows₃.mono Arena.assigned_value_subset).trans
        (Scope.grows_setVariable (.inl htarget))
  · obtain ⟨text, s₁, hwritten, hrest⟩ := exists_of_bind hrest
    obtain ⟨ty, s₂, hinfer, hrest⟩ := exists_of_bind hrest
    cases hrest
    refine .bare hold (fun name hop htarget => ?_) ?_
    · subst hop
      exact (yields_assignWith_ident hlang htarget between text s₁ trivial hwritten).2
    · have hgrows₁ := (yields_assignWith hlang
        (Arena.assignedInside_subset_assigned.trans Arena.assigned_target_subset)
        (Arena.assignedInside_subset_assigned.trans Arena.assigned_value_subset)
        between text s₁ .refl hwritten).1
      have hregisters : ∀ name, view.arena.expr target = .ok (.ident name) →
          Infer.Registers (Scope.Grows (view.arena.assignedBy target value) between)
            (fun _ => True) name := fun name htarget scope ty hscope _ =>
        hscope.trans (Scope.grows_register (.inl htarget))
      exact (Render.yields_infer (Infer.yields_assignmentWith hregisters
        (Infer.yields_grows _ Arena.assigned_target_subset)
        (Infer.yields_grows _ Arena.assigned_value_subset) op) s₁ ty after hgrows₁ hinfer).1

end Statements

end View

end Interlingua
