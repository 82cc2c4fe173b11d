import Interlingua.Proofs.Scope.Registered

/-!
# Inference is local

The type of an expression depends on the names that occur in it, and on nothing else of a scope.
Two scopes may differ in their frames, and in how deep they are: if they show the same of these
names, inference finds the same type in both, and afterwards they still show the same.

* `Arena.varNames`, `Arena.calledNames` — the names of variables and of called functions that occur
  in an expression.
* `Scope.Agree` — two scopes show the same of some names.
* `Infer.Respected` — scopes that are related give one layer of an expression the same to look up;
  `Infer.concur_exprTo` says that inference then concurs, whatever depth is left on either side.
* `Infer.local_to_names` — the principal result.
-/

namespace Interlingua

/-! ## Names in an expression -/

namespace Arena

variable {arena : Arena} {id parent child : NodeId} {name : String}

/-- The second expression is a part of the first one, and not the name that a call calls. -/
def Uses (arena : Arena) (parent child : NodeId) : Prop :=
  ∃ e, arena.expr parent = .ok e ∧ ∃ c ∈ e.children, c.id = child ∧
    ¬ (c.field = "callee" ∧ ∃ name, arena.expr child = .ok (.ident name))

/-- The names of the variables that occur in an expression. -/
def varNames (arena : Arena) (id : NodeId) : Set String :=
  {name | ∃ n, Relation.ReflTransGen arena.Uses id n ∧ arena.expr n = .ok (.ident name)}

/-- The names of the functions that are called in an expression. -/
def calledNames (arena : Arena) (id : NodeId) : Set String :=
  {name | ∃ n callee args, arena.Above id n ∧ arena.expr n = .ok (.call callee args) ∧
    arena.expr callee = .ok (.ident name)}

theorem Visits.uses (h : arena.Visits parent child) : arena.Uses parent child := by
  obtain ⟨e, he, hvisits⟩ := h
  obtain ⟨c, hc, hid, hfield⟩ := exists_child_of_mem_visits hvisits
  exact ⟨e, he, c, hc, hid, fun hcallee => hfield hcallee.1⟩

theorem uses_of_visits (h : Relation.ReflTransGen arena.Visits id child) :
    Relation.ReflTransGen arena.Uses id child :=
  h.lift (fun n => n) fun _ _ => Visits.uses

/-- What inference registers are variables of the expression. -/
theorem registered_subset_varNames : arena.registered id ⊆ arena.varNames id := by
  rintro name ⟨n, e, hreaches, hfound, op, target, value, rfl, htarget⟩
  have htargets : arena.Uses n target :=
    ⟨_, hfound, ⟨target, "target"⟩, by simp [Expr.children], rfl, by simp⟩
  exact ⟨target, (uses_of_visits hreaches).tail htargets, htarget⟩

end Arena

/-! ## Scopes that show the same -/

namespace Scope

variable {vars methods : Set String} {s t : Scope} {name other : String} {ty : Ty}

/-- Two scopes show the same types of some variables and the same return types of some functions. -/
structure Agree (vars methods : Set String) (s t : Scope) : Prop where
  varType : ∀ name ∈ vars, s.varType? name = t.varType? name
  returnType : ∀ name ∈ methods, s.returnType name = t.returnType name

theorem Agree.setVariable (h : s.Agree vars methods t) :
    (s.setVariable name ty).Agree vars methods (t.setVariable name ty) where
  varType other hother := by
    rw [varType?_setVariable, varType?_setVariable, h.varType other hother]
  returnType := h.returnType

/-- Whether a type is registered depends on what is shown of its name. -/
theorem Agree.register (h : s.Agree vars methods t) (hname : name ∈ vars) :
    (s.register name ty).Agree vars methods (t.register name ty) := by
  unfold Scope.register
  rw [h.varType name hname]
  split
  · exact h
  · exact h.setVariable

theorem varType?_register_of_ne (h : other ≠ name) :
    (s.register name ty).varType? other = s.varType? other := by
  unfold Scope.register
  split
  · rfl
  · rw [varType?_setVariable, if_neg h]

theorem returnType_of_besidesVars (h : s.besidesVars = t.besidesVars) :
    s.returnType name = t.returnType name := by
  have hmethods : s.inner.methods = t.inner.methods := congrArg Prod.fst h
  have houter : s.outer = t.outer := congrArg (·.2.1) h
  simp only [returnType, returnType?, frames, List.findSome?_cons, hmethods, houter]

end Scope

/-! ## Two runs of inference -/

namespace Infer

variable {α : Type} {arena : Arena} {related : Scope → Scope → Prop}
  {infer infer' : NodeId → Infer Ty} {id : NodeId} {e : Expr}

/-- From related scopes, two computations find the same or meet the same fault, and end in related
scopes. -/
abbrev Concur (related : Scope → Scope → Prop) (x y : Infer α) : Prop :=
  Keeps Eq (fun _ : Unit => related) Eq x y

/-- Where one of two computations that concur finds something, the other finds it too. -/
theorem exists_ok_of_concur {x y : Infer α} {s t s' : Scope} {a : α} (h : Concur related x y)
    (hst : related s t) (hrun : x s = .ok a s') : ∃ t', y t = .ok a t' ∧ related s' t' := by
  have hends := h () hst
  rw [hrun] at hends
  generalize y t = ends at hends ⊢
  cases hends with
  | @ok _ _ _ t' hfound hafter => exact ⟨t', hfound ▸ rfl, hafter⟩

theorem exists_error_of_concur {x y : Infer α} {s t s' : Scope} {fault : Fault}
    (h : Concur related x y) (hst : related s t) (hrun : x s = .error fault s') :
    ∃ t', y t = .error fault t' := by
  have hends := h () hst
  rw [hrun] at hends
  generalize y t = ends at hends ⊢
  cases hends with
  | @error _ _ _ t' hfault => exact ⟨t', hfault ▸ rfl⟩

/-- Related scopes give one layer of an expression the same to look up, and they are related after
what it registers. -/
structure Respected (arena : Arena) (related : Scope → Scope → Prop) (e : Expr) : Prop where
  varType : ∀ name, e = .ident name →
    ∀ s t, related s t → s.varType? name = t.varType? name
  returnType : ∀ callee args name, e = .call callee args → arena.expr callee = .ok (.ident name) →
    ∀ s t, related s t → s.returnType name = t.returnType name
  register : ∀ name, arena.AssignsName e name →
    ∀ s t ty, related s t → related (s.register name ty) (t.register name ty)

theorem concur_follow {β : Type} {found : Except Fault α} {next next' : α → Infer β}
    (h : ∀ a, found = .ok a → Concur related (next a) (next' a)) :
    Concur related ((liftM found : Infer α) >>= next) ((liftM found : Infer α) >>= next') := by
  cases found with
  | ok a => exact h a rfl
  | error fault => exact fun _ _ _ _ => .error rfl

/-- A lookup that does not read the scope. -/
theorem concur_lookup (found : Except Fault α) : Concur related (liftM found) (liftM found) := by
  cases found with
  | ok a => exact .pure rfl
  | error fault => exact fun _ _ _ _ => .error rfl

/-- What is looked up in related scopes. -/
theorem concur_get {f : Scope → Ty} (h : ∀ s t, related s t → f s = f t) :
    Concur related (do return f (← get)) (do return f (← get)) :=
  fun _ s t hst => .ok (h s t hst) hst

theorem concur_assignmentWith {op : AssignOp} {target value : NodeId}
    (h : Respected arena related (.assign op target value))
    (hinfer : ∀ c ∈ (Expr.assign op target value).visits, Concur related (infer c) (infer' c)) :
    Concur related (assignmentWith arena infer op target value)
      (assignmentWith arena infer' op target value) := by
  unfold assignmentWith
  refine (hinfer value (by simp [Expr.visits])).bindEq fun valueType => ?_
  extract_lets register
  have hregister : ∀ ty, Concur related (register ty) (register ty) := by
    intro ty
    refine concur_follow fun e he => ?_
    cases e with
    | ident name =>
      have hwrites : Concur related (modify (·.register name ty)) (modify (·.register name ty)) :=
        fun _ => .of_ok fun s t hst => h.register name ⟨op, target, value, rfl, he⟩ s t ty hst
      exact hwrites.bindEq fun _ => .pure rfl
    | _ => exact .pure rfl
  cases hop : op.binary? with
  | none => exact hregister valueType
  | some binary =>
    exact (hinfer target (by simp [Expr.visits, hop])).bindEq fun targetType => hregister _

/-- **One layer of inference concurs** if it does on all that it visits. -/
theorem concur_exprWith (h : Respected arena related e)
    (hinfer : ∀ c ∈ e.visits, Concur related (infer c) (infer' c)) :
    Concur related (exprWith arena infer e) (exprWith arena infer' e) := by
  have hall {γ : Type} (pick : γ → NodeId) (items : List γ)
      (hitems : ∀ item ∈ items, pick item ∈ e.visits) :
      Concur related (items.mapM fun item => infer (pick item))
        (items.mapM fun item => infer' (pick item)) := by
    have hsame : List.Forall₂ (fun item item' => item ∈ items ∧ item' = item) items items :=
      List.forall₂_same.2 fun item hitem => ⟨hitem, rfl⟩
    refine Keeps.mapMEq hsame ?_
    rintro item _ ⟨hitem, rfl⟩
    exact hinfer _ (hitems _ hitem)
  have hids (ids : List NodeId) (hids : ids ⊆ e.visits) :
      Concur related (ids.mapM infer) (ids.mapM infer') :=
    hall id ids fun c hc => hids hc
  cases e with
  | assign op target value => exact concur_assignmentWith h hinfer
  | collection kind items =>
    cases kind with
    | tuple =>
      have hitems := hids items (List.subset_append_left items items)
      exact hitems.bindEq fun _ => hitems.bindEq fun _ => .pure rfl
    | list | array | set => exact (hids items (List.Subset.refl _)).bindEq fun _ => .pure rfl
  | dict entries =>
    have hkeys := hall Prod.fst entries fun entry hentry =>
      List.mem_append_left _ (List.mem_map_of_mem hentry)
    have hvalues := hall Prod.snd entries fun entry hentry =>
      List.mem_append_right _ (List.mem_map_of_mem hentry)
    exact hkeys.bindEq fun _ => hvalues.bindEq fun _ => .pure rfl
  | ident name =>
    exact concur_get fun s t hst => congrArg (·.getD .unknown) (h.varType name rfl s t hst)
  | binary op left right =>
    exact (hinfer left (by simp [Expr.visits])).bindEq fun _ =>
      (hinfer right (by simp [Expr.visits])).bindEq fun _ => .pure rfl
  | unary op operand => exact (hinfer operand (by simp [Expr.visits])).bindEq fun _ => .pure rfl
  | ternary cond whenTrue whenFalse =>
    exact (hinfer cond (by simp [Expr.visits])).bindEq fun _ =>
      (hinfer whenTrue (by simp [Expr.visits])).bindEq fun _ =>
        (hinfer whenFalse (by simp [Expr.visits])).bindEq fun _ => .pure rfl
  | compound comparisons => exact (hids comparisons (List.Subset.refl _)).bindEq fun _ => .pure rfl
  | paren inner => exact hinfer inner (by simp [Expr.visits])
  | call callee args =>
    refine (hids args (List.Subset.refl _)).bindEq fun _ => concur_follow fun found hfound => ?_
    cases found with
    | ident name => exact concur_get fun s t hst => h.returnType callee args name rfl hfound s t hst
    | _ => exact .pure rfl
  | method receiver name args =>
    exact (hinfer receiver (by simp [Expr.visits])).bindEq fun _ =>
      (hids args (List.subset_cons_self _ _)).bindEq fun _ => .pure rfl
  | index target position =>
    exact (hinfer position (by simp [Expr.visits])).bindEq fun _ =>
      (hinfer target (by simp [Expr.visits])).bindEq fun _ => .pure rfl
  | member target name => exact (hinfer target (by simp [Expr.visits])).bindEq fun _ => .pure rfl
  | cast ty value => exact concur_lookup (arena.ty ty)
  | new ty args => exact concur_lookup (arena.ty ty)
  | newArray ty dims init => exact concur_follow fun ty _ => .pure rfl
  | sequence items => exact (hids items (List.Subset.refl _)).bindEq fun _ => .pure rfl
  | _ => exact .pure rfl

/-- **Inference concurs**, whatever depth is left on either side, as long as both reach the end of
the expression. -/
theorem concur_exprTo {depth depth' : Nat}
    (h : ∀ n e, Relation.ReflTransGen arena.Visits id n → arena.expr n = .ok e →
      Respected arena related e)
    (hdepth : arena.GroundedTo depth id) (hdepth' : arena.GroundedTo depth' id) :
    Concur related (exprTo arena depth id) (exprTo arena depth' id) := by
  induction depth generalizing depth' id with
  | zero => exact hdepth.elim
  | succ depth ih =>
    obtain ⟨less, rfl⟩ := hdepth'.pos
    refine concur_follow fun e he => ?_
    refine concur_exprWith (h id e .refl he) fun c hc => ?_
    have hvisits : arena.Visits id c := ⟨e, he, hc⟩
    obtain ⟨child, hchild, rfl, -⟩ := Arena.exists_child_of_mem_visits hc
    exact ih (fun n e hn => h n e (.head hvisits hn)) (hdepth.belowExpr he child hchild)
      (hdepth'.belowExpr he child hchild)

/-- Scopes that show the same of the names in an expression give it the same to look up. -/
theorem respected_agree {vars methods : Set String} {n : NodeId} (hvars : arena.varNames id ⊆ vars)
    (hmethods : arena.calledNames id ⊆ methods) (hn : Relation.ReflTransGen arena.Visits id n)
    (he : arena.expr n = .ok e) : Respected arena (Scope.Agree vars methods) e where
  varType name heq s t hst := hst.varType name (hvars ⟨n, Arena.uses_of_visits hn, heq ▸ he⟩)
  returnType callee args name heq hname s t hst := by
    have hcalls : arena.expr n = .ok (.call callee args) := heq ▸ he
    exact hst.returnType name (hmethods ⟨n, callee, args, Arena.above_of_visits hn, hcalls, hname⟩)
  register name hassigns s t ty hst :=
    hst.register (hvars (Arena.registered_subset_varNames ⟨n, e, hn, he, hassigns⟩))

/-- What a scope shows of names that do not occur in an expression is the same after inference. -/
structure KeepsOthers (arena : Arena) (id : NodeId) (before after : Scope) : Prop where
  varType : ∀ name ∉ arena.varNames id, after.varType? name = before.varType? name
  returnType : ∀ name ∉ arena.calledNames id, after.returnType name = before.returnType name

theorem keepsOthers_expr {before after : Scope} {ty : Ty} (h : arena.ClosedExpr id)
    (hrun : expr arena id before = .ok ty after) : KeepsOthers arena id before after where
  varType name hname := by
    refine keeps_exprTo (fun scope => scope.varType? name = before.varType? name)
      (fun other hother scope ty hscope => ?_) hrun rfl
    have hne : name ≠ other := fun heq => hname (heq ▸ Arena.registered_subset_varNames hother)
    exact (Scope.varType?_register_of_ne hne).trans hscope
  returnType _ _ :=
    Scope.returnType_of_besidesVars ((spares_exprTo (placed_of_closedExpr h)).of_ok hrun)

/-- **Inference is local to the names that occur.**  From two scopes that show the same of them,
whatever their frames, inference of an expression finds the same type, or it meets the same fault
because a reference is misplaced; afterwards the scopes still show the same of these names, and of
all others each shows what it did before. -/
theorem local_to_names {before before' : Scope} (h : arena.ClosedExpr id)
    (hagree : before.Agree (arena.varNames id) (arena.calledNames id) before') :
    (∃ ty after after',
      expr arena id before = .ok ty after ∧ expr arena id before' = .ok ty after' ∧
      after.Agree (arena.varNames id) (arena.calledNames id) after' ∧
      KeepsOthers arena id before after ∧ KeepsOthers arena id before' after') ∨
    ∃ fault after after', expr arena id before = .error fault after ∧
      expr arena id before' = .error fault after' ∧ arena.Misplaced fault := by
  have hplaced := placed_of_closedExpr h
  have hconcur : Concur (Scope.Agree (arena.varNames id) (arena.calledNames id)) (expr arena id)
      (expr arena id) :=
    concur_exprTo (fun n e => respected_agree (Set.Subset.refl _) (Set.Subset.refl _))
      hplaced.grounded hplaced.grounded
  rcases spares_exprTo hplaced before with ⟨ty, after, hrun, -⟩ | ⟨fault, after, hrun, hmisplaced⟩
  · obtain ⟨after', hrun', hafter⟩ := exists_ok_of_concur hconcur hagree hrun
    exact .inl ⟨ty, after, after', hrun, hrun', hafter, keepsOthers_expr h hrun,
      keepsOthers_expr h hrun'⟩
  · obtain ⟨after', hrun'⟩ := exists_error_of_concur hconcur hagree hrun
    exact .inr ⟨fault, after, after', hrun, hrun', hmisplaced⟩

/-- A call and an assignment, in a loop inside a function and at the root: what is declared around
the loop is of no matter, nor is another variable. -/
theorem local_to_names_inside :
    let exprs : List Expr := [.ident "x", .ident "y", .assign .plain ⟨1⟩ ⟨0⟩, .ident "f",
      .call ⟨3⟩ [⟨0⟩], .collection .tuple [⟨2⟩, ⟨4⟩]]
    let arena : Arena := ⟨(exprs.map Node.expr).toArray⟩
    let known : Scope := Scope.setMethod (Scope.setVariable {} "x" .int) "f" .bool
    let inside : Scope := (known.setVariable "z" .str).enter.enter
    let ty : Ty := .tuple [.int, .bool]
    arena.ClosedExpr ⟨5⟩ ∧ known.Agree (arena.varNames ⟨5⟩) (arena.calledNames ⟨5⟩) inside ∧
      ∃ after after', expr arena ⟨5⟩ known = .ok ty after ∧ expr arena ⟨5⟩ inside = .ok ty after' ∧
        after.Agree (arena.varNames ⟨5⟩) (arena.calledNames ⟨5⟩) after' := by
  intro exprs arena known inside ty
  have hclosed : arena.ClosedExpr ⟨5⟩ :=
    ⟨(show arena.GroundedTo 6 ⟨5⟩ by decide).grounded, rfl⟩
  have hnames : ∀ {n : NodeId} {name : String}, arena.expr n = .ok (.ident name) →
      name = "x" ∨ name = "y" ∨ name = "f" := by
    intro n name hfound
    obtain ⟨e, he, heq⟩ : ∃ e ∈ exprs, Node.expr e = .expr (.ident name) :=
      List.mem_map.1 (Arena.mem_of_node (Arena.node_of_expr hfound))
    cases heq
    simpa [exprs] using he
  have hagree : known.Agree (arena.varNames ⟨5⟩) (arena.calledNames ⟨5⟩) inside := by
    constructor
    · rintro name ⟨n, -, hfound⟩
      rcases hnames hfound with rfl | rfl | rfl <;> rfl
    · rintro name ⟨n, callee, args, -, -, hfound⟩
      rcases hnames hfound with rfl | rfl | rfl <;> rfl
  refine ⟨hclosed, hagree, ?_⟩
  rcases local_to_names hclosed hagree with ⟨found, after, after', hrun, hrun', hsame, -⟩ |
    ⟨fault, after, after', hrun, -⟩
  · cases hrun
    exact ⟨_, after', rfl, hrun', hsame⟩
  · cases hrun

end Infer

end Interlingua
