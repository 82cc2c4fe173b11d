import Interlingua.Proofs.Scope.Known

/-!
# Which assignments are registered

Inference runs over the parts of an expression, and it registers the names that are assigned in
them.  It does not run over all parts: the parts of a text, what is cast, what is given to a
constructor, the dimensions and the items of an array that is made, and the operand of a size are
passed over, and so is the target of a plain assignment.

* `Expr.visits` — what inference of one layer runs over, in order; `Infer.of_exprTo` says that it
  does nothing else to a scope, unless it registers the target of an assignment.
* `Arena.registered` — the names that are assigned where inference comes.
* `Arena.Overlooks` — something is assigned in a part that is passed over.
* `Infer.registers_assigned` — inference makes these names visible and no others, and if nothing is
  overlooked they are all the names that are assigned.
* `Infer.registers_not_in_arguments` — what is assigned in the arguments of a constructor is
  overlooked.
-/

namespace Interlingua

/-! ## What inference runs over -/

/-- What inference of one layer runs over, in order.  The items of a tuple come twice, once for the
type that they have in common and once for each of their types. -/
def Expr.visits : Expr → List NodeId
  | .int _ | .float _ | .bool _ | .char _ | .str .. | .interpolated _ | .null | .ident _ | .scoped _
  | .selfRef | .superRef | .cast .. | .sizeOf _ | .new .. | .newArray .. => []
  | .collection .tuple items => items ++ items
  | .collection _ items | .compound items | .sequence items => items
  | .dict entries => entries.map Prod.fst ++ entries.map Prod.snd
  | .binary _ left right => [left, right]
  | .unary _ operand => [operand]
  | .assign op target value => value :: if op.binary?.isSome then [target] else []
  | .ternary cond whenTrue whenFalse => [cond, whenTrue, whenFalse]
  | .paren inner => [inner]
  | .call _ args => args
  | .method receiver _ args => receiver :: args
  | .index target position => [position, target]
  | .member target _ => [target]

/-- The expression is an assignment to a name. -/
def Arena.AssignsName (arena : Arena) (e : Expr) (name : String) : Prop :=
  ∃ op target value, e = .assign op target value ∧ arena.expr target = .ok (.ident name)

theorem Arena.AssignsName.unique {arena : Arena} {e : Expr} {name other : String}
    (h : arena.AssignsName e name) (h' : arena.AssignsName e other) : name = other := by
  obtain ⟨op, target, value, rfl, hname⟩ := h
  obtain ⟨_, _, _, heq, hother⟩ := h'
  cases heq
  cases hname.symm.trans hother
  rfl

namespace Infer

variable {α β : Type} {arena : Arena} {infer : NodeId → Infer Ty} {ids more : List NodeId}
  {id : NodeId} {scope between after : Scope}

/-- Runs over some expressions, one after another. -/
inductive Passes (infer : NodeId → Infer Ty) : List NodeId → Scope → Scope → Prop
  | nil (scope : Scope) : Passes infer [] scope scope
  | cons {id : NodeId} {ids : List NodeId} {scope between after : Scope} {ty : Ty}
      (hrun : infer id scope = .ok ty between) (hrest : Passes infer ids between after) :
      Passes infer (id :: ids) scope after

theorem Passes.append (h : Passes infer ids scope between) (h' : Passes infer more between after) :
    Passes infer (ids ++ more) scope after := by
  induction h with
  | nil => exact h'
  | cons hrun _ ih => exact .cons hrun (ih h')

/-- All that a computation does to a scope is to run over some expressions. -/
def RunsOver (infer : NodeId → Infer Ty) (ids : List NodeId) (action : Infer α) : Prop :=
  ∀ scope a after, action scope = .ok a after → Passes infer ids scope after

namespace RunsOver

variable {action : Infer α} {next : α → Infer β}

protected theorem pure (a : α) : RunsOver infer [] (pure a : Infer α) := by
  intro scope _ after hrun
  cases hrun
  exact .nil scope

protected theorem get : RunsOver infer [] (get : Infer Scope) := by
  intro scope _ after hrun
  cases hrun
  exact .nil scope

theorem follow (found : Except Fault α) : RunsOver infer [] (liftM found : Infer α) := by
  cases found with
  | ok a => exact .pure a
  | error fault =>
    intro scope a after hrun
    cases hrun

theorem one (id : NodeId) : RunsOver infer [id] (infer id) := by
  intro scope ty after hrun
  exact .cons hrun (.nil after)

theorem bind (h : RunsOver infer ids action) (hnext : ∀ a, RunsOver infer more (next a)) :
    RunsOver infer (ids ++ more) (action >>= next) := by
  intro scope b after hrun
  obtain ⟨a, between, haction, hrest⟩ := exists_of_bind hrun
  exact (h scope a between haction).append (hnext a between b after hrest)

theorem mapM {γ : Type} (pick : γ → NodeId) (items : List γ) :
    RunsOver infer (items.map pick) (items.mapM fun item => infer (pick item)) := by
  induction items with
  | nil => exact .pure []
  | cons item rest ih =>
    rw [List.mapM_cons]
    simpa using (one (pick item)).bind fun ty => ih.bind fun types => .pure (ty :: types)

theorem all (ids : List NodeId) : RunsOver infer ids (ids.mapM infer) := by
  have h : RunsOver infer (ids.map id) (ids.mapM fun item => infer (id item)) := mapM id ids
  rwa [List.map_id] at h

/-- What comes last runs over nothing. -/
theorem last (h : RunsOver infer ids action) (hnext : ∀ a, RunsOver infer [] (next a)) :
    RunsOver infer ids (action >>= next) := by
  have hboth := h.bind hnext
  rwa [List.append_nil] at hboth

end RunsOver

/-- **Inference of one layer runs over what it visits, and does nothing else to a scope**, unless
the layer is an assignment. -/
theorem runsOver_exprWith {e : Expr} (h : ∀ op target value, e ≠ .assign op target value) :
    RunsOver infer e.visits (exprWith arena infer e) := by
  cases e with
  | assign op target value => exact absurd rfl (h op target value)
  | collection kind items =>
    cases kind with
    | tuple => exact (RunsOver.all items).bind fun _ => (RunsOver.all items).last fun _ => .pure _
    | list | array | set => exact (RunsOver.all items).last fun _ => .pure _
  | dict entries =>
    exact (RunsOver.mapM Prod.fst entries).bind fun _ =>
      (RunsOver.mapM Prod.snd entries).last fun _ => .pure _
  | ident name => exact RunsOver.get.last fun _ => .pure _
  | binary op left right =>
    exact (RunsOver.one left).bind fun _ => (RunsOver.one right).last fun _ => .pure _
  | unary op operand => exact (RunsOver.one operand).last fun _ => .pure _
  | ternary cond whenTrue whenFalse =>
    exact (RunsOver.one cond).bind fun _ => (RunsOver.one whenTrue).bind fun _ =>
      (RunsOver.one whenFalse).last fun _ => .pure _
  | compound comparisons => exact (RunsOver.all comparisons).last fun _ => .pure _
  | paren inner => exact .one inner
  | call callee args =>
    refine (RunsOver.all args).last fun _ => (RunsOver.follow _).last fun e => ?_
    cases e with
    | ident name => exact RunsOver.get.last fun _ => .pure _
    | _ => exact .pure _
  | method receiver name args =>
    exact (RunsOver.one receiver).bind fun _ => (RunsOver.all args).last fun _ => .pure _
  | index target position =>
    exact (RunsOver.one position).bind fun _ => (RunsOver.one target).last fun _ => .pure _
  | member target name => exact (RunsOver.one target).last fun _ => .pure _
  | cast ty value => exact .follow _
  | new ty args => exact .follow _
  | newArray ty dims init => exact (RunsOver.follow _).last fun _ => .pure _
  | sequence items => exact (RunsOver.all items).last fun _ => .pure _
  | _ => exact .pure _

/-- An assignment runs over what it visits, and then it registers its target if that is a name. -/
theorem of_assignmentWith {op : AssignOp} {target value : NodeId} {ty : Ty}
    (hrun : assignmentWith arena infer op target value scope = .ok ty after) :
    ∃ e between, arena.expr target = .ok e ∧
      Passes infer (Expr.assign op target value).visits scope between ∧
      after = match e with
        | .ident name => between.register name ty
        | _ => between := by
  obtain ⟨valueType, operands, hvalue, hrest⟩ := exists_of_bind hrun
  have hstores : ∀ {ty' : Ty} {between : Scope},
      ((do
        match ← (liftM (arena.expr target) : Infer Expr) with
        | .ident name => modify (·.register name ty')
        | _ => pure ()
        return ty') : Infer Ty) between = .ok ty after →
      ∃ e, arena.expr target = .ok e ∧ after = match e with
        | .ident name => between.register name ty
        | _ => between := by
    intro ty' between hstore
    cases htarget : arena.expr target with
    | error fault =>
      rw [htarget] at hstore
      cases hstore
    | ok e =>
      rw [htarget] at hstore
      cases e <;> cases hstore <;> exact ⟨_, rfl, rfl⟩
  cases hop : op.binary? with
  | none =>
    have hvisits : (Expr.assign op target value).visits = [value] := by simp [Expr.visits, hop]
    rw [hop] at hrest
    obtain ⟨e, htarget, hafter⟩ := hstores hrest
    exact ⟨e, operands, htarget, hvisits ▸ .cons hvalue (.nil operands), hafter⟩
  | some binary =>
    have hvisits : (Expr.assign op target value).visits = [value, target] := by
      simp [Expr.visits, hop]
    rw [hop] at hrest
    obtain ⟨targetType, between, htargetType, hrest⟩ := exists_of_bind hrest
    obtain ⟨e, htarget, hafter⟩ := hstores hrest
    exact ⟨e, between, htarget, hvisits ▸ .cons hvalue (.cons htargetType (.nil between)), hafter⟩

/-- **What inference of an expression does to a scope.**  It runs over what the expression visits,
and if the expression assigns a name, it registers this name. -/
theorem of_exprTo {depth : Nat} {ty : Ty}
    (hrun : exprTo arena (depth + 1) id scope = .ok ty after) :
    ∃ e between, arena.expr id = .ok e ∧ Passes (exprTo arena depth) e.visits scope between ∧
      ((after = between ∧ ∀ name, ¬ arena.AssignsName e name) ∨
        ∃ name, arena.AssignsName e name ∧ after = between.register name ty) := by
  cases he : arena.expr id with
  | error fault =>
    rw [exprTo, he] at hrun
    cases hrun
  | ok e =>
    have hlayer : exprWith arena (exprTo arena depth) e scope = .ok ty after := by
      rw [exprTo, he] at hrun
      exact hrun
    by_cases hassign : ∃ op target value, e = .assign op target value
    · obtain ⟨op, target, value, rfl⟩ := hassign
      obtain ⟨found, between, htarget, hpasses, hafter⟩ := of_assignmentWith hlayer
      refine ⟨_, between, rfl, hpasses, ?_⟩
      by_cases hname : ∃ name, found = .ident name
      · obtain ⟨name, rfl⟩ := hname
        exact .inr ⟨name, ⟨op, target, value, rfl, htarget⟩, hafter⟩
      · refine .inl ⟨?_, ?_⟩
        · cases found <;> first | exact hafter | exact absurd ⟨_, rfl⟩ hname
        · rintro name ⟨_, _, _, heq, hother⟩
          cases heq
          exact hname ⟨name, Except.ok.inj (htarget.symm.trans hother)⟩
    · have hother : ∀ op target value, e ≠ .assign op target value := fun op target value heq =>
        hassign ⟨op, target, value, heq⟩
      have hpasses := runsOver_exprWith hother scope ty after hlayer
      refine ⟨e, after, rfl, hpasses, .inl ⟨rfl, ?_⟩⟩
      rintro name ⟨op, target, value, heq, -⟩
      exact hassign ⟨op, target, value, heq⟩

end Infer

/-! ## Where inference comes -/

namespace Arena

variable {arena : Arena} {id c parent child : NodeId} {e : Expr} {name : String}

/-- Inference of the first expression runs over the second one. -/
def Visits (arena : Arena) (parent child : NodeId) : Prop :=
  ∃ e, arena.expr parent = .ok e ∧ child ∈ e.visits

/-- The names that are assigned where inference of an expression comes. -/
def registered (arena : Arena) (id : NodeId) : Set String :=
  {name | ∃ n e, Relation.ReflTransGen arena.Visits id n ∧ arena.expr n = .ok e ∧
    arena.AssignsName e name}

/-- Something is assigned in a part of an expression that inference passes over. -/
def Overlooks (arena : Arena) (id : NodeId) : Prop :=
  ∃ parent child, arena.Above id parent ∧ arena.Owns parent child ∧ ¬ arena.Visits parent child ∧
    (arena.assigned child).Nonempty

/-- What is visited is a child, and it is not what a call names. -/
theorem exists_child_of_mem_visits (h : c ∈ e.visits) :
    ∃ child ∈ e.children, child.id = c ∧ child.field ≠ "callee" := by
  cases e with
  | collection kind items => cases kind <;> simpa [Expr.visits, Expr.children, held] using h
  | dict entries =>
    simp only [Expr.visits, List.mem_append, List.mem_map] at h
    simp only [Expr.children, List.mem_flatMap]
    obtain ⟨entry, hentry, rfl⟩ | ⟨entry, hentry, rfl⟩ := h
    · exact ⟨⟨entry.1, "key"⟩, ⟨entry, hentry, by simp⟩, rfl, by simp⟩
    · exact ⟨⟨entry.2, "value"⟩, ⟨entry, hentry, by simp⟩, rfl, by simp⟩
  | assign op target value =>
    simp only [Expr.visits, List.mem_cons] at h
    obtain rfl | h := h
    · exact ⟨⟨c, "value"⟩, by simp [Expr.children], rfl, by simp⟩
    · obtain rfl : c = target := by
        split at h <;> simp_all
      exact ⟨⟨c, "target"⟩, by simp [Expr.children], rfl, by simp⟩
  | index target position =>
    simpa [Expr.visits, Expr.children, eq_comm, or_comm] using h
  | _ => simp_all [Expr.visits, Expr.children, held, eq_comm]

theorem Visits.owns (h : arena.Visits parent child) : arena.Owns parent child := by
  obtain ⟨e, he, hvisits⟩ := h
  obtain ⟨c, hc, hid, -⟩ := exists_child_of_mem_visits hvisits
  exact ⟨.expr e, node_of_expr he, c, hc, hid⟩

theorem above_of_visits (h : Relation.ReflTransGen arena.Visits id c) : arena.Above id c :=
  h.lift (fun n => n) fun _ _ => Visits.owns

/-- What is registered in an expression is what it assigns itself, and what is registered in the
parts that it visits. -/
theorem mem_registered_iff (h : arena.expr id = .ok e) :
    name ∈ arena.registered id ↔
      arena.AssignsName e name ∨ ∃ c ∈ e.visits, name ∈ arena.registered c := by
  constructor
  · rintro ⟨n, found, hreaches, hfound, hassigns⟩
    rcases hreaches.cases_head with rfl | ⟨c, ⟨e', he', hc⟩, hreaches⟩
    · exact .inl (Except.ok.inj (h.symm.trans hfound) ▸ hassigns)
    · cases h.symm.trans he'
      exact .inr ⟨c, hc, n, found, hreaches, hfound, hassigns⟩
  · rintro (hassigns | ⟨c, hc, n, found, hreaches, hfound⟩)
    · exact ⟨id, e, .refl, h, hassigns⟩
    · exact ⟨n, found, .head ⟨e, h, hc⟩ hreaches, hfound⟩

theorem registered_subset_assigned : arena.registered id ⊆ arena.assigned id := by
  rintro name ⟨n, e, hreaches, hfound, op, target, value, rfl, htarget⟩
  exact ⟨n, op, target, value, above_of_visits hreaches, hfound, htarget⟩

/-- What nothing is overlooked in has all its assignments where inference comes. -/
theorem assigned_subset_registered (h : ¬ arena.Overlooks id) :
    arena.assigned id ⊆ arena.registered id := by
  rintro name ⟨n, op, target, value, habove, hfound, htarget⟩
  induction habove using Relation.ReflTransGen.head_induction_on with
  | refl => exact ⟨n, _, .refl, hfound, op, target, value, rfl, htarget⟩
  | @head id c howns habove ih =>
    have hbelow : ¬ arena.Overlooks c := fun ⟨parent, child, hparent, hoverlooked⟩ =>
      h ⟨parent, child, .head howns hparent, hoverlooked⟩
    by_cases hvisits : arena.Visits id c
    · obtain ⟨n, e, hreaches, hassigns⟩ := ih hbelow
      exact ⟨n, e, .head hvisits hreaches, hassigns⟩
    · have hassigned : name ∈ arena.assigned c := ⟨n, op, target, value, habove, hfound, htarget⟩
      exact absurd ⟨id, c, .refl, howns, hvisits, name, hassigned⟩ h

end Arena

/-! ## What inference registers -/

namespace Scope

variable {scope : Scope} {name other : String} {ty : Ty}

theorem hasVariable_register_iff :
    (scope.register name ty).hasVariable other = true ↔
      scope.hasVariable other = true ∨ other = name := by
  have hgrows : Grows {name} scope (scope.register name ty) := grows_register rfl
  constructor
  · exact hgrows.adds other
  · rintro (hother | rfl)
    · exact hgrows.keeps other hother
    · exact hasVariable_register

end Scope

namespace Infer

variable {arena : Arena} {infer : NodeId → Infer Ty} {ids : List NodeId} {id : NodeId}
  {scope after : Scope} {name : String}

/-- What a run over some expressions makes visible, if each of them makes some names visible. -/
theorem Passes.hasVariable_iff {shows : NodeId → Prop} (h : Passes infer ids scope after)
    (hinfer : ∀ id ∈ ids, ∀ scope ty after, infer id scope = .ok ty after →
      (after.hasVariable name = true ↔ scope.hasVariable name = true ∨ shows id)) :
    after.hasVariable name = true ↔ scope.hasVariable name = true ∨ ∃ id ∈ ids, shows id := by
  induction h with
  | nil => simp
  | @cons id ids scope between after ty hrun _ ih =>
    have hfirst := hinfer id List.mem_cons_self scope ty between hrun
    have hrest := ih fun id hid => hinfer id (List.mem_cons_of_mem _ hid)
    rw [hrest, hfirst, or_assoc, List.exists_mem_cons_iff]

theorem hasVariable_exprTo {depth : Nat} {ty : Ty}
    (hrun : exprTo arena depth id scope = .ok ty after) :
    after.hasVariable name = true ↔
      scope.hasVariable name = true ∨ name ∈ arena.registered id := by
  induction depth generalizing id scope ty after with
  | zero => cases hrun
  | succ depth ih =>
    obtain ⟨e, between, he, hpasses, hafter⟩ := of_exprTo hrun
    have hvisited : between.hasVariable name = true ↔
        scope.hasVariable name = true ∨ ∃ c ∈ e.visits, name ∈ arena.registered c :=
      hpasses.hasVariable_iff fun c _ _ _ _ hc => ih hc
    rw [Arena.mem_registered_iff he]
    rcases hafter with ⟨rfl, hnone⟩ | ⟨other, hassigns, rfl⟩
    · simpa [hnone] using hvisited
    · have hname : arena.AssignsName e name ↔ name = other :=
        ⟨fun h => h.unique hassigns, fun h => h ▸ hassigns⟩
      rw [Scope.hasVariable_register_iff, hvisited, hname, or_assoc, or_comm (b := name = other)]

/-- What a run over some expressions keeps, if each of them does. -/
theorem Passes.keeps {inv : Scope → Prop} (h : Passes infer ids scope after)
    (hinfer : ∀ id ∈ ids, ∀ scope ty after, infer id scope = .ok ty after → inv scope → inv after)
    (hscope : inv scope) : inv after := by
  induction h with
  | nil => exact hscope
  | @cons id ids scope between after ty hrun _ ih =>
    refine ih (fun id hid => hinfer id (List.mem_cons_of_mem _ hid)) ?_
    exact hinfer id List.mem_cons_self scope ty between hrun hscope

/-- Inference keeps what the registrations keep that it does. -/
theorem keeps_exprTo (inv : Scope → Prop) {depth : Nat} {ty : Ty}
    (hregisters : ∀ name ∈ arena.registered id, ∀ scope ty, inv scope →
      inv (scope.register name ty))
    (hrun : exprTo arena depth id scope = .ok ty after) (hscope : inv scope) : inv after := by
  induction depth generalizing id scope ty after with
  | zero => cases hrun
  | succ depth ih =>
    obtain ⟨e, between, he, hpasses, hafter⟩ := of_exprTo hrun
    have hbetween : inv between := by
      refine hpasses.keeps (fun c hc scope ty after hrun hscope => ?_) hscope
      refine ih (fun name hname => hregisters name ?_) hrun hscope
      exact (Arena.mem_registered_iff he).2 (.inr ⟨c, hc, hname⟩)
    rcases hafter with ⟨rfl, -⟩ | ⟨name, hassigns, rfl⟩
    · exact hbetween
    · exact hregisters name ((Arena.mem_registered_iff he).2 (.inl hassigns)) between ty hbetween

/-- **Inference makes visible what is assigned where it comes, and nothing else.**  In every scope
the type of an expression ends, and afterwards a name is visible exactly if it was before or is
assigned in a part that inference runs over; if nothing is overlooked, these are all the names that
are assigned anywhere in the expression. -/
theorem registers_assigned (scope : Scope) (h : arena.ClosedExpr id) :
    (∃ ty after, expr arena id scope = .ok ty after ∧
      (∀ name, after.hasVariable name = true ↔
        scope.hasVariable name = true ∨ name ∈ arena.registered id) ∧
      (¬ arena.Overlooks id → ∀ name ∈ arena.assigned id, after.hasVariable name = true)) ∨
    ∃ fault after, expr arena id scope = .error fault after ∧ arena.Misplaced fault := by
  rcases spares_exprTo (placed_of_closedExpr h) scope with ⟨ty, after, hrun, -⟩ | hstops
  · have hvisible : ∀ name, after.hasVariable name = true ↔
        scope.hasVariable name = true ∨ name ∈ arena.registered id := fun name =>
      hasVariable_exprTo hrun
    refine .inl ⟨ty, after, hrun, hvisible, fun hoverlooks name hname => ?_⟩
    exact (hvisible name).2 (.inr (Arena.assigned_subset_registered hoverlooks hname))
  · exact .inr hstops

/-- A tuple of an augmented assignment, in whose target a name is assigned. -/
theorem registers_assigned_index :
    let exprs : List Expr := [.ident "items", .ident "i", .int 1, .assign .plain ⟨1⟩ ⟨2⟩,
      .index ⟨0⟩ ⟨3⟩, .assign .add ⟨4⟩ ⟨2⟩, .collection .tuple [⟨5⟩]]
    let arena : Arena := ⟨(exprs.map Node.expr).toArray⟩
    arena.ClosedExpr ⟨6⟩ ∧ ¬ arena.Overlooks ⟨6⟩ ∧ "i" ∈ arena.assigned ⟨6⟩ ∧
      ∃ ty after, expr arena ⟨6⟩ {} = .ok ty after ∧ after.hasVariable "i" = true := by
  intro exprs arena
  have hclosed : arena.ClosedExpr ⟨6⟩ :=
    ⟨(show arena.GroundedTo 7 ⟨6⟩ by decide).grounded, rfl⟩
  have hoverlooks : ¬ arena.Overlooks ⟨6⟩ := by
    rintro ⟨parent, child, -, ⟨node, found, c, hc, rfl⟩, hvisits, hassigned⟩
    obtain ⟨e, he, rfl⟩ : ∃ e ∈ exprs, Node.expr e = node :=
      List.mem_map.1 (Arena.mem_of_node found)
    have hall : ∀ e ∈ exprs, ∀ c ∈ e.children, c.id ∈ e.visits ∨ c.id = ⟨1⟩ := by decide
    rcases hall e he c hc with hmem | htarget
    · exact hvisits ⟨e, Arena.expr_of_node found, hmem⟩
    · have hleaf : arena.assigned c.id = ∅ :=
        Arena.assigned_leaf (e := .ident "i") (by rw [htarget]; rfl) rfl
      rw [hleaf] at hassigned
      exact Set.not_nonempty_empty hassigned
  have hassigned : "i" ∈ arena.assigned ⟨6⟩ := by
    refine ⟨⟨3⟩, .plain, ⟨1⟩, ⟨2⟩, ?_, rfl, rfl⟩
    have hitem : arena.Owns ⟨6⟩ ⟨5⟩ := ⟨_, rfl, ⟨⟨5⟩, "items"⟩, by decide, rfl⟩
    have htarget : arena.Owns ⟨5⟩ ⟨4⟩ := ⟨_, rfl, ⟨⟨4⟩, "target"⟩, by decide, rfl⟩
    have hindex : arena.Owns ⟨4⟩ ⟨3⟩ := ⟨_, rfl, ⟨⟨3⟩, "index"⟩, by decide, rfl⟩
    exact ((Relation.ReflTransGen.single hitem).tail htarget).tail hindex
  refine ⟨hclosed, hoverlooks, hassigned, ?_⟩
  rcases registers_assigned {} hclosed with ⟨ty, after, hrun, -, hall⟩ | ⟨fault, after, hrun, -⟩
  · exact ⟨ty, after, hrun, hall hoverlooks "i" hassigned⟩
  · cases hrun

/-- An assignment in the arguments of a constructor: the name that it assigns is not visible
afterwards. -/
theorem registers_not_in_arguments :
    let arena : Arena := ⟨#[.expr (.ident "x"), .expr (.int 1), .expr (.assign .plain ⟨0⟩ ⟨1⟩),
      .type (.user "T"), .expr (.new ⟨3⟩ [⟨2⟩])]⟩
    arena.ClosedExpr ⟨4⟩ ∧ "x" ∈ arena.assigned ⟨4⟩ ∧ expr arena ⟨4⟩ {} = .ok (.user "T") {} ∧
      Scope.hasVariable {} "x" = false := by
  intro arena
  have hgrounded : arena.GroundedTo 5 ⟨4⟩ := by decide
  have habove : arena.Above ⟨4⟩ ⟨2⟩ :=
    .single ⟨.expr (.new ⟨3⟩ [⟨2⟩]), rfl, ⟨⟨2⟩, "args"⟩, by decide, rfl⟩
  refine ⟨⟨hgrounded.grounded, rfl⟩, ?_, rfl, rfl⟩
  exact ⟨⟨2⟩, .plain, ⟨0⟩, ⟨1⟩, habove, rfl, rfl⟩

end Infer

end Interlingua
