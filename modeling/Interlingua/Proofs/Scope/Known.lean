import Interlingua.Proofs.Naming.Growth
import Interlingua.Proofs.Scope.Frames

/-!
# What inference remembers

Inference may find out nothing about a name, but what is known of one it does not forget.

* `Scope.Learns` — a type is registered in the innermost frame: a known one, or one for a name that
  no type is known of.
* `Scope.Remembers` — what no number of such registrations takes back, in the innermost frame and in
  those around it.
* `Infer.yields_learned` — the type of an expression does nothing but registrations of this kind,
  however often its parts are run over.
* `Infer.remembers_known` — expressions and assignments end, and the scope remembers.
-/

namespace Interlingua

/-! ## Registrations -/

/-- The frame itself has a variable, and knows the type of it. -/
def Frame.Knows (frame : Frame) (name : String) : Prop :=
  (frame.vars.find? name).any Ty.isKnown = true

namespace Scope

variable {scope before after last : Scope} {name other : String} {ty : Ty}

/-- A variable is visible, and its type is known. -/
def Knows (scope : Scope) (name : String) : Prop := (scope.varType? name).any Ty.isKnown = true

/-- A type is registered in the innermost frame.  Where a type is known, only a known one takes its
place, whichever frame has it. -/
inductive Learns (scope : Scope) : Scope → Prop
  | write (name : String) (ty : Ty) (h : ty.isKnown = true ∨ ¬ scope.Knows name) :
    Learns scope (scope.setVariable name ty)

/-- Any number of registrations. -/
abbrev Learned : Scope → Scope → Prop := Relation.ReflTransGen Learns

/-- What was visible is visible, what was known is known, and nothing has changed but the variables
of the innermost frame. -/
structure Remembers (before after : Scope) : Prop where
  visible : ∀ name, before.hasVariable name = true → after.hasVariable name = true
  known : ∀ name, before.Knows name → after.Knows name
  /-- What the innermost frame itself knew, it knows. -/
  inner : ∀ name, before.inner.Knows name → after.inner.Knows name
  outer : after.outer = before.outer
  methods : after.inner.methods = before.inner.methods

/-- What the innermost frame knows is what is visible. -/
theorem Knows.of_inner (h : scope.inner.Knows name) : scope.Knows name := by
  unfold Frame.Knows at h
  unfold Knows varType? frames
  rw [List.findSome?_cons]
  cases hfound : scope.inner.vars.find? name with
  | none => simp [hfound] at h
  | some ty => simpa [hfound] using h

theorem Remembers.refl : Remembers scope scope :=
  ⟨fun _ h => h, fun _ h => h, fun _ h => h, rfl, rfl⟩

theorem Remembers.trans (h : Remembers before after) (h' : Remembers after last) :
    Remembers before last where
  visible name hname := h'.visible name (h.visible name hname)
  known name hname := h'.known name (h.known name hname)
  inner name hname := h'.inner name (h.inner name hname)
  outer := h'.outer.trans h.outer
  methods := h'.methods.trans h.methods

/-- One registration takes nothing back. -/
theorem Learns.remembers (h : Learns before after) : Remembers before after := by
  obtain ⟨name, ty, hty⟩ := h
  -- the name that is written: either the new type is known or there is nothing to forget
  have hwritten : before.Knows name → ty.isKnown = true := fun hknown =>
    hty.resolve_right fun hunknown => hunknown hknown
  refine ⟨fun other hother => ?_, fun other hother => ?_, fun other hother => ?_, rfl, rfl⟩
  · rw [hasVariable_setVariable, hother, Bool.or_true]
  · unfold Knows
    rw [varType?_setVariable]
    split
    · rename_i heq
      exact hwritten (heq ▸ hother)
    · exact hother
  · unfold Frame.Knows
    simp only [setVariable, Table.find?_insert]
    split
    · rename_i heq
      exact hwritten (heq ▸ Knows.of_inner hother)
    · exact hother

/-- **No number of registrations takes anything back.** -/
theorem Learned.remembers (h : Learned before after) : Remembers before after := by
  induction h with
  | refl => exact .refl
  | tail _ hlearns ih => exact ih.trans hlearns.remembers

/-- Where a type is known, an unknown one is not registered. -/
theorem register_of_knows (hty : ty.isKnown = false) (h : scope.Knows name) :
    scope.register name ty = scope := by
  unfold Knows at h
  simp [register, hty, h]

theorem learned_register : Learned scope (scope.register name ty) := by
  unfold register
  split
  · exact .refl
  · rename_i hwrites
    refine .single (.write name ty ?_)
    cases hty : ty.isKnown with
    | true => exact .inl rfl
    | false =>
      refine .inr fun hknows => hwrites ?_
      rw [hty]
      exact hknows

end Scope

/-! ## Inference -/

/-- An expression all of whose parts are there. -/
structure Arena.ClosedExpr (arena : Arena) (id : NodeId) : Prop where
  grounded : arena.Grounded id
  category : arena.isA .expression id = true

namespace Infer

variable {arena : Arena} {id target value : NodeId} {scope : Scope} {name : String}

/-- A computation of a type ends, and all that it does to a scope are registrations, so the scope
remembers; unless a reference names a node of another category than its place demands. -/
def Remembering (arena : Arena) (action : Infer Ty) (scope : Scope) : Prop :=
  (∃ ty after, action scope = .ok ty after ∧ scope.Learned after ∧ scope.Remembers after) ∨
    ∃ fault after, action scope = .error fault after ∧ arena.Misplaced fault

/-- A name can be registered wherever a run has come. -/
theorem registers_learned {named : String → Prop} : Registers scope.Learned named name :=
  fun _ _ hbefore _ => hbefore.trans Scope.learned_register

/-- **The type of an expression does nothing to a scope but registrations.** -/
theorem yields_learned (depth : Nat) (id : NodeId) :
    Yields scope.Learned (exprTo arena depth id) (Ty.Named fun _ => True) := by
  induction depth generalizing id with
  | zero => exact .throw _
  | succ depth ih =>
    refine (yields_follow fun e he => he).bind fun e _ => ?_
    exact yields_exprWith (fun _ _ => ⟨fun _ _ _ _ _ => trivial, fun _ _ _ _ _ => trivial⟩)
      (fun _ _ _ _ _ => trivial) (fun _ _ _ _ _ _ => registers_learned) fun c _ => ih c.id

theorem yields_learned_assignment (op : AssignOp) (target value : NodeId) :
    Yields scope.Learned (assignment arena op target value) (Ty.Named fun _ => True) :=
  yields_assignmentWith (fun _ _ => registers_learned) (yields_learned _ target)
    (yields_learned _ value) op

/-- A run that ends, and that does registrations only, is one that remembers. -/
theorem remembering_of {action : Infer Ty} {named : Ty → Prop}
    (hends : Spares arena.Misplaced Scope.besidesVars action)
    (hlearned : Yields scope.Learned action named) : Remembering arena action scope := by
  rcases hends scope with ⟨ty, after, hrun, -⟩ | hstops
  · have hafter := (hlearned scope ty after .refl hrun).1
    exact .inl ⟨ty, after, hrun, hafter, hafter.remembers⟩
  · exact .inr hstops

theorem placed_of_closedExpr (h : arena.ClosedExpr id) :
    arena.Placed arena.depthBound (some .expression) id where
  grounded := h.grounded.to_depthBound
  category _ _ hcategory := Option.some.inj hcategory ▸ h.category

/-- To look up a name changes nothing. -/
theorem expr_ident (h : arena.expr target = .ok (.ident name)) :
    expr arena target scope = .ok ((scope.varType? name).getD .unknown) scope := by
  change exprTo arena (arena.size + 1) target scope = _
  rw [exprTo, h]
  rfl

/-- An assignment to a name runs its value, and then it registers what it finds. -/
theorem of_assignment_ident {op : AssignOp} {ty : Ty} {after : Scope}
    (htarget : arena.expr target = .ok (.ident name))
    (hrun : assignment arena op target value scope = .ok ty after) :
    ∃ valueType operands, expr arena value scope = .ok valueType operands ∧
      after = operands.register name ty := by
  unfold assignment assignmentWith at hrun
  cases hvalue : expr arena value scope with
  | error fault stopped => simp [bind, EStateM.bind, hvalue] at hrun
  | ok valueType operands =>
    refine ⟨valueType, operands, rfl, ?_⟩
    simp only [bind, EStateM.bind, hvalue, htarget] at hrun
    cases hop : op.binary? with
    | none =>
      rw [hop] at hrun
      cases hrun
      rfl
    | some binary =>
      simp only [hop] at hrun
      rw [EStateM.bind, expr_ident htarget] at hrun
      cases hrun
      rfl

/-- An unknown type is not registered for a name that a type is known of: all that such an
assignment does to a scope is what its value does. -/
theorem assignment_unknown {op : AssignOp} {ty : Ty} {after : Scope}
    (htarget : arena.expr target = .ok (.ident name)) (hknows : scope.Knows name)
    (hrun : assignment arena op target value scope = .ok ty after) (hty : ty.isKnown = false) :
    ∃ valueType, expr arena value scope = .ok valueType after := by
  obtain ⟨valueType, operands, hvalue, rfl⟩ := of_assignment_ident htarget hrun
  have hlearned := (yields_learned _ value scope valueType operands .refl hvalue).1
  rw [Scope.register_of_knows hty (hlearned.remembers.known name hknows)]
  exact ⟨valueType, hvalue⟩

/-- **Inference never forgets a known type.**  Every expression and every assignment ends, with all
names visible and known that were before, in whichever frame; and an assignment that finds out
nothing about a name of a known type leaves what its value leaves. -/
theorem remembers_known (scope : Scope) :
    (∀ id, arena.ClosedExpr id → Remembering arena (expr arena id) scope) ∧
    ∀ op target value, arena.ClosedExpr target → arena.ClosedExpr value →
      Remembering arena (assignment arena op target value) scope ∧
      ∀ name ty after, arena.expr target = .ok (.ident name) → scope.Knows name →
        assignment arena op target value scope = .ok ty after → ty.isKnown = false →
        ∃ valueType, expr arena value scope = .ok valueType after := by
  constructor
  · intro id hid
    exact remembering_of (spares_exprTo (placed_of_closedExpr hid)) (yields_learned _ id)
  · intro op target value htarget hvalue
    constructor
    · refine remembering_of ?_ (yields_learned_assignment op target value)
      exact spares_assignmentWith spares_exprTo op (placed_of_closedExpr htarget)
        (placed_of_closedExpr hvalue)
    · intro name ty after hname hknows hrun hty
      exact assignment_unknown hname hknows hrun hty

/-- A tuple of an assignment whose value is of an unknown type, to a name that an outer frame
knows. -/
theorem remembers_known_outer :
    let arena : Arena := ⟨#[.expr (.ident "x"), .expr (.ident "opaque"), .expr (.call ⟨1⟩ []),
      .expr (.assign .plain ⟨0⟩ ⟨2⟩), .expr (.collection .tuple [⟨3⟩])]⟩
    let scope : Scope := (Scope.setVariable {} "x" .str).enter
    scope.Knows "x" ∧ arena.ClosedExpr ⟨4⟩ ∧
      (∃ ty after, expr arena ⟨4⟩ scope = .ok ty after ∧ after.Knows "x") ∧
      ∃ valueType, expr arena ⟨2⟩ scope = .ok valueType scope := by
  intro arena scope
  have hknows : scope.Knows "x" := rfl
  have hclosed : ∀ id : NodeId, id.index < 5 → arena.ClosedExpr id := by
    rintro ⟨index⟩ hindex
    have hall : ∀ index < 5, arena.GroundedTo 5 ⟨index⟩ ∧ arena.isA .expression ⟨index⟩ = true := by
      decide
    exact ⟨(hall index hindex).1.grounded, (hall index hindex).2⟩
  have hplaced : arena.WellPlaced := by
    have hall : ∀ x ∈ arena.nodes.toList, ∀ c ∈ x.children, ∀ category ∈ x.demand c.field,
        arena.isA category c.id = true := by
      decide
    exact fun _ x found => hall x (Arena.mem_of_node found)
  obtain ⟨hexpr, hassign⟩ := @remembers_known arena scope
  refine ⟨hknows, hclosed ⟨4⟩ (by decide), ?_, ?_⟩
  · rcases hexpr ⟨4⟩ (hclosed ⟨4⟩ (by decide)) with ⟨ty, after, hrun, -, hremembers⟩ | hfault
    · exact ⟨ty, after, hrun, hremembers.known "x" hknows⟩
    · obtain ⟨fault, after, -, hmisplaced⟩ := hfault
      exact absurd hplaced hmisplaced.1
  · have hrun : assignment arena .plain ⟨0⟩ ⟨2⟩ scope = .ok .unknown scope := rfl
    obtain ⟨-, hunknown⟩ :=
      hassign .plain ⟨0⟩ ⟨2⟩ (hclosed ⟨0⟩ (by decide)) (hclosed ⟨2⟩ (by decide))
    exact hunknown "x" .unknown scope rfl hknows hrun rfl

end Infer

end Interlingua
