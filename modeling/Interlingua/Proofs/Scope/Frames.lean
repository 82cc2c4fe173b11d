import Interlingua.Proofs.Arena.History
import Interlingua.Proofs.Lockstep.Node
import Interlingua.Scope.Infer

/-!
# What inference leaves alone

Inference registers what it meets, and it writes the innermost frame only.

* `Spares` — a run that leaves a part of the state as it was.  There is one rule for each way of
  putting runs together.
* `Arena.Placed` — a reference that can be followed down to some depth, to a node of the category
  that its place demands.
* `Infer.spares_exprTo` — the type of an expression registers variables of the innermost frame and
  nothing else.
* `Infer.spares_treeTo` — a run over a subtree keeps all frames but the innermost one.
* `Infer.tree_keeps_frames` — what a run over a whole subtree ends with: blocks, counting loops and
  classes leave nothing behind, and a function leaves its return type.
-/

namespace Interlingua

/-! ## Runs that spare a part of the state -/

/-- From every state, a run ends with a part of the state as it was, or it stops for a reason that
is allowed. -/
def Spares {ε σ κ α : Type} (stops : ε → Prop) (part : σ → κ) (action : EStateM ε σ α) : Prop :=
  ∀ s, (∃ a s', action s = .ok a s' ∧ part s' = part s) ∨ ∃ e s', action s = .error e s' ∧ stops e

namespace Spares

variable {ε σ κ κ' α β : Type} {stops : ε → Prop} {part : σ → κ} {action : EStateM ε σ α}
  {next : α → EStateM ε σ β}

protected theorem pure (a : α) : Spares stops part (pure a : EStateM ε σ α) := by
  intro s
  exact .inl ⟨a, s, rfl, rfl⟩

protected theorem bind (h : Spares stops part action) (hnext : ∀ a, Spares stops part (next a)) :
    Spares stops part (action >>= next) := by
  intro s
  rcases h s with ⟨a, s', hrun, hpart⟩ | ⟨e, s', hrun, hstops⟩
  · have hbind : (action >>= next) s = next a s' := by
      simp only [bind, EStateM.bind, hrun]
    rw [hbind]
    rcases hnext a s' with ⟨b, s'', hrun', hpart'⟩ | hstop
    · exact .inl ⟨b, s'', hrun', hpart'.trans hpart⟩
    · exact .inr hstop
  · exact .inr ⟨e, s', by simp only [bind, EStateM.bind, hrun], hstops⟩

/-- What is left of a part that is spared is spared. -/
theorem mono {less : σ → κ'} (h : Spares stops part action)
    (hless : ∀ s s', part s' = part s → less s' = less s) : Spares stops less action := by
  intro s
  rcases h s with ⟨a, s', hrun, hpart⟩ | hstop
  · exact .inl ⟨a, s', hrun, hless s s' hpart⟩
  · exact .inr hstop

/-- What a run that ends has spared. -/
theorem of_ok (h : Spares stops part action) {s s' : σ} {a : α} (hrun : action s = .ok a s') :
    part s' = part s := by
  rcases h s with ⟨a', after, hrun', hpart⟩ | ⟨e, after, hrun', -⟩
  · rw [hrun] at hrun'
    cases hrun'
    exact hpart
  · rw [hrun] at hrun'
    cases hrun'

protected theorem get : Spares stops part (get : EStateM ε σ σ) := by
  intro s
  exact .inl ⟨s, s, rfl, rfl⟩

protected theorem modify {f : σ → σ} (h : ∀ s, part (f s) = part s) :
    Spares stops part (modify f : EStateM ε σ PUnit) := by
  intro s
  exact .inl ⟨⟨⟩, f s, rfl, h s⟩

protected theorem discard (h : Spares stops part action) : Spares stops part (discard action) := by
  intro s
  rcases h s with ⟨a, s', hrun, hpart⟩ | ⟨e, s', hrun, hstops⟩
  · exact .inl ⟨⟨⟩, s', by simp [discard, Functor.mapConst, EStateM.map, hrun], hpart⟩
  · exact .inr ⟨e, s', by simp [discard, Functor.mapConst, EStateM.map, hrun], hstops⟩

theorem mapM {f : α → EStateM ε σ β} {as : List α} (h : ∀ a ∈ as, Spares stops part (f a)) :
    Spares stops part (as.mapM f) := by
  induction as with
  | nil => exact .pure []
  | cons a as ih =>
    rw [List.mapM_cons]
    refine (h a List.mem_cons_self).bind fun b => ?_
    exact (ih fun a' ha' => h a' (List.mem_cons_of_mem a ha')).bind fun bs => .pure (b :: bs)

theorem forM {f : α → EStateM ε σ PUnit} {as : List α} (h : ∀ a ∈ as, Spares stops part (f a)) :
    Spares stops part (as.forM f) := by
  induction as with
  | nil => exact .pure PUnit.unit
  | cons a as ih =>
    exact (h a List.mem_cons_self).bind fun _ => ih fun a' ha' => h a' (List.mem_cons_of_mem a ha')

theorem optionForM {f : α → EStateM ε σ PUnit} {a : Option α}
    (h : ∀ b ∈ a, Spares stops part (f b)) : Spares stops part (a.forM f) := by
  cases a with
  | none => exact .pure PUnit.unit
  | some a => exact h a rfl

theorem optionMapM {f : α → EStateM ε σ β} {a : Option α} (h : ∀ b ∈ a, Spares stops part (f b)) :
    Spares stops part (a.mapM f) := by
  cases a with
  | none => exact .pure none
  | some a => exact (h a rfl).bind fun b => .pure (some b)

end Spares

theorem of_mem_of_rel_self {α : Type} {related : α → α → Prop} {a : Option α} {b : α}
    (h : Option.Rel related a a) (hmem : b ∈ a) : related b b := by
  cases hmem
  cases h with
  | some h => exact h

/-! ## References that can be followed -/

namespace Arena

variable {arena : Arena} {depth : Nat} {demand : Option Category} {id : NodeId}

/-- Every reference names a node of the category that its place demands. -/
def WellPlaced (arena : Arena) : Prop :=
  ∀ id x, arena.node id = .ok x →
    ∀ c ∈ x.children, ∀ category ∈ x.demand c.field, arena.isA category c.id = true

/-- The fault of a reference to a node of another category than its place demands. -/
def Misplaced (arena : Arena) (fault : Fault) : Prop :=
  ¬ arena.WellPlaced ∧ ∃ id found, fault = .miscast id found

/-- A reference that can be followed down to a depth, to a node of the category that its place
demands unless some reference is misplaced. -/
structure Placed (arena : Arena) (depth : Nat) (demand : Option Category) (id : NodeId) : Prop where
  grounded : arena.GroundedTo depth id
  category : arena.WellPlaced → ∀ category ∈ demand, arena.isA category id = true

/-- References that are placed, as a relation of the children of a node to themselves. -/
abbrev places (arena : Arena) (depth : Nat) : Kinship :=
  fun demand id _ => arena.Placed depth demand id

/-- What is looked up is there and has a property, or a reference is misplaced. -/
def Finds {α : Type} (arena : Arena) (post : α → Prop) (result : Except Fault α) : Prop :=
  (∃ a, result = .ok a ∧ post a) ∨ ∃ fault, result = .error fault ∧ arena.Misplaced fault

namespace Placed

/-- The node is there, and its children are placed with one level less. -/
theorem node (h : arena.Placed (depth + 1) demand id) :
    ∃ x, arena.node id = .ok x ∧ x.Tied (arena.places depth) Eq x := by
  obtain ⟨x, found, hbelow⟩ := h.grounded
  refine ⟨x, found, .of_skeleton rfl (List.forall₂_same.2 fun c hc => ?_) rfl⟩
  exact ⟨hbelow c hc, fun hplaced => hplaced id x found c hc⟩

theorem finds (h : arena.Placed (depth + 1) demand id) :
    arena.Finds (fun x => arena.node id = .ok x ∧ x.Tied (arena.places depth) Eq x)
      (arena.node id) := by
  obtain ⟨x, found, htied⟩ := h.node
  exact .inl ⟨x, found, found, htied⟩

/-- What a node is, its place may demand. -/
theorem recast (h : arena.Placed depth demand id) {x : Node} (found : arena.node id = .ok x) :
    arena.Placed depth (some x.category) id where
  grounded := h.grounded
  category := by
    rintro - category hcategory
    exact (isA_iff found).2 (Option.some.inj hcategory)

theorem misplaced {category : Category} (h : arena.Placed depth (some category) id) {x : Node}
    (found : arena.node id = .ok x) (hne : x.category ≠ category) :
    arena.Misplaced (.miscast id x.category) := by
  refine ⟨fun hplaced => hne ?_, id, x.category, rfl⟩
  exact (isA_iff found).1 (h.category hplaced category rfl)

theorem expr (h : arena.Placed (depth + 1) (some .expression) id) :
    arena.Finds (fun e => e.Tied (arena.places depth) e) (arena.expr id) := by
  obtain ⟨x, found, htied⟩ := h.node
  unfold Arena.expr
  rw [found]
  cases htied with
  | expr he => exact .inl ⟨_, rfl, he⟩
  | stmt _ | decl _ | defn _ | type _ =>
    exact .inr ⟨_, rfl, h.misplaced found (by simp [Node.category])⟩

theorem decl (h : arena.Placed (depth + 1) (some .declaration) id) :
    arena.Finds (fun d => d.Tied (arena.places depth) d) (arena.decl id) := by
  obtain ⟨x, found, htied⟩ := h.node
  unfold Arena.decl
  rw [found]
  cases htied with
  | decl hd => exact .inl ⟨_, rfl, hd⟩
  | expr _ | stmt _ | defn _ | type _ =>
    exact .inr ⟨_, rfl, h.misplaced found (by simp [Node.category])⟩

theorem ty (h : arena.Placed depth (some .type) id) :
    arena.Finds (fun _ => True) (arena.ty id) := by
  obtain ⟨less, rfl⟩ := h.grounded.pos
  obtain ⟨x, found, htied⟩ := h.node
  unfold Arena.ty
  rw [found]
  cases htied with
  | type t => exact .inl ⟨t, rfl, trivial⟩
  | expr _ | stmt _ | decl _ | defn _ =>
    exact .inr ⟨_, rfl, h.misplaced found (by simp [Node.category])⟩

/-- In an arena that is closed and has no cycle, a node can be followed as deep as the arena
goes. -/
theorem restart (h : arena.Placed depth demand id) (hclosed : arena.Closed)
    (hacyclic : arena.Acyclic) : arena.Placed arena.depthBound demand id where
  grounded := by
    obtain ⟨less, rfl⟩ := h.grounded.pos
    obtain ⟨x, found, -⟩ := h.node
    have hid : arena.contains id = true := exists_node_iff.1 ⟨x, found⟩
    exact (grounded_of_acyclic hclosed hacyclic hid).to_depthBound
  category := h.category

end Placed

end Arena

/-! ## Inference -/

/-- Statements that open a frame around all that they do. -/
def Stmt.isFramed : Stmt → Bool
  | .block _ | .forLoop .. | .rangeFor .. | .forEach .. => true
  | _ => false

/-- Nodes that open a frame around all that they do. -/
def Node.isFramed : Node → Bool
  | .stmt s => s.isFramed
  | .defn (.classBody ..) => true
  | _ => false

namespace Scope

/-- All of a scope but the variables of the innermost frame. -/
def besidesVars (scope : Scope) : Table Ty × List Frame × Nat := (scope.inner.methods, scope.around)

theorem besidesVars_register (scope : Scope) (name : String) (ty : Ty) :
    (scope.register name ty).besidesVars = scope.besidesVars := by
  unfold register
  split <;> rfl

theorem eq_of_besidesVars {s s' : Scope} (h : s'.besidesVars = s.besidesVars) :
    s' = { s with inner := { s.inner with vars := s'.inner.vars } } := by
  obtain ⟨⟨vars, methods⟩, outer, depth⟩ := s'
  cases h
  rfl

theorem around_eq_of_besidesVars (s s' : Scope) (h : s'.besidesVars = s.besidesVars) :
    s'.around = s.around :=
  congrArg Prod.snd h

end Scope

namespace Infer

variable {κ α β : Type} {arena : Arena} {part : Scope → κ} {depth : Nat}

theorem spares_follow {post : α → Prop} {result : Except Fault α} {next : α → Infer β}
    (h : arena.Finds post result) (hnext : ∀ a, post a → Spares arena.Misplaced part (next a)) :
    Spares arena.Misplaced part ((liftM result : Infer α) >>= next) := by
  rcases h with ⟨a, rfl, hpost⟩ | ⟨fault, rfl, hmisplaced⟩
  · exact hnext a hpost
  · intro s
    exact .inr ⟨fault, s, rfl, hmisplaced⟩

theorem spares_lookup {post : α → Prop} {result : Except Fault α} (h : arena.Finds post result) :
    Spares arena.Misplaced part (liftM result : Infer α) := by
  simpa using spares_follow h fun a _ => .pure a

theorem spares_setVariable {stops : Fault → Prop} (name : String) (ty : Ty) :
    Spares stops Scope.around (modify (·.setVariable name ty) : Infer PUnit) :=
  .modify fun _ => rfl

/-- A frame of its own takes all that a run registers with it. -/
theorem spares_inFrame {body : Infer Unit} {stops : Fault → Prop}
    (h : Spares stops Scope.around body) : Spares stops id (inFrame body) := by
  intro s
  rcases h s.enter with ⟨a, s', hrun, haround⟩ | ⟨fault, s', hrun, hstops⟩
  · refine .inl ⟨⟨⟩, s, ?_, rfl⟩
    have hleave : s'.leave true = .ok s := Scope.leave_of_around haround true
    change EStateM.bind body _ s.enter = _
    simp only [EStateM.bind, hrun]
    change EStateM.Result.ok PUnit.unit _ = _
    simp only [hleave]
  · refine .inr ⟨fault, s', ?_, hstops⟩
    change EStateM.bind body _ s.enter = _
    simp only [EStateM.bind, hrun]

/-! ### Expressions -/

section Layer

variable {infer : NodeId → Infer Ty}

theorem spares_assignmentWith
    (hbelow : ∀ {id}, arena.Placed depth (some .expression) id →
      Spares arena.Misplaced Scope.besidesVars (infer id))
    (op : AssignOp) {target value : NodeId} (ht : arena.Placed depth (some .expression) target)
    (hv : arena.Placed depth (some .expression) value) :
    Spares arena.Misplaced Scope.besidesVars (assignmentWith arena infer op target value) := by
  unfold assignmentWith
  refine (hbelow hv).bind fun valueType => ?_
  extract_lets register
  have hregister : ∀ ty, Spares arena.Misplaced Scope.besidesVars (register ty) := by
    intro ty
    obtain ⟨less, rfl⟩ := ht.grounded.pos
    refine spares_follow ht.expr fun e he => ?_
    cases he with
    | ident name =>
      refine (Spares.modify fun scope => ?_).bind fun _ => .pure ty
      exact scope.besidesVars_register name ty
    | _ => exact .pure ty
  cases op.binary? with
  | none => exact hregister valueType
  | some binary => exact (hbelow ht).bind fun targetType => hregister _

theorem spares_exprWith
    (hbelow : ∀ {id}, arena.Placed depth (some .expression) id →
      Spares arena.Misplaced Scope.besidesVars (infer id))
    {e : Expr} (h : e.Tied (arena.places depth) e) :
    Spares arena.Misplaced Scope.besidesVars (exprWith arena infer e) := by
  have hall {ids : List NodeId}
      (h : List.Forall₂ (arena.places depth (some .expression)) ids ids) :
      Spares arena.Misplaced Scope.besidesVars (ids.mapM infer) :=
    .mapM fun id hid => hbelow (List.forall₂_same.1 h id hid)
  cases h <;> unfold exprWith
  case collection kind items h =>
    refine (hall h).bind fun types => ?_
    cases kind with
    | tuple => exact (hall h).bind fun _ => .pure _
    | list | array | set => exact .pure _
  case dict entries h =>
    have hentry := List.forall₂_same.1 h
    refine (Spares.mapM fun entry hmem => hbelow (hentry entry hmem).1).bind fun keys => ?_
    exact (Spares.mapM fun entry hmem => hbelow (hentry entry hmem).2).bind fun _ => .pure _
  case ident name => exact Spares.get.bind fun scope => .pure _
  case binary hl hr => exact (hbelow hl).bind fun _ => (hbelow hr).bind fun _ => .pure _
  case unary h => exact (hbelow h).bind fun _ => .pure _
  case assign op _ _ ht hv => exact spares_assignmentWith hbelow op ht hv
  case ternary hc ht hf =>
    exact (hbelow hc).bind fun _ => (hbelow ht).bind fun _ => (hbelow hf).bind fun _ => .pure _
  case compound h => exact (hall h).bind fun _ => .pure _
  case paren h => exact hbelow h
  case call hc ha =>
    obtain ⟨less, rfl⟩ := hc.grounded.pos
    refine (hall ha).bind fun _ => spares_follow hc.expr fun callee hcallee => ?_
    cases hcallee with
    | ident name => exact Spares.get.bind fun scope => .pure _
    | _ => exact .pure _
  case method hr ha => exact (hbelow hr).bind fun _ => (hall ha).bind fun _ => .pure _
  case index ht hp => exact (hbelow hp).bind fun _ => (hbelow ht).bind fun _ => .pure _
  case member h => exact (hbelow h).bind fun _ => .pure _
  case cast ht _ => exact spares_lookup ht.ty
  case new ht _ => exact spares_lookup ht.ty
  case newArray ht _ _ => exact spares_follow ht.ty fun ty _ => .pure _
  case sequence h => exact (hall h).bind fun _ => .pure _
  all_goals exact .pure _

end Layer

/-- **The type of an expression registers variables of the innermost frame and nothing else.** -/
theorem spares_exprTo {id : NodeId} (h : arena.Placed depth (some .expression) id) :
    Spares arena.Misplaced Scope.besidesVars (exprTo arena depth id) := by
  induction depth generalizing id with
  | zero => exact h.grounded.elim
  | succ depth ih => exact spares_follow h.expr fun e he => spares_exprWith ih he

section Below

variable (hclosed : arena.Closed) (hacyclic : arena.Acyclic)
include hclosed hacyclic

theorem spares_expr {id : NodeId} (h : arena.Placed depth (some .expression) id) :
    Spares arena.Misplaced Scope.besidesVars (expr arena id) :=
  spares_exprTo (h.restart hclosed hacyclic)

/-! ### Declarations -/

theorem spares_declarator (declared : Ty) {d : Declarator} (h : d.Tied (arena.places depth) d) :
    Spares arena.Misplaced Scope.around (declarator arena declared d) := by
  refine (Spares.optionMapM fun init hmem => ?_).bind fun inferred => spares_setVariable _ _
  have hinit := of_mem_of_rel_self h.init hmem
  exact (spares_expr hclosed hacyclic hinit).mono Scope.around_eq_of_besidesVars

theorem spares_declare {id : NodeId} (h : arena.Placed depth (some .declaration) id) :
    Spares arena.Misplaced Scope.around (declare arena id) := by
  obtain ⟨less, rfl⟩ := h.grounded.pos
  refine spares_follow h.decl fun d hd => ?_
  cases hd with
  | vars _ ht hd =>
    refine spares_follow ht.ty fun declared _ => .forM fun d hmem => ?_
    exact spares_declarator hclosed hacyclic declared (List.forall₂_same.1 hd d hmem)
  | function name _ _ hr _ =>
    exact spares_follow hr.ty fun ret _ => .modify fun scope => rfl
  | _ => exact .pure _

/-! ### Statements and definitions -/

omit hclosed hacyclic in
theorem spares_params {id : NodeId} (h : arena.Placed depth (some .declaration) id) :
    Spares arena.Misplaced Scope.around (params arena id) := by
  obtain ⟨less, rfl⟩ := h.grounded.pos
  refine spares_follow h.decl fun d hd => ?_
  cases hd with
  | function _ _ hp _ _ =>
    refine .forM fun param hmem => ?_
    exact spares_follow (List.forall₂_same.1 hp param hmem).ty.ty fun ty _ =>
      spares_setVariable param.name ty
  | _ => exact .pure _

section Layer

variable {below : NodeId → Infer Unit}
  (hbelow : ∀ {demand id}, arena.Placed depth demand id →
    Spares arena.Misplaced Scope.around (below id))
include hbelow

/-- A statement with a frame of its own leaves nothing behind. -/
theorem spares_stmtWith_framed {s : Stmt} (h : s.Tied (arena.places depth) Eq s)
    (hframed : s.isFramed = true) : Spares arena.Misplaced id (stmtWith arena below s) := by
  have hexpr {id : NodeId} (h : arena.Placed depth (some .expression) id) :
      Spares arena.Misplaced Scope.around (expr arena id) :=
    (spares_expr hclosed hacyclic h).mono Scope.around_eq_of_besidesVars
  have hopt {a : Option NodeId} (h : Option.Rel (arena.places depth (some .expression)) a a) :
      Spares arena.Misplaced Scope.around (a.forM fun id => discard (expr arena id)) :=
    .optionForM fun id hmem => (hexpr (of_mem_of_rel_self h hmem)).discard
  cases h with
  | block h => exact spares_inFrame (.forM fun id hmem => hbelow (List.forall₂_same.1 h id hmem))
  | forLoop hi hc hu hb =>
    have hinit := Spares.optionForM fun id hmem => hbelow (of_mem_of_rel_self hi hmem)
    exact spares_inFrame
      (hinit.bind fun _ => (hopt hc).bind fun _ => (hopt hu).bind fun _ => hbelow hb)
  | rangeFor _ hr hb =>
    refine spares_inFrame ((hexpr hr.start).bind fun start => (hexpr hr.stop).bind fun stop => ?_)
    exact (spares_setVariable _ _).bind fun _ => hbelow hb
  | forEach _ ht hi hb =>
    refine spares_inFrame (spares_follow ht.ty fun declared _ => (hexpr hi).bind fun _ => ?_)
    exact (spares_setVariable _ _).bind fun _ => hbelow hb
  | _ => cases hframed

/-- Every statement writes the innermost frame at most. -/
theorem spares_stmtWith {s : Stmt} (h : s.Tied (arena.places depth) Eq s) :
    Spares arena.Misplaced Scope.around (stmtWith arena below s) := by
  have hvalue {id : NodeId} (h : arena.Placed depth (some .expression) id) :
      Spares arena.Misplaced Scope.around (discard (expr arena id)) :=
    ((spares_expr hclosed hacyclic h).mono Scope.around_eq_of_besidesVars).discard
  have hframed (hs : s.isFramed = true) :
      Spares arena.Misplaced Scope.around (stmtWith arena below s) :=
    (spares_stmtWith_framed hclosed hacyclic hbelow h hs).mono fun _ _ => congrArg Scope.around
  cases h with
  | block _ | forLoop _ _ _ _ | rangeFor _ _ _ | forEach _ _ _ _ => exact hframed rfl
  | expr h | delete _ h => exact hvalue h
  | @assign op target _ value _ ht hv =>
    have hassign : Spares arena.Misplaced Scope.besidesVars (assignment arena op target value) :=
      spares_assignmentWith (spares_expr hclosed hacyclic) op ht hv
    exact (hassign.mono Scope.around_eq_of_besidesVars).discard
  | multiAssign h => exact .forM fun id hmem => hbelow (List.forall₂_same.1 h id hmem)
  | conditional hb ho =>
    refine (Spares.forM fun branch hmem => ?_).bind fun _ =>
      .optionForM fun id hmem => hbelow (of_mem_of_rel_self ho hmem)
    have hbranch := List.forall₂_same.1 hb branch hmem
    exact (hvalue hbranch.cond).bind fun _ => hbelow hbranch.body
  | switch hs hc =>
    refine (hvalue hs).bind fun _ => .forM fun case hmem => ?_
    exact hbelow (List.forall₂_same.1 hc case hmem).body
  | whileLoop hc hb | doWhile hb hc => exact (hvalue hc).bind fun _ => hbelow hb
  | infinite h => exact hbelow h
  | @ret value _ h =>
    cases h with
    | none => exact .pure _
    | some h => exact hvalue h
  | breakTo _ | continueTo _ | comment _ _ => exact .pure _

end Layer

theorem spares_treeTo {demand : Option Category} {node : NodeId}
    (h : arena.Placed depth demand node) :
    Spares arena.Misplaced Scope.around (treeTo arena depth node) := by
  induction depth generalizing demand node with
  | zero => exact h.grounded.elim
  | succ depth ih =>
    refine spares_follow h.finds fun x hx => ?_
    obtain ⟨found, htied⟩ := hx
    cases htied with
    | expr he =>
      have hexpr := spares_expr hclosed hacyclic (h.recast found)
      exact (hexpr.mono Scope.around_eq_of_besidesVars).discard
    | stmt hs => exact spares_stmtWith hclosed hacyclic ih hs
    | decl hd => exact spares_declare hclosed hacyclic (h.recast found)
    | defn hd =>
      cases hd with
      | program hb _ _ => exact .forM fun id hmem => ih (List.forall₂_same.1 hb id hmem)
      | function hd hb =>
        have hbody := spares_inFrame ((spares_params hd).bind fun _ => ih hb)
        exact (spares_declare hclosed hacyclic hd).bind fun _ =>
          hbody.mono fun _ _ => congrArg Scope.around
      | classBody _ hm =>
        have hmembers := Spares.forM fun id hmem => ih (List.forall₂_same.1 hm id hmem)
        exact (spares_inFrame hmembers).mono fun _ _ => congrArg Scope.around
    | type _ => exact .pure _

/-- A node with a frame of its own leaves nothing behind. -/
theorem spares_treeTo_framed {demand : Option Category} {node : NodeId} {x : Node}
    (h : arena.Placed depth demand node) (found : arena.node node = .ok x)
    (hframed : x.isFramed = true) : Spares arena.Misplaced id (treeTo arena depth node) := by
  obtain ⟨less, rfl⟩ := h.grounded.pos
  refine spares_follow h.finds fun y hy => ?_
  obtain ⟨found', htied⟩ := hy
  rw [found] at found'
  cases found'
  cases htied with
  | stmt hs =>
    exact spares_stmtWith_framed hclosed hacyclic (spares_treeTo hclosed hacyclic) hs hframed
  | defn hd =>
    cases hd with
    | classBody _ hm =>
      refine spares_inFrame (.forM fun id hmem => ?_)
      exact spares_treeTo hclosed hacyclic (List.forall₂_same.1 hm id hmem)
    | program _ _ _ | function _ _ => cases hframed
  | expr _ | decl _ | type _ => cases hframed

omit hclosed hacyclic in
theorem declare_function {decl ret : NodeId} {name : String} {ps : List Param}
    {modifiers : Modifiers} {owner : Option NodeId}
    (hdecl : arena.decl decl = .ok (.function name ps ret modifiers owner)) :
    declare arena decl = (liftM (arena.ty ret) : Infer Ty) >>= fun ty =>
      modify fun scope => scope.setMethod name ty := by
  unfold declare
  rw [hdecl]
  rfl

/-- A function leaves its return type behind and nothing else. -/
theorem treeTo_function {demand : Option Category} {node decl body ret : NodeId} {name : String}
    {ps : List Param} {modifiers : Modifiers} {owner : Option NodeId} {scope after : Scope}
    (h : arena.Placed depth demand node)
    (found : arena.node node = .ok (.defn (.function decl body)))
    (hdecl : arena.decl decl = .ok (.function name ps ret modifiers owner))
    (hrun : treeTo arena depth node scope = .ok () after) :
    ∃ ty, arena.ty ret = .ok ty ∧ after = scope.setMethod name ty := by
  obtain ⟨less, rfl⟩ := h.grounded.pos
  obtain ⟨x, found', htied⟩ := h.node
  rw [found] at found'
  cases found'
  obtain ⟨hd, hb⟩ : arena.Placed less (some .declaration) decl ∧
      arena.Placed less (some .statement) body := by
    cases htied with
    | defn hdefn =>
      cases hdefn with
      | function hd hb => exact ⟨hd, hb⟩
  -- the return type is registered outside: only parameters and body have the frame of their own
  have hframe := spares_inFrame ((spares_params hd).bind fun _ =>
    spares_treeTo hclosed hacyclic hb)
  have hlayer : treeTo arena (less + 1) node = declare arena decl >>= fun _ =>
      inFrame (params arena decl >>= fun _ => treeTo arena less body) := by
    rw [treeTo, found]
    rfl
  rw [hlayer, declare_function hdecl] at hrun
  cases hty : arena.ty ret with
  | ok ty =>
    rw [hty] at hrun
    exact ⟨ty, rfl, hframe.of_ok (s := scope.setMethod name ty) hrun⟩
  | error fault =>
    rw [hty] at hrun
    cases hrun

end Below

/-! ## Whole subtrees -/

/-- What a run over a node leaves of a scope. -/
structure Confined (arena : Arena) (id : NodeId) (before after : Scope) : Prop where
  depth : after.depth = before.depth
  outer : after.outer = before.outer
  /-- Nodes with a frame of their own leave nothing behind. -/
  framed : ∀ x, arena.node id = .ok x → x.isFramed = true → after = before
  /-- A function leaves its return type, under its name. -/
  function : ∀ decl body name params ret modifiers owner,
    arena.node id = .ok (.defn (.function decl body)) →
    arena.decl decl = .ok (.function name params ret modifiers owner) →
    ∃ ty, arena.ty ret = .ok ty ∧ after = before.setMethod name ty ∧
      ∀ other, other ≠ name →
        after.inner.methods.find? other = before.inner.methods.find? other

/-- **Inference over a subtree writes the innermost frame only.**  It ends, unless a reference names
a node of another category than its place demands, and it leaves the frames around the innermost one
as they were; the type of an expression leaves all but the variables as it was. -/
theorem tree_keeps_frames {id : NodeId} (hclosed : arena.Closed) (hacyclic : arena.Acyclic)
    (hid : arena.contains id = true) (scope : Scope) :
    ((∃ after, tree arena id scope = .ok () after ∧ Confined arena id scope after) ∨
      ∃ fault after, tree arena id scope = .error fault after ∧ arena.Misplaced fault) ∧
    ∀ e, arena.node id = .ok (.expr e) →
      (∃ ty vars, expr arena id scope =
        .ok ty { scope with inner := { scope.inner with vars := vars } }) ∨
      ∃ fault after, expr arena id scope = .error fault after ∧ arena.Misplaced fault := by
  have hplaced : arena.Placed arena.depthBound none id :=
    ⟨(Arena.grounded_of_acyclic hclosed hacyclic hid).to_depthBound, fun _ _ h => by cases h⟩
  constructor
  · rcases spares_treeTo hclosed hacyclic hplaced scope with ⟨a, after, hrun, haround⟩ | hstop
    · refine .inl ⟨after, hrun, congrArg Prod.snd haround, congrArg Prod.fst haround, ?_, ?_⟩
      · intro x found hframed
        exact (spares_treeTo_framed hclosed hacyclic hplaced found hframed).of_ok hrun
      · intro decl body name ps ret modifiers owner found hdecl
        obtain ⟨ty, hty, rfl⟩ := treeTo_function hclosed hacyclic hplaced found hdecl hrun
        refine ⟨ty, hty, rfl, fun other hne => ?_⟩
        simp only [Scope.setMethod, Table.find?_insert, if_neg hne]
    · exact .inr hstop
  · intro e found
    rcases spares_expr hclosed hacyclic (hplaced.recast found) scope with
      ⟨ty, after, hrun, hkept⟩ | hstop
    · rw [Scope.eq_of_besidesVars hkept] at hrun
      exact .inl ⟨ty, after.inner.vars, hrun⟩
    · exact .inr hstop

/-- A function whose body is a block that gives a variable a value, run in an inner frame. -/
theorem tree_keeps_frames_function :
    let steps : List Arena.Step := [.alloc (.type .int), .alloc (.type .bool),
      .alloc (.decl (.function "f" [⟨"n", ⟨1⟩⟩] ⟨0⟩ {} none)), .alloc (.expr (.ident "x")),
      .alloc (.expr (.int 1)), .alloc (.stmt (.assign .plain ⟨3⟩ ⟨4⟩)),
      .alloc (.stmt (.block [⟨5⟩])), .alloc (.defn (.function ⟨2⟩ ⟨6⟩))]
    let arena := ({} : Arena).run steps
    let scope : Scope := (Scope.setVariable {} "x" .str).enter
    arena.Closed ∧ arena.Acyclic ∧ arena.contains ⟨7⟩ = true ∧
      tree arena ⟨7⟩ scope = .ok () (scope.setMethod "f" .int) ∧
      tree arena ⟨6⟩ scope = .ok () scope := by
  intro steps arena scope
  have hadmits : ({} : Arena).Admits steps := by decide
  have harena : arena = ⟨#[.type .int, .type .bool, .decl (.function "f" [⟨"n", ⟨1⟩⟩] ⟨0⟩ {} none),
      .expr (.ident "x"), .expr (.int 1), .stmt (.assign .plain ⟨3⟩ ⟨4⟩), .stmt (.block [⟨5⟩]),
      .defn (.function ⟨2⟩ ⟨6⟩)]⟩ := rfl
  obtain ⟨hclosed, hacyclic⟩ : arena.Closed ∧ arena.Acyclic := Arena.run_empty_keeps steps hadmits
  have hplaced : arena.WellPlaced := by
    have hall : ∀ x ∈ arena.nodes.toList, ∀ c ∈ x.children, ∀ category ∈ x.demand c.field,
        arena.isA category c.id = true := by
      rw [harena]
      decide
    exact fun _ x found => hall x (Arena.mem_of_node found)
  have hfunction : arena.contains ⟨7⟩ = true ∧ arena.node ⟨7⟩ = .ok (.defn (.function ⟨2⟩ ⟨6⟩)) ∧
      arena.decl ⟨2⟩ = .ok (.function "f" [⟨"n", ⟨1⟩⟩] ⟨0⟩ {} none) ∧
      arena.ty ⟨0⟩ = .ok .int := by
    rw [harena]
    exact ⟨rfl, rfl, rfl, rfl⟩
  have hblock : arena.contains ⟨6⟩ = true ∧ arena.node ⟨6⟩ = .ok (.stmt (.block [⟨5⟩])) := by
    rw [harena]
    exact ⟨rfl, rfl⟩
  obtain ⟨hid, hnode, hdecl, hret⟩ := hfunction
  have hends (id : NodeId) (hid : arena.contains id = true) :
      ∃ after, tree arena id scope = .ok () after ∧ Confined arena id scope after := by
    refine (tree_keeps_frames hclosed hacyclic hid scope).1.resolve_right ?_
    rintro ⟨fault, after, -, hmisplaced⟩
    exact hmisplaced.1 hplaced
  refine ⟨hclosed, hacyclic, hid, ?_, ?_⟩
  · obtain ⟨after, hrun, hconfined⟩ := hends ⟨7⟩ hid
    obtain ⟨ty, hty, rfl, -⟩ := hconfined.function _ _ _ _ _ _ _ hnode hdecl
    rw [hret] at hty
    cases hty
    exact hrun
  · obtain ⟨after, hrun, hconfined⟩ := hends ⟨6⟩ hblock.1
    rw [hconfined.framed _ hblock.2 rfl] at hrun
    exact hrun

end Infer

end Interlingua
