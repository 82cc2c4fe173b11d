import Interlingua.Emit.Basic
import Interlingua.Proofs.Lockstep.Basic
import Interlingua.Proofs.Lockstep.Node

/-!
# Two views tied together

A *tie* says which identities of two views stand for the same part of a program, and which faults
count as the same.  Everything that is rendered or printed from tied identities is then the same.

* `Tie` — the relation and what has to hold of it.
* `Tie.node`, `Tie.expr`, … — following tied identities gives tied nodes.
* `Tie.Infers`, `Tie.Renders` — computations on tied identities that do the same; they leave the
  frames around the innermost one as they are.

Depths are part of the relation, because the recursions over the two trees start with the bounds of
two arenas: identities are tied *with some depths left* on either side.
-/

namespace Interlingua

/-- What ties two views together. -/
structure Tie (left right : View) where
  /-- Lines are compared blanks included. -/
  exact : Prop
  /-- Faults that count as the same. -/
  fault : Fault → Fault → Prop
  /-- Soft references that count as the same. -/
  soft : Option NodeId → Option NodeId → Prop
  /-- Identities that stand for the same, with some depths left, where a category is demanded. -/
  pair : Nat → Nat → Kinship
  lang_eq : left.lang = right.lang
  isOn_eq : ∀ flag, flag ≠ .bracesOnSameLine ∨ exact → left.isOn flag = right.isOn flag
  soft_isSome : ∀ {target target'}, soft target target' → target.isSome = target'.isSome
  soft_jump : ∀ {m n demand a b target target'}, pair m n demand a b → soft target target' →
    target.any (· ≠ a) = target'.any (· ≠ b)
  soft_entry : ∀ {entry entry'}, soft (some entry) (some entry') →
    pair left.arena.depthBound right.arena.depthBound (some .definition) entry entry'
  /-- The depths left are those of a part of the tree, so a recursion may start anew. -/
  restart : ∀ {m n demand a b}, pair m n demand a b →
    pair left.arena.depthBound right.arena.depthBound demand a b
  /-- The category that a node has may be demanded of it. -/
  recast : ∀ {m n demand a b x}, pair m n demand a b → left.arena.node a = .ok x →
    pair m n (some x.category) a b
  /-- Following identities does not use up any depth. -/
  found : ∀ {m n demand a b}, pair m n demand a b →
    Concur fault (Node.Tied (pair m n) soft) (left.arena.node a) (right.arena.node b)
  /-- Going below them does: either there is none left on either side, or one less. -/
  descend : ∀ {m n demand a b}, pair m n demand a b →
    (m = 0 ∧ n = 0 ∧ fault .endless .endless) ∨
    ∃ m' n', m = m' + 1 ∧ n = n' + 1 ∧
      Concur fault (Node.Tied (pair m' n') soft) (left.arena.node a) (right.arena.node b)
  /-- Nodes of another category than the place demands are the same fault. -/
  miscast : ∀ {m n category a b x}, pair m n (some category) a b → left.arena.node a = .ok x →
    x.category ≠ category → fault (.miscast a x.category) (.miscast b x.category)
  statement : ∀ {m n demand a b}, pair m n demand a b →
    Concur fault Eq (Python.isStatement left a) (Python.isStatement right b)
  bare : ∀ {m n demand a b}, pair m n demand a b →
    Concur fault Eq (Python.isBare left a) (Python.isBare right b)

namespace Tie

variable {left right : View} (tie : Tie left right) {m n : Nat} {a b : NodeId}

/-- Expressions tied with some depths left. -/
abbrev exprs (m n : Nat) : NodeId → NodeId → Prop := tie.pair m n (some .expression)

theorem isOn_eq_of_ne (tie : Tie left right) (flag : Flag) (h : flag ≠ .bracesOnSameLine) :
    left.isOn flag = right.isOn flag :=
  tie.isOn_eq flag (.inl h)

/-! ## Following identities -/

/-- Where the nodes that two identities name are tied, so are the expressions. -/
theorem expr_of_node {k l : Nat} (h : tie.exprs k l a b)
    (hnode : Concur tie.fault (Node.Tied (tie.pair m n) tie.soft) (left.arena.node a)
      (right.arena.node b)) :
    Concur tie.fault (Expr.Tied (tie.pair m n)) (left.arena.expr a) (right.arena.expr b) := by
  unfold Arena.expr
  generalize hx : left.arena.node a = x at hnode
  generalize right.arena.node b = y at hnode
  cases hnode with
  | error hfault => exact .error hfault
  | ok hnode =>
    cases hnode with
    | expr he => exact .ok he
    | stmt _ | decl _ | defn _ | type _ => exact .error (tie.miscast h hx nofun)

/-- The same for statements. -/
theorem stmt_of_node {k l : Nat} (h : tie.pair k l (some .statement) a b)
    (hnode : Concur tie.fault (Node.Tied (tie.pair m n) tie.soft) (left.arena.node a)
      (right.arena.node b)) :
    Concur tie.fault (Stmt.Tied (tie.pair m n) tie.soft) (left.arena.stmt a)
      (right.arena.stmt b) := by
  unfold Arena.stmt
  generalize hx : left.arena.node a = x at hnode
  generalize right.arena.node b = y at hnode
  cases hnode with
  | error hfault => exact .error hfault
  | ok hnode =>
    cases hnode with
    | stmt hs => exact .ok hs
    | expr _ | decl _ | defn _ | type _ => exact .error (tie.miscast h hx nofun)

variable {tie}

theorem expr (h : tie.exprs m n a b) :
    Concur tie.fault (Expr.Tied (tie.pair m n)) (left.arena.expr a) (right.arena.expr b) :=
  tie.expr_of_node h (tie.found h)

theorem stmt (h : tie.pair m n (some .statement) a b) :
    Concur tie.fault (Stmt.Tied (tie.pair m n) tie.soft) (left.arena.stmt a)
      (right.arena.stmt b) :=
  tie.stmt_of_node h (tie.found h)

theorem decl (h : tie.pair m n (some .declaration) a b) :
    Concur tie.fault (Decl.Tied (tie.pair m n)) (left.arena.decl a) (right.arena.decl b) := by
  have hnode := tie.found h
  unfold Arena.decl
  generalize hx : left.arena.node a = x at hnode
  generalize right.arena.node b = y at hnode
  cases hnode with
  | error hfault => exact .error hfault
  | ok hnode =>
    cases hnode with
    | decl hd => exact .ok hd
    | expr _ | stmt _ | defn _ | type _ => exact .error (tie.miscast h hx nofun)

theorem defn (h : tie.pair m n (some .definition) a b) :
    Concur tie.fault (Def.Tied (tie.pair m n) tie.soft) (left.arena.defn a)
      (right.arena.defn b) := by
  have hnode := tie.found h
  unfold Arena.defn
  generalize hx : left.arena.node a = x at hnode
  generalize right.arena.node b = y at hnode
  cases hnode with
  | error hfault => exact .error hfault
  | ok hnode =>
    cases hnode with
    | defn hd => exact .ok hd
    | expr _ | stmt _ | decl _ | type _ => exact .error (tie.miscast h hx nofun)

theorem ty (h : tie.pair m n (some .type) a b) :
    Concur tie.fault Eq (left.arena.ty a) (right.arena.ty b) := by
  have hnode := tie.found h
  unfold Arena.ty
  generalize hx : left.arena.node a = x at hnode
  generalize right.arena.node b = y at hnode
  cases hnode with
  | error hfault => exact .error hfault
  | ok hnode =>
    cases hnode with
    | type ty => exact .ok rfl
    | expr _ | stmt _ | decl _ | defn _ => exact .error (tie.miscast h hx nofun)

/-! ## Recursions -/

variable (tie) in
/-- What holds where no depth is left, and holds with some left if it does one level below, holds
of all tied identities. -/
@[elab_as_elim]
theorem recursion
    {motive : ∀ m n demand a b, tie.pair m n demand a b → Prop}
    (zero : ∀ demand a b (h : tie.pair 0 0 demand a b), tie.fault .endless .endless →
      motive 0 0 demand a b h)
    (succ : ∀ m n, (∀ {demand a b} (h : tie.pair m n demand a b), motive m n demand a b h) →
      ∀ demand a b (h : tie.pair (m + 1) (n + 1) demand a b),
        Concur tie.fault (Node.Tied (tie.pair m n) tie.soft) (left.arena.node a)
          (right.arena.node b) → motive (m + 1) (n + 1) demand a b h)
    {m n : Nat} {demand : Option Category} {a b : NodeId} (h : tie.pair m n demand a b) :
    motive m n demand a b h := by
  induction m generalizing n demand a b with
  | zero =>
    obtain ⟨-, rfl, hfault⟩ | ⟨_, _, hm, -⟩ := tie.descend h
    · exact zero demand a b h hfault
    · cases hm
  | succ m ih =>
    obtain ⟨hm, -⟩ | ⟨m', n', hm, rfl, hnode⟩ := tie.descend h
    · cases hm
    · cases hm
      exact succ m n' ih demand a b h hnode

variable (tie) in
/-- The same over expressions only. -/
@[elab_as_elim]
theorem exprRecursion {motive : ∀ m n a b, tie.exprs m n a b → Prop}
    (zero : ∀ a b (h : tie.exprs 0 0 a b), tie.fault .endless .endless → motive 0 0 a b h)
    (succ : ∀ m n, (∀ {a b} (h : tie.exprs m n a b), motive m n a b h) →
      ∀ a b (h : tie.exprs (m + 1) (n + 1) a b),
        Concur tie.fault (Expr.Tied (tie.pair m n)) (left.arena.expr a) (right.arena.expr b) →
          motive (m + 1) (n + 1) a b h)
    {m n : Nat} {a b : NodeId} (h : tie.exprs m n a b) : motive m n a b h := by
  induction m generalizing n a b with
  | zero =>
    obtain ⟨-, rfl, hfault⟩ | ⟨_, _, hm, -⟩ := tie.descend h
    · exact zero a b h hfault
    · cases hm
  | succ m ih =>
    obtain ⟨hm, -⟩ | ⟨m', n', hm, rfl, hnode⟩ := tie.descend h
    · cases hm
    · cases hm
      exact succ m n' ih a b h (tie.expr_of_node h hnode)

/-! ## Computations on a scope -/

/-- Equal scopes with the given frames around the innermost one. -/
def Scopes (around : List Frame × Nat) (s t : Scope) : Prop := s = t ∧ s.around = around

variable (tie) in
/-- Errors that count as the same.  An indentation below zero and a misuse of a scope count as no
error at all. -/
inductive Error : EmitError → EmitError → Prop
  | fault {f g : Fault} (h : tie.fault f g) : Error (.ofFault f) (.ofFault g)
  | unsupported (language construct : String) :
      Error (.unsupported language construct) (.unsupported language construct)
  | malformed (node reason : String) :
      Error (.tree (.malformed node reason)) (.tree (.malformed node reason))

variable (tie) in
/-- Inferences that do the same. -/
abbrev Infers {α β : Type} (value : α → β → Prop) (x : Infer α) (y : Infer β) : Prop :=
  Keeps tie.fault Scopes value x y

variable (tie) in
/-- Renderings that do the same. -/
abbrev Renders {α β : Type} (value : α → β → Prop) (x : Render α) (y : Render β) : Prop :=
  Keeps tie.Error Scopes value x y

variable {α β : Type} {value : α → β → Prop}

theorem Infers.get : tie.Infers Eq get get :=
  fun _ _ _ hst => .ok hst.1 hst

/-- A change of the innermost frame. -/
theorem Infers.modify {f : Scope → Scope} (h : ∀ scope, (f scope).around = scope.around) :
    tie.Infers Eq (modify f) (modify f) := by
  rintro around s _ ⟨rfl, haround⟩
  exact .ok rfl ⟨rfl, (h s).trans haround⟩

theorem Infers.follow {x : Except Fault α} {y : Except Fault β} (h : Concur tie.fault value x y) :
    tie.Infers value (liftM x) (liftM y) := by
  cases h with
  | ok h => exact Keeps.pure h
  | error h => exact Keeps.throw h

theorem Renders.get : tie.Renders Eq get get :=
  fun _ _ _ hst => .ok hst.1 hst

theorem Renders.setVariable (name : String) (ty : Ty) :
    tie.Renders Eq (modify (·.setVariable name ty)) (modify (·.setVariable name ty)) := by
  rintro around s _ ⟨rfl, haround⟩
  exact .ok rfl ⟨rfl, haround⟩

theorem Renders.follow {x : Except Fault α} {y : Except Fault β} (h : Concur tie.fault value x y) :
    tie.Renders value (liftM x) (liftM y) := by
  cases h with
  | ok h => exact Keeps.pure h
  | error h => exact Keeps.throw (.fault h)

theorem Renders.allowed {x : Except EmitError α} {y : Except EmitError β}
    (h : Concur tie.Error value x y) : tie.Renders value (liftM x) (liftM y) := by
  cases h with
  | ok h => exact Keeps.pure h
  | error h => exact Keeps.throw h

theorem run_liftM_infer {α : Type} (x : Infer α) (scope : Scope) :
    (liftM x : Render α) scope =
      match x scope with
      | .ok value after => .ok value after
      | .error fault after => .error (.ofFault fault) after :=
  rfl

theorem Renders.infer {x : Infer α} {y : Infer β} (h : tie.Infers value x y) :
    tie.Renders value (liftM x) (liftM y) := by
  intro around s t hst
  have hends := h around hst
  rw [run_liftM_infer, run_liftM_infer]
  generalize x s = r at hends
  generalize y t = r' at hends
  cases hends with
  | ok h hstate => exact .ok h hstate
  | error h => exact .error (.fault h)

/-- The refusal of what the language cannot say. -/
theorem Error.refusal (tie : Tie left right) (construct : String) :
    tie.Error (left.refusal construct) (right.refusal construct) := by
  unfold View.refusal
  rw [tie.lang_eq]
  exact .unsupported _ _

theorem Error.refusal_of_eq (tie : Tie left right) {construct construct' : String}
    (h : construct = construct') : tie.Error (left.refusal construct) (right.refusal construct') :=
  h ▸ .refusal tie construct

/-- The refusal of a declaration, which its kind stands for. -/
theorem Error.declRefusal (tie : Tie left right) {d d' : Decl} (h : d.Tied (tie.pair m n) d')
    (place : String) :
    tie.Error (left.refusal (d.kindName ++ place)) (right.refusal (d'.kindName ++ place)) :=
  .refusal_of_eq tie (congrArg (· ++ place) h.kindName_eq)

theorem Error.operatorRefusal (tie : Tie left right) (symbol : String) :
    tie.Error (left.operatorRefusal symbol) (right.operatorRefusal symbol) :=
  .refusal tie _

end Tie

end Interlingua
