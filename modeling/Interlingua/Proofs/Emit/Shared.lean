import Interlingua.Proofs.Emit.Agreement
import Interlingua.Proofs.Lockstep.Node

/-!
# Expressions that Java and C++ write alike

The binding levels of Java and of C++ are different numbers, with different gaps between them, but
the operators that both have stand in the same order.

* `OperatorForm.toCpp` — the form of C++ for a form of Java.
* `OperatorForm.mustGroup_toCpp` — the same operands are grouped under both.
* `Expr.Shared` — a layer of what both languages write alike.
* `Render.Twins` — two renderings that yield the same text, whatever is registered.  Each way of
  putting renderings together keeps this.
* `View.expr_eq_of_shared` — an expression that is shared throughout has one text in both languages.
-/

namespace Interlingua

/-! ## Binding levels -/

/-- The level of C++ that stands where a level of Java does. -/
def Java.toCppLevel (level : Nat) : Nat :=
  if level ≤ Java.preLevel then level + 1
  else if level ≤ Java.shiftLevel then level + 2
  else level + 3

theorem Java.toCppLevel_lt_iff {a b : Nat} : toCppLevel a < toCppLevel b ↔ a < b := by
  simp only [toCppLevel, Java.preLevel, Java.shiftLevel]
  grind

theorem Java.toCppLevel_inj {a b : Nat} : toCppLevel a = toCppLevel b ↔ a = b := by
  simp only [toCppLevel, Java.preLevel, Java.shiftLevel]
  grind

/-- The form that an operator of Java has in C++. -/
def OperatorForm.toCpp (form : OperatorForm) : OperatorForm :=
  { form with level := Java.toCppLevel form.level }

/-- **Both languages group the same operands.** -/
theorem OperatorForm.mustGroup_toCpp (parent child : OperatorForm) (side : Side) :
    parent.toCpp.mustGroup child.toCpp side = parent.mustGroup child side := by
  simp [mustGroup, isLeading, toCpp, Java.toCppLevel_inj, Java.toCppLevel_lt_iff]

/-! ## Shared expressions -/

/-- Binary operators that have a token in both languages. -/
def BinaryOp.isShared (op : BinaryOp) : Bool := (Java.binary op).isSome && (Cpp.binary op).isSome

/-- Unary operators other than those on pointers. -/
def UnaryOp.isShared (op : UnaryOp) : Bool := op ≠ .deref && op ≠ .addressOf

/-- Types that values are cast to by the same name. -/
def Ty.isShared : Ty → Bool
  | .int | .float | .char | .user _ => true
  | _ => false

/-- One layer of the expressions that both languages write alike. -/
def Expr.Shared (arena : Arena) : Expr → Prop
  | .ident _ | .int _ | .float _ | .bool _ | .char _ | .selfRef => True
  | .str _ kind => kind = .plain ∨ kind = .multiline
  | .binary op _ _ => op.isShared = true
  | .unary op _ => op.isShared = true
  | .ternary .. | .compound _ | .paren _ | .call .. | .method .. | .index .. | .member .. => True
  | .new ty _ => ∃ name, arena.ty ty = .ok (.user name)
  | .cast ty _ => ∃ target, arena.ty ty = .ok target ∧ target.isShared = true
  | _ => False

theorem BinaryOp.cpp_of_java {op : BinaryOp} (h : op.isShared = true) :
    ∃ form, Java.binary op = some form ∧ Cpp.binary op = some form.toCpp := by
  cases op <;> first | exact ⟨_, rfl, rfl⟩ | exact absurd h (by decide)

theorem UnaryOp.cpp_of_java {op : UnaryOp} (h : op.isShared = true) :
    ∃ form, Java.unary op = some form ∧ Cpp.unary op = some form.toCpp := by
  cases op <;> first | exact ⟨_, rfl, rfl⟩ | exact absurd h (by decide)

theorem Ty.typeName_of_isShared {ty : Ty} (h : ty.isShared = true) :
    Java.typeName ty = .ok (Cpp.typeName ty) := by
  cases ty with
  | int | float | char | user _ => rfl
  | _ => cases h

/-- A shared expression is written with the same operator. -/
theorem Expr.Shared.formOf?_cpp {arena : Arena} {e : Expr} (h : e.Shared arena) :
    Language.cpp.formOf? e = (Language.java.formOf? e).map OperatorForm.toCpp := by
  cases e with
  | binary op _ _ =>
    obtain ⟨form, hjava, hcpp⟩ := BinaryOp.cpp_of_java h
    exact hcpp.trans (congrArg (Option.map OperatorForm.toCpp) hjava).symm
  | unary op _ =>
    obtain ⟨form, hjava, hcpp⟩ := UnaryOp.cpp_of_java h
    exact hcpp.trans (congrArg (Option.map OperatorForm.toCpp) hjava).symm
  | int value =>
    by_cases hneg : value < 0
    · simp only [Language.formOf?, if_pos hneg]
      rfl
    · simp only [Language.formOf?, if_neg hneg]
      rfl
  | float bits =>
    by_cases hneg : Decimal.Binary64.signBit bits = true
    · simp only [Language.formOf?, if_pos hneg]
      rfl
    · simp only [Language.formOf?, if_neg hneg]
      rfl
  | _ => first | rfl | exact h.elim

theorem Language.wraps_of_expr (lang : Language) {arena : Arena} {id : NodeId} {e : Expr}
    (parent : OperatorForm) (side : Side) (found : arena.expr id = .ok e) :
    lang.wraps arena parent id side =
      .ok ((lang.formOf? e).any fun form => parent.mustGroup form side) := by
  unfold wraps exprForm?
  rw [found]
  simp only [bind, Except.bind, pure, Except.pure]
  cases lang.formOf? e <;> rfl

/-! ## Renderings that yield the same -/

namespace Render

variable {α β : Type} {x y : Render α} {f g : α → Render β}

/-- Two renderings yield the same, and neither depends on what is registered nor registers
anything. -/
def Twins (x y : Render α) : Prop := ∃ a, x = pure a ∧ y = pure a

protected theorem Twins.pure (a : α) : Twins (pure a) (pure a) := ⟨a, rfl, rfl⟩

theorem Twins.after (a : α) (hx : x = pure a) (hy : y = pure a) (hnext : Twins (f a) (g a)) :
    Twins (x >>= f) (y >>= g) := by
  rwa [hx, hy, pure_bind, pure_bind]

protected theorem Twins.bind (h : Twins x y) (hnext : ∀ a, Twins (f a) (g a)) :
    Twins (x >>= f) (y >>= g) := by
  obtain ⟨a, hx, hy⟩ := h
  exact .after a hx hy (hnext a)

theorem Twins.mapM {f g : β → Render α} {bs : List β} (h : ∀ b ∈ bs, Twins (f b) (g b)) :
    Twins (bs.mapM f) (bs.mapM g) := by
  induction bs with
  | nil => exact .pure []
  | cons b bs ih =>
    rw [List.mapM_cons, List.mapM_cons]
    refine (h b List.mem_cons_self).bind fun a => ?_
    exact (ih fun b' hb => h b' (List.mem_cons_of_mem b hb)).bind fun as => .pure (a :: as)

end Render

/-! ## One layer -/

section Layer

open Render

variable {tree : Tree} {options options' : Options} {below below' : NodeId → Render String}

/-- An expression below that is shared and has the same text in both languages. -/
structure Site.Pairs (tree : Tree) (below below' : NodeId → Render String) (id : NodeId) :
    Prop where
  shared : ∃ e, tree.arena.expr id = .ok e ∧ e.Shared tree.arena
  twins : Twins (below id) (below' id)

namespace Site.Pairs

variable {id left right : NodeId}

/-- Whether a shared expression is grouped, under the same operator in both languages. -/
theorem wraps (h : Pairs tree below below' id) (parent : OperatorForm) (side : Side) :
    ∃ grouped, Language.java.wraps tree.arena parent id side = .ok grouped ∧
      Language.cpp.wraps tree.arena parent.toCpp id side = .ok grouped := by
  obtain ⟨e, found, hshared⟩ := h.shared
  refine ⟨_, Language.wraps_of_expr .java parent side found, ?_⟩
  rw [Language.wraps_of_expr .cpp parent.toCpp side found, hshared.formOf?_cpp]
  simp only [Option.any_map, OperatorForm.mustGroup_toCpp]

/-- A shared operand is written alike under the same operator. -/
theorem operand (h : Pairs tree below below' id) (form : OperatorForm) (side : Side) :
    Twins (Site.operand ⟨⟨tree, .java, options⟩, below⟩ form id side)
      (Site.operand ⟨⟨tree, .cpp, options'⟩, below'⟩ form.toCpp id side) := by
  obtain ⟨grouped, hjava, hcpp⟩ := h.wraps form side
  refine h.twins.bind fun text => ?_
  simp only [Site.lang, Site.arena, View.arena, hjava, hcpp]
  cases grouped with
  | true => exact .pure (parenthesized text)
  | false => exact .pure text

theorem between (hl : Pairs tree below below' left) (hr : Pairs tree below below' right)
    (form : OperatorForm) :
    Twins (Site.between ⟨⟨tree, .java, options⟩, below⟩ form left right)
      (Site.between ⟨⟨tree, .cpp, options'⟩, below'⟩ form.toCpp left right) :=
  (hl.operand form .left).bind fun leftText => (hr.operand form .right).bind fun rightText =>
    .pure (leftText ++ " " ++ form.value ++ " " ++ rightText)

theorem accessed (h : Pairs tree below below' id) :
    Twins (Site.accessed ⟨⟨tree, .java, options⟩, below⟩ id)
      (Site.accessed ⟨⟨tree, .cpp, options'⟩, below'⟩ id) :=
  h.operand Java.operators.access .left

theorem args {ids : List NodeId} (h : ∀ id ∈ ids, Pairs tree below below' id) :
    Twins (Site.args ⟨⟨tree, .java, options⟩, below⟩ ids)
      (Site.args ⟨⟨tree, .cpp, options'⟩, below'⟩ ids) :=
  (Twins.mapM fun id hid => (h id hid).twins).bind fun texts => .pure (commas texts)

theorem binary {op : BinaryOp} (hl : Pairs tree below below' left)
    (hr : Pairs tree below below' right) (hop : op.isShared = true) :
    Twins (Java.binaryExpr ⟨⟨tree, .java, options⟩, below⟩ op left right)
      (Cpp.binaryExpr ⟨⟨tree, .cpp, options'⟩, below'⟩ op left right) := by
  obtain ⟨form, hjava, hcpp⟩ := BinaryOp.cpp_of_java hop
  have hsite : Twins (Site.binary ⟨⟨tree, .java, options⟩, below⟩ op left right)
      (Site.binary ⟨⟨tree, .cpp, options'⟩, below'⟩ op left right) := by
    simpa only [Site.binary, Site.lang, Language.operators, Java.operators, Cpp.operators, hjava,
      hcpp] using hl.between hr form
  -- powers and floor division, which are written in other ways, have no token
  cases op <;> first | exact hsite | cases hop

theorem unary {op : UnaryOp} (h : Pairs tree below below' id) (hop : op.isShared = true) :
    Twins (Site.unary ⟨⟨tree, .java, options⟩, below⟩ op id)
      (Site.unary ⟨⟨tree, .cpp, options'⟩, below'⟩ op id) := by
  obtain ⟨form, hjava, hcpp⟩ := UnaryOp.cpp_of_java hop
  simp only [Site.unary, Site.lang, Language.operators, Java.operators, Cpp.operators, hjava, hcpp,
    Site.unaryOperand]
  by_cases hpost : op.isPost = true
  · simp only [if_pos hpost]
    exact (h.operand form .left).bind fun text => .pure (text ++ form.value)
  · simp only [if_neg hpost]
    exact (h.operand form .right).bind fun text => .pure _

theorem ternary {cond whenTrue whenFalse : NodeId} (hc : Pairs tree below below' cond)
    (ht : Pairs tree below below' whenTrue) (hf : Pairs tree below below' whenFalse) :
    Twins (Site.ternary ⟨⟨tree, .java, options⟩, below⟩ cond whenTrue whenFalse)
      (Site.ternary ⟨⟨tree, .cpp, options'⟩, below'⟩ cond whenTrue whenFalse) :=
  (hc.operand Java.operators.ternary.1 .left).bind fun _ =>
    (ht.operand Java.operators.ternary.1 .center).bind fun _ =>
      (hf.operand Java.operators.ternary.1 .right).bind fun _ => .pure _

theorem compound {items : List NodeId} (h : ∀ item ∈ items, Pairs tree below below' item) :
    Twins (Braced.compound ⟨⟨tree, .java, options⟩, below⟩ items)
      (Braced.compound ⟨⟨tree, .cpp, options'⟩, below'⟩ items) := by
  let form : OperatorForm := .between "&&" Java.andLevel .left
  cases items with
  | nil => exact .pure _
  | cons first rest =>
    refine ((h first List.mem_cons_self).operand form .left).bind fun firstText => ?_
    refine (Twins.mapM fun item hitem => ?_).bind fun restTexts => .pure _
    exact (h item (List.mem_cons_of_mem first hitem)).operand form .right

theorem cast {ty : NodeId} {target : Ty} (h : Pairs tree below below' id)
    (found : tree.arena.ty ty = .ok target) (htarget : target.isShared = true) :
    Twins (Braced.cast Java.typeName ⟨⟨tree, .java, options⟩, below⟩ ty id)
      (Braced.cast (fun ty => .ok (Cpp.typeName ty)) ⟨⟨tree, .cpp, options'⟩, below'⟩ ty id) := by
  let form : OperatorForm := .before "(cast)" Java.preLevel
  simp only [Braced.cast, Site.lang, Site.arena, View.arena, Language.operators, Java.operators,
    Cpp.operators, found]
  refine Twins.after target rfl rfl (Twins.after (Cpp.typeName target) ?_ rfl ?_)
  · rw [Ty.typeName_of_isShared htarget]
    rfl
  · exact (h.operand form .right).bind fun text => .pure _

theorem newObject {target : Ty} {args : List NodeId} (htarget : target.isShared = true)
    (h : ∀ arg ∈ args, Pairs tree below below' arg) :
    Twins (Braced.newObject Java.typeName ⟨⟨tree, .java, options⟩, below⟩ target args)
      (Braced.newObject (fun ty => .ok (Cpp.typeName ty)) ⟨⟨tree, .cpp, options'⟩, below'⟩
        target args) := by
  unfold Braced.newObject
  rw [Ty.typeName_of_isShared htarget]
  exact (Site.Pairs.args h).bind fun _ => .pure _

end Site.Pairs

/-- Pairs of expressions, as a relation of the children of a node to themselves. -/
abbrev Site.pairs (tree : Tree) (below below' : NodeId → Render String) : Kinship :=
  fun demand id _ => demand = some .expression → Site.Pairs tree below below' id

/-- **A shared layer is written alike if what is below it is.** -/
theorem Render.Twins.layer {id : NodeId} {e : Expr} (hshared : e.Shared tree.arena)
    (h : e.Tied (Site.pairs tree below below') e) :
    Twins (Java.dialect.expr ⟨⟨tree, .java, options⟩, below⟩ id e)
      (Cpp.dialect.expr ⟨⟨tree, .cpp, options'⟩, below'⟩ id e) := by
  have hall {ids : List NodeId}
      (h : List.Forall₂ (Site.pairs tree below below' (some .expression)) ids ids) :
      ∀ id ∈ ids, Site.Pairs tree below below' id :=
    fun id hid => List.forall₂_same.1 h id hid rfl
  cases h with
  | int _ | float _ | char _ | ident _ | selfRef => exact .pure _
  | bool value => cases value <;> exact .pure _
  | str value kind => rcases hshared with rfl | rfl <;> exact .pure _
  | binary op hl hr => exact (hl rfl).binary (hr rfl) hshared
  | unary op h => exact (h rfl).unary hshared
  | ternary hc ht hf => exact (hc rfl).ternary (ht rfl) (hf rfl)
  | compound h => exact Site.Pairs.compound (hall h)
  | paren h => exact (h rfl).twins.bind fun text => .pure (parenthesized text)
  | call hc ha =>
    exact (hc rfl).accessed.bind fun _ => (Site.Pairs.args (hall ha)).bind fun _ => .pure _
  | method name hr ha =>
    exact (hr rfl).accessed.bind fun _ => (Site.Pairs.args (hall ha)).bind fun _ => .pure _
  | index ht hp => exact (ht rfl).accessed.bind fun _ => (hp rfl).twins.bind fun _ => .pure _
  | member name h => exact (h rfl).accessed.bind fun _ => .pure _
  | cast _ hv =>
    obtain ⟨target, found, htarget⟩ := hshared
    exact (hv rfl).cast found htarget
  | new _ ha =>
    obtain ⟨name, found⟩ := hshared
    simp only [Dialect.expr, Site.arena, View.arena, found]
    have htarget : (Ty.user name).isShared = true := rfl
    exact Site.Pairs.newObject htarget (hall ha)
  | _ => exact hshared.elim

end Layer

namespace View

theorem twins_exprTo {tree : Tree} {depth : Nat} {id : NodeId} (options options' : Options)
    (h : tree.arena.Throughout (Expr.Shared tree.arena) id)
    (hdepth : tree.arena.GroundedTo depth id) :
    Render.Twins ((⟨tree, .java, options⟩ : View).exprTo depth id)
      ((⟨tree, .cpp, options'⟩ : View).exprTo depth id) := by
  induction depth generalizing id with
  | zero => exact hdepth.elim
  | succ depth ih =>
    obtain ⟨e, found⟩ := h.exists_expr
    obtain ⟨hshared, hbelow⟩ := h.of_expr found
    have hlayer (view : View) (hview : view.tree = tree) : view.exprTo (depth + 1) id =
        view.lang.dialect.expr ⟨view, view.exprTo depth⟩ id e :=
      exprTo_succ (by rw [View.arena, hview]; exact found)
    rw [hlayer ⟨tree, .java, options⟩ rfl, hlayer ⟨tree, .cpp, options'⟩ rfl]
    refine Render.Twins.layer hshared (.of_skeleton rfl (List.forall₂_same.2 ?_))
    intro c hc hdemand
    have htype : c.field ≠ "type" := by
      intro htype
      simp [Node.demand_expr, Expr.demand, htype] at hdemand
    have hchild := hbelow c hc htype
    obtain ⟨e', found'⟩ := hchild.exists_expr
    exact ⟨⟨e', found', (hchild.of_expr found').1⟩, ih hchild (hdepth.belowExpr found c hc)⟩

/-- **Java and C++ write shared expressions alike.** -/
theorem expr_eq_of_shared (tree : Tree) (id : NodeId) (options options' : Options)
    (scope scope' : Scope) (h : tree.arena.Throughout (Expr.Shared tree.arena) id) :
    ∃ text, (⟨tree, .java, options⟩ : View).expr id scope = .ok text scope ∧
      (⟨tree, .cpp, options'⟩ : View).expr id scope' = .ok text scope' := by
  obtain ⟨text, hjava, hcpp⟩ := twins_exprTo options options' h h.grounded.to_depthBound
  exact ⟨text, congrFun hjava scope, congrFun hcpp scope'⟩

/-- A cast of a difference with a conditional on its right: both are grouped in both languages. -/
theorem expr_eq_of_shared_cast :
    let arena : Arena := ⟨#[.expr (.ident "a"), .expr (.ident "b"), .expr (.ident "c"),
      .expr (.int (-1)), .expr (.ternary ⟨1⟩ ⟨2⟩ ⟨3⟩), .expr (.binary .sub ⟨0⟩ ⟨4⟩), .type .int,
      .expr (.cast ⟨6⟩ ⟨5⟩)]⟩
    let java := View.make ⟨arena, ⟨7⟩⟩ .java {}
    let cpp := View.make ⟨arena, ⟨7⟩⟩ .cpp {}
    ∃ text, java.expr ⟨7⟩ {} = .ok text {} ∧ cpp.expr ⟨7⟩ {} = .ok text {} ∧
      text = "(int) (a - (b ? c : -1))" := by
  intro arena java cpp
  have hleaf (id : NodeId) (e : Expr) (found : arena.expr id = .ok e) (hshared : e.Shared arena)
      (hchildren : e.children = []) : arena.Throughout (Expr.Shared arena) id :=
    .intro found hshared (by simp [hchildren]) (by simp [hchildren])
  have hb := hleaf ⟨1⟩ (.ident "b") rfl trivial rfl
  have hc := hleaf ⟨2⟩ (.ident "c") rfl trivial rfl
  have hone := hleaf ⟨3⟩ (.int (-1)) rfl trivial rfl
  have hchoice : arena.Throughout (Expr.Shared arena) ⟨4⟩ :=
    .intro (e := .ternary ⟨1⟩ ⟨2⟩ ⟨3⟩) rfl trivial (by simp [Expr.children, hb, hc, hone])
      (by simp [Expr.children])
  have hdifference : arena.Throughout (Expr.Shared arena) ⟨5⟩ :=
    .intro (e := .binary .sub ⟨0⟩ ⟨4⟩) rfl rfl
      (by simp [Expr.children, hleaf ⟨0⟩ (.ident "a") rfl trivial rfl, hchoice])
      (by simp [Expr.children])
  have hint : arena.node ⟨6⟩ = .ok (.type .int) := rfl
  have htype : arena.Grounded ⟨6⟩ := .intro hint (by simp [Node.children])
  have hcast : arena.Throughout (Expr.Shared arena) ⟨7⟩ :=
    .intro (e := .cast ⟨6⟩ ⟨5⟩) rfl ⟨.int, rfl, rfl⟩ (by simp [Expr.children, hdifference])
      (by simp [Expr.children, htype])
  obtain ⟨text, hjava, hcpp⟩ :=
    expr_eq_of_shared ⟨arena, ⟨7⟩⟩ ⟨7⟩ java.options cpp.options {} {} hcast
  have htext : java.expr ⟨7⟩ {} = .ok "(int) (a - (b ? c : -1))" {} := rfl
  cases hjava.symm.trans htext
  exact ⟨_, hjava, hcpp, rfl⟩

end View

end Interlingua
