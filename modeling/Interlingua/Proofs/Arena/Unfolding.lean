import Interlingua.Arena.Same
import Interlingua.Proofs.Arena.Search
import Interlingua.Proofs.Lockstep.Node

/-!
# Unfolded trees

A subtree of an arena with every identity replaced by what it names.

* `Unfolded` — trees without identities.  A soft reference counts by its presence.
* `Arena.unfold` — the tree that lies below an identity.
* `Node.unfoldWith_eq_iff` — one layer: two nodes unfold alike exactly if they have the same
  skeleton and their children, field by field, unfold alike.  Erasing the identities and listing
  the children lose nothing between them.
* `Arena.same_eq` — the comparison of two closed subtrees without cycles answers, and it answers
  whether they unfold to the same tree.
* `Subtree.same_iff_unfold_eq` — so it is an equivalence across arenas, and a copy compares as the
  subtree it is a copy of: in another order, with or without sharing, among other nodes.
-/

namespace Interlingua

/-- How a case is selected and left, over any kind of value. -/
inductive LabelOf (α : Type) where
  | leaves (value : α)
  | falls (value : α)
  | default

/-- A tree: a node whose owned children are trees. -/
inductive Unfolded where
  /-- Stands where a reference cannot be followed, or is followed too far down. -/
  | missing
  | int (value : Int)
  | float (bits : UInt64)
  | bool (value : Bool)
  | char (value : Char)
  | str (value : String) (kind : StringKind)
  | interpolated (parts : List Unfolded)
  | null
  | collection (kind : CollectionKind) (items : List Unfolded)
  | dict (entries : List (Unfolded × Unfolded))
  | ident (name : String)
  | scoped (path : List String)
  | selfRef
  | superRef
  | binary (op : BinaryOp) (left right : Unfolded)
  | unary (op : UnaryOp) (operand : Unfolded)
  | assignExpr (op : AssignOp) (target value : Unfolded)
  | ternary (cond whenTrue whenFalse : Unfolded)
  | compound (comparisons : List Unfolded)
  | paren (inner : Unfolded)
  | call (callee : Unfolded) (args : List Unfolded)
  | method (receiver : Unfolded) (name : String) (args : List Unfolded)
  | index (target position : Unfolded)
  | member (target : Unfolded) (name : String)
  | cast (ty value : Unfolded)
  | sizeOf (value : Unfolded)
  | new (ty : Unfolded) (args : List Unfolded)
  | newArray (ty : Unfolded) (dims : List Unfolded) (init : Option Unfolded)
  | sequence (items : List Unfolded)
  | block (body : List Unfolded)
  | exprStmt (value : Unfolded)
  | assign (op : AssignOp) (target value : Unfolded)
  | multiAssign (items : List Unfolded)
  | conditional (branches : List (Unfolded × Unfolded)) (otherwise : Option Unfolded)
  | switch (subject : Unfolded) (cases : List (LabelOf Unfolded × Unfolded))
  | whileLoop (cond body : Unfolded)
  | doWhile (body cond : Unfolded)
  | forLoop (init cond update : Option Unfolded) (body : Unfolded)
  | rangeFor (var : String) (start stop : Unfolded) (step : Option Unfolded)
      (inclusive descending : Bool) (body : Unfolded)
  | forEach (var : String) (ty iterable body : Unfolded)
  | infinite (body : Unfolded)
  | breakTo (targeted : Bool)
  | continueTo (targeted : Bool)
  | ret (value : Option Unfolded)
  | delete (target : Unfolded) (array : Bool)
  | comment (text : String) (multiline : Bool)
  | vars (ty : Unfolded) (declarators : List (String × Option Unfolded)) (modifiers : Modifiers)
  | signature (name : String) (params : List (String × Unfolded)) (ret : Unfolded)
      (modifiers : Modifiers) (owned : Bool)
  | classHead (name : String) (parents : List Unfolded) (modifiers : Modifiers)
  | imports (path : List String) (items : ImportItems) (static : Bool)
  | package (path : List String)
  | includes (path : String) (system : Bool)
  | program (body : List Unfolded) (hasMainClass hasEntryPoint : Bool)
  | function (decl body : Unfolded)
  | classBody (decl : Unfolded) (members : List Unfolded)
  | type (ty : Ty)

/-! ## One layer -/

section Layer

variable (f : NodeId → Unfolded)

/-- An expression with its children replaced by trees. -/
def Expr.unfoldWith : Expr → Unfolded
  | .int value => .int value
  | .float bits => .float bits
  | .bool value => .bool value
  | .char value => .char value
  | .str value kind => .str value kind
  | .interpolated parts => .interpolated (parts.map f)
  | .null => .null
  | .collection kind items => .collection kind (items.map f)
  | .dict entries => .dict (entries.map fun entry => (f entry.1, f entry.2))
  | .ident name => .ident name
  | .scoped path => .scoped path
  | .selfRef => .selfRef
  | .superRef => .superRef
  | .binary op left right => .binary op (f left) (f right)
  | .unary op operand => .unary op (f operand)
  | .assign op target value => .assignExpr op (f target) (f value)
  | .ternary cond whenTrue whenFalse => .ternary (f cond) (f whenTrue) (f whenFalse)
  | .compound comparisons => .compound (comparisons.map f)
  | .paren inner => .paren (f inner)
  | .call callee args => .call (f callee) (args.map f)
  | .method receiver name args => .method (f receiver) name (args.map f)
  | .index target position => .index (f target) (f position)
  | .member target name => .member (f target) name
  | .cast ty value => .cast (f ty) (f value)
  | .sizeOf value => .sizeOf (f value)
  | .new ty args => .new (f ty) (args.map f)
  | .newArray ty dims init => .newArray (f ty) (dims.map f) (init.map f)
  | .sequence items => .sequence (items.map f)

/-- A label with its value replaced by a tree. -/
def CaseLabel.unfoldWith : CaseLabel → LabelOf Unfolded
  | .leaves value => .leaves (f value)
  | .falls value => .falls (f value)
  | .default => .default

/-- A statement with its children replaced by trees. -/
def Stmt.unfoldWith : Stmt → Unfolded
  | .block body => .block (body.map f)
  | .expr value => .exprStmt (f value)
  | .assign op target value => .assign op (f target) (f value)
  | .multiAssign items => .multiAssign (items.map f)
  | .conditional branches otherwise =>
      .conditional (branches.map fun branch => (f branch.cond, f branch.body)) (otherwise.map f)
  | .switch subject cases =>
      .switch (f subject) (cases.map fun case => (case.label.unfoldWith f, f case.body))
  | .whileLoop cond body => .whileLoop (f cond) (f body)
  | .doWhile body cond => .doWhile (f body) (f cond)
  | .forLoop init cond update body => .forLoop (init.map f) (cond.map f) (update.map f) (f body)
  | .rangeFor var range body =>
      .rangeFor var (f range.start) (f range.stop) (range.step.map f) range.inclusive
        range.descending (f body)
  | .forEach var ty iterable body => .forEach var (f ty) (f iterable) (f body)
  | .infinite body => .infinite (f body)
  | .breakTo target => .breakTo target.isSome
  | .continueTo target => .continueTo target.isSome
  | .ret value => .ret (value.map f)
  | .delete target array => .delete (f target) array
  | .comment text multiline => .comment text multiline

/-- A declaration with its children replaced by trees. -/
def Decl.unfoldWith : Decl → Unfolded
  | .vars ty declarators modifiers =>
      .vars (f ty) (declarators.map fun d => (d.name, d.init.map f)) modifiers
  | .function name params ret modifiers owner =>
      .signature name (params.map fun p => (p.name, f p.ty)) (f ret) modifiers owner.isSome
  | .classHead name parents modifiers => .classHead name (parents.map f) modifiers
  | .imports path items static => .imports path items static
  | .package path => .package path
  | .includes path system => .includes path system

/-- A definition with its children replaced by trees. -/
def Def.unfoldWith : Def → Unfolded
  | .program body mainClass entryPoint =>
      .program (body.map f) mainClass.isSome entryPoint.isSome
  | .function decl body => .function (f decl) (f body)
  | .classBody decl members => .classBody (f decl) (members.map f)

/-- A node with its children replaced by trees. -/
def Node.unfoldWith : Node → Unfolded
  | .expr e => e.unfoldWith f
  | .stmt s => s.unfoldWith f
  | .decl d => d.unfoldWith f
  | .defn d => d.unfoldWith f
  | .type ty => .type ty

end Layer

/-! ### Nodes that unfold alike -/

section Tied

variable {f g : NodeId → Unfolded}

/-- Children that unfold alike, whatever their place demands. -/
abbrev Alike (f g : NodeId → Unfolded) : Kinship := fun _ a b => f a = g b

/-- Soft references that are there on both sides or on neither. -/
abbrev BothOrNeither (t t' : Option NodeId) : Prop := t.isSome = t'.isSome

theorem rel_of_map_eq {α β γ : Type} {f : α → γ} {g : β → γ} {a : Option α} {b : Option β}
    (h : a.map f = b.map g) : Option.Rel (fun a b => f a = g b) a b := by
  cases a <;> cases b <;> try cases h
  · exact .none
  · exact .some (Option.some.inj h)

theorem map_eq_of_rel {α β γ : Type} {f : α → γ} {g : β → γ} {a : Option α} {b : Option β}
    (h : Option.Rel (fun a b => f a = g b) a b) : a.map f = b.map g := by
  cases h with
  | none => rfl
  | some h => exact congrArg some h

/-- The kind of an expression can be told from what it unfolds to. -/
theorem Expr.ctorIdx_unfoldWith (f : NodeId → Unfolded) (e : Expr) :
    (e.unfoldWith f).ctorIdx = e.ctorIdx + 1 := by
  cases e <;> rfl

/-- The kind of a statement can be told from what it unfolds to. -/
theorem Stmt.ctorIdx_unfoldWith (f : NodeId → Unfolded) (s : Stmt) :
    (s.unfoldWith f).ctorIdx = s.ctorIdx + 29 := by
  cases s <;> rfl

theorem Expr.Tied.of_unfoldWith {e e' : Expr} (h : e.unfoldWith f = e'.unfoldWith g) :
    e.Tied (Alike f g) e' := by
  have hkind : e.ctorIdx = e'.ctorIdx := by
    simpa [Expr.ctorIdx_unfoldWith] using congrArg Unfolded.ctorIdx h
  revert h
  -- only pairs of one kind are looked at: there are too many others to refute each of them
  cases e <;> refine Expr.ctorElim (motive := fun e' => _ = e'.unfoldWith g → _) _ e' hkind (.up ?_)
  all_goals
    intros
    intro h
  case interpolated => exact .interpolated (forall₂_of_map_eq (Unfolded.interpolated.inj h))
  case collection =>
    obtain ⟨rfl, hitems⟩ := Unfolded.collection.inj h
    exact .collection _ (forall₂_of_map_eq hitems)
  case dict =>
    refine .dict ((forall₂_of_map_eq (Unfolded.dict.inj h)).imp fun _ _ hentry => ?_)
    exact Prod.mk.inj hentry
  case binary =>
    obtain ⟨rfl, hl, hr⟩ := Unfolded.binary.inj h
    exact .binary _ hl hr
  case unary =>
    obtain ⟨rfl, ho⟩ := Unfolded.unary.inj h
    exact .unary _ ho
  case assign =>
    obtain ⟨rfl, ht, hv⟩ := Unfolded.assignExpr.inj h
    exact .assign _ ht hv
  case ternary =>
    obtain ⟨hc, ht, hf⟩ := Unfolded.ternary.inj h
    exact .ternary hc ht hf
  case compound => exact .compound (forall₂_of_map_eq (Unfolded.compound.inj h))
  case paren => exact .paren (Unfolded.paren.inj h)
  case call => exact .call (Unfolded.call.inj h).1 (forall₂_of_map_eq (Unfolded.call.inj h).2)
  case method =>
    obtain ⟨hr, rfl, hargs⟩ := Unfolded.method.inj h
    exact .method _ hr (forall₂_of_map_eq hargs)
  case index => exact .index (Unfolded.index.inj h).1 (Unfolded.index.inj h).2
  case member =>
    obtain ⟨ht, rfl⟩ := Unfolded.member.inj h
    exact .member _ ht
  case cast => exact .cast (Unfolded.cast.inj h).1 (Unfolded.cast.inj h).2
  case sizeOf => exact .sizeOf (Unfolded.sizeOf.inj h)
  case new => exact .new (Unfolded.new.inj h).1 (forall₂_of_map_eq (Unfolded.new.inj h).2)
  case newArray =>
    obtain ⟨hty, hdims, hinit⟩ := Unfolded.newArray.inj h
    exact .newArray hty (forall₂_of_map_eq hdims) (rel_of_map_eq hinit)
  case sequence => exact .sequence (forall₂_of_map_eq (Unfolded.sequence.inj h))
  all_goals
    cases h
    constructor

theorem CaseLabel.Tied.of_unfoldWith {label label' : CaseLabel}
    (h : label.unfoldWith f = label'.unfoldWith g) : label.Tied (Alike f g) label' := by
  cases label <;> cases label' <;> try cases h
  case leaves.leaves => exact .leaves (LabelOf.leaves.inj h)
  case falls.falls => exact .falls (LabelOf.falls.inj h)
  case default.default.refl => exact .default

theorem Stmt.Tied.of_unfoldWith {s s' : Stmt} (h : s.unfoldWith f = s'.unfoldWith g) :
    s.Tied (Alike f g) BothOrNeither s' := by
  have hkind : s.ctorIdx = s'.ctorIdx := by
    simpa [Stmt.ctorIdx_unfoldWith] using congrArg Unfolded.ctorIdx h
  revert h
  cases s <;> refine Stmt.ctorElim (motive := fun s' => _ = s'.unfoldWith g → _) _ s' hkind (.up ?_)
  all_goals
    intros
    intro h
  case block => exact .block (forall₂_of_map_eq (Unfolded.block.inj h))
  case expr => exact .expr (Unfolded.exprStmt.inj h)
  case assign =>
    obtain ⟨rfl, ht, hv⟩ := Unfolded.assign.inj h
    exact .assign _ ht hv
  case multiAssign => exact .multiAssign (forall₂_of_map_eq (Unfolded.multiAssign.inj h))
  case conditional =>
    obtain ⟨hbranches, hotherwise⟩ := Unfolded.conditional.inj h
    refine .conditional ((forall₂_of_map_eq hbranches).imp fun _ _ hbranch => ?_)
      (rel_of_map_eq hotherwise)
    exact ⟨(Prod.mk.inj hbranch).1, (Prod.mk.inj hbranch).2⟩
  case switch =>
    obtain ⟨hsubject, hcases⟩ := Unfolded.switch.inj h
    refine .switch hsubject ((forall₂_of_map_eq hcases).imp fun _ _ hcase => ?_)
    exact ⟨.of_unfoldWith (Prod.mk.inj hcase).1, (Prod.mk.inj hcase).2⟩
  case whileLoop => exact .whileLoop (Unfolded.whileLoop.inj h).1 (Unfolded.whileLoop.inj h).2
  case doWhile => exact .doWhile (Unfolded.doWhile.inj h).1 (Unfolded.doWhile.inj h).2
  case forLoop =>
    obtain ⟨hinit, hcond, hupdate, hbody⟩ := Unfolded.forLoop.inj h
    exact .forLoop (rel_of_map_eq hinit) (rel_of_map_eq hcond) (rel_of_map_eq hupdate) hbody
  case rangeFor =>
    obtain ⟨rfl, hstart, hstop, hstep, hinclusive, hdescending, hbody⟩ := Unfolded.rangeFor.inj h
    exact .rangeFor _ ⟨hstart, hstop, rel_of_map_eq hstep, hinclusive, hdescending⟩ hbody
  case forEach =>
    obtain ⟨rfl, hty, hiterable, hbody⟩ := Unfolded.forEach.inj h
    exact .forEach _ hty hiterable hbody
  case infinite => exact .infinite (Unfolded.infinite.inj h)
  case breakTo => exact .breakTo (Unfolded.breakTo.inj h)
  case continueTo => exact .continueTo (Unfolded.continueTo.inj h)
  case ret => exact .ret (rel_of_map_eq (Unfolded.ret.inj h))
  case delete =>
    obtain ⟨ht, rfl⟩ := Unfolded.delete.inj h
    exact .delete _ ht
  case comment =>
    cases h
    exact .comment _ _

theorem Decl.Tied.of_unfoldWith {d d' : Decl} (h : d.unfoldWith f = d'.unfoldWith g) :
    d.Tied (Alike f g) d' := by
  cases d <;> cases d' <;> try cases h
  case vars.vars =>
    obtain ⟨hty, hdeclarators, rfl⟩ := Unfolded.vars.inj h
    refine .vars _ hty ((forall₂_of_map_eq hdeclarators).imp fun _ _ hd => ?_)
    exact ⟨(Prod.mk.inj hd).1, rel_of_map_eq (Prod.mk.inj hd).2⟩
  case function.function =>
    obtain ⟨rfl, hparams, hret, rfl, howner⟩ := Unfolded.signature.inj h
    refine .function _ _ ((forall₂_of_map_eq hparams).imp fun _ _ hp => ?_) hret howner
    exact ⟨(Prod.mk.inj hp).1, (Prod.mk.inj hp).2⟩
  case classHead.classHead =>
    obtain ⟨rfl, hparents, rfl⟩ := Unfolded.classHead.inj h
    exact .classHead _ _ (forall₂_of_map_eq hparents)
  all_goals constructor

theorem Def.Tied.of_unfoldWith {d d' : Def} (h : d.unfoldWith f = d'.unfoldWith g) :
    d.Tied (Alike f g) BothOrNeither d' := by
  cases d <;> cases d' <;> try cases h
  case program.program =>
    obtain ⟨hbody, hmain, hentry⟩ := Unfolded.program.inj h
    exact .program (forall₂_of_map_eq hbody) hmain hentry
  case function.function => exact .function (Unfolded.function.inj h).1 (Unfolded.function.inj h).2
  case classBody.classBody =>
    exact .classBody (Unfolded.classBody.inj h).1 (forall₂_of_map_eq (Unfolded.classBody.inj h).2)

/-- The category of the node that a tree unfolds. -/
def Unfolded.category? : Unfolded → Option Category
  | .missing => none
  | .block _ | .exprStmt _ | .assign .. | .multiAssign _ | .conditional .. | .switch ..
  | .whileLoop .. | .doWhile .. | .forLoop .. | .rangeFor .. | .forEach .. | .infinite _
  | .breakTo _ | .continueTo _ | .ret _ | .delete .. | .comment .. => some .statement
  | .vars .. | .signature .. | .classHead .. | .imports .. | .package _ | .includes .. =>
    some .declaration
  | .program .. | .function .. | .classBody .. => some .definition
  | .type _ => some .type
  | _ => some .expression

theorem Node.category?_unfoldWith (f : NodeId → Unfolded) (x : Node) :
    (x.unfoldWith f).category? = some x.category := by
  cases x with
  | expr e => cases e <;> rfl
  | stmt s => cases s <;> rfl
  | decl d => cases d <;> rfl
  | defn d => cases d <;> rfl
  | type ty => rfl

/-- Nodes that unfold alike are tied by it. -/
theorem Node.Tied.of_unfoldWith {x y : Node} (h : x.unfoldWith f = y.unfoldWith g) :
    x.Tied (Alike f g) BothOrNeither y := by
  have hcategory : x.category = y.category := by
    have hsame := congrArg Unfolded.category? h
    rw [Node.category?_unfoldWith, Node.category?_unfoldWith] at hsame
    exact Option.some.inj hsame
  cases x <;> cases y <;> try cases hcategory
  case expr.expr => exact .expr (.of_unfoldWith h)
  case stmt.stmt => exact .stmt (.of_unfoldWith h)
  case decl.decl => exact .decl (.of_unfoldWith h)
  case defn.defn => exact .defn (.of_unfoldWith h)
  case type.type =>
    obtain rfl := Unfolded.type.inj h
    exact .type _

theorem Expr.Tied.unfoldWith_eq {e e' : Expr} (h : e.Tied (Alike f g) e') :
    e.unfoldWith f = e'.unfoldWith g := by
  have hids {ids ids' : List NodeId} (h : List.Forall₂ (fun a b => f a = g b) ids ids') :
      ids.map f = ids'.map g :=
    map_eq_of_forall₂ h fun _ _ hid => hid
  cases h with
  | interpolated h | collection _ h | compound h | sequence h =>
    simp only [Expr.unfoldWith, hids h]
  | dict h =>
    simp only [Expr.unfoldWith]
    rw [map_eq_of_forall₂ h fun _ _ ⟨hk, hv⟩ => by rw [hk, hv]]
  | binary _ h h' | assign _ h h' | index h h' | cast h h' => simp only [Expr.unfoldWith, h, h']
  | unary _ h | paren h | member _ h | sizeOf h => simp only [Expr.unfoldWith, h]
  | ternary hc ht hf => simp only [Expr.unfoldWith, hc, ht, hf]
  | call h ha | method _ h ha | new h ha => simp only [Expr.unfoldWith, h, hids ha]
  | newArray ht hd hi => simp only [Expr.unfoldWith, ht, hids hd, map_eq_of_rel hi]
  | _ => rfl

theorem CaseLabel.Tied.unfoldWith_eq {label label' : CaseLabel} (h : label.Tied (Alike f g) label') :
    label.unfoldWith f = label'.unfoldWith g := by
  cases h with
  | leaves h | falls h => simp only [CaseLabel.unfoldWith, h]
  | default => rfl

theorem Stmt.Tied.unfoldWith_eq {s s' : Stmt} (h : s.Tied (Alike f g) BothOrNeither s') :
    s.unfoldWith f = s'.unfoldWith g := by
  cases h with
  | block h | multiAssign h =>
    simp only [Stmt.unfoldWith]
    rw [map_eq_of_forall₂ h fun _ _ hid => hid]
  | expr h | infinite h | delete _ h => simp only [Stmt.unfoldWith, h]
  | assign _ h h' | whileLoop h h' | doWhile h h' => simp only [Stmt.unfoldWith, h, h']
  | conditional hb ho =>
    simp only [Stmt.unfoldWith, map_eq_of_rel ho]
    rw [map_eq_of_forall₂ hb fun _ _ h => by rw [h.cond, h.body]]
  | switch hs hc =>
    simp only [Stmt.unfoldWith, hs]
    rw [map_eq_of_forall₂ hc fun _ _ h => by rw [h.label.unfoldWith_eq, h.body]]
  | forLoop hi hc hu hb =>
    simp only [Stmt.unfoldWith, map_eq_of_rel hi, map_eq_of_rel hc, map_eq_of_rel hu, hb]
  | rangeFor _ hr hb =>
    simp only [Stmt.unfoldWith, hr.start, hr.stop, map_eq_of_rel hr.step, hr.inclusive,
      hr.descending, hb]
  | forEach _ ht hi hb => simp only [Stmt.unfoldWith, ht, hi, hb]
  | breakTo h | continueTo h => simp only [Stmt.unfoldWith, h]
  | ret h => simp only [Stmt.unfoldWith, map_eq_of_rel h]
  | comment _ _ => rfl

theorem Decl.Tied.unfoldWith_eq {d d' : Decl} (h : d.Tied (Alike f g) d') :
    d.unfoldWith f = d'.unfoldWith g := by
  cases h with
  | vars _ ht hd =>
    simp only [Decl.unfoldWith, ht]
    rw [map_eq_of_forall₂ hd fun _ _ h => by rw [h.name, map_eq_of_rel h.init]]
  | function _ _ hp hr ho =>
    simp only [Decl.unfoldWith, hr, ho]
    rw [map_eq_of_forall₂ hp fun _ _ h => by rw [h.name, h.ty]]
  | classHead _ _ h =>
    simp only [Decl.unfoldWith]
    rw [map_eq_of_forall₂ h fun _ _ hid => hid]
  | _ => rfl

theorem Def.Tied.unfoldWith_eq {d d' : Def} (h : d.Tied (Alike f g) BothOrNeither d') :
    d.unfoldWith f = d'.unfoldWith g := by
  cases h with
  | program hb hm he =>
    simp only [Def.unfoldWith, hm, he]
    rw [map_eq_of_forall₂ hb fun _ _ hid => hid]
  | function hd hb => simp only [Def.unfoldWith, hd, hb]
  | classBody hd hm =>
    simp only [Def.unfoldWith, hd]
    rw [map_eq_of_forall₂ hm fun _ _ hid => hid]

theorem Node.Tied.unfoldWith_eq {x y : Node} (h : x.Tied (Alike f g) BothOrNeither y) :
    x.unfoldWith f = y.unfoldWith g := by
  cases h with
  | expr h => exact h.unfoldWith_eq
  | stmt h => exact h.unfoldWith_eq
  | decl h => exact h.unfoldWith_eq
  | defn h => exact h.unfoldWith_eq
  | type ty => rfl

theorem Node.target?_skeleton (x : Node) : x.skeleton.target? = x.target?.map fun _ => .invalid := by
  cases x with
  | stmt s => cases s <;> rfl
  | defn d => cases d <;> rfl
  | _ => rfl

theorem Node.isSome_target?_eq {x y : Node} (h : x.skeleton = y.skeleton) :
    x.target?.isSome = y.target?.isSome := by
  have htarget := congrArg Node.target? h
  rw [Node.target?_skeleton, Node.target?_skeleton] at htarget
  exact isSome_eq_of_map_eq htarget

/-- Children held by fields of one name that unfold alike. -/
abbrev AlikeChildren (f g : NodeId → Unfolded) : List Child → List Child → Prop :=
  List.Forall₂ fun c c' => c.field = c'.field ∧ f c.id = g c'.id

/-- **Two nodes unfold alike exactly if their skeletons are the same and their children unfold
alike, field by field.** -/
theorem Node.unfoldWith_eq_iff {x y : Node} :
    x.unfoldWith f = y.unfoldWith g ↔
      x.skeleton = y.skeleton ∧ AlikeChildren f g x.children y.children := by
  constructor
  · intro h
    have htied := Node.Tied.of_unfoldWith h
    refine ⟨htied.skeleton_eq fun _ _ hsoft => hsoft, htied.children.imp ?_⟩
    rintro c c' ⟨hfield, _, hid⟩
    exact ⟨hfield, hid⟩
  · rintro ⟨hskeleton, hchildren⟩
    have htied : x.Tied (Alike f g) BothOrNeither y :=
      .of_skeleton hskeleton (hchildren.imp fun _ _ h => h.2) (Node.isSome_target?_eq hskeleton)
    exact htied.unfoldWith_eq

end Tied

/-! ## Whole subtrees -/

namespace Arena

/-- The tree below an identity, down to at most the given depth. -/
def unfoldTo (arena : Arena) : Nat → NodeId → Unfolded
  | 0, _ => .missing
  | depth + 1, id =>
    match arena.node id with
    | .ok node => node.unfoldWith (unfoldTo arena depth)
    | .error _ => .missing

/-- The tree below an identity. -/
def unfold (arena : Arena) (id : NodeId) : Unfolded := arena.unfoldTo arena.depthBound id

theorem unfoldTo_succ {arena : Arena} {id : NodeId} {node : Node} (depth : Nat)
    (found : arena.node id = .ok node) :
    arena.unfoldTo (depth + 1) id = node.unfoldWith (arena.unfoldTo depth) := by
  rw [unfoldTo, found]

/-- Children are compared in turn; if each comparison answers, the answer is whether all of them
are alike. -/
theorem sameAll_answers {same : NodeId → NodeId → Except Fault Bool} {f g : NodeId → Unfolded}
    {cs cs' : List Child}
    (h : ∀ c ∈ cs, ∀ c' ∈ cs', ∃ verdict, same c.id c'.id = .ok verdict ∧
      (verdict = true ↔ f c.id = g c'.id)) :
    ∃ verdict, sameAll same cs cs' = .ok verdict ∧
      (verdict = true ↔ AlikeChildren f g cs cs') := by
  induction cs generalizing cs' with
  | nil =>
    cases cs' with
    | nil => exact ⟨true, rfl, by simp [AlikeChildren]⟩
    | cons c' cs' => exact ⟨false, rfl, by simp [AlikeChildren]⟩
  | cons c cs ih =>
    cases cs' with
    | nil => exact ⟨false, rfl, by simp [AlikeChildren]⟩
    | cons c' cs' =>
      obtain ⟨rest, hrest, hiff⟩ := ih fun d hd d' hd' =>
        h d (List.mem_cons_of_mem _ hd) d' (List.mem_cons_of_mem _ hd')
      obtain ⟨first, hfirst, hfirst'⟩ := h c List.mem_cons_self c' List.mem_cons_self
      rw [sameAll, hfirst]
      by_cases hfield : c.field = c'.field
      · cases first with
        | true => exact ⟨rest, by simp [hfield, hrest], by simp [AlikeChildren, hfield, hiff, ← hfirst']⟩
        | false => exact ⟨false, by simp [hfield], by simp [AlikeChildren, ← hfirst']⟩
      · exact ⟨false, by simp [hfield], by simp [AlikeChildren, hfield]⟩

/-- One layer of the comparison, once what is below compares by its unfolding. -/
theorem sameTo_answers {left right : Arena} :
    ∀ {depth depth' : Nat} {a b : NodeId}, left.GroundedTo depth a → right.GroundedTo depth' b →
      ∃ verdict, sameTo left right depth a b = .ok verdict ∧
        (verdict = true ↔ left.unfoldTo depth a = right.unfoldTo depth' b)
  | 0, _, _, _, ha, _ => ha.elim
  | _, 0, _, _, _, hb => hb.elim
  | depth + 1, depth' + 1, a, b, ⟨x, hx, hbelow⟩, ⟨y, hy, hbelow'⟩ => by
    have hchildren : ∀ c ∈ x.children, ∀ c' ∈ y.children, ∃ verdict,
        sameTo left right depth c.id c'.id = .ok verdict ∧
          (verdict = true ↔ left.unfoldTo depth c.id = right.unfoldTo depth' c'.id) :=
      fun c hc c' hc' => sameTo_answers (hbelow c hc) (hbelow' c' hc')
    obtain ⟨verdict, hverdict, hiff⟩ := sameAll_answers hchildren
    rw [unfoldTo_succ depth hx, unfoldTo_succ depth' hy, Node.unfoldWith_eq_iff]
    simp only [sameTo, hx, hy, bind, Except.bind]
    by_cases hskeleton : x.skeleton = y.skeleton
    · by_cases hlength : x.children.length = y.children.length
      · exact ⟨verdict, by simp [hskeleton, hlength, hverdict], by simp [hskeleton, hiff]⟩
      · refine ⟨false, by simp [hskeleton, hlength], ?_⟩
        simp only [Bool.false_eq_true, false_iff, not_and]
        exact fun _ halike => hlength halike.length_eq
    · exact ⟨false, by simp [hskeleton], by simp [hskeleton]⟩

/-- **Closed subtrees without cycles compare as equal exactly if they unfold to the same tree.** -/
theorem same_eq {left right : Arena} {a b : NodeId} (ha : left.Grounded a) (hb : right.Grounded b) :
    ∃ verdict, left.same a right b = .ok verdict ∧
      (verdict = true ↔ left.unfold a = right.unfold b) :=
  sameTo_answers ha.to_depthBound hb.to_depthBound

/-- Beyond the end of a subtree, more depth makes no difference. -/
theorem unfoldTo_eq_of_le {arena : Arena} : ∀ {depth more : Nat} {id : NodeId},
    arena.GroundedTo depth id → depth ≤ more → arena.unfoldTo depth id = arena.unfoldTo more id
  | 0, _, _, h, _ => h.elim
  | _ + 1, 0, _, _, hle => absurd hle (Nat.not_succ_le_zero _)
  | depth + 1, more + 1, id, ⟨x, hx, hbelow⟩, hle => by
    rw [unfoldTo_succ depth hx, unfoldTo_succ more hx, Node.unfoldWith_eq_iff]
    refine ⟨rfl, List.forall₂_same.2 fun c hc => ⟨rfl, ?_⟩⟩
    exact unfoldTo_eq_of_le (hbelow c hc) (Nat.le_of_succ_le_succ hle)

/-! ## Copies -/

/-- One arena holds a copy of a subtree of another: each node of the subtree is copied to the place
that a renaming gives it, with its children renamed.  The renaming may take different nodes to one
place, soft references may lead anywhere, and there may be other nodes around. -/
def CopiedTo (arena : Arena) (root : NodeId) (rename : NodeId → NodeId) (copy : Arena) : Prop :=
  ∀ id x, arena.Above root id → arena.node id = .ok x →
    ∃ y, copy.node (rename id) = .ok y ∧ y.skeleton = x.skeleton ∧
      y.children = x.children.map fun c => ⟨rename c.id, c.field⟩

variable {arena copy : Arena} {root : NodeId} {rename : NodeId → NodeId}

theorem CopiedTo.child (h : arena.CopiedTo root rename copy) {x : Node} {c : Child}
    (hx : arena.node root = .ok x) (hc : c ∈ x.children) : arena.CopiedTo c.id rename copy :=
  fun id y habove => h id y (.head (owns_of_mem hx hc) habove)

/-- A copy ends where the subtree does, and unfolds to the same tree. -/
theorem CopiedTo.unfoldTo_eq : ∀ {depth : Nat} {root : NodeId}, arena.CopiedTo root rename copy →
    arena.GroundedTo depth root → copy.GroundedTo depth (rename root) ∧
      copy.unfoldTo depth (rename root) = arena.unfoldTo depth root
  | 0, _, _, hd => hd.elim
  | depth + 1, root, h, ⟨x, hx, hbelow⟩ => by
    obtain ⟨y, hy, hskeleton, hchildren⟩ := h root x .refl hx
    have hcopies : ∀ c ∈ x.children, copy.GroundedTo depth (rename c.id) ∧
        copy.unfoldTo depth (rename c.id) = arena.unfoldTo depth c.id :=
      fun c hc => (h.child hx hc).unfoldTo_eq (hbelow c hc)
    constructor
    · refine ⟨y, hy, fun c hc => ?_⟩
      rw [hchildren] at hc
      obtain ⟨d, hd, rfl⟩ := List.mem_map.1 hc
      exact (hcopies d hd).1
    · rw [unfoldTo_succ depth hy, unfoldTo_succ depth hx, Node.unfoldWith_eq_iff, hchildren]
      refine ⟨hskeleton, List.forall₂_map_left_iff.2 (List.forall₂_same.2 fun c hc => ⟨rfl, ?_⟩)⟩
      exact (hcopies c hc).2

theorem CopiedTo.unfold_eq (h : arena.CopiedTo root rename copy) (hroot : arena.Grounded root)
    (hcopy : copy.Grounded (rename root)) : copy.unfold (rename root) = arena.unfold root := by
  obtain ⟨hdepth, heq⟩ := h.unfoldTo_eq hroot.to_depthBound
  -- the depth bounds of the two arenas differ, but both are beyond the end
  rcases Nat.le_total arena.depthBound copy.depthBound with hle | hle
  · rw [unfold, unfold, ← heq, unfoldTo_eq_of_le hdepth hle]
  · rw [unfold, unfold, ← heq, unfoldTo_eq_of_le hcopy.to_depthBound hle]

end Arena

/-- A subtree that is closed and does not contain itself, with the arena that holds it. -/
structure Subtree where
  arena : Arena
  root : NodeId
  grounded : arena.Grounded root

namespace Subtree

/-- The comparison of two subtrees. -/
abbrev same (s t : Subtree) : Except Fault Bool := s.arena.same s.root t.arena t.root

/-- The tree that a subtree unfolds to. -/
abbrev unfold (s : Subtree) : Unfolded := s.arena.unfold s.root

theorem same_eq_true_iff (s t : Subtree) : s.same t = .ok true ↔ s.unfold = t.unfold := by
  obtain ⟨verdict, hverdict, hiff⟩ := Arena.same_eq s.grounded t.grounded
  rw [same, hverdict, Except.ok.injEq, hiff]

/-- What unfolds alike compares alike, whatever it is compared with. -/
theorem same_congr {s t : Subtree} (h : s.unfold = t.unfold) (other : Subtree) :
    s.same other = t.same other := by
  obtain ⟨v, hv, hiff⟩ := Arena.same_eq s.grounded other.grounded
  obtain ⟨w, hw, hiff'⟩ := Arena.same_eq t.grounded other.grounded
  have hvw : v = w := by
    rw [Bool.eq_iff_iff, hiff, hiff']
    exact ⟨h.symm.trans, h.trans⟩
  rw [same, same, hv, hw, hvw]

/-- **Structural equality is equality of the unfolded trees.**  The comparison of two closed
subtrees without cycles always answers; it says yes exactly if they unfold to the same tree.  So it
is an equivalence across arenas, and a copy of a subtree, in any order, with or without sharing and
among any other nodes, compares as the subtree does. -/
theorem same_iff_unfold_eq :
    (∀ s t : Subtree, ∃ verdict, s.arena.same s.root t.arena t.root = .ok verdict ∧
      (verdict = true ↔ s.arena.unfold s.root = t.arena.unfold t.root)) ∧
    Equivalence (fun s t : Subtree => s.arena.same s.root t.arena t.root = .ok true) ∧
    ∀ (s t : Subtree) (rename : NodeId → NodeId), s.arena.CopiedTo s.root rename t.arena →
      t.root = rename s.root →
      ∀ other : Subtree, s.arena.same s.root other.arena other.root =
        t.arena.same t.root other.arena other.root := by
  refine ⟨fun s t => Arena.same_eq s.grounded t.grounded, ⟨?_, ?_, ?_⟩, ?_⟩
  · intro s
    exact (same_eq_true_iff s s).2 rfl
  · intro s t h
    exact (same_eq_true_iff t s).2 ((same_eq_true_iff s t).1 h).symm
  · intro s t u h h'
    exact (same_eq_true_iff s u).2 (((same_eq_true_iff s t).1 h).trans ((same_eq_true_iff t u).1 h'))
  · intro s t rename hcopy hroot other
    have hgrounded : t.arena.Grounded (rename s.root) := hroot ▸ t.grounded
    have hunfold : s.unfold = t.unfold := by
      rw [unfold, unfold, hroot, hcopy.unfold_eq s.grounded hgrounded]
    exact same_congr hunfold other

/-- A number alone is closed. -/
theorem grounded_int {arena : Arena} {id : NodeId} {value : Int}
    (h : arena.node id = .ok (.expr (.int value))) : arena.Grounded id :=
  .intro h fun c hc => by cases hc

/-- A sum is closed if both operands are. -/
theorem grounded_sum {arena : Arena} {id left right : NodeId}
    (h : arena.node id = .ok (.expr (.binary .add left right))) (hl : arena.Grounded left)
    (hr : arena.Grounded right) : arena.Grounded id := by
  refine .intro h fun c hc => ?_
  simp only [Node.children, Expr.children, List.mem_cons, List.not_mem_nil, or_false] at hc
  rcases hc with rfl | rfl
  · exact hl
  · exact hr

/-- A sum whose two operands are nodes of their own, the second allocated first. -/
def spreadSum : Subtree where
  arena := ⟨#[.expr (.int 1), .expr (.int 1), .expr (.binary .add ⟨1⟩ ⟨0⟩)]⟩
  root := ⟨2⟩
  grounded := grounded_sum rfl (grounded_int rfl) (grounded_int rfl)

/-- The same sum with one node for both operands, after a node that it does not use. -/
def sharedSum : Subtree where
  arena := ⟨#[.stmt (.comment "" false), .expr (.int 1), .expr (.binary .add ⟨1⟩ ⟨1⟩)]⟩
  root := ⟨2⟩
  grounded := grounded_sum rfl (grounded_int rfl) (grounded_int rfl)

/-- Takes both operands to one node. -/
def joinOperands (id : NodeId) : NodeId := if id = ⟨0⟩ then ⟨1⟩ else id

theorem same_iff_unfold_eq_shared :
    spreadSum.arena.CopiedTo spreadSum.root joinOperands sharedSum.arena ∧
      spreadSum.arena.same spreadSum.root sharedSum.arena sharedSum.root = .ok true := by
  have hcopied : spreadSum.arena.CopiedTo spreadSum.root joinOperands sharedSum.arena := by
    rintro ⟨i⟩ x - hx
    have hlt : i < 3 := Arena.index_lt_of_node hx
    match i, hlt with
    | 0, _ | 1, _ | 2, _ =>
      cases hx
      exact ⟨_, rfl, rfl, rfl⟩
  obtain ⟨-, hequivalence, hcopy⟩ := same_iff_unfold_eq
  refine ⟨hcopied, ?_⟩
  rw [hcopy spreadSum sharedSum joinOperands hcopied rfl sharedSum]
  exact hequivalence.refl sharedSum

end Subtree

end Interlingua
