import Interlingua.Node.Children
import Mathlib.Data.List.Forall2

/-!
# Nodes that differ in their identities only

Two nodes are *tied* if they are of one kind, agree on all that is no identity, and hold related
identities in the same places.

* `Node.Tied` — the relation, over a relation of owned children (which is told what category the
  place demands) and one of soft references.  An owner and a main class count by their presence.
* `Node.demand` — the category that a field demands.
* `Node.Tied.of_skeleton` — nodes with the same skeleton are tied, if their children are related in
  turn and so are their soft references.
-/

namespace Interlingua

/-- A relation of owned children, given the category that the place demands; none demands any. -/
abbrev Kinship := Option Category → NodeId → NodeId → Prop

section Tied

variable (kin : Kinship) (soft : Option NodeId → Option NodeId → Prop)

/-- Expressions with related children. -/
inductive Expr.Tied : Expr → Expr → Prop
  | int (value : Int) : Tied (.int value) (.int value)
  | float (bits : UInt64) : Tied (.float bits) (.float bits)
  | bool (value : Bool) : Tied (.bool value) (.bool value)
  | char (value : Char) : Tied (.char value) (.char value)
  | str (value : String) (kind : StringKind) : Tied (.str value kind) (.str value kind)
  | interpolated {parts parts' : List NodeId}
      (h : List.Forall₂ (kin (some .expression)) parts parts') :
      Tied (.interpolated parts) (.interpolated parts')
  | null : Tied .null .null
  | collection (kind : CollectionKind) {items items' : List NodeId}
      (h : List.Forall₂ (kin (some .expression)) items items') :
      Tied (.collection kind items) (.collection kind items')
  | dict {entries entries' : List (NodeId × NodeId)}
      (h : List.Forall₂ (fun e e' =>
        kin (some .expression) e.1 e'.1 ∧ kin (some .expression) e.2 e'.2) entries entries') :
      Tied (.dict entries) (.dict entries')
  | ident (name : String) : Tied (.ident name) (.ident name)
  | scoped (path : List String) : Tied (.scoped path) (.scoped path)
  | selfRef : Tied .selfRef .selfRef
  | superRef : Tied .superRef .superRef
  | binary (op : BinaryOp) {left left' right right' : NodeId}
      (hl : kin (some .expression) left left') (hr : kin (some .expression) right right') :
      Tied (.binary op left right) (.binary op left' right')
  | unary (op : UnaryOp) {operand operand' : NodeId}
      (h : kin (some .expression) operand operand') :
      Tied (.unary op operand) (.unary op operand')
  | assign (op : AssignOp) {target target' value value' : NodeId}
      (ht : kin (some .expression) target target') (hv : kin (some .expression) value value') :
      Tied (.assign op target value) (.assign op target' value')
  | ternary {cond cond' whenTrue whenTrue' whenFalse whenFalse' : NodeId}
      (hc : kin (some .expression) cond cond')
      (ht : kin (some .expression) whenTrue whenTrue')
      (hf : kin (some .expression) whenFalse whenFalse') :
      Tied (.ternary cond whenTrue whenFalse) (.ternary cond' whenTrue' whenFalse')
  | compound {items items' : List NodeId}
      (h : List.Forall₂ (kin (some .expression)) items items') :
      Tied (.compound items) (.compound items')
  | paren {inner inner' : NodeId} (h : kin (some .expression) inner inner') :
      Tied (.paren inner) (.paren inner')
  | call {callee callee' : NodeId} {args args' : List NodeId}
      (hc : kin (some .expression) callee callee')
      (ha : List.Forall₂ (kin (some .expression)) args args') :
      Tied (.call callee args) (.call callee' args')
  | method {receiver receiver' : NodeId} (name : String) {args args' : List NodeId}
      (hr : kin (some .expression) receiver receiver')
      (ha : List.Forall₂ (kin (some .expression)) args args') :
      Tied (.method receiver name args) (.method receiver' name args')
  | index {target target' position position' : NodeId}
      (ht : kin (some .expression) target target')
      (hp : kin (some .expression) position position') :
      Tied (.index target position) (.index target' position')
  | member {target target' : NodeId} (name : String)
      (h : kin (some .expression) target target') :
      Tied (.member target name) (.member target' name)
  | cast {ty ty' value value' : NodeId} (ht : kin (some .type) ty ty')
      (hv : kin (some .expression) value value') : Tied (.cast ty value) (.cast ty' value')
  | sizeOf {value value' : NodeId} (h : kin (some .expression) value value') :
      Tied (.sizeOf value) (.sizeOf value')
  | new {ty ty' : NodeId} {args args' : List NodeId} (ht : kin (some .type) ty ty')
      (ha : List.Forall₂ (kin (some .expression)) args args') :
      Tied (.new ty args) (.new ty' args')
  | newArray {ty ty' : NodeId} {dims dims' : List NodeId} {init init' : Option NodeId}
      (ht : kin (some .type) ty ty') (hd : List.Forall₂ (kin (some .expression)) dims dims')
      (hi : Option.Rel (kin (some .expression)) init init') :
      Tied (.newArray ty dims init) (.newArray ty' dims' init')
  | sequence {items items' : List NodeId}
      (h : List.Forall₂ (kin (some .expression)) items items') :
      Tied (.sequence items) (.sequence items')

/-- Arms with related children. -/
structure Branch.Tied (branch branch' : Branch) : Prop where
  cond : kin (some .expression) branch.cond branch'.cond
  body : kin (some .statement) branch.body branch'.body

/-- Labels of one kind with related values. -/
inductive CaseLabel.Tied : CaseLabel → CaseLabel → Prop
  | leaves {value value' : NodeId} (h : kin (some .expression) value value') :
      Tied (.leaves value) (.leaves value')
  | falls {value value' : NodeId} (h : kin (some .expression) value value') :
      Tied (.falls value) (.falls value')
  | default : Tied .default .default

/-- Cases with related children. -/
structure Case.Tied (case case' : Case) : Prop where
  label : case.label.Tied kin case'.label
  body : kin (some .statement) case.body case'.body

/-- Ranges with related bounds that count alike. -/
structure Range.Tied (range range' : Range) : Prop where
  start : kin (some .expression) range.start range'.start
  stop : kin (some .expression) range.stop range'.stop
  step : Option.Rel (kin (some .expression)) range.step range'.step
  inclusive : range.inclusive = range'.inclusive
  descending : range.descending = range'.descending

/-- Statements with related children and related jump targets. -/
inductive Stmt.Tied : Stmt → Stmt → Prop
  | block {body body' : List NodeId} (h : List.Forall₂ (kin none) body body') :
      Tied (.block body) (.block body')
  | expr {value value' : NodeId} (h : kin (some .expression) value value') :
      Tied (.expr value) (.expr value')
  | assign (op : AssignOp) {target target' value value' : NodeId}
      (ht : kin (some .expression) target target') (hv : kin (some .expression) value value') :
      Tied (.assign op target value) (.assign op target' value')
  | multiAssign {items items' : List NodeId}
      (h : List.Forall₂ (kin (some .statement)) items items') :
      Tied (.multiAssign items) (.multiAssign items')
  | conditional {branches branches' : List Branch} {otherwise otherwise' : Option NodeId}
      (hb : List.Forall₂ (Branch.Tied kin) branches branches')
      (ho : Option.Rel (kin (some .statement)) otherwise otherwise') :
      Tied (.conditional branches otherwise) (.conditional branches' otherwise')
  | switch {subject subject' : NodeId} {cases cases' : List Case}
      (hs : kin (some .expression) subject subject')
      (hc : List.Forall₂ (Case.Tied kin) cases cases') :
      Tied (.switch subject cases) (.switch subject' cases')
  | whileLoop {cond cond' body body' : NodeId} (hc : kin (some .expression) cond cond')
      (hb : kin (some .statement) body body') :
      Tied (.whileLoop cond body) (.whileLoop cond' body')
  | doWhile {body body' cond cond' : NodeId} (hb : kin (some .statement) body body')
      (hc : kin (some .expression) cond cond') : Tied (.doWhile body cond) (.doWhile body' cond')
  | forLoop {init init' cond cond' update update' : Option NodeId} {body body' : NodeId}
      (hi : Option.Rel (kin none) init init')
      (hc : Option.Rel (kin (some .expression)) cond cond')
      (hu : Option.Rel (kin (some .expression)) update update')
      (hb : kin (some .statement) body body') :
      Tied (.forLoop init cond update body) (.forLoop init' cond' update' body')
  | rangeFor (var : String) {range range' : Range} {body body' : NodeId}
      (hr : range.Tied kin range') (hb : kin (some .statement) body body') :
      Tied (.rangeFor var range body) (.rangeFor var range' body')
  | forEach (var : String) {ty ty' iterable iterable' body body' : NodeId}
      (ht : kin (some .type) ty ty') (hi : kin (some .expression) iterable iterable')
      (hb : kin (some .statement) body body') :
      Tied (.forEach var ty iterable body) (.forEach var ty' iterable' body')
  | infinite {body body' : NodeId} (h : kin (some .statement) body body') :
      Tied (.infinite body) (.infinite body')
  | breakTo {target target' : Option NodeId} (h : soft target target') :
      Tied (.breakTo target) (.breakTo target')
  | continueTo {target target' : Option NodeId} (h : soft target target') :
      Tied (.continueTo target) (.continueTo target')
  | ret {value value' : Option NodeId} (h : Option.Rel (kin (some .expression)) value value') :
      Tied (.ret value) (.ret value')
  | delete {target target' : NodeId} (array : Bool)
      (h : kin (some .expression) target target') :
      Tied (.delete target array) (.delete target' array)
  | comment (text : String) (multiline : Bool) :
      Tied (.comment text multiline) (.comment text multiline)

/-- Declared variables of one name with related initial values. -/
structure Declarator.Tied (d d' : Declarator) : Prop where
  name : d.name = d'.name
  init : Option.Rel (kin (some .expression)) d.init d'.init

/-- Parameters of one name with related types. -/
structure Param.Tied (p p' : Param) : Prop where
  name : p.name = p'.name
  ty : kin (some .type) p.ty p'.ty

/-- Declarations with related children. -/
inductive Decl.Tied : Decl → Decl → Prop
  | vars {ty ty' : NodeId} {declarators declarators' : List Declarator} (modifiers : Modifiers)
      (ht : kin (some .type) ty ty')
      (hd : List.Forall₂ (Declarator.Tied kin) declarators declarators') :
      Tied (.vars ty declarators modifiers) (.vars ty' declarators' modifiers)
  | function (name : String) {params params' : List Param} {ret ret' : NodeId}
      (modifiers : Modifiers) {owner owner' : Option NodeId}
      (hp : List.Forall₂ (Param.Tied kin) params params') (hr : kin (some .type) ret ret')
      (ho : owner.isSome = owner'.isSome) :
      Tied (.function name params ret modifiers owner)
        (.function name params' ret' modifiers owner')
  | classHead (name : String) {parents parents' : List NodeId} (modifiers : Modifiers)
      (h : List.Forall₂ (kin (some .type)) parents parents') :
      Tied (.classHead name parents modifiers) (.classHead name parents' modifiers)
  | imports (path : List String) (items : ImportItems) (static : Bool) :
      Tied (.imports path items static) (.imports path items static)
  | package (path : List String) : Tied (.package path) (.package path)
  | includes (path : String) (system : Bool) : Tied (.includes path system) (.includes path system)

/-- Definitions with related children and related entry points. -/
inductive Def.Tied : Def → Def → Prop
  | program {body body' : List NodeId} {mainClass mainClass' entryPoint entryPoint' : Option NodeId}
      (hb : List.Forall₂ (kin none) body body') (hm : mainClass.isSome = mainClass'.isSome)
      (he : soft entryPoint entryPoint') :
      Tied (.program body mainClass entryPoint) (.program body' mainClass' entryPoint')
  | function {decl decl' body body' : NodeId} (hd : kin (some .declaration) decl decl')
      (hb : kin (some .statement) body body') : Tied (.function decl body) (.function decl' body')
  | classBody {decl decl' : NodeId} {members members' : List NodeId}
      (hd : kin (some .declaration) decl decl') (hm : List.Forall₂ (kin none) members members') :
      Tied (.classBody decl members) (.classBody decl' members')

/-- Nodes with related children and related soft references. -/
inductive Node.Tied : Node → Node → Prop
  | expr {e e' : Expr} (h : e.Tied kin e') : Tied (.expr e) (.expr e')
  | stmt {s s' : Stmt} (h : s.Tied kin soft s') : Tied (.stmt s) (.stmt s')
  | decl {d d' : Decl} (h : d.Tied kin d') : Tied (.decl d) (.decl d')
  | defn {d d' : Def} (h : d.Tied kin soft d') : Tied (.defn d) (.defn d')
  | type (ty : Ty) : Tied (.type ty) (.type ty)

end Tied

variable {kin : Kinship} {soft : Option NodeId → Option NodeId → Prop}

/-! ## What tied nodes have in common -/

theorem Expr.Tied.kindName_eq {e e' : Expr} (h : e.Tied kin e') : e.kindName = e'.kindName := by
  cases h <;> rfl

theorem Decl.Tied.kindName_eq {d d' : Decl} (h : d.Tied kin d') : d.kindName = d'.kindName := by
  cases h with
  | @function _ _ _ _ _ _ owner owner' _ _ ho =>
    cases owner <;> cases owner' <;> first | rfl | cases ho
  | _ => rfl

theorem Node.Tied.kindName_eq {x y : Node} (h : x.Tied kin soft y) : x.kindName = y.kindName := by
  cases h with
  | expr h => exact h.kindName_eq
  | stmt h => cases h <;> rfl
  | decl h => exact h.kindName_eq
  | defn h => cases h <;> rfl
  | type ty => rfl

/-! ### Skeletons -/

section Skeleton

variable {α β : Type} {related : α → β → Prop}

/-- Related lists are alike once each of their items is. -/
theorem map_eq_of_forall₂ {γ : Type} {f : α → γ} {g : β → γ} {as : List α} {bs : List β}
    (h : List.Forall₂ related as bs) (heq : ∀ a b, related a b → f a = g b) :
    as.map f = bs.map g := by
  induction h with
  | nil => rfl
  | cons hab _ ih => simp [heq _ _ hab, ih]

theorem map_const_eq_of_rel {γ : Type} {a : Option α} {b : Option β} (c : γ)
    (h : Option.Rel related a b) : a.map (fun _ => c) = b.map fun _ => c := by
  cases h <;> rfl

theorem map_const_eq_of_isSome {γ : Type} {a : Option α} {b : Option β} (c : γ)
    (h : a.isSome = b.isSome) : a.map (fun _ => c) = b.map fun _ => c := by
  cases a <;> cases b <;> first | rfl | cases h

end Skeleton

theorem Node.skeleton_expr (e : Expr) :
    (Node.expr e).skeleton = .expr (e.mapIds fun _ => .invalid) := rfl

theorem Node.skeleton_stmt (s : Stmt) :
    (Node.stmt s).skeleton = .stmt (s.mapIds fun _ => .invalid) := rfl

theorem Node.skeleton_decl (d : Decl) :
    (Node.decl d).skeleton = .decl (d.mapIds fun _ => .invalid) := rfl

theorem Node.skeleton_defn (d : Def) :
    (Node.defn d).skeleton = .defn (d.mapIds fun _ => .invalid) := rfl

theorem Expr.Tied.skeleton_eq {e e' : Expr} (h : e.Tied kin e') :
    (Node.expr e).skeleton = (Node.expr e').skeleton := by
  have hids {ids ids' : List NodeId} (h : List.Forall₂ (kin (some .expression)) ids ids') :
      ids.map (fun _ => NodeId.invalid) = ids'.map fun _ => NodeId.invalid :=
    map_eq_of_forall₂ h fun _ _ _ => rfl
  cases h with
  | interpolated h | collection _ h | compound h | call _ h | method _ _ h | new _ h | sequence h =>
    simp only [Node.skeleton_expr, Expr.mapIds, hids h]
  | dict h =>
    simp only [Node.skeleton_expr, Expr.mapIds]
    rw [map_eq_of_forall₂ h fun _ _ _ => rfl]
  | newArray _ hd hi =>
    simp only [Node.skeleton_expr, Expr.mapIds, hids hd, map_const_eq_of_rel _ hi]
  | _ => rfl

theorem CaseLabel.Tied.value? {label label' : CaseLabel} (h : label.Tied kin label') :
    Option.Rel (kin (some .expression)) label.value? label'.value? := by
  cases h with
  | leaves h | falls h => exact .some h
  | default => exact .none

theorem CaseLabel.Tied.mapIds_eq {label label' : CaseLabel} (h : label.Tied kin label') :
    label.mapIds (fun _ => .invalid) = label'.mapIds fun _ => .invalid := by
  cases h <;> rfl

theorem Stmt.Tied.skeleton_eq {s s' : Stmt} (h : s.Tied kin soft s')
    (hsoft : ∀ t t', soft t t' → t.isSome = t'.isSome) :
    (Node.stmt s).skeleton = (Node.stmt s').skeleton := by
  cases h with
  | block h | multiAssign h =>
    simp only [Node.skeleton_stmt, Stmt.mapIds]
    rw [map_eq_of_forall₂ h fun _ _ _ => rfl]
  | conditional hb ho =>
    simp only [Node.skeleton_stmt, Stmt.mapIds, map_const_eq_of_rel _ ho]
    rw [map_eq_of_forall₂ hb fun _ _ _ => rfl]
  | switch _ hc =>
    simp only [Node.skeleton_stmt, Stmt.mapIds]
    rw [map_eq_of_forall₂ hc fun _ _ h => by rw [h.label.mapIds_eq]]
  | forLoop hi hc hu _ =>
    simp only [Node.skeleton_stmt, Stmt.mapIds, map_const_eq_of_rel _ hi,
      map_const_eq_of_rel _ hc, map_const_eq_of_rel _ hu]
  | rangeFor _ hr _ =>
    simp only [Node.skeleton_stmt, Stmt.mapIds, Range.mapIds, map_const_eq_of_rel _ hr.step,
      hr.inclusive, hr.descending]
  | breakTo h | continueTo h =>
    simp only [Node.skeleton_stmt, Stmt.mapIds, map_const_eq_of_isSome _ (hsoft _ _ h)]
  | ret h => simp only [Node.skeleton_stmt, Stmt.mapIds, map_const_eq_of_rel _ h]
  | _ => rfl

theorem Decl.Tied.skeleton_eq {d d' : Decl} (h : d.Tied kin d') :
    (Node.decl d).skeleton = (Node.decl d').skeleton := by
  cases h with
  | vars _ _ hd =>
    simp only [Node.skeleton_decl, Decl.mapIds]
    rw [map_eq_of_forall₂ hd fun _ _ h => by rw [h.name, map_const_eq_of_rel _ h.init]]
  | function _ _ hp _ ho =>
    simp only [Node.skeleton_decl, Decl.mapIds, map_const_eq_of_isSome _ ho]
    rw [map_eq_of_forall₂ hp fun _ _ h => by rw [h.name]]
  | classHead _ _ h =>
    simp only [Node.skeleton_decl, Decl.mapIds]
    rw [map_eq_of_forall₂ h fun _ _ _ => rfl]
  | _ => rfl

theorem Def.Tied.skeleton_eq {d d' : Def} (h : d.Tied kin soft d')
    (hsoft : ∀ t t', soft t t' → t.isSome = t'.isSome) :
    (Node.defn d).skeleton = (Node.defn d').skeleton := by
  cases h with
  | program hb hm he =>
    simp only [Node.skeleton_defn, Def.mapIds, map_const_eq_of_isSome _ hm,
      map_const_eq_of_isSome _ (hsoft _ _ he)]
    rw [map_eq_of_forall₂ hb fun _ _ _ => rfl]
  | function _ _ => rfl
  | classBody _ hm =>
    simp only [Node.skeleton_defn, Def.mapIds]
    rw [map_eq_of_forall₂ hm fun _ _ _ => rfl]

/-- Tied nodes have the same skeleton, if soft references are related by their presence at least. -/
theorem Node.Tied.skeleton_eq {x y : Node} (h : x.Tied kin soft y)
    (hsoft : ∀ t t', soft t t' → t.isSome = t'.isSome) : x.skeleton = y.skeleton := by
  cases h with
  | expr h => exact h.skeleton_eq
  | stmt h => exact h.skeleton_eq hsoft
  | decl h => exact h.skeleton_eq
  | defn h => exact h.skeleton_eq hsoft
  | type ty => rfl

/-! ### Children -/

/-- Children held by fields of one name and related as some place demands. -/
def Child.Tied (kin : Kinship) (c c' : Child) : Prop :=
  c.field = c'.field ∧ ∃ demand, kin demand c.id c'.id

theorem forall₂_held {demand : Option Category} {ids ids' : List NodeId} (field : String)
    (h : List.Forall₂ (kin demand) ids ids') :
    List.Forall₂ (Child.Tied kin) (held field ids) (held field ids') := by
  unfold held
  rw [List.forall₂_map_left_iff, List.forall₂_map_right_iff]
  exact h.imp fun _ _ hid => ⟨rfl, demand, hid⟩

theorem forall₂_heldIf {demand : Option Category} {id id' : Option NodeId} (field : String)
    (h : Option.Rel (kin demand) id id') :
    List.Forall₂ (Child.Tied kin) (heldIf field id) (heldIf field id') := by
  cases h with
  | none => exact .nil
  | some h => exact .cons ⟨rfl, demand, h⟩ .nil

/-- One child, under a demand. -/
theorem Child.Tied.of_kin {demand : Option Category} {id id' : NodeId} (field : String)
    (h : kin demand id id') : Child.Tied kin ⟨id, field⟩ ⟨id', field⟩ :=
  ⟨rfl, demand, h⟩

open Child.Tied in
theorem Expr.Tied.children {e e' : Expr} (h : e.Tied kin e') :
    List.Forall₂ (Child.Tied kin) e.children e'.children := by
  cases h with
  | interpolated h | collection _ h | compound h | sequence h => exact forall₂_held _ h
  | dict h =>
    exact List.rel_flatMap h fun _ _ ⟨hk, hv⟩ => .cons (of_kin _ hk) (.cons (of_kin _ hv) .nil)
  | binary _ h h' | assign _ h h' | index h h' | cast h h' =>
    exact .cons (of_kin _ h) (.cons (of_kin _ h') .nil)
  | ternary hc ht hf => exact .cons (of_kin _ hc) (.cons (of_kin _ ht) (.cons (of_kin _ hf) .nil))
  | unary _ h | paren h | member _ h | sizeOf h => exact .cons (of_kin _ h) .nil
  | call h ha | method _ h ha | new h ha => exact .cons (of_kin _ h) (forall₂_held _ ha)
  | newArray ht hd hi =>
    exact .cons (of_kin _ ht) (List.rel_append (forall₂_held _ hd) (forall₂_heldIf _ hi))
  | _ => exact .nil

open Child.Tied in
theorem Stmt.Tied.children {s s' : Stmt} (h : s.Tied kin soft s') :
    List.Forall₂ (Child.Tied kin) s.children s'.children := by
  cases h with
  | block h | multiAssign h => exact forall₂_held _ h
  | expr h | infinite h | delete _ h => exact .cons (of_kin _ h) .nil
  | assign _ h h' | whileLoop h h' | doWhile h h' =>
    exact .cons (of_kin _ h) (.cons (of_kin _ h') .nil)
  | conditional hb ho =>
    exact List.rel_append
      (List.rel_flatMap hb fun _ _ h => .cons (of_kin _ h.cond) (.cons (of_kin _ h.body) .nil))
      (forall₂_heldIf _ ho)
  | switch hs hc =>
    refine .cons (of_kin _ hs) (List.rel_flatMap hc fun _ _ h => ?_)
    exact List.rel_append (forall₂_heldIf _ h.label.value?) (.cons (of_kin _ h.body) .nil)
  | forLoop hi hc hu hb =>
    exact List.rel_append (List.rel_append (List.rel_append (forall₂_heldIf _ hi)
      (forall₂_heldIf _ hc)) (forall₂_heldIf _ hu)) (.cons (of_kin _ hb) .nil)
  | rangeFor _ hr hb =>
    exact .cons (of_kin _ hr.start) (.cons (of_kin _ hr.stop)
      (List.rel_append (forall₂_heldIf _ hr.step) (.cons (of_kin _ hb) .nil)))
  | forEach _ ht hi hb => exact .cons (of_kin _ ht) (.cons (of_kin _ hi) (.cons (of_kin _ hb) .nil))
  | ret h => exact forall₂_heldIf _ h
  | breakTo _ | continueTo _ | comment _ _ => exact .nil

open Child.Tied in
theorem Decl.Tied.children {d d' : Decl} (h : d.Tied kin d') :
    List.Forall₂ (Child.Tied kin) d.children d'.children := by
  cases h with
  | vars _ ht hd =>
    exact .cons (of_kin _ ht) (List.rel_flatMap hd fun _ _ h => forall₂_heldIf _ h.init)
  | @function _ params params' _ _ _ _ _ hp hr _ =>
    have hty : List.Forall₂ (kin (some .type)) (params.map Param.ty) (params'.map Param.ty) := by
      rw [List.forall₂_map_left_iff, List.forall₂_map_right_iff]
      exact hp.imp fun _ _ h => h.ty
    exact List.rel_append (forall₂_held _ hty) (.cons (of_kin _ hr) .nil)
  | classHead _ _ h => exact forall₂_held _ h
  | imports _ _ _ | package _ | includes _ _ => exact .nil

open Child.Tied in
theorem Def.Tied.children {d d' : Def} (h : d.Tied kin soft d') :
    List.Forall₂ (Child.Tied kin) d.children d'.children := by
  cases h with
  | program hb _ _ => exact forall₂_held _ hb
  | function hd hb => exact .cons (of_kin _ hd) (.cons (of_kin _ hb) .nil)
  | classBody hd hm => exact .cons (of_kin _ hd) (forall₂_held _ hm)

/-- The children of tied nodes are related one by one. -/
theorem Node.Tied.children {x y : Node} (h : x.Tied kin soft y) :
    List.Forall₂ (Child.Tied kin) x.children y.children := by
  cases h with
  | expr h => exact h.children
  | stmt h => exact h.children
  | decl h => exact h.children
  | defn h => exact h.children
  | type ty => exact .nil

/-! ## When nodes are tied -/

theorem option_rel_refl {α : Type} {related : α → α → Prop} (h : ∀ a, related a a) :
    ∀ a : Option α, Option.Rel related a a
  | none => .none
  | some a => .some (h a)

theorem CaseLabel.Tied.refl (hkin : ∀ demand id, kin demand id id) :
    ∀ label : CaseLabel, label.Tied kin label
  | .leaves _ => .leaves (hkin _ _)
  | .falls _ => .falls (hkin _ _)
  | .default => .default

/-- A node is tied to itself if its children and soft references are related to themselves. -/
theorem Node.Tied.refl (hkin : ∀ demand id, kin demand id id) (hsoft : ∀ t, soft t t) (x : Node) :
    x.Tied kin soft x := by
  have hids (demand : Option Category) (ids : List NodeId) : List.Forall₂ (kin demand) ids ids :=
    List.forall₂_same.2 fun id _ => hkin demand id
  have hid (demand : Option Category) (id : Option NodeId) : Option.Rel (kin demand) id id :=
    option_rel_refl (hkin demand) id
  cases x with
  | expr e =>
    refine .expr ?_
    cases e <;> constructor <;> first | exact hkin _ _ | exact hids _ _ | exact hid _ _ | skip
    exact List.forall₂_same.2 fun _ _ => ⟨hkin _ _, hkin _ _⟩
  | stmt s =>
    refine .stmt ?_
    cases s <;> constructor <;>
      first | exact hkin _ _ | exact hids _ _ | exact hid _ _ | exact hsoft _ | skip
    · exact List.forall₂_same.2 fun _ _ => ⟨hkin _ _, hkin _ _⟩
    · exact List.forall₂_same.2 fun case _ => ⟨.refl hkin case.label, hkin _ _⟩
    · exact ⟨hkin _ _, hkin _ _, hid _ _, rfl, rfl⟩
  | decl d =>
    refine .decl ?_
    cases d <;> constructor <;> first | exact hkin _ _ | exact hids _ _ | rfl | skip
    · exact List.forall₂_same.2 fun _ _ => ⟨rfl, hid _ _⟩
    · exact List.forall₂_same.2 fun _ _ => ⟨rfl, hkin _ _⟩
  | defn d =>
    refine .defn ?_
    cases d <;> constructor <;> first | exact hkin _ _ | exact hids _ _ | rfl | exact hsoft _
  | type ty => exact .type ty

/-- The category that a field of an expression demands. -/
def Expr.demand (field : String) : Option Category :=
  if field = "type" then some .type else some .expression

/-- The category that a field of a statement demands; none demands any. -/
def Stmt.demand : Stmt → String → Option Category
  | .block _, _ => none
  | .forLoop .., field =>
    if field = "init" then none else if field = "body" then some .statement else some .expression
  | _, field =>
    if field = "type" then some .type
    else if ["assignments", "body", "then", "otherwise", "case_body"].contains field then
      some .statement
    else some .expression

/-- The category that a field of a declaration demands. -/
def Decl.demand (field : String) : Option Category :=
  if field = "init" then some .expression else some .type

/-- The category that a field of a definition demands; none demands any. -/
def Def.demand : Def → String → Option Category
  | .program .., _ => none
  | .function .., field => if field = "declaration" then some .declaration else some .statement
  | .classBody .., field => if field = "declaration" then some .declaration else none

/-- The category that a field of a node demands of the child it holds; none demands any. -/
def Node.demand : Node → String → Option Category
  | .expr _, field => Expr.demand field
  | .stmt s, field => s.demand field
  | .decl _, field => Decl.demand field
  | .defn d, field => d.demand field
  | .type _, _ => none

theorem Node.demand_expr (e : Expr) (field : String) :
    (Node.expr e).demand field = Expr.demand field := rfl

theorem Node.demand_stmt (s : Stmt) (field : String) :
    (Node.stmt s).demand field = s.demand field := rfl

theorem Node.demand_decl (d : Decl) (field : String) :
    (Node.decl d).demand field = Decl.demand field := rfl

theorem Node.demand_defn (d : Def) (field : String) :
    (Node.defn d).demand field = d.demand field := rfl

/-- The soft reference of a node that is followed or compared: the loop of a jump, or the entry
point of a program. -/
def Node.target? : Node → Option NodeId
  | .stmt (.breakTo target) | .stmt (.continueTo target) => target
  | .defn (.program _ _ entryPoint) => entryPoint
  | _ => none

/-- Children of a node and of another one, related as the fields of the first demand. -/
abbrev Node.Kids (kin : Kinship) (x : Node) : List Child → List Child → Prop :=
  List.Forall₂ fun c c' => kin (x.demand c.field) c.id c'.id

theorem forall₂_append_iff {α β : Type} {related : α → β → Prop} {as as' : List α}
    {bs bs' : List β} (hlength : as.length = bs.length) :
    List.Forall₂ related (as ++ as') (bs ++ bs') ↔
      List.Forall₂ related as bs ∧ List.Forall₂ related as' bs' := by
  induction as generalizing bs with
  | nil =>
    obtain rfl := List.length_eq_zero_iff.1 hlength.symm
    simp
  | cons a as ih =>
    cases bs with
    | nil => cases hlength
    | cons b bs => simp [ih (by simpa using hlength), and_assoc]

theorem forall₂_of_map_eq {α β γ : Type} {f : α → γ} {g : β → γ} {as : List α} {bs : List β}
    (h : as.map f = bs.map g) : List.Forall₂ (fun a b => f a = g b) as bs := by
  rw [← List.forall₂_map_right_iff (R := fun a c => f a = c), ← List.forall₂_map_left_iff,
    List.forall₂_eq_eq_eq]
  exact h

/-- Where the items of two lists are alike and give as many children each, the children of the
whole lists are related only if those of the items are. -/
theorem forall₂_of_flatMap {α β γ δ : Type} {related : γ → δ → Prop} {same : α → β → Prop}
    {f : α → List γ} {g : β → List δ} {as : List α} {bs : List β} (hsame : List.Forall₂ same as bs)
    (h : List.Forall₂ related (as.flatMap f) (bs.flatMap g))
    (hlength : ∀ a b, same a b → (f a).length = (g b).length) :
    List.Forall₂ (fun a b => same a b ∧ List.Forall₂ related (f a) (g b)) as bs := by
  induction hsame with
  | nil => exact .nil
  | cons hab _ ih =>
    rw [List.flatMap_cons, List.flatMap_cons, forall₂_append_iff (hlength _ _ hab)] at h
    exact .cons ⟨hab, h.1⟩ (ih h.2)

/-- Optional references that are there on both sides or on neither. -/
theorem rel_of_heldIf {related : Child → Child → Prop} {field : String} {id id' : Option NodeId}
    (hs : id.map (fun _ => NodeId.invalid) = id'.map fun _ => NodeId.invalid)
    (h : List.Forall₂ related (heldIf field id) (heldIf field id')) :
    Option.Rel (fun a b => related ⟨a, field⟩ ⟨b, field⟩) id id' := by
  cases id <;> cases id' <;> try cases hs
  · exact .none
  · exact .some (List.forall₂_cons.1 h).1

theorem length_heldIf (field : String) {id id' : Option NodeId}
    (hs : id.map (fun _ => NodeId.invalid) = id'.map fun _ => NodeId.invalid) :
    (heldIf field id).length = (heldIf field id').length := by
  cases id <;> cases id' <;> first | rfl | cases hs

theorem isSome_eq_of_map_eq {α β γ : Type} {f : α → γ} {g : β → γ} {a : Option α} {b : Option β}
    (h : a.map f = b.map g) : a.isSome = b.isSome := by
  simpa using congrArg Option.isSome h

/-- Identities do not matter for the kind of an expression. -/
theorem Expr.ctorIdx_mapIds (f : NodeId → NodeId) (e : Expr) :
    (e.mapIds f).ctorIdx = e.ctorIdx := by
  cases e <;> rfl

/-- Identities do not matter for the kind of a statement. -/
theorem Stmt.ctorIdx_mapIds (f : NodeId → NodeId) (s : Stmt) :
    (s.mapIds f).ctorIdx = s.ctorIdx := by
  cases s <;> rfl

theorem Expr.Tied.of_skeleton {e e' : Expr}
    (hs : (Node.expr e).skeleton = (Node.expr e').skeleton)
    (hkids : (Node.expr e).Kids kin e.children e'.children) : e.Tied kin e' := by
  have hkind : e.ctorIdx = e'.ctorIdx := by
    simpa [Expr.ctorIdx_mapIds] using congrArg Expr.ctorIdx (Node.expr.inj hs)
  revert hs hkids
  -- only pairs of one kind are looked at: there are too many others to refute each of them
  cases e <;> refine Expr.ctorElim
    (motive := fun e' => _ = (Node.expr e').skeleton → Node.Kids kin _ _ e'.children → _)
    _ e' hkind (.up ?_)
  all_goals
    intros
    intro hs hkids
  case dict entries entries' =>
    simp only [Node.skeleton_expr, Expr.mapIds, Node.expr.injEq, Expr.dict.injEq] at hs
    have heach := forall₂_of_flatMap (forall₂_of_map_eq hs) hkids fun _ _ _ => rfl
    exact .dict (heach.imp fun _ _ h => by simpa [Node.demand_expr, Expr.demand] using h.2)
  case newArray _ dims _ _ dims' _ =>
    simp only [Node.skeleton_expr, Expr.mapIds, Node.expr.injEq, Expr.newArray.injEq] at hs
    obtain ⟨-, hdims, hinit⟩ := hs
    have hlength : (held "dims" dims).length = (held "dims" dims').length := by
      simpa [held] using (forall₂_of_map_eq hdims).length_eq
    simp only [Expr.children, Node.Kids, List.forall₂_cons, forall₂_append_iff hlength] at hkids
    obtain ⟨hty, hkids, hrest⟩ := hkids
    refine .newArray hty (by simpa [held, Node.demand_expr, Expr.demand] using hkids) ?_
    exact rel_of_heldIf hinit hrest
  all_goals simp [Expr.children, held, Node.demand_expr, Expr.demand] at hkids
  case collection =>
    simp only [Node.skeleton_expr, Expr.mapIds, Node.expr.injEq,
      Expr.collection.injEq] at hs
    exact hs.1 ▸ .collection _ hkids
  case method =>
    simp only [Node.skeleton_expr, Expr.mapIds, Node.expr.injEq, Expr.method.injEq] at hs
    exact hs.2.1 ▸ .method _ hkids.1 hkids.2
  case interpolated => exact .interpolated hkids
  case compound => exact .compound hkids
  case sequence => exact .sequence hkids
  case binary =>
    cases hs
    exact .binary _ hkids.1 hkids.2
  case assign =>
    cases hs
    exact .assign _ hkids.1 hkids.2
  case unary =>
    cases hs
    exact .unary _ hkids
  case ternary => exact .ternary hkids.1 hkids.2.1 hkids.2.2
  case paren => exact .paren hkids
  case call => exact .call hkids.1 hkids.2
  case index => exact .index hkids.1 hkids.2
  case member =>
    cases hs
    exact .member _ hkids
  case cast => exact .cast hkids.1 hkids.2
  case sizeOf => exact .sizeOf hkids
  case new => exact .new hkids.1 hkids.2
  all_goals
    cases hs
    constructor

theorem CaseLabel.map_value?_eq {label label' : CaseLabel}
    (h : label.mapIds (fun _ => .invalid) = label'.mapIds fun _ => .invalid) :
    label.value?.map (fun _ => NodeId.invalid) = label'.value?.map fun _ => NodeId.invalid := by
  cases label <;> cases label' <;> first | rfl | cases h

theorem CaseLabel.Tied.of_mapIds {label label' : CaseLabel}
    (hs : label.mapIds (fun _ => .invalid) = label'.mapIds fun _ => .invalid)
    (h : Option.Rel (kin (some .expression)) label.value? label'.value?) :
    label.Tied kin label' := by
  cases label <;> cases label' <;> try cases hs
  all_goals cases h
  · exact .leaves ‹_›
  · exact .falls ‹_›
  · exact .default

theorem Stmt.Tied.of_skeleton {s s' : Stmt}
    (hs : (Node.stmt s).skeleton = (Node.stmt s').skeleton)
    (hkids : (Node.stmt s).Kids kin s.children s'.children)
    (htarget : soft (Node.stmt s).target? (Node.stmt s').target?) : s.Tied kin soft s' := by
  have hkind : s.ctorIdx = s'.ctorIdx := by
    simpa [Stmt.ctorIdx_mapIds] using congrArg Stmt.ctorIdx (Node.stmt.inj hs)
  revert hs hkids htarget
  cases s <;> refine Stmt.ctorElim
    (motive := fun s' => _ = (Node.stmt s').skeleton → Node.Kids kin _ _ s'.children →
      soft _ (Node.stmt s').target? → _) _ s' hkind (.up ?_)
  all_goals
    intros
    intro hs hkids htarget
  case conditional branches _ branches' _ =>
    simp only [Node.skeleton_stmt, Stmt.mapIds, Node.stmt.injEq,
      Stmt.conditional.injEq] at hs
    obtain ⟨hbranches, hotherwise⟩ := hs
    have hbranches := forall₂_of_map_eq hbranches
    simp only [Stmt.children, Node.Kids] at hkids
    rw [forall₂_append_iff (by simp [hbranches.length_eq])] at hkids
    have heach := forall₂_of_flatMap hbranches hkids.1 fun _ _ _ => rfl
    refine .conditional (heach.imp fun _ _ ⟨_, h⟩ => ?_) (rel_of_heldIf hotherwise hkids.2)
    simp only [List.forall₂_cons] at h
    exact ⟨h.1, h.2.1⟩
  case switch cases _ cases' =>
    simp only [Node.skeleton_stmt, Stmt.mapIds, Node.stmt.injEq, Stmt.switch.injEq,
      true_and] at hs
    simp only [Stmt.children, Node.Kids, List.forall₂_cons] at hkids
    obtain ⟨hsubject, hcases⟩ := hkids
    have heach := forall₂_of_flatMap (forall₂_of_map_eq hs) hcases fun case case' h => by
      simp [length_heldIf "case" (CaseLabel.map_value?_eq (Case.mk.inj h).1)]
    refine .switch hsubject (heach.imp fun case case' ⟨hsame, h⟩ => ?_)
    have hvalue := CaseLabel.map_value?_eq (Case.mk.inj hsame).1
    rw [forall₂_append_iff (length_heldIf "case" hvalue), List.forall₂_cons] at h
    exact ⟨.of_mapIds (Case.mk.inj hsame).1 (rel_of_heldIf hvalue h.1), h.2.1⟩
  case forLoop =>
    simp only [Node.skeleton_stmt, Stmt.mapIds, Node.stmt.injEq, Stmt.forLoop.injEq] at hs
    obtain ⟨hinit, hcond, hupdate, -⟩ := hs
    simp only [Stmt.children, Node.Kids, List.append_assoc] at hkids
    rw [forall₂_append_iff (length_heldIf _ hinit), forall₂_append_iff (length_heldIf _ hcond),
      forall₂_append_iff (length_heldIf _ hupdate), List.forall₂_cons] at hkids
    obtain ⟨hi, hc, hu, hb, -⟩ := hkids
    exact .forLoop (rel_of_heldIf hinit hi) (rel_of_heldIf hcond hc) (rel_of_heldIf hupdate hu) hb
  case rangeFor =>
    simp only [Node.skeleton_stmt, Stmt.mapIds, Range.mapIds, Node.stmt.injEq,
      Stmt.rangeFor.injEq, Range.mk.injEq] at hs
    obtain ⟨rfl, ⟨-, -, hstep, hinclusive, hdescending⟩, -⟩ := hs
    simp only [Stmt.children, Node.Kids, List.forall₂_cons,
      forall₂_append_iff (length_heldIf "step" hstep)] at hkids
    obtain ⟨hstart, hstop, hs, hb, -⟩ := hkids
    exact .rangeFor _ ⟨hstart, hstop, rel_of_heldIf hstep hs, hinclusive, hdescending⟩ hb
  case breakTo => exact .breakTo htarget
  case continueTo => exact .continueTo htarget
  case ret =>
    simp only [Node.skeleton_stmt, Stmt.mapIds, Node.stmt.injEq, Stmt.ret.injEq] at hs
    exact .ret (rel_of_heldIf hs hkids)
  all_goals simp [Stmt.children, held, Node.demand_stmt, Stmt.demand] at hkids
  case block => exact .block hkids
  case multiAssign => exact .multiAssign hkids
  case expr => exact .expr hkids
  case assign =>
    cases hs
    exact .assign _ hkids.1 hkids.2
  case whileLoop => exact .whileLoop hkids.1 hkids.2
  case doWhile => exact .doWhile hkids.1 hkids.2
  case forEach =>
    cases hs
    exact .forEach _ hkids.1 hkids.2.1 hkids.2.2
  case infinite => exact .infinite hkids
  case delete =>
    cases hs
    exact .delete _ hkids
  case comment =>
    cases hs
    exact .comment _ _

theorem Decl.Tied.of_skeleton {d d' : Decl}
    (hs : (Node.decl d).skeleton = (Node.decl d').skeleton)
    (hkids : (Node.decl d).Kids kin d.children d'.children) : d.Tied kin d' := by
  cases d <;> cases d' <;> try cases hs
  case vars.vars =>
    simp only [Node.skeleton_decl, Decl.mapIds, Node.decl.injEq, Decl.vars.injEq,
      true_and] at hs
    obtain ⟨hdeclarators, rfl⟩ := hs
    simp only [Decl.children, Node.Kids, List.forall₂_cons] at hkids
    have heach := forall₂_of_flatMap (forall₂_of_map_eq hdeclarators) hkids.2
      fun _ _ h => length_heldIf _ (Declarator.mk.inj h).2
    refine .vars _ hkids.1 (heach.imp fun _ _ ⟨hsame, h⟩ => ?_)
    exact ⟨(Declarator.mk.inj hsame).1, rel_of_heldIf (Declarator.mk.inj hsame).2 h⟩
  case function.function =>
    simp only [Node.skeleton_decl, Decl.mapIds, Node.decl.injEq, Decl.function.injEq,
      true_and] at hs
    obtain ⟨rfl, hparams, rfl, howner⟩ := hs
    have hparams := forall₂_of_map_eq hparams
    simp only [Decl.children, Node.Kids, held, List.map_map] at hkids
    rw [forall₂_append_iff (by simpa using hparams.length_eq), List.forall₂_map_left_iff,
      List.forall₂_map_right_iff, List.forall₂_cons] at hkids
    obtain ⟨htypes, hret, -⟩ := hkids
    have heach : List.Forall₂ (Param.Tied kin) _ _ :=
      hparams.mp (fun _ _ hname hty => ⟨(Param.mk.inj hname).1, hty⟩) htypes
    exact .function _ _ heach hret (isSome_eq_of_map_eq howner)
  all_goals simp [Decl.children, held, Node.demand_decl, Decl.demand] at hkids
  case classHead.classHead =>
    simp only [Node.skeleton_decl, Decl.mapIds, Node.decl.injEq, Decl.classHead.injEq] at hs
    obtain ⟨rfl, -, rfl⟩ := hs
    exact .classHead _ _ hkids
  all_goals constructor

theorem Def.Tied.of_skeleton {d d' : Def}
    (hs : (Node.defn d).skeleton = (Node.defn d').skeleton)
    (hkids : (Node.defn d).Kids kin d.children d'.children)
    (htarget : soft (Node.defn d).target? (Node.defn d').target?) : d.Tied kin soft d' := by
  cases d <;> cases d' <;> try cases hs
  all_goals simp [Def.children, held, Node.demand_defn, Def.demand] at hkids
  case program.program =>
    simp only [Node.skeleton_defn, Def.mapIds, Node.defn.injEq, Def.program.injEq] at hs
    exact .program hkids (isSome_eq_of_map_eq hs.2.1) htarget
  case function.function.refl => exact .function hkids.1 hkids.2
  case classBody.classBody => exact .classBody hkids.1 hkids.2

/-- Nodes with the same skeleton are tied if their children are related, each as the field that
holds it demands, and so are their soft references. -/
theorem Node.Tied.of_skeleton {x y : Node} (hs : x.skeleton = y.skeleton)
    (hkids : x.Kids kin x.children y.children) (htarget : soft x.target? y.target?) :
    x.Tied kin soft y := by
  cases x <;> cases y <;> try cases hs
  case expr.expr => exact .expr (.of_skeleton hs hkids)
  case stmt.stmt => exact .stmt (.of_skeleton hs hkids htarget)
  case decl.decl => exact .decl (.of_skeleton hs hkids)
  case defn.defn => exact .defn (.of_skeleton hs hkids htarget)
  case type.type.refl => exact .type _

end Interlingua
