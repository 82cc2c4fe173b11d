import Interlingua.Proofs.Lockstep.Tie

/-!
# Inference in lockstep

Tied expressions have the same type, and register the same; so do tied declarations.  Only the
innermost frame is written.
-/

namespace Interlingua

theorem Scope.around_register (scope : Scope) (name : String) (ty : Ty) :
    (scope.register name ty).around = scope.around := by
  unfold Scope.register
  split <;> rfl

namespace Tie

variable {left right : View} {tie : Tie left right} {m n : Nat}

section Layer

variable {infer infer' : NodeId → Infer Ty}

theorem infer_assignmentWith
    (hbelow : ∀ {a b}, tie.exprs m n a b → tie.Infers Eq (infer a) (infer' b)) (op : AssignOp)
    {target target' value value' : NodeId} (ht : tie.exprs m n target target')
    (hv : tie.exprs m n value value') :
    tie.Infers Eq (Infer.assignmentWith left.arena infer op target value)
      (Infer.assignmentWith right.arena infer' op target' value') := by
  unfold Infer.assignmentWith
  refine (hbelow hv).bindEq fun valueType => ?_
  extract_lets register register'
  have hregister : ∀ ty, tie.Infers Eq (register ty) (register' ty) := by
    intro ty
    refine (Infers.follow (expr ht)).bind fun e e' he => ?_
    cases he with
    | ident name =>
      exact (Infers.modify fun scope => scope.around_register name ty).bindEq fun _ => .pure rfl
    | _ => exact .pure rfl
  cases op.binary? with
  | none => exact hregister _
  | some binary => exact (hbelow ht).bindEq fun _ => hregister _

theorem infer_exprWith
    (hbelow : ∀ {a b}, tie.exprs m n a b → tie.Infers Eq (infer a) (infer' b)) {e e' : Expr}
    (h : e.Tied (tie.pair m n) e') :
    tie.Infers Eq (Infer.exprWith left.arena infer e) (Infer.exprWith right.arena infer' e') := by
  have hall {ids ids' : List NodeId} (h : List.Forall₂ (tie.exprs m n) ids ids') :
      tie.Infers Eq (ids.mapM infer) (ids'.mapM infer') :=
    Keeps.mapMEq h fun _ _ hid => hbelow hid
  cases h <;> unfold Infer.exprWith
  case collection kind _ _ h =>
    refine (hall h).bindEq fun types => ?_
    cases kind with
    | tuple => exact (hall h).bindEq fun _ => .pure rfl
    | list | array | set => exact .pure rfl
  case dict h =>
    refine (Keeps.mapMEq h fun _ _ hentry => hbelow hentry.1).bindEq fun keys => ?_
    exact (Keeps.mapMEq h fun _ _ hentry => hbelow hentry.2).bindEq fun values => .pure rfl
  case ident name => exact Infers.get.bindEq fun scope => .pure rfl
  case binary hl hr => exact (hbelow hl).bindEq fun _ => (hbelow hr).bindEq fun _ => .pure rfl
  case unary h => exact (hbelow h).bindEq fun _ => .pure rfl
  case assign op _ _ _ _ ht hv => exact infer_assignmentWith hbelow op ht hv
  case ternary hc ht hf =>
    exact (hbelow hc).bindEq fun _ => (hbelow ht).bindEq fun _ =>
      (hbelow hf).bindEq fun _ => .pure rfl
  case compound h => exact (hall h).bindEq fun _ => .pure rfl
  case paren h => exact hbelow h
  case call hc ha =>
    refine (hall ha).bindEq fun _ => (Infers.follow (expr hc)).bind fun callee callee' hcallee => ?_
    cases hcallee with
    | ident name => exact Infers.get.bindEq fun scope => .pure rfl
    | _ => exact .pure rfl
  case method hr ha => exact (hbelow hr).bindEq fun _ => (hall ha).bindEq fun _ => .pure rfl
  case index ht hp => exact (hbelow hp).bindEq fun _ => (hbelow ht).bindEq fun _ => .pure rfl
  case member h => exact (hbelow h).bindEq fun _ => .pure rfl
  case cast ht _ => exact Infers.follow (ty ht)
  case new ht _ => exact Infers.follow (ty ht)
  case newArray ht _ _ => exact (Infers.follow (ty ht)).bindEq fun _ => .pure rfl
  case sequence h => exact (hall h).bindEq fun _ => .pure rfl
  all_goals exact .pure rfl

end Layer

/-- **Tied expressions have the same type and register the same.** -/
theorem infer_exprTo {a b : NodeId} (h : tie.exprs m n a b) :
    tie.Infers Eq (Infer.exprTo left.arena m a) (Infer.exprTo right.arena n b) := by
  induction h using tie.exprRecursion with
  | zero _ _ _ hfault => exact .throw hfault
  | succ m n ih _ _ _ he =>
    refine (Infers.follow he).bind fun e e' he => ?_
    exact infer_exprWith ih he

theorem infer_expr {a b : NodeId} (h : tie.exprs m n a b) :
    tie.Infers Eq (Infer.expr left.arena a) (Infer.expr right.arena b) :=
  infer_exprTo (tie.restart h)

theorem infer_assignment (op : AssignOp) {target target' value value' : NodeId}
    (ht : tie.exprs m n target target') (hv : tie.exprs m n value value') :
    tie.Infers Eq (Infer.assignment left.arena op target value)
      (Infer.assignment right.arena op target' value') :=
  infer_assignmentWith infer_expr op ht hv

theorem infer_declarator (declared : Ty) {d d' : Declarator} (h : d.Tied (tie.pair m n) d') :
    tie.Infers Eq (Infer.declarator left.arena declared d)
      (Infer.declarator right.arena declared d') := by
  unfold Infer.declarator
  refine (Keeps.optionMapM h.init fun _ _ hid => infer_expr hid).bindEq fun inferred => ?_
  rw [h.name]
  exact Infers.modify fun scope => rfl

theorem infer_declare {a b : NodeId} (h : tie.pair m n (some .declaration) a b) :
    tie.Infers Eq (Infer.declare left.arena a) (Infer.declare right.arena b) := by
  unfold Infer.declare
  refine (Infers.follow (decl h)).bind fun d d' hd => ?_
  cases hd with
  | vars _ ht hd =>
    refine (Infers.follow (ty ht)).bindEq fun declared => ?_
    exact Keeps.forM hd fun _ _ => infer_declarator declared
  | function name _ _ hr _ =>
    exact (Infers.follow (ty hr)).bindEq fun ret => Infers.modify fun scope => rfl
  | _ => exact .pure rfl

theorem infer_params {a b : NodeId} (h : tie.pair m n (some .declaration) a b) :
    tie.Infers Eq (Infer.params left.arena a) (Infer.params right.arena b) := by
  unfold Infer.params
  refine (Infers.follow (decl h)).bind fun d d' hd => ?_
  cases hd with
  | function _ _ hp _ _ =>
    refine Keeps.forM hp fun p p' hparam => ?_
    refine (Infers.follow (ty hparam.ty)).bindEq fun ty => ?_
    rw [hparam.name]
    exact Infers.modify fun scope => rfl
  | _ => exact .pure rfl

theorem infer_programFunctions {demand : Option Category} {a b : NodeId}
    (h : tie.pair m n demand a b) :
    tie.Infers Eq (Infer.programFunctions left.arena a) (Infer.programFunctions right.arena b) := by
  unfold Infer.programFunctions
  refine (Infers.follow (tie.found h)).bind fun x y hxy => ?_
  cases hxy with
  | defn hd =>
    cases hd with
    | program hb _ _ =>
      refine Keeps.forM hb fun item item' hitem => ?_
      refine (Infers.follow (tie.found hitem)).bind fun x y hxy => ?_
      cases hxy with
      | defn hd =>
        cases hd with
        | function hd _ => exact infer_declare hd
        | program _ _ _ | classBody _ _ => exact .pure rfl
      | expr _ | stmt _ | decl _ | type _ => exact .pure rfl
    | function _ _ | classBody _ _ => exact .pure rfl
  | expr _ | stmt _ | decl _ | type _ => exact .pure rfl

end Tie

end Interlingua
