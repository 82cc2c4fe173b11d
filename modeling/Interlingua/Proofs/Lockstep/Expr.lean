import Interlingua.Proofs.Lockstep.Analysis
import Interlingua.Proofs.Lockstep.Infer

/-!
# Expressions in lockstep

* `Tie.Below` — renderings of what lies below tied expressions that do the same.
* `Tie.Speaks` — a dialect says the same about tied expressions, whatever the two sites render below
  them.  Each of the three dialects does.
* `Tie.render_expr` — tied expressions are rendered alike.
-/

namespace Interlingua

theorem Expr.Tied.formOf?_eq {kin : Kinship} {e e' : Expr} (h : e.Tied kin e') (lang : Language) :
    lang.formOf? e = lang.formOf? e' := by
  cases h <;> rfl

namespace Tie

variable {left right : View} {tie : Tie left right} {m n : Nat}

variable (tie) in
/-- Renderings that do the same on expressions tied with some depths left. -/
def Below (m n : Nat) (below below' : NodeId → Render String) : Prop :=
  ∀ {a b}, tie.exprs m n a b → tie.Renders Eq (below a) (below' b)

variable {below below' : NodeId → Render String} {a b : NodeId}

/-! ## What the languages share -/

theorem wraps (form : OperatorForm) (side : Side) (h : tie.exprs m n a b) :
    Concur tie.fault Eq (left.lang.wraps left.arena form a side)
      (right.lang.wraps right.arena form b side) := by
  rw [tie.lang_eq]
  unfold Language.wraps Language.exprForm?
  refine Concur.bindEq (Concur.bind (expr h) fun e e' he => .ok (he.formOf?_eq _)) fun form => ?_
  cases form <;> exact .ok rfl

theorem declaredName? (op : AssignOp) (h : tie.exprs m n a b) :
    tie.Renders Eq (left.declaredName? op a) (right.declaredName? op b) := by
  unfold View.declaredName?
  refine (Renders.follow (expr h)).bind fun e e' he => ?_
  rw [tie.isOn_eq_of_ne .autoDeclaration nofun]
  cases he with
  | ident name =>
    cases op with
    | plain => exact Renders.get.bindEq fun scope => .pure rfl
    | _ => exact .pure rfl
  | _ => cases op <;> exact .pure rfl

theorem inferred (h : tie.exprs m n a b) : tie.Renders Eq (left.inferred a) (right.inferred b) :=
  Renders.infer (infer_expr h)

section Site

variable (hbelow : tie.Below m n below below')
include hbelow

theorem operand (form : OperatorForm) (side : Side) (h : tie.exprs m n a b) :
    tie.Renders Eq (Site.operand ⟨left, below⟩ form a side)
      (Site.operand ⟨right, below'⟩ form b side) :=
  (hbelow h).bindEq fun _ =>
    (Renders.follow (wraps form side h)).bindEq fun _ => .ite (.pure rfl) (.pure rfl)

theorem between (form : OperatorForm) {l l' r r' : NodeId} (hl : tie.exprs m n l l')
    (hr : tie.exprs m n r r') :
    tie.Renders Eq (Site.between ⟨left, below⟩ form l r)
      (Site.between ⟨right, below'⟩ form l' r') :=
  (operand hbelow form .left hl).bindEq fun _ =>
    (operand hbelow form .right hr).bindEq fun _ => .pure rfl

theorem accessed (h : tie.exprs m n a b) :
    tie.Renders Eq (Site.accessed ⟨left, below⟩ a) (Site.accessed ⟨right, below'⟩ b) := by
  unfold Site.accessed Site.lang
  rw [tie.lang_eq]
  exact operand hbelow _ _ h

theorem rendered {ids ids' : List NodeId} (h : List.Forall₂ (tie.exprs m n) ids ids') :
    tie.Renders Eq (ids.mapM below) (ids'.mapM below') :=
  Keeps.mapMEq h fun _ _ hid => hbelow hid

theorem args {ids ids' : List NodeId} (h : List.Forall₂ (tie.exprs m n) ids ids') :
    tie.Renders Eq (Site.args ⟨left, below⟩ ids) (Site.args ⟨right, below'⟩ ids') :=
  (rendered hbelow h).bindEq fun _ => .pure rfl

theorem unaryOperand (form : OperatorForm) (op : UnaryOp) (h : tie.exprs m n a b) :
    tie.Renders Eq (Site.unaryOperand ⟨left, below⟩ form op a)
      (Site.unaryOperand ⟨right, below'⟩ form op b) :=
  .ite ((operand hbelow form .left h).bindEq fun _ => .pure rfl)
    ((operand hbelow form .right h).bindEq fun _ => .pure rfl)

theorem unary (op : UnaryOp) (h : tie.exprs m n a b) :
    tie.Renders Eq (Site.unary ⟨left, below⟩ op a) (Site.unary ⟨right, below'⟩ op b) := by
  unfold Site.unary Site.lang
  rw [tie.lang_eq]
  cases right.lang.operators.unary op with
  | none => exact .throw (.operatorRefusal tie _)
  | some form => exact unaryOperand hbelow form op h

theorem binary (op : BinaryOp) {l l' r r' : NodeId} (hl : tie.exprs m n l l')
    (hr : tie.exprs m n r r') :
    tie.Renders Eq (Site.binary ⟨left, below⟩ op l r) (Site.binary ⟨right, below'⟩ op l' r') := by
  unfold Site.binary Site.lang
  rw [tie.lang_eq]
  cases right.lang.operators.binary op with
  | none => exact .throw (.operatorRefusal tie _)
  | some form => exact between hbelow form hl hr

theorem ternary {c c' t t' f f' : NodeId} (hc : tie.exprs m n c c') (ht : tie.exprs m n t t')
    (hf : tie.exprs m n f f') :
    tie.Renders Eq (Site.ternary ⟨left, below⟩ c t f) (Site.ternary ⟨right, below'⟩ c' t' f') := by
  unfold Site.ternary Site.lang
  rw [tie.lang_eq]
  cases right.lang.operators.ternaryLayout with
  | condFirst =>
    exact (operand hbelow _ .left hc).bindEq fun _ => (operand hbelow _ .center ht).bindEq fun _ =>
      (operand hbelow _ .right hf).bindEq fun _ => .pure rfl
  | thenFirst =>
    exact (operand hbelow _ .left ht).bindEq fun _ => (operand hbelow _ .center hc).bindEq fun _ =>
      (operand hbelow _ .right hf).bindEq fun _ => .pure rfl

omit hbelow in
theorem word (word : Word) {e e' : Expr} {kin : Kinship} (h : e.Tied kin e') :
    tie.Renders Eq (Site.word ⟨left, below⟩ word e) (Site.word ⟨right, below'⟩ word e') := by
  unfold Site.word Site.lang
  rw [tie.lang_eq, h.kindName_eq]
  cases right.lang.operators.word word with
  | none => exact .throw (.refusal tie _)
  | some text => exact .pure rfl

/-- Entries rendered to one text each. -/
theorem renderedEntries {α : Type} {entries entries' : List (NodeId × NodeId)}
    (write : String → String → α)
    (h : List.Forall₂ (fun e e' => tie.exprs m n e.1 e'.1 ∧ tie.exprs m n e.2 e'.2) entries
      entries') :
    tie.Renders Eq
      (entries.mapM fun (key, value) => do
        let keyText ← below key
        let valueText ← below value
        return write keyText valueText)
      (entries'.mapM fun (key, value) => do
        let keyText ← below' key
        let valueText ← below' value
        return write keyText valueText) :=
  Keeps.mapMEq h fun _ _ hentry =>
    (hbelow hentry.1).bindEq fun _ => (hbelow hentry.2).bindEq fun _ => .pure rfl

/-! ## What the languages with braces share -/

section Braced

variable {binary binary' : BinaryOp → NodeId → NodeId → Render String}
  (hbinary : ∀ op {l l' r r'}, tie.exprs m n l l' → tie.exprs m n r r' →
    tie.Renders Eq (binary op l r) (binary' op l' r'))
include hbinary

theorem writtenOut (plain : Option OperatorForm) (op : AssignOp)
    {target target' value value' : NodeId}
    (ht : tie.exprs m n target target') (hv : tie.exprs m n value value') :
    tie.Renders Eq (Braced.writtenOut ⟨left, below⟩ binary plain op target value)
      (Braced.writtenOut ⟨right, below'⟩ binary' plain op target' value') := by
  unfold Braced.writtenOut
  cases plain with
  | none => exact .throw (.operatorRefusal tie _)
  | some plain =>
    cases op.binary? with
    | none => exact .throw (.operatorRefusal tie _)
    | some applied =>
      exact (hbelow ht).bindEq fun _ => (hbinary applied ht hv).bindEq fun _ => .pure rfl

theorem assignWith (forms : AssignOp → Option OperatorForm) (op : AssignOp)
    {target target' value value' : NodeId} (ht : tie.exprs m n target target')
    (hv : tie.exprs m n value value') :
    tie.Renders Eq (Braced.assignWith forms ⟨left, below⟩ binary op target value)
      (Braced.assignWith forms ⟨right, below'⟩ binary' op target' value') := by
  unfold Braced.assignWith
  cases forms op with
  | none => exact writtenOut hbelow hbinary _ op ht hv
  | some form => exact between hbelow form ht hv

end Braced

theorem bracedCompound {items items' : List NodeId}
    (h : List.Forall₂ (tie.exprs m n) items items') :
    tie.Renders Eq (Braced.compound ⟨left, below⟩ items)
      (Braced.compound ⟨right, below'⟩ items') := by
  unfold Braced.compound Site.lang
  rw [tie.lang_eq]
  cases right.lang.operators.binary .and with
  | none => exact .throw (.refusal tie _)
  | some form =>
    cases h with
    | nil => exact .pure rfl
    | cons hfirst hrest =>
      refine (operand hbelow form .left hfirst).bindEq fun _ => ?_
      exact (Keeps.mapMEq hrest fun _ _ => operand hbelow form .right).bindEq fun _ => .pure rfl

theorem bracedCast {typeName : Ty → Except EmitError String}
    (hname : ∀ ty, Concur tie.Error Eq (typeName ty) (typeName ty)) {ty ty' value value' : NodeId}
    (ht : tie.pair m n (some .type) ty ty') (hv : tie.exprs m n value value') :
    tie.Renders Eq (Braced.cast typeName ⟨left, below⟩ ty value)
      (Braced.cast typeName ⟨right, below'⟩ ty' value') := by
  unfold Braced.cast Site.lang
  rw [tie.lang_eq]
  cases right.lang.operators.cast with
  | none => exact .throw (.refusal tie _)
  | some form =>
    refine (Renders.follow (Tie.ty ht)).bindEq fun ty => ?_
    refine (Renders.allowed (hname ty)).bindEq fun name => ?_
    exact (operand hbelow form .right hv).bindEq fun _ => .pure rfl

theorem bracedNewObject {typeName : Ty → Except EmitError String}
    (hname : ∀ ty, Concur tie.Error Eq (typeName ty) (typeName ty)) (ty : Ty)
    {ids ids' : List NodeId} (h : List.Forall₂ (tie.exprs m n) ids ids') :
    tie.Renders Eq (Braced.newObject typeName ⟨left, below⟩ ty ids)
      (Braced.newObject typeName ⟨right, below'⟩ ty ids') :=
  (Renders.allowed (hname ty)).bindEq fun _ => (args hbelow h).bindEq fun _ => .pure rfl

theorem newArrayOf (item : String) {dims dims' : List NodeId}
    (h : List.Forall₂ (tie.exprs m n) dims dims') :
    tie.Renders Eq (Braced.newArrayOf ⟨left, below⟩ item dims)
      (Braced.newArrayOf ⟨right, below'⟩ item dims') :=
  (rendered hbelow h).bindEq fun _ => .pure rfl

end Site

/-! ## Dialects -/

variable (tie) in
/-- A dialect says the same about tied expressions. -/
structure Speaks (dialect : Dialect) : Prop where
  typeName : ∀ ty, Concur tie.Error Eq (dialect.typeName ty) (dialect.typeName ty)
  binary : ∀ {m n below below'}, tie.Below m n below below' → ∀ op {l l' r r'},
    tie.exprs m n l l' → tie.exprs m n r r' →
    tie.Renders Eq (dialect.binary ⟨left, below⟩ op l r) (dialect.binary ⟨right, below'⟩ op l' r')
  unary : ∀ {m n k j below below'}, tie.Below m n below below' → ∀ {id id'}, tie.exprs k j id id' →
    ∀ op {a b}, tie.exprs m n a b →
    tie.Renders Eq (dialect.unary ⟨left, below⟩ id op a) (dialect.unary ⟨right, below'⟩ id' op b)
  assign : ∀ {m n k j below below'}, tie.Below m n below below' → ∀ {id id'}, tie.exprs k j id id' →
    ∀ op {t t' v v'}, tie.exprs m n t t' → tie.exprs m n v v' →
    tie.Renders Eq (dialect.assign ⟨left, below⟩ id op t v)
      (dialect.assign ⟨right, below'⟩ id' op t' v')
  compound : ∀ {m n below below'}, tie.Below m n below below' → ∀ {ids ids'},
    List.Forall₂ (tie.exprs m n) ids ids' →
    tie.Renders Eq (dialect.compound ⟨left, below⟩ ids) (dialect.compound ⟨right, below'⟩ ids')
  cast : ∀ {m n below below'}, tie.Below m n below below' → ∀ {ty ty' v v'},
    tie.pair m n (some .type) ty ty' → tie.exprs m n v v' →
    tie.Renders Eq (dialect.cast ⟨left, below⟩ ty v) (dialect.cast ⟨right, below'⟩ ty' v')
  sizeOf : ∀ {m n below below'}, tie.Below m n below below' → ∀ {a b}, tie.exprs m n a b →
    tie.Renders Eq (dialect.sizeOf ⟨left, below⟩ a) (dialect.sizeOf ⟨right, below'⟩ b)
  newObject : ∀ {m n below below'}, tie.Below m n below below' → ∀ ty {ids ids'},
    List.Forall₂ (tie.exprs m n) ids ids' →
    tie.Renders Eq (dialect.newObject ⟨left, below⟩ ty ids)
      (dialect.newObject ⟨right, below'⟩ ty ids')
  newArray : ∀ {m n below below'}, tie.Below m n below below' → ∀ ty {dims dims' init init'},
    List.Forall₂ (tie.exprs m n) dims dims' → Option.Rel (tie.exprs m n) init init' →
    tie.Renders Eq (dialect.newArray ⟨left, below⟩ ty dims init)
      (dialect.newArray ⟨right, below'⟩ ty dims' init')
  collection : ∀ {m n k j below below'}, tie.Below m n below below' → ∀ {id id'},
    tie.exprs k j id id' → ∀ kind {ids ids'}, List.Forall₂ (tie.exprs m n) ids ids' →
    tie.Renders Eq (dialect.collection ⟨left, below⟩ id kind ids)
      (dialect.collection ⟨right, below'⟩ id' kind ids')
  dict : ∀ {m n k j below below'}, tie.Below m n below below' → ∀ {id id'}, tie.exprs k j id id' →
    ∀ {entries entries'},
    List.Forall₂ (fun e e' => tie.exprs m n e.1 e'.1 ∧ tie.exprs m n e.2 e'.2) entries entries' →
    tie.Renders Eq (dialect.dict ⟨left, below⟩ id entries)
      (dialect.dict ⟨right, below'⟩ id' entries')
  interpolated : ∀ {m n below below'}, tie.Below m n below below' → ∀ {ids ids'},
    List.Forall₂ (tie.exprs m n) ids ids' →
    tie.Renders Eq (dialect.interpolated ⟨left, below⟩ ids)
      (dialect.interpolated ⟨right, below'⟩ ids')
  sequence : ∀ {m n below below'}, tie.Below m n below below' → ∀ {ids ids'},
    List.Forall₂ (tie.exprs m n) ids ids' →
    tie.Renders Eq (dialect.sequence ⟨left, below⟩ ids) (dialect.sequence ⟨right, below'⟩ ids')

/-- One layer of tied expressions is rendered alike. -/
theorem Speaks.expr {dialect : Dialect} (hspeaks : tie.Speaks dialect)
    (hbelow : tie.Below m n below below') {k j : Nat} {id id' : NodeId} (hid : tie.exprs k j id id')
    {e e' : Expr} (h : e.Tied (tie.pair m n) e') :
    tie.Renders Eq (dialect.expr ⟨left, below⟩ id e) (dialect.expr ⟨right, below'⟩ id' e') := by
  have htied := h
  unfold Dialect.expr
  cases h with
  | bool value => cases value <;> exact word _ htied
  | null | selfRef | superRef => exact word _ htied
  | interpolated h => exact hspeaks.interpolated hbelow h
  | collection kind h => exact hspeaks.collection hbelow hid kind h
  | dict h => exact hspeaks.dict hbelow hid h
  | binary op hl hr => exact hspeaks.binary hbelow op hl hr
  | unary op h => exact hspeaks.unary hbelow hid op h
  | assign op ht hv => exact hspeaks.assign hbelow hid op ht hv
  | ternary hc ht hf => exact ternary hbelow hc ht hf
  | compound h => exact hspeaks.compound hbelow h
  | paren h => exact (hbelow h).bindEq fun _ => .pure rfl
  | call hc ha =>
    exact (accessed hbelow hc).bindEq fun _ => (args hbelow ha).bindEq fun _ => .pure rfl
  | method _ hr ha =>
    exact (accessed hbelow hr).bindEq fun _ => (args hbelow ha).bindEq fun _ => .pure rfl
  | index ht hp => exact (accessed hbelow ht).bindEq fun _ => (hbelow hp).bindEq fun _ => .pure rfl
  | member _ h => exact (accessed hbelow h).bindEq fun _ => .pure rfl
  | cast ht hv => exact hspeaks.cast hbelow ht hv
  | sizeOf h => exact hspeaks.sizeOf hbelow h
  | new ht ha => exact (Renders.follow (ty ht)).bindEq fun ty => hspeaks.newObject hbelow ty ha
  | newArray ht hd hi =>
    exact (Renders.follow (ty ht)).bindEq fun ty => hspeaks.newArray hbelow ty hd hi
  | sequence h => exact hspeaks.sequence hbelow h
  | int _ | float _ | char _ | str _ _ | ident _ => exact .pure rfl
  | _ =>
    -- a scoped name, under the separator of the language
    unfold Site.lang
    rw [tie.lang_eq]
    exact .pure rfl

/-! ### Java -/

section Java

open Java

mutual

theorem java_typeName : ∀ ty : Ty, Concur tie.Error Eq (Java.typeName ty) (Java.typeName ty)
  | .int | .float | .bool | .char | .str | .void | .unknown | .tuple _ | .user _ => .ok rfl
  | .pointer _ => .error (.unsupported _ _)
  | .reference target => java_typeName target
  | .array item | .list item | .set item => (java_typeName item).bindEq fun _ => .ok rfl
  | .dict key value =>
    (java_typeName key).bindEq fun _ => (java_typeName value).bindEq fun _ => .ok rfl
  | .generic _ types => (java_boxedNames types).bindEq fun _ => .ok rfl

theorem java_boxedNames :
    ∀ types : List Ty, Concur tie.Error Eq (Java.boxedNames types) (Java.boxedNames types)
  | [] => .ok rfl
  | ty :: rest => (java_typeName ty).bindEq fun _ => (java_boxedNames rest).bindEq fun _ => .ok rfl

end

variable (hbelow : tie.Below m n below below')
include hbelow

theorem java_binary (op : BinaryOp) {l l' r r' : NodeId} (hl : tie.exprs m n l l')
    (hr : tie.exprs m n r r') :
    tie.Renders Eq (binaryExpr ⟨left, below⟩ op l r) (binaryExpr ⟨right, below'⟩ op l' r') := by
  have hcall (name : String) : tie.Renders Eq (binaryExpr.call ⟨left, below⟩ l r name)
      (binaryExpr.call ⟨right, below'⟩ l' r' name) :=
    (hbelow hl).bindEq fun _ => (hbelow hr).bindEq fun _ => .pure rfl
  cases op with
  | pow => exact hcall _
  | floorDiv => exact hcall _
  | _ => exact Tie.binary hbelow _ hl hr

theorem java_collection {k j : Nat} {id id' : NodeId} (hid : tie.exprs k j id id')
    (kind : CollectionKind) {ids ids' : List NodeId} (h : List.Forall₂ (tie.exprs m n) ids ids') :
    tie.Renders Eq (Java.collection ⟨left, below⟩ id kind ids)
      (Java.collection ⟨right, below'⟩ id' kind ids') := by
  unfold Java.collection
  refine (args hbelow h).bindEq fun list => ?_
  cases kind with
  | array =>
    refine (inferred hid).bindEq fun ty => ?_
    cases ty with
    | array item =>
      exact .ite ((Renders.allowed (java_typeName item)).bindEq fun _ => .pure rfl) (.pure rfl)
    | _ => exact .pure rfl
  | list | set =>
    have hempty : ids.isEmpty = ids'.isEmpty := by cases h <;> rfl
    rw [hempty]
    exact .pure rfl
  | tuple => exact .pure rfl

theorem java_dict (id id' : NodeId) {entries entries' : List (NodeId × NodeId)}
    (h : List.Forall₂ (fun e e' => tie.exprs m n e.1 e'.1 ∧ tie.exprs m n e.2 e'.2) entries
      entries') :
    tie.Renders Eq (Java.dict ⟨left, below⟩ id entries)
      (Java.dict ⟨right, below'⟩ id' entries') := by
  have hempty : entries.isEmpty = entries'.isEmpty := by cases h <;> rfl
  unfold Java.dict
  rw [hempty]
  have hentries := renderedEntries hbelow (fun key value => [key, value]) h
  exact .ite (.pure rfl) (hentries.bindEq fun _ => .pure rfl)

omit hbelow in
theorem startsWithString {ids ids' : List NodeId} (h : List.Forall₂ (tie.exprs m n) ids ids') :
    tie.Renders Eq (Java.startsWithString ⟨left, below⟩ ids)
      (Java.startsWithString ⟨right, below'⟩ ids') := by
  cases h with
  | nil => exact .pure rfl
  | cons hfirst _ =>
    refine (Renders.follow (Tie.expr hfirst)).bind fun e e' he => ?_
    cases he <;> exact .pure rfl

theorem java_interpolated {ids ids' : List NodeId} (h : List.Forall₂ (tie.exprs m n) ids ids') :
    tie.Renders Eq (Java.interpolated ⟨left, below⟩ ids)
      (Java.interpolated ⟨right, below'⟩ ids') := by
  unfold Java.interpolated
  refine (startsWithString h).bindEq fun ledByString => ?_
  have hsides : List.Forall₂ (fun p p' : NodeId × Side => tie.exprs m n p.1 p'.1 ∧ p.2 = p'.2)
      (ids.mapIdx fun index part =>
        if ledByString && index == 0 then (part, Side.left) else (part, Side.right))
      (ids'.mapIdx fun index part =>
        if ledByString && index == 0 then (part, Side.left) else (part, Side.right)) := by
    refine forall₂_mapIdx h fun index part part' hpart => ?_
    split <;> exact ⟨hpart, rfl⟩
  refine (Keeps.mapMEq hsides fun p p' hp => ?_).bindEq fun texts => .pure rfl
  obtain ⟨part, side⟩ := p
  obtain ⟨part', _⟩ := p'
  obtain ⟨hpart, rfl⟩ := hp
  exact operand hbelow _ side hpart

theorem java_newArray (ty : Ty) {dims dims' : List NodeId} {init init' : Option NodeId}
    (hd : List.Forall₂ (tie.exprs m n) dims dims') (hi : Option.Rel (tie.exprs m n) init init') :
    tie.Renders Eq (Java.newArray ⟨left, below⟩ ty dims init)
      (Java.newArray ⟨right, below'⟩ ty dims' init') := by
  unfold Java.newArray
  refine (Renders.allowed (java_typeName ty)).bindEq fun item => ?_
  cases hi with
  | none => exact newArrayOf hbelow item hd
  | some hi =>
    refine (Renders.follow (Tie.expr hi)).bind fun e e' he => ?_
    cases he with
    | collection _ h => exact (args hbelow h).bindEq fun _ => .pure rfl
    | _ => exact (hbelow hi).bindEq fun _ => .pure rfl

end Java

theorem java_speaks : tie.Speaks Java.dialect where
  typeName := java_typeName
  binary := java_binary
  unary hbelow _ _ _ op _ _ h := unary hbelow op h
  assign hbelow _ _ _ op _ _ _ _ ht hv :=
    assignWith hbelow (java_binary hbelow) Java.assign op ht hv
  compound := bracedCompound
  cast hbelow := bracedCast hbelow java_typeName
  sizeOf _ _ _ _ := .throw (.refusal tie _)
  newObject hbelow := bracedNewObject hbelow java_typeName
  newArray := java_newArray
  collection hbelow _ _ := java_collection hbelow
  dict hbelow id id' _ := java_dict hbelow id id'
  interpolated := java_interpolated
  sequence _ _ _ _ := .throw (.refusal tie _)

/-! ### C++ -/

section Cpp

open Cpp

variable (hbelow : tie.Below m n below below')
include hbelow

theorem cpp_binary (op : BinaryOp) {l l' r r' : NodeId} (hl : tie.exprs m n l l')
    (hr : tie.exprs m n r r') :
    tie.Renders Eq (binaryExpr ⟨left, below⟩ op l r) (binaryExpr ⟨right, below'⟩ op l' r') := by
  cases op with
  | pow => exact (hbelow hl).bindEq fun _ => (hbelow hr).bindEq fun _ => .pure rfl
  | floorDiv => exact (between hbelow _ hl hr).bindEq fun _ => .pure rfl
  | _ => exact Tie.binary hbelow _ hl hr

omit hbelow in
theorem typedInit {k j : Nat} {id id' : NodeId} (hid : tie.exprs k j id id') (list : String) :
    tie.Renders Eq (Cpp.typedInit ⟨left, below⟩ id list) (Cpp.typedInit ⟨right, below'⟩ id' list) :=
  (inferred hid).bindEq fun _ => .pure rfl

theorem cpp_collection {k j : Nat} {id id' : NodeId} (hid : tie.exprs k j id id')
    (kind : CollectionKind) {ids ids' : List NodeId} (h : List.Forall₂ (tie.exprs m n) ids ids') :
    tie.Renders Eq (Cpp.collection ⟨left, below⟩ id kind ids)
      (Cpp.collection ⟨right, below'⟩ id' kind ids') := by
  refine (args hbelow h).bindEq fun list => ?_
  cases kind with
  | tuple => exact .pure rfl
  | list | array | set => exact typedInit hid list

theorem cpp_dict {k j : Nat} {id id' : NodeId} (hid : tie.exprs k j id id')
    {entries entries' : List (NodeId × NodeId)}
    (h : List.Forall₂ (fun e e' => tie.exprs m n e.1 e'.1 ∧ tie.exprs m n e.2 e'.2) entries
      entries') :
    tie.Renders Eq (Cpp.dict ⟨left, below⟩ id entries) (Cpp.dict ⟨right, below'⟩ id' entries') :=
  (renderedEntries hbelow (fun key value => inBraces (commas [key, value])) h).bindEq fun _ =>
    typedInit hid _

theorem cpp_formatPart (h : tie.exprs m n a b) :
    tie.Renders Eq (Cpp.formatPart ⟨left, below⟩ a) (Cpp.formatPart ⟨right, below'⟩ b) := by
  refine (Renders.follow (Tie.expr h)).bind fun e e' he => ?_
  cases he with
  | str value kind => exact .pure rfl
  | _ => exact (hbelow h).bindEq fun _ => .pure rfl

theorem cpp_interpolated {ids ids' : List NodeId} (h : List.Forall₂ (tie.exprs m n) ids ids') :
    tie.Renders Eq (Cpp.interpolated ⟨left, below⟩ ids) (Cpp.interpolated ⟨right, below'⟩ ids') :=
  (Keeps.mapMEq h fun _ _ => cpp_formatPart hbelow).bindEq fun _ => .pure rfl

theorem cpp_newArray (ty : Ty) {dims dims' : List NodeId} {init init' : Option NodeId}
    (hd : List.Forall₂ (tie.exprs m n) dims dims') (hi : Option.Rel (tie.exprs m n) init init') :
    tie.Renders Eq (Cpp.newArray ⟨left, below⟩ ty dims init)
      (Cpp.newArray ⟨right, below'⟩ ty dims' init') := by
  unfold Cpp.newArray
  cases hi with
  | none => exact newArrayOf hbelow _ hd
  | some hi =>
    refine (Renders.follow (Tie.expr hi)).bind fun e e' he => ?_
    cases he with
    | collection _ h =>
      refine (args hbelow h).bindEq fun list => ?_
      rw [h.length_eq]
      exact .pure rfl
    | _ => exact newArrayOf hbelow _ hd

end Cpp

theorem cpp_speaks : tie.Speaks Cpp.dialect where
  typeName _ := .ok rfl
  binary := cpp_binary
  unary hbelow _ _ _ op _ _ h := unary hbelow op h
  assign hbelow _ _ _ op _ _ _ _ ht hv := assignWith hbelow (cpp_binary hbelow) Cpp.assign op ht hv
  compound := bracedCompound
  cast hbelow := bracedCast hbelow fun _ => .ok rfl
  sizeOf hbelow _ _ h := (hbelow h).bindEq fun _ => .pure rfl
  newObject hbelow := bracedNewObject hbelow fun _ => .ok rfl
  newArray := cpp_newArray
  collection hbelow _ _ := cpp_collection hbelow
  dict hbelow _ _ hid _ _ h := cpp_dict hbelow hid h
  interpolated := cpp_interpolated
  sequence := args

/-! ### Python -/

section Python

open Python

mutual

theorem python_typeName : ∀ ty : Ty, Concur tie.Error Eq (Python.typeName ty) (Python.typeName ty)
  | .int | .float | .bool | .char | .str | .void | .unknown | .user _ => .ok rfl
  | .pointer _ => .error (.unsupported _ _)
  | .reference target => python_typeName target
  | .array item | .list item | .set item => (python_typeName item).bindEq fun _ => .ok rfl
  | .dict key value =>
    (python_typeName key).bindEq fun _ => (python_typeName value).bindEq fun _ => .ok rfl
  | .tuple types | .generic _ types => (python_typeNames types).bindEq fun _ => .ok rfl

theorem python_typeNames :
    ∀ types : List Ty, Concur tie.Error Eq (Python.typeNames types) (Python.typeNames types)
  | [] => .ok rfl
  | ty :: rest =>
    (python_typeName ty).bindEq fun _ => (python_typeNames rest).bindEq fun _ => .ok rfl

end

theorem isNull (h : tie.exprs m n a b) :
    Concur tie.fault Eq (Python.isNull left.arena a) (Python.isNull right.arena b) := by
  refine (Tie.expr h).bind fun e e' he => ?_
  cases he <;> exact .ok rfl

theorem isName (h : tie.exprs m n a b) :
    Concur tie.fault Eq (Python.isName left.arena a) (Python.isName right.arena b) := by
  refine (Tie.expr h).bind fun e e' he => ?_
  cases he <;> exact .ok rfl

theorem binaryForm? (op : BinaryOp) {l l' r r' : NodeId} (hl : tie.exprs m n l l')
    (hr : tie.exprs m n r r') :
    tie.Renders Eq (Python.binaryForm? ⟨left, below⟩ op l r)
      (Python.binaryForm? ⟨right, below'⟩ op l' r') := by
  unfold Python.binaryForm?
  refine (Renders.follow (isNull hl)).bindEq fun isNullLeft => ?_
  cases isNullLeft with
  | true => exact .pure rfl
  | false => exact (Renders.follow (isNull hr)).bindEq fun _ => .pure rfl

/-- The operands of tied conjunctions are tied with any depths that the conjunctions are tied
with, whatever depths are left to find them. -/
theorem conjunctsTo {k j : Nat} (hdepth : tie.exprs k j a b) (h : tie.exprs m n a b) :
    Concur tie.fault (List.Forall₂ (tie.exprs m n)) (Python.conjunctsTo left.arena k a)
      (Python.conjunctsTo right.arena j b) := by
  induction hdepth using tie.exprRecursion with
  | zero _ _ _ hfault => exact .error hfault
  | succ k j ih a b _ he =>
    have hself : Concur tie.fault (List.Forall₂ (tie.exprs m n)) (pure [a]) (pure [b]) :=
      .ok (.cons h .nil)
    unfold Python.conjunctsTo
    refine (he.and (Tie.expr h)).bind fun e e' ⟨he, hsame⟩ => ?_
    cases he with
    | binary op hl hr =>
      cases hsame with
      | binary _ hl' hr' =>
        cases op with
        | and =>
          exact (ih hl hl').bind fun _ _ hlefts => (ih hr hr').bind fun _ _ hrights =>
            .ok (List.rel_append hlefts hrights)
        | _ => exact hself
    | _ => exact hself

theorem isChain {previous previous' : Option NodeId} {ids ids' : List NodeId}
    (hp : Option.Rel (tie.exprs m n) previous previous')
    (h : List.Forall₂ (tie.exprs m n) ids ids') :
    Concur tie.fault Eq (Python.isChain left.arena previous ids)
      (Python.isChain right.arena previous' ids') := by
  induction h generalizing previous previous' with
  | nil => exact .ok rfl
  | cons hitem _ ih =>
    unfold Python.isChain
    refine (Tie.expr hitem).bind fun e e' he => ?_
    cases he with
    | binary op hl hr =>
      refine .ite ?_ (.ok rfl)
      cases hp with
      | none => exact ih (.some hr)
      | some hp => exact (same hp hl).bindEq fun _ => .ite (ih (.some hr)) (.ok rfl)
    | _ => exact .ok rfl

theorem chainOf? {l l' r r' : NodeId} (hl : tie.exprs m n l l') (hr : tie.exprs m n r r') :
    Concur tie.fault (Option.Rel (List.Forall₂ (tie.exprs m n)))
      (Python.chainOf? left.arena l r) (Python.chainOf? right.arena l' r') := by
  unfold Python.chainOf?
  refine (conjunctsTo (tie.restart hl) hl).bind fun _ _ hlefts => ?_
  refine (conjunctsTo (tie.restart hr) hr).bind fun _ _ hrights => ?_
  have hitems := List.rel_append hlefts hrights
  refine (isChain .none hitems).bindEq fun chained => .ok ?_
  cases chained with
  | true => exact .some hitems
  | false => exact .none

variable (hbelow : tie.Below m n below below')
include hbelow

theorem chainLink (isFirst : Bool) (h : tie.exprs m n a b) :
    tie.Renders Eq (Python.chainLink ⟨left, below⟩ isFirst a)
      (Python.chainLink ⟨right, below'⟩ isFirst b) := by
  unfold Python.chainLink
  refine (Renders.follow (Tie.expr h)).bind fun e e' he => ?_
  cases he with
  | binary op hl hr =>
    refine (binaryForm? op hl hr).bindEq fun form => ?_
    cases form with
    | none => exact .throw (.operatorRefusal tie _)
    | some form =>
      have hright := operand hbelow form .right hr
      cases isFirst with
      | true =>
        exact (operand hbelow form .left hl).bindEq fun _ => hright.bindEq fun _ => .pure rfl
      | false => exact hright.bindEq fun _ => .pure rfl
  | _ => exact .throw (.malformed _ _)

theorem chain {ids ids' : List NodeId} (h : List.Forall₂ (tie.exprs m n) ids ids') :
    tie.Renders Eq (Python.chain ⟨left, below⟩ ids) (Python.chain ⟨right, below'⟩ ids') := by
  cases h with
  | nil => exact .pure rfl
  | cons hfirst hrest =>
    refine (chainLink hbelow true hfirst).bindEq fun _ => ?_
    exact (Keeps.mapMEq hrest fun _ _ => chainLink hbelow false).bindEq fun _ => .pure rfl

theorem python_binary (op : BinaryOp) {l l' r r' : NodeId} (hl : tie.exprs m n l l')
    (hr : tie.exprs m n r r') :
    tie.Renders Eq (Python.binaryExpr ⟨left, below⟩ op l r)
      (Python.binaryExpr ⟨right, below'⟩ op l' r') := by
  have hinfixed : tie.Renders Eq (binaryExpr.infixed ⟨left, below⟩ op l r)
      (binaryExpr.infixed ⟨right, below'⟩ op l' r') := by
    refine (binaryForm? op hl hr).bindEq fun form => ?_
    cases form with
    | none => exact .throw (.operatorRefusal tie _)
    | some form => exact between hbelow form hl hr
  unfold Python.binaryExpr
  cases op with
  | instanceOf => exact (hbelow hl).bindEq fun _ => (hbelow hr).bindEq fun _ => .pure rfl
  | and =>
    dsimp only
    rw [tie.isOn_eq_of_ne .keepComparisons nofun]
    refine .ite hinfixed ((Renders.follow (chainOf? hl hr)).bind fun items items' hitems => ?_)
    cases hitems with
    | none => exact hinfixed
    | some hitems => exact chain hbelow hitems
  | _ => exact hinfixed

theorem assignedValue (h : tie.exprs m n a b) :
    tie.Renders Eq (Python.assignedValue ⟨left, below⟩ a)
      (Python.assignedValue ⟨right, below'⟩ b) := by
  refine (Renders.follow (Tie.expr h)).bind fun e e' he => (hbelow h).bindEq fun text => ?_
  cases he <;> exact .pure rfl

theorem python_assignment (op : AssignOp) {target target' value value' : NodeId}
    (ht : tie.exprs m n target target') (hv : tie.exprs m n value value') :
    tie.Renders Eq (Python.assignment ⟨left, below⟩ op target value)
      (Python.assignment ⟨right, below'⟩ op target' value') := by
  unfold Python.assignment
  refine (assignedValue hbelow hv).bindEq fun valueText => ?_
  refine (declaredName? op ht).bindEq fun name => ?_
  cases name with
  | none =>
    refine (hbelow ht).bindEq fun targetText => ?_
    exact (Renders.infer (infer_assignment op ht hv)).bindEq fun _ => .pure rfl
  | some name =>
    refine (inferred hv).bindEq fun ty => ?_
    extract_lets declare
    have hdeclare (note : String) : tie.Renders Eq (declare note) (declare note) :=
      (Renders.setVariable name ty).bindEq fun _ => .pure rfl
    exact .ite ((Renders.allowed (python_typeName ty)).bindEq fun _ => hdeclare _) (hdeclare _)

theorem python_assign {k j : Nat} {id id' : NodeId} (hid : tie.exprs k j id id') (op : AssignOp)
    {target target' value value' : NodeId} (ht : tie.exprs m n target target')
    (hv : tie.exprs m n value value') :
    tie.Renders Eq (Python.assignExpr ⟨left, below⟩ id op target value)
      (Python.assignExpr ⟨right, below'⟩ id' op target' value') := by
  unfold Python.assignExpr
  refine (Renders.follow (tie.statement hid)).bindEq fun isStatement => ?_
  refine .ite (python_assignment hbelow op ht hv) ?_
  refine (Renders.follow (isName ht)).bindEq fun isName => .ite (.throw (.refusal tie _)) ?_
  extract_lets write write'
  have hwrite (text : String) : tie.Renders Eq (write text) (write' text) :=
    (Renders.follow (tie.bare hid)).bindEq fun _ => .pure rfl
  cases op.binary? with
  | none =>
    dsimp only
    cases assign op with
    | none => exact Keeps.bindEq (.throw (.operatorRefusal tie _)) hwrite
    | some form => exact (between hbelow form ht hv).bindEq hwrite
  | some applied =>
    exact (hbelow ht).bindEq fun _ => (python_binary hbelow applied ht hv).bindEq fun _ => hwrite _

theorem python_unary {k j : Nat} {id id' : NodeId} (hid : tie.exprs k j id id') (op : UnaryOp)
    (h : tie.exprs m n a b) :
    tie.Renders Eq (Python.unaryExpr ⟨left, below⟩ id op a)
      (Python.unaryExpr ⟨right, below'⟩ id' op b) := by
  unfold Python.unaryExpr
  refine .ite (unary hbelow op h) ((hbelow h).bindEq fun target => ?_)
  refine (Renders.follow (tie.statement hid)).bindEq fun isStatement => .ite (.pure rfl) ?_
  exact (Renders.follow (isName h)).bindEq fun isName => .ite (.throw (.refusal tie _)) (.pure rfl)

theorem python_cast {ty ty' value value' : NodeId} (ht : tie.pair m n (some .type) ty ty')
    (hv : tie.exprs m n value value') :
    tie.Renders Eq (Python.cast ⟨left, below⟩ ty value) (Python.cast ⟨right, below'⟩ ty' value') :=
  (Renders.follow (Tie.ty ht)).bindEq fun _ => (hbelow hv).bindEq fun _ => .pure rfl

theorem python_newObject (ty : Ty) {ids ids' : List NodeId}
    (h : List.Forall₂ (tie.exprs m n) ids ids') :
    tie.Renders Eq (Python.newObject ⟨left, below⟩ ty ids)
      (Python.newObject ⟨right, below'⟩ ty ids') :=
  (Renders.allowed (python_typeName ty)).bindEq fun _ => (args hbelow h).bindEq fun _ => .pure rfl

theorem python_collection (id id' : NodeId) (kind : CollectionKind) {ids ids' : List NodeId}
    (h : List.Forall₂ (tie.exprs m n) ids ids') :
    tie.Renders Eq (Python.collection ⟨left, below⟩ id kind ids)
      (Python.collection ⟨right, below'⟩ id' kind ids') := by
  have hempty : ids.isEmpty = ids'.isEmpty := by cases h <;> rfl
  unfold Python.collection
  rw [hempty, h.length_eq]
  exact (args hbelow h).bindEq fun _ => .pure rfl

theorem python_dict (id id' : NodeId) {entries entries' : List (NodeId × NodeId)}
    (h : List.Forall₂ (fun e e' => tie.exprs m n e.1 e'.1 ∧ tie.exprs m n e.2 e'.2) entries
      entries') :
    tie.Renders Eq (Python.dict ⟨left, below⟩ id entries)
      (Python.dict ⟨right, below'⟩ id' entries') :=
  (renderedEntries hbelow (fun key value => key ++ ": " ++ value) h).bindEq fun _ => .pure rfl

theorem python_formatPart (h : tie.exprs m n a b) :
    tie.Renders Eq (Python.formatPart ⟨left, below⟩ a) (Python.formatPart ⟨right, below'⟩ b) := by
  refine (Renders.follow (Tie.expr h)).bind fun e e' he => ?_
  cases he with
  | str value kind => exact .pure rfl
  | _ => exact (hbelow h).bindEq fun _ => .pure rfl

theorem python_interpolated {ids ids' : List NodeId} (h : List.Forall₂ (tie.exprs m n) ids ids') :
    tie.Renders Eq (Python.interpolated ⟨left, below⟩ ids)
      (Python.interpolated ⟨right, below'⟩ ids') :=
  (Keeps.mapMEq h fun _ _ => python_formatPart hbelow).bindEq fun _ => .pure rfl

theorem python_newArray (ty : Ty) {dims dims' : List NodeId} {init init' : Option NodeId}
    (hd : List.Forall₂ (tie.exprs m n) dims dims') (hi : Option.Rel (tie.exprs m n) init init') :
    tie.Renders Eq (Python.newArray ⟨left, below⟩ ty dims init)
      (Python.newArray ⟨right, below'⟩ ty dims' init') := by
  unfold Python.newArray
  cases hi with
  | some hi =>
    refine (Renders.follow (Tie.expr hi)).bind fun e e' he => ?_
    cases he with
    | collection _ h => exact (args hbelow h).bindEq fun _ => .pure rfl
    | _ => exact hbelow hi
  | none =>
    have hreverse := List.rel_reverse hd
    dsimp only
    generalize dims.reverse = ds at hreverse
    generalize dims'.reverse = ds' at hreverse
    cases hreverse with
    | nil => exact .pure rfl
    | cons hinner houter =>
      exact (hbelow hinner).bindEq fun _ => (rendered hbelow houter).bindEq fun _ => .pure rfl

end Python

theorem python_speaks : tie.Speaks Python.dialect where
  typeName := python_typeName
  binary := python_binary
  unary hbelow _ _ hid op _ _ h := python_unary hbelow hid op h
  assign hbelow _ _ hid op _ _ _ _ ht hv := python_assign hbelow hid op ht hv
  compound := chain
  cast := python_cast
  sizeOf _ _ _ _ := .throw (.refusal tie _)
  newObject := python_newObject
  newArray := python_newArray
  collection hbelow id id' _ := python_collection hbelow id id'
  dict hbelow id id' _ := python_dict hbelow id id'
  interpolated := python_interpolated
  sequence := args

/-! ## Whole expressions -/

variable (tie) in
theorem speaks (lang : Language) : tie.Speaks lang.dialect := by
  cases lang with
  | java => exact java_speaks
  | python => exact python_speaks
  | cpp => exact cpp_speaks

/-- **Tied expressions are rendered alike.** -/
theorem render_exprTo (h : tie.exprs m n a b) :
    tie.Renders Eq (left.exprTo m a) (right.exprTo n b) := by
  induction h using tie.exprRecursion with
  | zero _ _ _ hfault => exact .throw (.fault hfault)
  | succ m n ih a b h he =>
    unfold View.exprTo
    rw [tie.lang_eq]
    exact (Renders.follow he).bind fun e e' he => (tie.speaks right.lang).expr ih h he

theorem render_expr (h : tie.exprs m n a b) : tie.Renders Eq (left.expr a) (right.expr b) :=
  render_exprTo (tie.restart h)

/-- What the sites of statements render below. -/
theorem below_expr : tie.Below m n left.expr right.expr := render_expr

theorem typeName (ty : Ty) : Concur tie.Error Eq (left.typeName ty) (right.typeName ty) := by
  unfold View.typeName
  rw [tie.lang_eq]
  exact (tie.speaks right.lang).typeName ty

theorem typeAt (h : tie.pair m n (some .type) a b) :
    Concur tie.Error Eq (left.typeAt a) (right.typeAt b) := by
  have hty := ty h
  unfold View.typeAt
  generalize left.arena.ty a = x at hty
  generalize right.arena.ty b = y at hty
  cases hty with
  | error hfault => exact .error (.fault hfault)
  | ok heq => exact heq ▸ typeName _

theorem typeNames {ids ids' : List NodeId} (h : List.Forall₂ (tie.pair m n (some .type)) ids ids') :
    Concur tie.Error Eq (ids.mapM left.typeAt) (ids'.mapM right.typeAt) :=
  Concur.mapMEq h fun _ _ => typeAt

end Tie

end Interlingua
