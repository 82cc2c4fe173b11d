import Interlingua.Node.Basic

/-!
# Owned children and skeletons

* `Node.children` — the owned children of a node in source order, each with the name of the
  field that holds it.  Soft references are not children.
* `Node.mapIds` — a node with every stored identity, soft references included, replaced.
* `Node.skeleton` — a node with its identities erased; optional references keep their presence,
  so two skeletons are equal exactly when the nodes agree on everything but identities.
-/

namespace Interlingua

/-- An owned child and the field of its parent that holds it. -/
structure Child where
  id : NodeId
  field : String
  deriving DecidableEq, Repr

/-- Children held by one field. -/
def held (field : String) (ids : List NodeId) : List Child :=
  ids.map fun id => ⟨id, field⟩

/-- The child held by an optional field. -/
def heldIf (field : String) (id : Option NodeId) : List Child :=
  held field id.toList

def Expr.children : Expr → List Child
  | .int _ | .float _ | .bool _ | .char _ | .str .. | .null | .ident _ | .scoped _
  | .selfRef | .superRef => []
  | .interpolated parts => held "parts" parts
  | .collection _ items | .sequence items => held "items" items
  | .compound comparisons => held "comparisons" comparisons
  | .dict entries => entries.flatMap fun (key, value) => [⟨key, "key"⟩, ⟨value, "value"⟩]
  | .binary _ left right => [⟨left, "left"⟩, ⟨right, "right"⟩]
  | .unary _ operand => [⟨operand, "operand"⟩]
  | .assign _ target value => [⟨target, "target"⟩, ⟨value, "value"⟩]
  | .ternary cond whenTrue whenFalse =>
      [⟨cond, "cond"⟩, ⟨whenTrue, "then"⟩, ⟨whenFalse, "otherwise"⟩]
  | .paren inner => [⟨inner, "inner"⟩]
  | .sizeOf value => [⟨value, "value"⟩]
  | .call callee args => ⟨callee, "callee"⟩ :: held "args" args
  | .method receiver _ args => ⟨receiver, "receiver"⟩ :: held "args" args
  | .index target position => [⟨target, "target"⟩, ⟨position, "index"⟩]
  | .member target _ => [⟨target, "target"⟩]
  | .cast ty value => [⟨ty, "type"⟩, ⟨value, "value"⟩]
  | .new ty args => ⟨ty, "type"⟩ :: held "args" args
  | .newArray ty dims init => ⟨ty, "type"⟩ :: (held "dims" dims ++ heldIf "init" init)

def Stmt.children : Stmt → List Child
  | .block body => held "body" body
  | .expr value => [⟨value, "expr"⟩]
  | .assign _ target value => [⟨target, "target"⟩, ⟨value, "value"⟩]
  | .multiAssign items => held "assignments" items
  | .conditional branches otherwise =>
      (branches.flatMap fun branch => [⟨branch.cond, "cond"⟩, ⟨branch.body, "then"⟩]) ++
        heldIf "otherwise" otherwise
  | .switch subject cases =>
      ⟨subject, "subject"⟩ ::
        cases.flatMap fun case =>
          heldIf "case" case.label.value? ++ [⟨case.body, "case_body"⟩]
  | .whileLoop cond body => [⟨cond, "cond"⟩, ⟨body, "body"⟩]
  | .doWhile body cond => [⟨body, "body"⟩, ⟨cond, "cond"⟩]
  | .forLoop init cond update body =>
      heldIf "init" init ++ heldIf "cond" cond ++ heldIf "update" update ++ [⟨body, "body"⟩]
  | .rangeFor _ range body =>
      ⟨range.start, "start"⟩ :: ⟨range.stop, "stop"⟩ ::
        (heldIf "step" range.step ++ [⟨body, "body"⟩])
  | .forEach _ ty iterable body => [⟨ty, "type"⟩, ⟨iterable, "iterable"⟩, ⟨body, "body"⟩]
  | .infinite body => [⟨body, "body"⟩]
  | .ret value => heldIf "value" value
  | .delete target _ => [⟨target, "target"⟩]
  | .breakTo _ | .continueTo _ | .comment .. => []

def Decl.children : Decl → List Child
  | .vars ty declarators _ =>
      ⟨ty, "type"⟩ :: declarators.flatMap fun declarator => heldIf "init" declarator.init
  | .function _ params ret _ _ =>
      held "params" (params.map Param.ty) ++ [⟨ret, "return_type"⟩]
  | .classHead _ parents _ => held "parents" parents
  | .imports .. | .package _ | .includes .. => []

def Def.children : Def → List Child
  | .program body _ _ => held "body" body
  | .function decl body => [⟨decl, "declaration"⟩, ⟨body, "body"⟩]
  | .classBody decl members => ⟨decl, "declaration"⟩ :: held "members" members

/-- Owned children in source order. -/
def Node.children : Node → List Child
  | .expr e => e.children
  | .stmt s => s.children
  | .decl d => d.children
  | .defn d => d.children
  | .type _ => []

def Expr.mapIds (f : NodeId → NodeId) : Expr → Expr
  | .interpolated parts => .interpolated (parts.map f)
  | .collection kind items => .collection kind (items.map f)
  | .sequence items => .sequence (items.map f)
  | .compound comparisons => .compound (comparisons.map f)
  | .dict entries => .dict (entries.map fun (key, value) => (f key, f value))
  | .binary op left right => .binary op (f left) (f right)
  | .unary op operand => .unary op (f operand)
  | .assign op target value => .assign op (f target) (f value)
  | .ternary cond whenTrue whenFalse => .ternary (f cond) (f whenTrue) (f whenFalse)
  | .paren inner => .paren (f inner)
  | .sizeOf value => .sizeOf (f value)
  | .call callee args => .call (f callee) (args.map f)
  | .method receiver name args => .method (f receiver) name (args.map f)
  | .index target position => .index (f target) (f position)
  | .member target name => .member (f target) name
  | .cast ty value => .cast (f ty) (f value)
  | .new ty args => .new (f ty) (args.map f)
  | .newArray ty dims init => .newArray (f ty) (dims.map f) (init.map f)
  | .int value => .int value
  | .float bits => .float bits
  | .bool value => .bool value
  | .char value => .char value
  | .str value kind => .str value kind
  | .null => .null
  | .ident name => .ident name
  | .scoped path => .scoped path
  | .selfRef => .selfRef
  | .superRef => .superRef

def CaseLabel.mapIds (f : NodeId → NodeId) : CaseLabel → CaseLabel
  | .leaves value => .leaves (f value)
  | .falls value => .falls (f value)
  | .default => .default

def Range.mapIds (f : NodeId → NodeId) (range : Range) : Range :=
  { range with start := f range.start, stop := f range.stop, step := range.step.map f }

def Stmt.mapIds (f : NodeId → NodeId) : Stmt → Stmt
  | .block body => .block (body.map f)
  | .expr value => .expr (f value)
  | .assign op target value => .assign op (f target) (f value)
  | .multiAssign items => .multiAssign (items.map f)
  | .conditional branches otherwise =>
      .conditional (branches.map fun branch => ⟨f branch.cond, f branch.body⟩) (otherwise.map f)
  | .switch subject cases =>
      .switch (f subject) (cases.map fun case => ⟨case.label.mapIds f, f case.body⟩)
  | .whileLoop cond body => .whileLoop (f cond) (f body)
  | .doWhile body cond => .doWhile (f body) (f cond)
  | .forLoop init cond update body =>
      .forLoop (init.map f) (cond.map f) (update.map f) (f body)
  | .rangeFor var range body => .rangeFor var (range.mapIds f) (f body)
  | .forEach var ty iterable body => .forEach var (f ty) (f iterable) (f body)
  | .infinite body => .infinite (f body)
  | .breakTo target => .breakTo (target.map f)
  | .continueTo target => .continueTo (target.map f)
  | .ret value => .ret (value.map f)
  | .delete target array => .delete (f target) array
  | .comment text multiline => .comment text multiline

def Decl.mapIds (f : NodeId → NodeId) : Decl → Decl
  | .vars ty declarators modifiers =>
      .vars (f ty) (declarators.map fun d => { d with init := d.init.map f }) modifiers
  | .function name params ret modifiers owner =>
      .function name (params.map fun p => { p with ty := f p.ty }) (f ret) modifiers
        (owner.map f)
  | .classHead name parents modifiers => .classHead name (parents.map f) modifiers
  | .imports path items static => .imports path items static
  | .package path => .package path
  | .includes path system => .includes path system

def Def.mapIds (f : NodeId → NodeId) : Def → Def
  | .program body mainClass entryPoint =>
      .program (body.map f) (mainClass.map f) (entryPoint.map f)
  | .function decl body => .function (f decl) (f body)
  | .classBody decl members => .classBody (f decl) (members.map f)

/-- Replaces every stored identity, of children and of soft references alike. -/
def Node.mapIds (f : NodeId → NodeId) : Node → Node
  | .expr e => .expr (e.mapIds f)
  | .stmt s => .stmt (s.mapIds f)
  | .decl d => .decl (d.mapIds f)
  | .defn d => .defn (d.mapIds f)
  | .type ty => .type ty

/-- What is left of a node when its identities are forgotten. -/
def Node.skeleton (node : Node) : Node := node.mapIds fun _ => .invalid

end Interlingua
