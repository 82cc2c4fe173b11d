import Interlingua.Arena.Basic
import Interlingua.Scope.Basic

/-!
# Inference

Types are computed by the structure of an expression against a scope.  What cannot be decided is
`Ty.unknown`; inference itself never fails, only a reference that names nothing does.

Inference has one effect: an assignment or a declaration registers its variable in the innermost
frame.  An unknown type never takes the place of a known one.

* `Infer.expr`, `Infer.assignment` — the type of an expression and of an assignment.
* `Infer.declare` — registers what a declaration declares.
* `Infer.tree` — runs over a whole subtree, with a frame for each block, loop and function body.
-/

namespace Interlingua

/-- Result type of a binary operator. -/
def BinaryOp.resultType (op : BinaryOp) (left right : Ty) : Ty :=
  if op.yieldsBool then .bool
  else
    match op, left, right with
    | .add, .str, _ | .add, _, .str => .str
    | .mul, .str, .int | .mul, .int, .str => .str
    | _, _, _ =>
      if op.isArithmetic then (left.wider? right).getD .unknown
      else
        match op, left, right with
        | _, .int, .int => .int
        | .shl, .bool, .bool | .shr, .bool, .bool => .unknown
        | _, .bool, .bool => .bool
        | _, _, _ => .unknown

/-- Result type of a unary operator. -/
def UnaryOp.resultType (op : UnaryOp) (operand : Ty) : Ty :=
  match op with
  | .not => .bool
  | .neg | .plus => if operand.isNumeric then operand else .unknown
  | .bitNot => if operand = .int then .int else .unknown
  | .preInc | .preDec | .postInc | .postDec => operand
  | .addressOf => .pointer operand
  | .deref =>
    match operand with
    | .pointer target | .reference target => target
    | _ => .unknown

/-- The type two values have in common: equal types stay, numeric types widen. -/
def Ty.unify (a b : Ty) : Ty := if a = b then a else (a.wider? b).getD .unknown

/-- The type that all of some values have in common; unknown if there are none. -/
def Ty.unifyAll : List Ty → Ty
  | [] => .unknown
  | first :: rest => rest.foldl Ty.unify first

namespace Scope

/-- Registers the type that an assignment gives a variable. -/
def register (scope : Scope) (name : String) (ty : Ty) : Scope :=
  if !ty.isKnown && (scope.varType? name).any Ty.isKnown then scope
  else scope.setVariable name ty

end Scope

/-- Computations that read and register types.  A fault keeps what was registered before it. -/
abbrev Infer := EStateM Fault Scope

namespace Infer

instance : MonadLift (Except Fault) Infer where
  monadLift
    | .ok value => pure value
    | .error fault => throw fault

/-- Runs a computation in a frame of its own. -/
def inFrame (body : Infer Unit) : Infer Unit := do
  modify Scope.enter
  body
  modify fun scope =>
    match scope.leave true with
    | .ok outer => outer
    | .error _ => scope

/-- The type of an assignment, registered if its target is a plain name.  Augmented assignments
look at the target after the value. -/
def assignmentWith (arena : Arena) (infer : NodeId → Infer Ty) (op : AssignOp)
    (target value : NodeId) : Infer Ty := do
  let valueType ← infer value
  let ty ←
    match op.binary? with
    | none => pure valueType
    | some binary => do
      let targetType ← infer target
      pure (binary.resultType targetType valueType)
  match ← arena.expr target with
  | .ident name => modify (·.register name ty)
  | _ => pure ()
  return ty

/-- The type of one layer of an expression, given how to infer what is below it. -/
def exprWith (arena : Arena) (infer : NodeId → Infer Ty) : Expr → Infer Ty
  | .int _ => return .int
  | .float _ => return .float
  | .bool _ => return .bool
  | .char _ => return .char
  | .str .. | .interpolated _ => return .str
  | .null | .selfRef | .superRef | .scoped _ => return .unknown
  | .collection kind items => do
    let item := Ty.unifyAll (← items.mapM infer)
    match kind with
    | .list => return .list item
    | .array => return .array item
    | .set => return .set item
    | .tuple => return .tuple (← items.mapM infer)
  | .dict entries => do
    let keys ← entries.mapM fun entry => infer entry.1
    let values ← entries.mapM fun entry => infer entry.2
    return .dict (.unifyAll keys) (.unifyAll values)
  | .ident name => return ((← get).varType? name).getD .unknown
  | .binary op left right => do
    let leftType ← infer left
    let rightType ← infer right
    return op.resultType leftType rightType
  | .unary op operand => return op.resultType (← infer operand)
  | .assign op target value => assignmentWith arena infer op target value
  | .ternary cond whenTrue whenFalse => do
    let _ ← infer cond
    let trueType ← infer whenTrue
    let falseType ← infer whenFalse
    return trueType.unify falseType
  | .compound comparisons => do
    let _ ← comparisons.mapM infer
    return .bool
  | .paren inner => infer inner
  | .call callee args => do
    let _ ← args.mapM infer
    match ← arena.expr callee with
    | .ident name => return (← get).returnType name
    | _ => return .unknown
  | .method receiver _ args => do
    let _ ← infer receiver
    let _ ← args.mapM infer
    return .unknown
  | .index target position => do
    let _ ← infer position
    return (← infer target).element?.getD .unknown
  | .member target _ => do
    let _ ← infer target
    return .unknown
  | .cast ty _ | .new ty _ => arena.ty ty
  | .newArray ty _ _ => return .array (← arena.ty ty)
  | .sizeOf _ => return .int
  | .sequence items => return (← items.mapM infer).getLast?.getD .unknown

/-- The type of an expression of at most the given depth. -/
def exprTo (arena : Arena) : Nat → NodeId → Infer Ty
  | 0, _ => throw .endless
  | depth + 1, id => do exprWith arena (exprTo arena depth) (← arena.expr id)

/-- The type of an expression.  Assignments inside it are registered. -/
def expr (arena : Arena) (id : NodeId) : Infer Ty := exprTo arena arena.depthBound id

/-- The type of an assignment, which is registered. -/
def assignment (arena : Arena) (op : AssignOp) (target value : NodeId) : Infer Ty :=
  assignmentWith arena (expr arena) op target value

/-- Registers one declared variable.  A declared type wins over that of the initial value. -/
def declarator (arena : Arena) (declared : Ty) (d : Declarator) : Infer Unit := do
  let inferred ← d.init.mapM (expr arena)
  let ty :=
    match inferred with
    | some inferred => if declared.isKnown then declared else inferred
    | none => declared
  modify (·.setVariable d.name ty)

/-- Registers what a declaration declares: variables, or the return type of a function. -/
def declare (arena : Arena) (id : NodeId) : Infer Unit := do
  match ← arena.decl id with
  | .vars ty declarators _ =>
    let declared ← arena.ty ty
    declarators.forM (declarator arena declared)
  | .function name _ ret _ _ =>
    let ty ← arena.ty ret
    modify (·.setMethod name ty)
  | .classHead .. | .imports .. | .package _ | .includes .. => pure ()

/-- Registers the parameters of a function, if the declaration is one. -/
def params (arena : Arena) (decl : NodeId) : Infer Unit := do
  match ← arena.decl decl with
  | .function _ params _ _ _ =>
    params.forM fun param => do
      let ty ← arena.ty param.ty
      modify (·.setVariable param.name ty)
  | _ => pure ()

/-- Registers what one statement does, given how to run over what is below it. -/
def stmtWith (arena : Arena) (below : NodeId → Infer Unit) : Stmt → Infer Unit
  | .block items => inFrame (items.forM below)
  | .expr value => discard (expr arena value)
  | .assign op target value => discard (assignment arena op target value)
  | .multiAssign items => items.forM below
  | .conditional branches otherwise => do
    branches.forM fun branch => do
      discard (expr arena branch.cond)
      below branch.body
    otherwise.forM below
  | .switch subject cases => do
    discard (expr arena subject)
    cases.forM fun case => below case.body
  | .whileLoop cond body | .doWhile body cond => do
    discard (expr arena cond)
    below body
  | .forLoop init cond update body => inFrame do
    init.forM below
    cond.forM fun id => discard (expr arena id)
    update.forM fun id => discard (expr arena id)
    below body
  | .rangeFor var range body => inFrame do
    let start ← expr arena range.start
    let stop ← expr arena range.stop
    modify (·.setVariable var ((start.wider? stop).getD .int))
    below body
  | .forEach var ty iterable body => inFrame do
    let declared ← arena.ty ty
    let iterable ← expr arena iterable
    let item := if declared.isKnown then declared else iterable.element?.getD .unknown
    modify (·.setVariable var item)
    below body
  | .infinite body => below body
  | .ret (some value) | .delete value _ => discard (expr arena value)
  | .ret none | .breakTo _ | .continueTo _ | .comment .. => pure ()

/-- Runs over a subtree of at most the given depth. -/
def treeTo (arena : Arena) : Nat → NodeId → Infer Unit
  | 0, _ => throw .endless
  | depth + 1, id => do
    let below := treeTo arena depth
    match ← arena.node id with
    | .expr _ => discard (expr arena id)
    | .stmt s => stmtWith arena below s
    | .decl _ => declare arena id
    | .defn (.program body _ _) => body.forM below
    | .defn (.function decl body) => do
      declare arena decl
      inFrame do
        params arena decl
        below body
    | .defn (.classBody _ members) => inFrame (members.forM below)
    | .type _ => pure ()

/-- Runs inference over a whole subtree. -/
def tree (arena : Arena) (id : NodeId) : Infer Unit := treeTo arena arena.depthBound id

end Infer

end Interlingua
