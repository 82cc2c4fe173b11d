import Interlingua.Decimal.Notation
import Interlingua.Options
import Interlingua.Scope.Infer
import Interlingua.Text.Quoted
import Interlingua.Token.Grouping
import Interlingua.Tree.Walk

/-!
# Rendering expressions

What the target languages share when an expression is written as text.

* `Render` — computations that yield text and may register types; a failure keeps what was
  registered before it.
* `View` — what is rendered, and how.
* `Site` — a view together with the rendering of what lies below the expression at hand.
* `Site.operand` — an operand, between parentheses where grouping asks for them.
* `Dialect` — what each language has to say for itself.
-/

namespace Interlingua

/-- Why a tree cannot be rendered. -/
inductive EmitError where
  /-- The language has no way to say it. -/
  | unsupported (language construct : String)
  | indentUnderflow
  | tree (error : TreeError)
  | scope (error : ScopeError)
  deriving DecidableEq, Repr

def EmitError.message : EmitError → String
  | .unsupported language construct => language ++ " has no rendering for " ++ construct
  | .indentUnderflow => "indentation decremented below zero"
  | .tree error => error.message
  | .scope error => error.message

/-- A reference that cannot be followed ends a rendering. -/
def EmitError.ofFault (fault : Fault) : EmitError := .tree (.broken fault)

/-- Computations that yield text and may register types. -/
abbrev Render := EStateM EmitError Scope

instance : MonadLift (Except Fault) Render where
  monadLift
    | .ok value => pure value
    | .error fault => throw (.ofFault fault)

instance : MonadLift (Except EmitError) Render where
  monadLift
    | .ok value => pure value
    | .error error => throw error

instance : MonadLift Infer Render where
  monadLift action := fun scope =>
    match action scope with
    | .ok value scope => .ok value scope
    | .error fault scope => .error (.ofFault fault) scope

/-- What is rendered, in which language, under which options. -/
structure View where
  tree : Tree
  lang : Language
  /-- The options of the language and those of the caller. -/
  options : Options

namespace View

/-- A view under the options of a caller, which win over those of the language. -/
def make (tree : Tree) (lang : Language) (options : Options) : View :=
  ⟨tree, lang, lang.defaults.merge options⟩

def arena (view : View) : Arena := view.tree.arena

def isOn (view : View) (flag : Flag) : Bool := view.options.isOn flag

/-- The refusal of what the language cannot say. -/
def refusal (view : View) (construct : String) : EmitError :=
  .unsupported view.lang.name construct

/-- The refusal of an operator. -/
def operatorRefusal (view : View) (symbol : String) : EmitError :=
  view.refusal ("operator `" ++ symbol ++ "`")

/-- The name that a plain assignment declares if declarations are automatic: one that is not
visible yet. -/
def declaredName? (view : View) (op : AssignOp) (target : NodeId) : Render (Option String) := do
  match op, ← view.arena.expr target with
  | .plain, .ident name =>
    let scope ← get
    return if view.isOn .autoDeclaration && !scope.hasVariable name then some name else none
  | _, _ => return none

/-- The type of an expression; assignments inside it are registered. -/
def inferred (view : View) (id : NodeId) : Render Ty := Infer.expr view.arena id

end View

/-- Where an expression is rendered: the view, and how to render what lies below. -/
structure Site where
  view : View
  below : NodeId → Render String

/-- Text between parentheses. -/
def parenthesized (text : String) : String := "(" ++ text ++ ")"

/-- Text between braces. -/
def inBraces (text : String) : String := "\x7b" ++ text ++ "\x7d"

/-- Texts with a comma between any two. -/
def commas (texts : List String) : String := ", ".intercalate texts

namespace Site

def arena (site : Site) : Arena := site.view.arena

def lang (site : Site) : Language := site.view.lang

/-- An operand, grouped if it has to be. -/
def operand (site : Site) (parent : OperatorForm) (child : NodeId) (side : Side) :
    Render String := do
  let text ← site.below child
  if ← site.lang.wraps site.arena parent child side then return parenthesized text
  else return text

/-- An operator between its operands. -/
def between (site : Site) (form : OperatorForm) (left right : NodeId) : Render String := do
  let leftText ← site.operand form left .left
  let rightText ← site.operand form right .right
  return leftText ++ " " ++ form.value ++ " " ++ rightText

/-- What a member, a call or an index is taken of. -/
def accessed (site : Site) (target : NodeId) : Render String :=
  site.operand site.lang.operators.access target .left

/-- Expressions with a comma between any two. -/
def args (site : Site) (ids : List NodeId) : Render String := do
  return commas (← ids.mapM site.below)

/-- An operator on one operand; one that is a word is set off by a blank. -/
def unaryOperand (site : Site) (form : OperatorForm) (op : UnaryOp) (operand : NodeId) :
    Render String := do
  if op.isPost then
    let text ← site.operand form operand .left
    return text ++ form.value
  else
    let text ← site.operand form operand .right
    let isWord := form.value.toList.getLast?.any Text.isLetter
    return form.value ++ (if isWord then " " else "") ++ text

/-- A unary operator that the language has. -/
def unary (site : Site) (op : UnaryOp) (operand : NodeId) : Render String :=
  match site.lang.operators.unary op with
  | some form => site.unaryOperand form op operand
  | none => throw (site.view.operatorRefusal op.symbol)

/-- A binary operator that the language has. -/
def binary (site : Site) (op : BinaryOp) (left right : NodeId) : Render String :=
  match site.lang.operators.binary op with
  | some form => site.between form left right
  | none => throw (site.view.operatorRefusal op.symbol)

/-- The conditional operator. -/
def ternary (site : Site) (cond whenTrue whenFalse : NodeId) : Render String := do
  let (first, second) := site.lang.operators.ternary
  let (left, center) := match site.lang.operators.ternaryLayout with
    | .condFirst => (cond, whenTrue)
    | .thenFirst => (whenTrue, cond)
  let leftText ← site.operand first left .left
  let centerText ← site.operand first center .center
  let rightText ← site.operand first whenFalse .right
  return leftText ++ " " ++ first.value ++ " " ++ centerText ++ " " ++ second.value ++ " " ++
    rightText

/-- A literal or reference spelled as a word. -/
def word (site : Site) (word : Word) (e : Expr) : Render String :=
  match site.lang.operators.word word with
  | some text => pure text
  | none => throw (site.view.refusal e.kindName)

end Site

/-- What each language says for itself about expressions.  Where an operation is given an
identity before its other arguments, it is that of the expression itself. -/
structure Dialect where
  typeName : Ty → Except EmitError String
  charLiteral : Char → String
  stringLiteral : String → StringKind → String
  binary : Site → BinaryOp → NodeId → NodeId → Render String
  unary : Site → NodeId → UnaryOp → NodeId → Render String
  assign : Site → NodeId → AssignOp → NodeId → NodeId → Render String
  compound : Site → List NodeId → Render String
  cast : Site → NodeId → NodeId → Render String
  sizeOf : Site → NodeId → Render String
  newObject : Site → Ty → List NodeId → Render String
  newArray : Site → Ty → List NodeId → Option NodeId → Render String
  collection : Site → NodeId → CollectionKind → List NodeId → Render String
  dict : Site → NodeId → List (NodeId × NodeId) → Render String
  interpolated : Site → List NodeId → Render String
  sequence : Site → List NodeId → Render String

/-- One layer of an expression. -/
def Dialect.expr (dialect : Dialect) (site : Site) (id : NodeId) (e : Expr) : Render String := do
  match e with
  | .int value => return Text.numeral value
  | .float bits => return Decimal.Layout.pointed.writeBits bits
  | .bool true => site.word .true e
  | .bool false => site.word .false e
  | .char value => return dialect.charLiteral value
  | .str value kind => return dialect.stringLiteral value kind
  | .interpolated parts => dialect.interpolated site parts
  | .null => site.word .null e
  | .collection kind items => dialect.collection site id kind items
  | .dict entries => dialect.dict site id entries
  | .ident name => return name
  | .scoped path => return site.lang.operators.scopeSeparator.intercalate path
  | .selfRef => site.word .selfRef e
  | .superRef => site.word .superRef e
  | .binary op left right => dialect.binary site op left right
  | .unary op operand => dialect.unary site id op operand
  | .assign op target value => dialect.assign site id op target value
  | .ternary cond whenTrue whenFalse => site.ternary cond whenTrue whenFalse
  | .compound comparisons => dialect.compound site comparisons
  | .paren inner => return parenthesized (← site.below inner)
  | .call callee args => do
    let target ← site.accessed callee
    return target ++ parenthesized (← site.args args)
  | .method receiver name args => do
    let target ← site.accessed receiver
    return target ++ "." ++ name ++ parenthesized (← site.args args)
  | .index target position => do
    let targetText ← site.accessed target
    return targetText ++ "[" ++ (← site.below position) ++ "]"
  | .member target name => return (← site.accessed target) ++ "." ++ name
  | .cast ty value => dialect.cast site ty value
  | .sizeOf value => dialect.sizeOf site value
  | .new ty args => dialect.newObject site (← site.arena.ty ty) args
  | .newArray ty dims init => dialect.newArray site (← site.arena.ty ty) dims init
  | .sequence items => dialect.sequence site items

end Interlingua
