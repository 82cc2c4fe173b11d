import Interlingua.Language.Basic
import Interlingua.Text.Blank
import Interlingua.Text.Slice

/-!
# Tokens of a concrete syntax tree

A concrete syntax tree names parts of a source text.  Its frontier is read from left to right:
each childless node, and each node that the language reads as one leaf, gives the token that its
part of the source spells, unless that is blank or no part of the source at all.

An operator node tags its operands after its children are read, so an enclosing operator tags
over the operators inside it.
-/

namespace Interlingua

/-- A node of a concrete syntax tree.  `start` and `stop` are byte offsets into the source. -/
inductive Cst where
  | node (kind : String) (field : Option String) (start stop : Nat) (children : List Cst)
  deriving Repr

namespace Cst

def kind : Cst → String
  | .node kind _ _ _ _ => kind

/-- The field of its parent that holds the node. -/
def field : Cst → Option String
  | .node _ field _ _ _ => field

def start : Cst → Nat
  | .node _ _ start _ _ => start

def stop : Cst → Nat
  | .node _ _ _ stop _ => stop

def leaf (kind : String) (start stop : Nat) (field : Option String) : Cst :=
  .node kind field start stop []

/-- A node that spans its first to its last child. -/
def branch (kind : String) (children : List Cst) (field : Option String) : Cst :=
  let start := (children.head?.map Cst.start).getD 0
  .node kind field start ((children.getLast?.map Cst.stop).getD start) children

end Cst

namespace Concrete

/-- Tokens read from one child of an operator node. -/
structure Group where
  /-- The position of the first of them. -/
  start : Nat
  tokens : List Token
  /-- The operand that the field of the child holds. -/
  side : Option Side

namespace Group

def stop (group : Group) : Nat := group.start + group.tokens.length

/-- Nothing but one operator. -/
def isOperator (group : Group) : Bool :=
  match group.tokens with
  | [token] => token.isOperator
  | _ => false

/-- Neither held by a field of an operand, nor an operator, nor empty. -/
def isLoose (group : Group) : Bool :=
  group.side.isNone && !group.isOperator && !group.tokens.isEmpty

end Group

/-- The operator of a node: the first group that is one and is no operand. -/
def operatorAt? (groups : List Group) : Option Nat :=
  (groups.find? fun group => group.side.isNone && group.isOperator).map Group.start

/-- The operand that a loose group is, by its order among the loose groups: of a ternary operator
the first three, of another one the nearest on each side.  Groups are told apart by where they
start. -/
def sideByOrder (arity : Option Arity) (operator : Nat) (loose : List Group) (group : Group) :
    Option Side :=
  if arity = some .ternary then
    ((loose.map Group.start).zip [Side.left, .center, .right]).lookup group.start
  else if ((loose.filter (·.stop ≤ operator)).getLast?.map Group.start) = some group.start then
    some .left
  else if ((loose.find? (operator < ·.start)).map Group.start) = some group.start then
    some .right
  else none

/-- Tags the operands of an operator node. -/
def tagOperands (lang : Language) (kind : String) (groups : List Group) : List Token :=
  match operatorAt? groups with
  | none => groups.flatMap Group.tokens
  | some operator =>
    let loose := groups.filter Group.isLoose
    groups.flatMap fun group =>
      let side := match group.side with
        | some side => some side
        | none =>
          if lang.grammar.positional kind && group.isLoose then
            sideByOrder (lang.grammar.operatorArity? kind) operator loose group
          else none
      match side with
      | some side => Token.tagAll operator side group.tokens
      | none => group.tokens

/-- A token read as standing after its operand. -/
def afterOperand (lang : Language) (token : Token) : Token :=
  { token with form := token.form.map fun form =>
      (lang.trailingForm? token.value).getD (form.placed .after) }

/-- Tags the operand of a unary node: what follows an operator, or else what precedes one. -/
def tagUnary (lang : Language) (start : Nat) (tokens : List Token) : List Token :=
  match tokens with
  | [] | [_] => tokens
  | first :: rest =>
    if first.isOperator then first :: Token.tagAll start .right rest
    else
      match tokens.getLast? with
      | none => tokens
      | some last =>
        if last.isOperator then
          Token.tagAll (start + tokens.length - 1) .left tokens.dropLast ++
            [afterOperand lang last]
        else tokens

/-- The token of a leaf, if its part of the source is more than blank. -/
def leafToken? (lang : Language) (source : List Char) (parent : Option String) (leaf : Cst) :
    Option Token :=
  match Text.slice? source leaf.start leaf.stop with
  | none => none
  | some part =>
    let text := String.ofList (Text.trim part)
    if text.isEmpty then none
    else
      match parent.bind fun kind => lang.leafForm? text kind with
      | some form => some (.ofForm form)
      | none => some (.plain text (lang.classify ⟨text, leaf.kind, parent, leaf.field⟩))

mutual
/-- The tokens of a node, given the kind of its parent and the position they start at. -/
def read (lang : Language) (source : List Char) (parent : Option String) (offset : Nat) :
    Cst → List Token
  | .node kind field start stop children =>
    if children.isEmpty || lang.grammar.stopNodes.contains kind then
      (leafToken? lang source parent (.leaf kind start stop field)).toList
    else
      let groups := readAll lang source kind offset children
      match lang.grammar.operatorArity? kind with
      | some .unary => tagUnary lang offset (groups.flatMap Group.tokens)
      | some .binary | some .ternary => tagOperands lang kind groups
      | none => groups.flatMap Group.tokens

/-- The tokens of the children of a node, child by child. -/
def readAll (lang : Language) (source : List Char) (kind : String) (offset : Nat) :
    List Cst → List Group
  | [] => []
  | child :: rest =>
    let tokens := read lang source (some kind) offset child
    let side := child.field.bind (lang.grammar.operandSide? kind)
    ⟨offset, tokens, side⟩ :: readAll lang source kind (offset + tokens.length) rest
end

end Concrete

/-- The tokens of a source text along its concrete syntax tree. -/
def Language.tokenize (lang : Language) (source : String) (root : Cst) : Tokens :=
  ⟨Concrete.read lang source.toList none 0 root⟩

end Interlingua
