import Interlingua.Token.Basic

/-!
# What a language is made of

Each target language is two tables.

* `Operators` — how the language spells neutral operators and literals, and how tightly the
  operators bind.  What it cannot say with an operator has no form.
* `Grammar` — the kinds and fields of the nodes of its concrete syntax trees.
-/

namespace Interlingua

/-- Literals and references spelled as words. -/
inductive Word where
  | true
  | false
  | null
  | selfRef
  | superRef
  deriving DecidableEq, Repr

/-- The order of the operands of the conditional operator. -/
inductive TernaryLayout where
  /-- Condition, value if true, value if false. -/
  | condFirst
  /-- Value if true, condition, value if false. -/
  | thenFirst
  deriving DecidableEq, Repr

/-- Roles of syntax nodes that change what their leaves are. -/
inductive NodeRole where
  | call
  | arguments
  | subscript
  | other
  deriving DecidableEq, Repr

structure Operators where
  name : String
  binary : BinaryOp → Option OperatorForm
  unary : UnaryOp → Option OperatorForm
  /-- Assignment used as an expression. -/
  assign : AssignOp → Option OperatorForm
  /-- Assignment used as a statement. -/
  assignStatement : AssignOp → Option OperatorForm
  /-- Both parts of the conditional operator. -/
  ternary : OperatorForm × OperatorForm
  ternaryLayout : TernaryLayout
  /-- The cast before its operand; none where casts are spelled as calls. -/
  cast : Option OperatorForm
  /-- Member access, calls and indexing. -/
  access : OperatorForm
  word : Word → Option String
  /-- Whether comparisons chain as in mathematics. -/
  chains : Bool
  statementEnd : Option String
  scopeSeparator : String

/-- What a check of a whole table finds is true of each of its entries. -/
theorem holds_of_table {α β : Type} {keys : List α} {table : α → Option β} {p : α → β → Bool}
    {key : α} {entry : β} (hmem : key ∈ keys) (h : table key = some entry)
    (hall : keys.all fun key => (table key).all (p key)) : p key entry = true := by
  have hkey := List.all_eq_true.1 hall key hmem
  rwa [h, Option.all_some] at hkey

structure Grammar where
  /-- Kinds of nodes that are read as one leaf. -/
  stopNodes : List String
  unaryNodes : List String
  binaryNodes : List String
  ternaryNodes : List String
  /-- The field that holds an operand of an operator node. -/
  operandField : String → Side → Option String
  /-- Operator nodes whose operands have no field and are told apart by their order. -/
  positional : String → Bool
  keywords : List String
  role : String → NodeRole

namespace Grammar

def operatorNodes (grammar : Grammar) : Arity → List String
  | .unary => grammar.unaryNodes
  | .binary => grammar.binaryNodes
  | .ternary => grammar.ternaryNodes

/-- The arity of an operator node; none for any other node. -/
def operatorArity? (grammar : Grammar) (kind : String) : Option Arity :=
  [Arity.unary, .binary, .ternary].find? fun arity => (grammar.operatorNodes arity).contains kind

/-- The operand that a field of an operator node holds. -/
def operandSide? (grammar : Grammar) (kind field : String) : Option Side :=
  [Side.left, .center, .right].find? fun side => grammar.operandField kind side == some field

end Grammar

end Interlingua
