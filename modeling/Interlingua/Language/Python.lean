import Interlingua.Language.Vocabulary

/-!
# Python

Operators, words and syntax nodes of Python.  Comparisons chain as in mathematics, and the
assignment expression does not nest without grouping; both are strict.
-/

namespace Interlingua.Python

/-! ## Binding levels, the tightest first -/

def accessLevel : Nat := 1
def powerLevel : Nat := 2
def preLevel : Nat := 3
def mulLevel : Nat := 4
def addLevel : Nat := 5
def shiftLevel : Nat := 6
def bitAndLevel : Nat := 7
def bitXorLevel : Nat := 8
def bitOrLevel : Nat := 9
def comparisonLevel : Nat := 10
def notLevel : Nat := 11
def andLevel : Nat := 12
def orLevel : Nat := 13
def conditionalLevel : Nat := 14
def walrusLevel : Nat := 15
def statementLevel : Nat := 16

/-- A comparison. -/
def comparison (value : String) : OperatorForm :=
  (OperatorForm.between value comparisonLevel .left).strictly

/-- Binary operators; the class test has no operator. -/
def binary : BinaryOp → Option OperatorForm
  | .pow => some (.between "**" powerLevel .right)
  | .mul => some (.between "*" mulLevel .left)
  | .div => some (.between "/" mulLevel .left)
  | .floorDiv => some (.between "//" mulLevel .left)
  | .mod => some (.between "%" mulLevel .left)
  | .add => some (.between "+" addLevel .left)
  | .sub => some (.between "-" addLevel .left)
  | .shl => some (.between "<<" shiftLevel .left)
  | .shr => some (.between ">>" shiftLevel .left)
  | .bitAnd => some (.between "&" bitAndLevel .left)
  | .bitXor => some (.between "^" bitXorLevel .left)
  | .bitOr => some (.between "|" bitOrLevel .left)
  | .eq => some (comparison "==")
  | .notEq => some (comparison "!=")
  | .lt => some (comparison "<")
  | .ltEq => some (comparison "<=")
  | .gt => some (comparison ">")
  | .gtEq => some (comparison ">=")
  | .refEq => some (comparison "is")
  | .refNotEq => some (comparison "is not")
  | .contains => some (comparison "in")
  | .notContains => some (comparison "not in")
  | .and => some (.between "and" andLevel .left)
  | .or => some (.between "or" orLevel .left)
  | .instanceOf => none

def unary : UnaryOp → Option OperatorForm
  | .neg => some (.before "-" preLevel)
  | .plus => some (.before "+" preLevel)
  | .bitNot => some (.before "~" preLevel)
  | .not => some (.before "not" notLevel)
  | .preInc | .preDec | .postInc | .postDec | .deref | .addressOf => none

def assign : AssignOp → Option OperatorForm
  | .plain => some (OperatorForm.between ":=" walrusLevel .right).strictly
  | _ => none

def word : Word → Option String
  | .true => some "True"
  | .false => some "False"
  | .null => some "None"
  | .selfRef => some "self"
  | .superRef => some "super()"

def operators : Operators where
  name := "python"
  binary := binary
  unary := unary
  assign := assign
  assignStatement op := some (.between op.symbol statementLevel .right)
  ternary :=
    (.make "if" conditionalLevel .right .ternary, .make "else" conditionalLevel .right .ternary)
  ternaryLayout := .thenFirst
  cast := none
  access := .after "." accessLevel
  word := word
  chains := true
  statementEnd := none
  scopeSeparator := "."

def operandField (kind : String) (side : Side) : Option String :=
  match kind, side with
  | "named_expression", .left => some "name"
  | "named_expression", .right => some "value"
  | "binary_operator", .left | "boolean_operator", .left => some "left"
  | "binary_operator", .right | "boolean_operator", .right => some "right"
  | _, _ => none

def positional : String → Bool
  | "comparison_operator" | "conditional_expression" => true
  | _ => false

def role : String → NodeRole
  | "call" => .call
  | "argument_list" => .arguments
  | "subscript" => .subscript
  | _ => .other

def grammar : Grammar where
  stopNodes := ["string", "concatenated_string"]
  unaryNodes := ["unary_operator", "not_operator"]
  binaryNodes := ["binary_operator", "boolean_operator", "comparison_operator", "named_expression"]
  ternaryNodes := ["conditional_expression"]
  operandField := operandField
  positional := positional
  keywords :=
    ["and", "as", "break", "case", "class", "continue", "def", "del", "elif", "else", "for",
      "from", "if", "import", "in", "is", "lambda", "match", "not", "or", "pass", "return",
      "while"]
  role := role

end Interlingua.Python
