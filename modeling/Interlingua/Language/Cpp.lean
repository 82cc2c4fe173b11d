import Interlingua.Language.Vocabulary

/-!
# C++

Operators, words and syntax nodes of C++.  The conditional operator and every assignment share
one level.
-/

namespace Interlingua.Cpp

/-! ## Binding levels, the tightest first -/

def postLevel : Nat := 2
def preLevel : Nat := 3
def mulLevel : Nat := 5
def addLevel : Nat := 6
def shiftLevel : Nat := 7
def relationLevel : Nat := 9
def equalityLevel : Nat := 10
def bitAndLevel : Nat := 11
def bitXorLevel : Nat := 12
def bitOrLevel : Nat := 13
def andLevel : Nat := 14
def orLevel : Nat := 15
def assignLevel : Nat := 16

/-- Binary operators; powers, floor division, membership and the class test have no operator. -/
def binary : BinaryOp → Option OperatorForm
  | .mul => some (.between "*" mulLevel .left)
  | .div => some (.between "/" mulLevel .left)
  | .mod => some (.between "%" mulLevel .left)
  | .add => some (.between "+" addLevel .left)
  | .sub => some (.between "-" addLevel .left)
  | .shl => some (.between "<<" shiftLevel .left)
  | .shr => some (.between ">>" shiftLevel .left)
  | .lt => some (.between "<" relationLevel .left)
  | .ltEq => some (.between "<=" relationLevel .left)
  | .gt => some (.between ">" relationLevel .left)
  | .gtEq => some (.between ">=" relationLevel .left)
  | .eq | .refEq => some (.between "==" equalityLevel .left)
  | .notEq | .refNotEq => some (.between "!=" equalityLevel .left)
  | .bitAnd => some (.between "&" bitAndLevel .left)
  | .bitXor => some (.between "^" bitXorLevel .left)
  | .bitOr => some (.between "|" bitOrLevel .left)
  | .and => some (.between "&&" andLevel .left)
  | .or => some (.between "||" orLevel .left)
  | .floorDiv | .pow | .contains | .notContains | .instanceOf => none

def unary : UnaryOp → Option OperatorForm
  | .neg => some (.before "-" preLevel)
  | .plus => some (.before "+" preLevel)
  | .not => some (.before "!" preLevel)
  | .bitNot => some (.before "~" preLevel)
  | .preInc => some (.before "++" preLevel)
  | .preDec => some (.before "--" preLevel)
  | .deref => some (.before "*" preLevel)
  | .addressOf => some (.before "&" preLevel)
  | .postInc => some (.after "++" postLevel)
  | .postDec => some (.after "--" postLevel)

def assign : AssignOp → Option OperatorForm
  | .floorDiv | .pow => none
  | op => some (.between op.symbol assignLevel .right)

def word : Word → Option String
  | .true => some "true"
  | .false => some "false"
  | .null => some "nullptr"
  | .selfRef => some "this"
  | .superRef => none

def operators : Operators where
  name := "c++"
  binary := binary
  unary := unary
  assign := assign
  assignStatement := assign
  ternary := (.make "?" assignLevel .right .ternary, .make ":" assignLevel .right .ternary)
  ternaryLayout := .condFirst
  cast := some (.before "(cast)" preLevel)
  access := .after "." postLevel
  word := word
  chains := false
  statementEnd := some ";"
  scopeSeparator := "::"

def binaryNodes : List String := ["binary_expression", "assignment_expression"]

def operandField (kind : String) (side : Side) : Option String :=
  if kind = "conditional_expression" then
    match side with
    | .left => some "condition"
    | .center => some "consequence"
    | .right => some "alternative"
  else if binaryNodes.contains kind then
    match side with
    | .left => some "left"
    | .right => some "right"
    | .center => none
  else none

def role : String → NodeRole
  | "call_expression" => .call
  | "argument_list" => .arguments
  | "subscript_expression" | "subscript_argument_list" => .subscript
  | _ => .other

def grammar : Grammar where
  stopNodes := ["string_literal", "char_literal", "raw_string_literal", "qualified_identifier"]
  unaryNodes := ["unary_expression", "update_expression", "pointer_expression"]
  binaryNodes := binaryNodes
  ternaryNodes := ["conditional_expression"]
  operandField := operandField
  positional _ := false
  keywords :=
    ["auto", "bool", "break", "case", "char", "class", "const", "continue", "default", "delete",
      "do", "double", "else", "for", "if", "include", "int", "namespace", "new", "private",
      "protected", "public", "return", "sizeof", "static", "struct", "switch", "template", "this",
      "typename", "using", "void", "while"]
  role := role

end Interlingua.Cpp
