import Interlingua.Language.Vocabulary

/-!
# Java

Operators, words and syntax nodes of Java.
-/

namespace Interlingua.Java

/-! ## Binding levels, the tightest first -/

def postLevel : Nat := 1
def preLevel : Nat := 2
def mulLevel : Nat := 3
def addLevel : Nat := 4
def shiftLevel : Nat := 5
def relationLevel : Nat := 6
def equalityLevel : Nat := 7
def bitAndLevel : Nat := 8
def bitXorLevel : Nat := 9
def bitOrLevel : Nat := 10
def andLevel : Nat := 11
def orLevel : Nat := 12
def conditionalLevel : Nat := 13
def assignLevel : Nat := 14

/-- Binary operators; powers, floor division and membership have no operator. -/
def binary : BinaryOp → Option OperatorForm
  | .mul => some (.between "*" mulLevel .left)
  | .div => some (.between "/" mulLevel .left)
  | .mod => some (.between "%" mulLevel .left)
  | .add => some (.between "+" addLevel .left)
  | .sub => some (.between "-" addLevel .left)
  | .shl => some (.between "<<" shiftLevel .left)
  | .shr => some (.between ">>" shiftLevel .left)
  | .lt => some (.between "<" relationLevel .left)
  | .ltEq => some (.between "<=" relationLevel .left)
  | .gt => some (.between ">" relationLevel .left)
  | .gtEq => some (.between ">=" relationLevel .left)
  | .instanceOf => some (.between "instanceof" relationLevel .left)
  | .eq | .refEq => some (.between "==" equalityLevel .left)
  | .notEq | .refNotEq => some (.between "!=" equalityLevel .left)
  | .bitAnd => some (.between "&" bitAndLevel .left)
  | .bitXor => some (.between "^" bitXorLevel .left)
  | .bitOr => some (.between "|" bitOrLevel .left)
  | .and => some (.between "&&" andLevel .left)
  | .or => some (.between "||" orLevel .left)
  | .floorDiv | .pow | .contains | .notContains => none

def unary : UnaryOp → Option OperatorForm
  | .neg => some (.before "-" preLevel)
  | .plus => some (.before "+" preLevel)
  | .not => some (.before "!" preLevel)
  | .bitNot => some (.before "~" preLevel)
  | .preInc => some (.before "++" preLevel)
  | .preDec => some (.before "--" preLevel)
  | .postInc => some (.after "++" postLevel)
  | .postDec => some (.after "--" postLevel)
  | .deref | .addressOf => none

def assign : AssignOp → Option OperatorForm
  | .floorDiv | .pow => none
  | op => some (.between op.symbol assignLevel .right)

def word : Word → Option String
  | .true => some "true"
  | .false => some "false"
  | .null => some "null"
  | .selfRef => some "this"
  | .superRef => some "super"

def operators : Operators where
  name := "java"
  binary := binary
  unary := unary
  assign := assign
  assignStatement := assign
  ternary := (.make "?" conditionalLevel .right .ternary, .make ":" conditionalLevel .right .ternary)
  ternaryLayout := .condFirst
  cast := some (.before "(cast)" preLevel)
  access := .after "." postLevel
  word := word
  chains := false
  statementEnd := some ";"
  scopeSeparator := "."

def binaryNodes : List String :=
  ["binary_expression", "assignment_expression", "instanceof_expression"]

def operandField (kind : String) (side : Side) : Option String :=
  if kind = "ternary_expression" then
    match side with
    | .left => some "condition"
    | .center => some "consequence"
    | .right => some "alternative"
  else if binaryNodes.contains kind then
    match side with
    | .left => some "left"
    | .right => some "right"
    | .center => none
  else none

def role : String → NodeRole
  | "method_invocation" => .call
  | "argument_list" => .arguments
  | "array_access" => .subscript
  | _ => .other

def grammar : Grammar where
  stopNodes := ["string_literal", "character_literal", "text_block", "scoped_identifier"]
  unaryNodes := ["unary_expression", "update_expression"]
  binaryNodes := binaryNodes
  ternaryNodes := ["ternary_expression"]
  operandField := operandField
  positional _ := false
  keywords :=
    ["abstract", "boolean", "break", "case", "catch", "char", "class", "continue", "default", "do",
      "double", "else", "extends", "final", "for", "if", "implements", "import", "instanceof",
      "int", "interface", "long", "new", "package", "private", "protected", "public", "return",
      "static", "super", "switch", "this", "throw", "try", "var", "void", "while"]
  role := role

end Interlingua.Java
