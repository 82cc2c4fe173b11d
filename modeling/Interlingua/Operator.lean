/-!
# Neutral operators

The operators a program tree can carry, before any target language has spelled them.

* `BinaryOp`, `UnaryOp`, `AssignOp` — closed sets, each with its listing `all`.
* `symbol` — the neutral spelling used in outlines and diagnostics.  A target language has a
  spelling and a binding strength of its own.
* the families (`isComparison`, `isArithmetic`, …) that inference and rendering ask about.
-/

namespace Interlingua

/-- Operators between two operands. -/
inductive BinaryOp where
  | add
  | sub
  | mul
  | div
  | floorDiv
  | mod
  | pow
  | bitAnd
  | bitOr
  | bitXor
  | shl
  | shr
  | and
  | or
  | eq
  | notEq
  | lt
  | ltEq
  | gt
  | gtEq
  | refEq
  | refNotEq
  | contains
  | notContains
  | instanceOf
  deriving DecidableEq, Repr

namespace BinaryOp

/-- Every binary operator, family by family. -/
def all : List BinaryOp :=
  [.add, .sub, .mul, .div, .floorDiv, .mod, .pow, .bitAnd, .bitOr, .bitXor, .shl, .shr, .and, .or,
    .eq, .notEq, .lt, .ltEq, .gt, .gtEq, .refEq, .refNotEq, .contains, .notContains, .instanceOf]

theorem mem_all (op : BinaryOp) : op ∈ all := by cases op <;> decide

/-- Neutral spelling. -/
def symbol : BinaryOp → String
  | .add => "+"
  | .sub => "-"
  | .mul => "*"
  | .div => "/"
  | .floorDiv => "//"
  | .mod => "%"
  | .pow => "**"
  | .bitAnd => "&"
  | .bitOr => "|"
  | .bitXor => "^"
  | .shl => "<<"
  | .shr => ">>"
  | .and => "&&"
  | .or => "||"
  | .eq => "=="
  | .notEq => "!="
  | .lt => "<"
  | .ltEq => "<="
  | .gt => ">"
  | .gtEq => ">="
  | .refEq => "is"
  | .refNotEq => "is not"
  | .contains => "in"
  | .notContains => "not in"
  | .instanceOf => "instanceof"

/-- Equality and ordering: what a compound comparison may be made of. -/
def isComparison : BinaryOp → Bool
  | .eq | .notEq | .lt | .ltEq | .gt | .gtEq => true
  | _ => false

def isArithmetic : BinaryOp → Bool
  | .add | .sub | .mul | .div | .floorDiv | .mod | .pow => true
  | _ => false

def isBitwise : BinaryOp → Bool
  | .bitAnd | .bitOr | .bitXor | .shl | .shr => true
  | _ => false

def isLogical : BinaryOp → Bool
  | .and | .or => true
  | _ => false

/-- Identity, membership and class tests. -/
def isTest : BinaryOp → Bool
  | .refEq | .refNotEq | .contains | .notContains | .instanceOf => true
  | _ => false

/-- Operators whose result is a truth value whatever their operands are. -/
def yieldsBool (op : BinaryOp) : Bool :=
  op.isComparison || op.isLogical || op.isTest

end BinaryOp

/-- Operators on one operand. -/
inductive UnaryOp where
  | neg
  | plus
  | not
  | bitNot
  | preInc
  | preDec
  | postInc
  | postDec
  /-- Follows a pointer. -/
  | deref
  /-- Takes the address of its operand. -/
  | addressOf
  deriving DecidableEq, Repr

namespace UnaryOp

/-- Every unary operator. -/
def all : List UnaryOp :=
  [.neg, .plus, .not, .bitNot, .preInc, .preDec, .postInc, .postDec, .deref, .addressOf]

theorem mem_all (op : UnaryOp) : op ∈ all := by cases op <;> decide

/-- Neutral spelling. -/
def symbol : UnaryOp → String
  | .neg => "-"
  | .plus => "+"
  | .not => "!"
  | .bitNot => "~"
  | .preInc | .postInc => "++"
  | .preDec | .postDec => "--"
  | .deref => "*"
  | .addressOf => "&"

/-- Written after its operand. -/
def isPost : UnaryOp → Bool
  | .postInc | .postDec => true
  | _ => false

/-- Increment or decrement, before or after the operand. -/
def isStep : UnaryOp → Bool
  | .preInc | .preDec | .postInc | .postDec => true
  | _ => false

def isPointer : UnaryOp → Bool
  | .deref | .addressOf => true
  | _ => false

end UnaryOp

/-- Assignment: plain, or augmented by a binary operator. -/
inductive AssignOp where
  | plain
  | add
  | sub
  | mul
  | div
  | floorDiv
  | mod
  | pow
  | bitAnd
  | bitOr
  | bitXor
  | shl
  | shr
  deriving DecidableEq, Repr

namespace AssignOp

/-- Every assignment operator. -/
def all : List AssignOp :=
  [.plain, .add, .sub, .mul, .div, .floorDiv, .mod, .pow, .bitAnd, .bitOr, .bitXor, .shl, .shr]

theorem mem_all (op : AssignOp) : op ∈ all := by cases op <;> decide

/-- The binary operator an augmented assignment applies. -/
def binary? : AssignOp → Option BinaryOp
  | .plain => none
  | .add => some .add
  | .sub => some .sub
  | .mul => some .mul
  | .div => some .div
  | .floorDiv => some .floorDiv
  | .mod => some .mod
  | .pow => some .pow
  | .bitAnd => some .bitAnd
  | .bitOr => some .bitOr
  | .bitXor => some .bitXor
  | .shl => some .shl
  | .shr => some .shr

/-- Neutral spelling: the symbol of the operator applied, then the equals sign. -/
def symbol (op : AssignOp) : String :=
  match op.binary? with
  | none => "="
  | some binary => binary.symbol ++ "="

end AssignOp

end Interlingua
