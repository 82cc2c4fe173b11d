import Interlingua.Decimal.Notation
import Interlingua.Language.Cpp
import Interlingua.Language.Java
import Interlingua.Language.Python
import Interlingua.Text.Letter

/-!
# Target languages

* `Language` — the three targets, each with its `operators` and its `grammar`.
* `Language.exprForm?` — the operator that an expression is written with; an atom has none.
* `Language.leafForm?` — the operator that a leaf of a concrete syntax tree is.
* `Language.classify` — the role of any other leaf.
-/

namespace Interlingua

inductive Language where
  | java
  | python
  | cpp
  deriving DecidableEq, Repr

namespace Language

def operators : Language → Operators
  | .java => Java.operators
  | .python => Python.operators
  | .cpp => Cpp.operators

def grammar : Language → Grammar
  | .java => Java.grammar
  | .python => Python.grammar
  | .cpp => Cpp.grammar

def name (lang : Language) : String := lang.operators.name

/-! ## Operators of expressions -/

/-- The operator an expression is written with.  A negative number binds like a minus before its
operand.  Grouped expressions, calls, and what is written as a call are atoms.  An augmented
assignment that has no operator is written out with the plain one. -/
def formOf? (lang : Language) : Expr → Option OperatorForm
  | .binary op _ _ => lang.operators.binary op
  | .unary op _ => lang.operators.unary op
  | .assign op _ _ => (lang.operators.assign op).or (lang.operators.assign .plain)
  | .ternary .. => some lang.operators.ternary.1
  | .compound _ => lang.operators.binary (if lang.operators.chains then .lt else .and)
  | .cast .. => lang.operators.cast
  | .int value => if value < 0 then lang.operators.unary .neg else none
  | .float bits => if Decimal.Binary64.signBit bits then lang.operators.unary .neg else none
  | _ => none

/-- The operator that the expression an identity names is written with. -/
def exprForm? (lang : Language) (arena : Arena) (id : NodeId) :
    Except Fault (Option OperatorForm) := do
  return lang.formOf? (← arena.expr id)

/-! ## Leaves of concrete syntax trees -/

/-- The form with a given spelling. -/
def spelled (text : String) (form : Option OperatorForm) : Option OperatorForm :=
  form.filter (·.value == text)

/-- The operator that a text is inside a syntax node.  In a unary node it is taken to stand before
its operand. -/
def leafForm? (lang : Language) (text parent : String) : Option OperatorForm :=
  match lang.grammar.operatorArity? parent with
  | none => none
  | some .unary =>
    (UnaryOp.all.filter (!·.isPost)).findSome? fun op => spelled text (lang.operators.unary op)
  | some .binary =>
    (BinaryOp.all.findSome? fun op => spelled text (lang.operators.binary op)).or
      (AssignOp.all.findSome? fun op => spelled text (lang.operators.assignStatement op))
  | some .ternary =>
    let (first, second) := lang.operators.ternary
    [first, second].find? (·.value == text)

/-- The operator that a text is after its operand. -/
def trailingForm? (lang : Language) (text : String) : Option OperatorForm :=
  (UnaryOp.all.filter (·.isPost)).findSome? fun op => spelled text (lang.operators.unary op)

/-- A leaf of a concrete syntax tree. -/
structure Leaf where
  text : String
  kind : String
  parent : Option String
  /-- The field of the parent that holds the leaf. -/
  field : Option String

/-- Whether one text occurs in another. -/
def occursIn (part : List Char) : List Char → Bool
  | [] => part.isEmpty
  | c :: rest => part.isPrefixOf (c :: rest) || occursIn part rest

/-- Kinds of leaves that hold literals. -/
def isLiteralKind (kind : String) : Bool :=
  occursIn "literal".toList kind.toList ||
    ["string", "concatenated_string", "integer", "float", "number"].contains kind

/-- A letter or an underscore, then letters, numerals and underscores. -/
def isIdentifier (text : String) : Bool :=
  match text.toList with
  | [] => false
  | first :: rest =>
    (Text.isLetter first || first == '_') &&
      rest.all fun c => Text.isLetter c || Text.isNumeral c || c == '_'

/-- Starts like a number, a string or a character. -/
def startsLiteral (text : String) : Bool :=
  match text.toList with
  | [] => false
  | first :: _ => first.isDigit || first == '"' || first == '\''

/-- The role of a leaf that is no operator. -/
def classify (lang : Language) (leaf : Leaf) : TokenKind :=
  let role := match leaf.parent with
    | some kind => lang.grammar.role kind
    | none => .other
  match leaf.text with
  | "(" => if role = .arguments then .callOpenBrace else .openBrace
  | ")" => if role = .arguments then .callCloseBrace else .closeBrace
  | "[" => if role = .subscript then .subscriptOpenBrace else .openBrace
  | "]" => if role = .subscript then .subscriptCloseBrace else .closeBrace
  | "\x7b" => .compoundOpenBrace
  | "\x7d" => .compoundCloseBrace
  | ";" => .statementToken
  | "," => .comma
  | "." | "::" | ":" | "->" => .separator
  | text =>
    if [Word.true, .false, .null].any fun word => lang.operators.word word == some text then .const
    else if lang.grammar.keywords.contains text then .keyword
    else if isLiteralKind leaf.kind || startsLiteral text then .const
    else if isIdentifier text || occursIn "identifier".toList leaf.kind.toList then
      if role = .call && (leaf.field == some "name" || leaf.field == some "function") then
        .callableIdentifier
      else .identifier
    else .unknown

end Language

end Interlingua
