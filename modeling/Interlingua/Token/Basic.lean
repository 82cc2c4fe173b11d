import Interlingua.Arena.Basic

/-!
# Tokens

A text in a target language as a flat sequence of tokens.

* `OperatorForm` — the form an operator takes in a language: how it is spelled, how tightly it
  binds, and where it stands.  A lower level binds tighter, throughout the project.
* `Token` — a token; an operator carries its form, and an operand carries a tag that names its
  operator by position in the same sequence.
* `Token.tagAll`, `Tokens.tagSpan` — make tokens operands.  A later tag takes the place of an
  earlier one, so the enclosing operator wins; no token is moved.
-/

namespace Interlingua

/-- The side that operators of one level are grouped from. -/
inductive Assoc where
  | left
  | right
  deriving DecidableEq, Repr

inductive Arity where
  | unary
  | binary
  | ternary
  deriving DecidableEq, Repr

/-- Where an operator stands relative to its operands. -/
inductive Place where
  | before
  | between
  | after
  deriving DecidableEq, Repr

/-- Which operand of an operator. -/
inductive Side where
  | left
  | right
  /-- The middle operand of a ternary operator. -/
  | center
  deriving DecidableEq, Repr

/-- The form an operator takes in a language. -/
structure OperatorForm where
  value : String
  /-- Lower binds tighter. -/
  level : Nat
  assoc : Assoc
  arity : Arity
  /-- Operands of the same level have to be grouped: the operator does not chain. -/
  strict : Bool := false
  place : Place
  deriving DecidableEq, Repr

namespace OperatorForm

/-- An operator in the usual place of its arity: a unary one before, others between operands. -/
def make (value : String) (level : Nat) (assoc : Assoc) (arity : Arity) : OperatorForm :=
  { value, level, assoc, arity, place := match arity with
      | .unary => .before
      | .binary | .ternary => .between }

/-- An operator between two operands. -/
def between (value : String) (level : Nat) (assoc : Assoc) : OperatorForm :=
  make value level assoc .binary

/-- An operator before its one operand. -/
def before (value : String) (level : Nat) : OperatorForm := make value level .right .unary

/-- An operator after its one operand. -/
def after (value : String) (level : Nat) : OperatorForm :=
  { make value level .left .unary with place := .after }

/-- The same operator, not chaining. -/
def strictly (form : OperatorForm) : OperatorForm := { form with strict := true }

/-- The same operator in another place. -/
def placed (form : OperatorForm) (place : Place) : OperatorForm := { form with place := place }

/-- Stands before its one operand. -/
def isLeading (form : OperatorForm) : Bool := form.arity == .unary && form.place == .before

end OperatorForm

/-- Lexical role of a token. -/
inductive TokenKind where
  | operator
  | const
  | callableIdentifier
  | identifier
  | keyword
  | openBrace
  | closeBrace
  | subscriptOpenBrace
  | subscriptCloseBrace
  | callOpenBrace
  | callCloseBrace
  | compoundOpenBrace
  | compoundCloseBrace
  | statementToken
  | separator
  | comma
  | unknown
  deriving DecidableEq, Repr

namespace TokenKind

def isOpenBrace : TokenKind → Bool
  | .openBrace | .subscriptOpenBrace | .callOpenBrace | .compoundOpenBrace => true
  | _ => false

def isCloseBrace : TokenKind → Bool
  | .closeBrace | .subscriptCloseBrace | .callCloseBrace | .compoundCloseBrace => true
  | _ => false

end TokenKind

/-- Names the operator that a token is an operand of, by its position in the sequence. -/
structure OperandTag where
  operator : Nat
  side : Side
  deriving DecidableEq, Repr

structure Token where
  value : String
  kind : TokenKind
  form : Option OperatorForm := none
  tag : Option OperandTag := none
  deriving DecidableEq, Repr

namespace Token

/-- A token that is no operator. -/
def plain (value : String) (kind : TokenKind) : Token := { value, kind }

/-- An occurrence of an operator. -/
def ofForm (form : OperatorForm) : Token :=
  { value := form.value, kind := .operator, form := some form }

def isOperator (token : Token) : Bool := token.form.isSome

/-- The token as an operand. -/
def tagged (tag : OperandTag) (token : Token) : Token := { token with tag := some tag }

/-- Makes all of some tokens operands of the operator at a position. -/
def tagAll (operator : Nat) (side : Side) (tokens : List Token) : List Token :=
  tokens.map (tagged ⟨operator, side⟩)

end Token

/-- Why tokens could not be made. -/
inductive TokenError where
  /-- A reference could not be followed. -/
  | broken (fault : Fault)
  /-- A ternary operator was given other than two parts. -/
  | malformedTernary (parts : Nat)
  | unsupported (language construct : String)
  deriving DecidableEq, Repr

def TokenError.message : TokenError → String
  | .broken fault => fault.message
  | .malformedTernary parts =>
      "malformed ternary operator: expected 2 parts, got " ++ Text.count parts
  | .unsupported language construct => language ++ " has no token form for " ++ construct

instance : MonadLift (Except Fault) (Except TokenError) where
  monadLift
    | .ok value => .ok value
    | .error fault => .error (.broken fault)

/-- Both parts of a ternary operator. -/
def OperatorForm.ternary (parts : List String) (level : Nat) (assoc : Assoc) :
    Except TokenError (OperatorForm × OperatorForm) :=
  match parts with
  | [first, second] => .ok (make first level assoc .ternary, make second level assoc .ternary)
  | _ => .error (.malformedTernary parts.length)

/-- The positions from `start` up to and without `stop`. -/
structure Span where
  start : Nat
  stop : Nat
  deriving DecidableEq, Repr

namespace Span

def length (span : Span) : Nat := span.stop - span.start

def isEmpty (span : Span) : Bool := span.start == span.stop

def contains (span : Span) (index : Nat) : Bool := span.start ≤ index && index < span.stop

end Span

/-- A sequence of tokens; a position in it is what operand tags refer to. -/
structure Tokens where
  toList : List Token := []
  deriving DecidableEq, Repr

namespace Tokens

def size (tokens : Tokens) : Nat := tokens.toList.length

def isEmpty (tokens : Tokens) : Bool := tokens.toList.isEmpty

/-- The sequence with one more token; its position is the size before. -/
def push (tokens : Tokens) (token : Token) : Tokens := ⟨tokens.toList ++ [token]⟩

def get? (tokens : Tokens) (index : Nat) : Option Token := tokens.toList[index]?

/-- The token at a position. -/
def get (tokens : Tokens) (index : Nat) : Except Fault Token :=
  match tokens.get? index with
  | some token => .ok token
  | none => .error (.dangling index)

def values (tokens : Tokens) : List String := tokens.toList.map Token.value

/-- The span from a position to the end. -/
def since (tokens : Tokens) (start : Nat) : Span := ⟨start, tokens.size⟩

/-- Makes the tokens of a span operands of the operator at a position. -/
def tagSpan (tokens : Tokens) (span : Span) (operator : Nat) (side : Side) :
    Except Fault Tokens :=
  if span.stop ≤ tokens.size then
    .ok ⟨tokens.toList.mapIdx fun index token =>
      if span.contains index then token.tagged ⟨operator, side⟩ else token⟩
  else
    .error (.dangling span.stop)

/-- The positions of the tokens that carry a tag. -/
def operandsOf (tokens : Tokens) (operator : Nat) (side : Side) : List Nat :=
  (List.range tokens.size).filter fun index =>
    (tokens.get? index).any fun token => token.tag == some ⟨operator, side⟩

/-- The values with a blank between any two. -/
def display (tokens : Tokens) : String := " ".intercalate tokens.values

end Tokens

end Interlingua
