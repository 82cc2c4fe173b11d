import Interlingua.Decimal.Notation
import Interlingua.Text.Quoted
import Interlingua.Token.Grouping

/-!
# Tokens of a tree

An expression or a simple statement as tokens of a target language, with the grouping it needs.

A `Piece` is a run of tokens that knows the position it starts at, since an operand tag names its
operator by position.  `Piece.append` puts runs one after another; `Piece.between`, `Piece.leading`
and their kin tag the operands they join, so an enclosing operator tags over those inside it.
-/

namespace Interlingua

/-- A run of tokens, given the position it starts at. -/
abbrev Piece := Nat → Except TokenError (List Token)

namespace Piece

/-- No tokens. -/
def empty : Piece := fun _ => .ok []

/-- One token. -/
def one (token : Token) : Piece := fun _ => .ok [token]

/-- A token that is no operator. -/
def plain (value : String) (kind : TokenKind) : Piece := one (.plain value kind)

/-- One run after another. -/
def append (first second : Piece) : Piece := fun start => do
  let before ← first start
  let after ← second (start + before.length)
  return before ++ after

instance : Append Piece := ⟨append⟩

/-- Runs one after another. -/
def concat : List Piece → Piece
  | [] => empty
  | piece :: rest => append piece (concat rest)

/-- Runs with a comma between any two. -/
def commaSeparated : List Piece → Piece
  | [] => empty
  | [piece] => piece
  | piece :: rest => append piece (append (plain "," .comma) (commaSeparated rest))

/-- An operator before its operand. -/
def leading (form : OperatorForm) (operand : Piece) : Piece := fun start => do
  let tokens ← operand (start + 1)
  return .ofForm form :: Token.tagAll start .right tokens

/-- An operator after its operand. -/
def trailing (form : OperatorForm) (operand : Piece) : Piece := fun start => do
  let tokens ← operand start
  return Token.tagAll (start + tokens.length) .left tokens ++ [.ofForm form]

/-- An operator after tokens that are already there, and its right operand. -/
def joined (start : Nat) (left : List Token) (form : OperatorForm) (right : Piece) :
    Except TokenError (List Token) := do
  let operator := start + left.length
  let tokens ← right (operator + 1)
  return Token.tagAll operator .left left ++ .ofForm form :: Token.tagAll operator .right tokens

/-- An operator between its operands. -/
def between (form : OperatorForm) (left right : Piece) : Piece := fun start => do
  joined start (← left start) form right

/-- The two parts of a ternary operator between three operands. -/
def ternary (forms : OperatorForm × OperatorForm) (left center right : Piece) : Piece :=
  fun start => do
    let lefts ← left start
    let operator := start + lefts.length
    let centers ← center (operator + 1)
    let rights ← right (operator + 1 + centers.length + 1)
    return Token.tagAll operator .left lefts ++ .ofForm forms.1 ::
      (Token.tagAll operator .center centers ++ .ofForm forms.2 ::
        Token.tagAll operator .right rights)

end Piece

namespace Linear

/-- The refusal of what a language has no tokens for. -/
def unsupported {α : Type} (lang : Language) (construct : String) : Except TokenError α :=
  .error (.unsupported lang.name construct)

/-- The form of an operator, or the refusal that names it. -/
def required (lang : Language) (construct : String) :
    Option OperatorForm → Except TokenError OperatorForm
  | some form => .ok form
  | none => unsupported lang construct

/-- A literal or reference spelled as a word. -/
def word (lang : Language) (word : Word) (kind : TokenKind) (construct : String) : Piece :=
  fun start =>
    match lang.operators.word word with
    | some text => Piece.plain text kind start
    | none => unsupported lang construct

/-- How the tokens of an expression are made. -/
structure Context where
  lang : Language
  arena : Arena
  /-- Tokens of an expression below the one at hand. -/
  below : NodeId → Piece

/-- A run between parentheses. -/
def grouped (piece : Piece) : Piece :=
  Piece.plain "(" .openBrace ++ piece ++ Piece.plain ")" .closeBrace

/-- An expression as an operand, grouped if it has to be. -/
def operand (context : Context) (parent : OperatorForm) (child : NodeId) (side : Side) : Piece :=
  fun start => do
    if ← context.lang.wraps context.arena parent child side then
      grouped (context.below child) start
    else
      context.below child start

/-- An operator between two expressions. -/
def between (context : Context) (form : OperatorForm) (left right : NodeId) : Piece :=
  Piece.between form (operand context form left .left) (operand context form right .right)

/-- The expression that a member, a call or an index is taken of. -/
def accessed (context : Context) (target : NodeId) : Piece :=
  operand context context.lang.operators.access target .left

/-- Arguments of a call. -/
def arguments (context : Context) (args : List NodeId) : Piece :=
  Piece.plain "(" .callOpenBrace ++ Piece.commaSeparated (args.map context.below) ++
    Piece.plain ")" .callCloseBrace

/-- The operator and the operands of a comparison. -/
def comparison (context : Context) (id : NodeId) :
    Except TokenError (OperatorForm × NodeId × NodeId) := do
  match ← context.arena.expr id with
  | .binary op left right =>
    let form ← required context.lang op.symbol (context.lang.operators.binary op)
    return (form, left, right)
  | _ => unsupported context.lang "compound comparison"

/-- The rest of a chain of comparisons, after the tokens of its last operand so far.  An operand
between two operators ends up as the left operand of the second. -/
def chainRest (context : Context) (start : Nat) (left : List Token) :
    List NodeId → Except TokenError (List Token)
  | [] => .ok left
  | item :: rest => do
    let (form, _, right) ← comparison context item
    let operator := start + left.length
    let tokens ← operand context form right .right (operator + 1)
    let after ← chainRest context (operator + 1) (Token.tagAll operator .right tokens) rest
    return Token.tagAll operator .left left ++ .ofForm form :: after

/-- Comparisons that chain: each goes on from the right operand of the one before. -/
def chain (context : Context) (items : List NodeId) : Piece := fun start => do
  match items with
  | [] => return []
  | item :: _ =>
    let (form, left, _) ← comparison context item
    let tokens ← operand context form left .left start
    chainRest context start tokens items

/-- More comparisons, each joined to all before it. -/
def joinRest (context : Context) (form : OperatorForm) (start : Nat) (left : List Token) :
    List NodeId → Except TokenError (List Token)
  | [] => .ok left
  | item :: rest => do
    let tokens ← Piece.joined start left form (operand context form item .right)
    joinRest context form start tokens rest

/-- Comparisons joined by the logical operator. -/
def conjunction (context : Context) (items : List NodeId) : Piece := fun start => do
  match items with
  | [] => return []
  | first :: rest =>
    let form ← required context.lang "compound comparison" (context.lang.operators.binary .and)
    let tokens ← operand context form first .left start
    joinRest context form start tokens rest

/-- A compound comparison: a chain where the language has them, else a conjunction. -/
def compound (context : Context) (items : List NodeId) : Piece :=
  if items.isEmpty then fun _ => unsupported context.lang "compound comparison"
  else if context.lang.operators.chains then chain context items
  else conjunction context items

/-- Tokens of one layer of an expression. -/
def exprWith (context : Context) (e : Expr) : Piece :=
  let lang := context.lang
  match e with
  | .int value => Piece.plain (Text.numeral value) .const
  | .float bits => Piece.plain (Decimal.Layout.compact.writeBits bits) .const
  | .str value _ => Piece.plain (Text.quote value) .const
  | .bool true => word lang .true .const "boolean literal"
  | .bool false => word lang .false .const "boolean literal"
  | .null => word lang .null .const "null literal"
  | .selfRef => word lang .selfRef .keyword "self reference"
  | .superRef => word lang .superRef .keyword "super reference"
  | .ident name => Piece.plain name .identifier
  | .scoped path => Piece.plain (lang.operators.scopeSeparator.intercalate path) .identifier
  | .binary op left right => fun start => do
    let form ← required lang op.symbol (lang.operators.binary op)
    between context form left right start
  | .assign op target value => fun start => do
    let form ← required lang op.symbol (lang.operators.assign op)
    between context form target value start
  | .unary op inner => fun start => do
    let form ← required lang op.symbol (lang.operators.unary op)
    if form.isLeading then Piece.leading form (operand context form inner .right) start
    else Piece.trailing form (operand context form inner .left) start
  | .ternary cond whenTrue whenFalse =>
    let form := lang.operators.ternary.1
    let (left, center) := match lang.operators.ternaryLayout with
      | .condFirst => (cond, whenTrue)
      | .thenFirst => (whenTrue, cond)
    Piece.ternary lang.operators.ternary (operand context form left .left)
      (operand context form center .center) (operand context form whenFalse .right)
  | .compound items => compound context items
  | .paren inner => grouped (context.below inner)
  | .call callee args => fun start => do
    match ← context.arena.expr callee with
    | .ident name =>
      (Piece.plain name .callableIdentifier ++ arguments context args) start
    | _ => (accessed context callee ++ arguments context args) start
  | .method receiver name args =>
    accessed context receiver ++ Piece.plain "." .separator ++
      Piece.plain name .callableIdentifier ++ arguments context args
  | .index target position =>
    accessed context target ++ Piece.plain "[" .subscriptOpenBrace ++
      context.below position ++ Piece.plain "]" .subscriptCloseBrace
  | .member target name =>
    accessed context target ++ Piece.plain "." .separator ++ Piece.plain name .identifier
  | .char _ | .interpolated _ | .collection .. | .dict _ | .cast .. | .sizeOf _ | .new ..
  | .newArray .. | .sequence _ => fun _ => unsupported lang e.kindName

/-- Tokens of an expression of at most the given depth. -/
def exprTo (lang : Language) (arena : Arena) : Nat → NodeId → Piece
  | 0, _ => fun _ => .error (.broken .endless)
  | depth + 1, id => fun start => do
    exprWith ⟨lang, arena, exprTo lang arena depth⟩ (← arena.expr id) start

/-- Tokens of an expression. -/
def expr (lang : Language) (arena : Arena) (id : NodeId) : Piece :=
  exprTo lang arena arena.depthBound id

/-- The mark that ends a statement. -/
def statementEnd (lang : Language) : Piece :=
  match lang.operators.statementEnd with
  | some mark => Piece.plain mark .statementToken
  | none => Piece.empty

/-- A run between the marks of a block, where the language has them. -/
def braced (lang : Language) (piece : Piece) : Piece :=
  if lang.operators.statementEnd.isSome then
    Piece.plain "\x7b" .compoundOpenBrace ++ piece ++ Piece.plain "\x7d" .compoundCloseBrace
  else piece

/-- Tokens of a statement of at most the given depth. -/
def stmtTo (lang : Language) (arena : Arena) : Nat → Stmt → Piece
  | 0, _ => fun _ => .error (.broken .endless)
  | depth + 1, s =>
    let context : Context := ⟨lang, arena, expr lang arena⟩
    match s with
    | .expr value => expr lang arena value ++ statementEnd lang
    | .assign op target value => fun start => do
      let form ← required lang op.symbol (lang.operators.assignStatement op)
      (between context form target value ++ statementEnd lang) start
    | .ret none => Piece.plain "return" .keyword ++ statementEnd lang
    | .ret (some value) =>
      Piece.plain "return" .keyword ++ expr lang arena value ++ statementEnd lang
    | .block items =>
      braced lang (Piece.concat (items.map fun item => fun start => do
        match ← arena.node item with
        | .stmt inner => stmtTo lang arena depth inner start
        | other => unsupported lang other.kindName))
    | other => fun _ => unsupported lang other.kindName

end Linear

/-- The tokens of the expression or simple statement that an identity names. -/
def Language.linearize (lang : Language) (arena : Arena) (id : NodeId) :
    Except TokenError Tokens := do
  match ← arena.node id with
  | .expr _ => return ⟨← Linear.expr lang arena id 0⟩
  | .stmt s => return ⟨← Linear.stmtTo lang arena arena.depthBound s 0⟩
  | other => Linear.unsupported lang other.kindName

end Interlingua
