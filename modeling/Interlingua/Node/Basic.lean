import Interlingua.Operator
import Interlingua.Text.Numeral
import Interlingua.Ty

/-!
# Nodes of a program tree

One layer of a tree.  A node names its children by `NodeId`; the arena that owns the nodes gives
the ids their meaning.

* `Expr`, `Stmt`, `Decl`, `Def` and types — the five closed categories, joined in `Node`.
* `kindName` — the short name of a node's kind, used in outlines and diagnostics.

A reference is either an *owned child* or a *soft reference* (the loop a jump names, the class a
method belongs to, the main class and the entry point of a program).  Soft references are marked
as such on their field; see `Node.children` for the owned ones.
-/

namespace Interlingua

/-- Identity of a node: its position in the arena that owns it. -/
structure NodeId where
  index : Nat
  deriving DecidableEq, Repr

namespace NodeId

/-- The identity that names no node of any arena; it stands where a reference is missing. -/
def invalid : NodeId := ⟨4294967295⟩

instance : Inhabited NodeId := ⟨invalid⟩

def isValid (id : NodeId) : Bool := id != invalid

/-- Text of an identity. -/
def display (id : NodeId) : String :=
  if id.isValid then "#" ++ Text.count id.index else "#INVALID"

end NodeId

/-- Flavor of a string literal. -/
inductive StringKind where
  | plain
  | raw
  | multiline
  deriving DecidableEq, Repr

/-- Flavor of a collection literal. -/
inductive CollectionKind where
  | list
  | array
  | set
  /-- A sequence that cannot be modified. -/
  | tuple
  deriving DecidableEq, Repr

/-- Expressions. -/
inductive Expr where
  | int (value : Int)
  /-- A floating point number, by its 64 bits. -/
  | float (bits : UInt64)
  | bool (value : Bool)
  | char (value : Char)
  | str (value : String) (kind : StringKind)
  /-- String literals and embedded expressions, in order. -/
  | interpolated (parts : List NodeId)
  | null
  | collection (kind : CollectionKind) (items : List NodeId)
  | dict (entries : List (NodeId × NodeId))
  | ident (name : String)
  /-- A name reached through the names before it. -/
  | scoped (path : List String)
  | selfRef
  | superRef
  | binary (op : BinaryOp) (left right : NodeId)
  | unary (op : UnaryOp) (operand : NodeId)
  /-- An assignment used as a value. -/
  | assign (op : AssignOp) (target value : NodeId)
  | ternary (cond whenTrue whenFalse : NodeId)
  /-- Adjacent comparisons that share their middle operands. -/
  | compound (comparisons : List NodeId)
  | paren (inner : NodeId)
  | call (callee : NodeId) (args : List NodeId)
  | method (receiver : NodeId) (name : String) (args : List NodeId)
  | index (target position : NodeId)
  | member (target : NodeId) (name : String)
  | cast (ty value : NodeId)
  | sizeOf (value : NodeId)
  | new (ty : NodeId) (args : List NodeId)
  | newArray (ty : NodeId) (dims : List NodeId) (init : Option NodeId)
  /-- Expressions evaluated in turn, the last giving the value. -/
  | sequence (items : List NodeId)
  deriving DecidableEq, Repr

namespace Expr

def kindName : Expr → String
  | .int _ => "int literal"
  | .float _ => "float literal"
  | .bool _ => "bool literal"
  | .char _ => "char literal"
  | .str .. => "string literal"
  | .interpolated _ => "interpolated string"
  | .null => "null literal"
  | .collection .. => "collection literal"
  | .dict _ => "dictionary literal"
  | .ident _ => "identifier"
  | .scoped _ => "scoped identifier"
  | .selfRef => "self reference"
  | .superRef => "super reference"
  | .binary .. => "binary expression"
  | .unary .. => "unary expression"
  | .assign .. => "assignment expression"
  | .ternary .. => "ternary expression"
  | .compound _ => "compound comparison"
  | .paren _ => "parenthesized expression"
  | .call .. => "call"
  | .method .. => "method call"
  | .index .. => "index expression"
  | .member .. => "member access"
  | .cast .. => "cast"
  | .sizeOf _ => "sizeof"
  | .new .. => "object construction"
  | .newArray .. => "array construction"
  | .sequence _ => "expression sequence"

end Expr

/-- One arm of a conditional statement. -/
structure Branch where
  cond : NodeId
  body : NodeId
  deriving DecidableEq, Repr

/-- How a case of a switch is selected and left. -/
inductive CaseLabel where
  /-- Selected by a value; leaves the switch after its body. -/
  | leaves (value : NodeId)
  /-- Selected by a value; goes on into the next case after its body. -/
  | falls (value : NodeId)
  | default
  deriving DecidableEq, Repr

/-- The value that selects a case, if it is not the default. -/
def CaseLabel.value? : CaseLabel → Option NodeId
  | .leaves value | .falls value => some value
  | .default => none

structure Case where
  label : CaseLabel
  body : NodeId
  deriving DecidableEq, Repr

/-- Bounds of a counting loop. -/
structure Range where
  start : NodeId
  stop : NodeId
  step : Option NodeId
  /-- The stop value is counted too. -/
  inclusive : Bool
  /-- The loop counts down. -/
  descending : Bool
  deriving DecidableEq, Repr

/-- Statements. -/
inductive Stmt where
  /-- A sequence of nodes; the only kind of node that can be edited in place. -/
  | block (body : List NodeId)
  | expr (value : NodeId)
  | assign (op : AssignOp) (target value : NodeId)
  | multiAssign (items : List NodeId)
  | conditional (branches : List Branch) (otherwise : Option NodeId)
  | switch (subject : NodeId) (cases : List Case)
  | whileLoop (cond body : NodeId)
  | doWhile (body cond : NodeId)
  /-- The loop of three clauses; the first is a declaration or a statement. -/
  | forLoop (init cond update : Option NodeId) (body : NodeId)
  | rangeFor (var : String) (range : Range) (body : NodeId)
  | forEach (var : String) (ty iterable body : NodeId)
  | infinite (body : NodeId)
  /-- Leaves a loop; the target is a soft reference. -/
  | breakTo (target : Option NodeId)
  /-- Starts the next round of a loop; the target is a soft reference. -/
  | continueTo (target : Option NodeId)
  | ret (value : Option NodeId)
  | delete (target : NodeId) (array : Bool)
  | comment (text : String) (multiline : Bool)
  deriving DecidableEq, Repr

namespace Stmt

def kindName : Stmt → String
  | .block _ => "block"
  | .expr _ => "expression statement"
  | .assign .. => "assignment statement"
  | .multiAssign _ => "multiple assignment"
  | .conditional .. => "if statement"
  | .switch .. => "switch statement"
  | .whileLoop .. => "while loop"
  | .doWhile .. => "do-while loop"
  | .forLoop .. => "for loop"
  | .rangeFor .. => "range for loop"
  | .forEach .. => "for-each loop"
  | .infinite _ => "infinite loop"
  | .breakTo _ => "break"
  | .continueTo _ => "continue"
  | .ret _ => "return"
  | .delete .. => "delete"
  | .comment .. => "comment"

def isLoop : Stmt → Bool
  | .whileLoop .. | .doWhile .. | .forLoop .. | .rangeFor .. | .forEach .. | .infinite _ => true
  | _ => false

end Stmt

/-- The set of modifiers of a declaration. -/
structure Modifiers where
  isPublic : Bool := false
  isPrivate : Bool := false
  isProtected : Bool := false
  isStatic : Bool := false
  isFinal : Bool := false
  isAbstract : Bool := false
  isConst : Bool := false
  deriving DecidableEq, Repr

structure Declarator where
  name : String
  init : Option NodeId
  deriving DecidableEq, Repr

structure Param where
  name : String
  ty : NodeId
  deriving DecidableEq, Repr

/-- What an import brings into view. -/
inductive ImportItems where
  /-- The module itself. -/
  | wholeModule
  /-- Some of its members, by name. -/
  | members (names : List String)
  /-- All of its members. -/
  | all
  deriving DecidableEq, Repr

/-- Declarations. -/
inductive Decl where
  | vars (ty : NodeId) (declarators : List Declarator) (modifiers : Modifiers)
  /-- A signature; the owner is a soft reference to the class a method belongs to. -/
  | function (name : String) (params : List Param) (ret : NodeId) (modifiers : Modifiers)
      (owner : Option NodeId)
  | classHead (name : String) (parents : List NodeId) (modifiers : Modifiers)
  | imports (path : List String) (items : ImportItems) (static : Bool)
  | package (path : List String)
  | includes (path : String) (system : Bool)
  deriving DecidableEq, Repr

namespace Decl

def kindName : Decl → String
  | .vars .. => "variable declaration"
  | .function _ _ _ _ none => "function declaration"
  | .function .. => "method declaration"
  | .classHead .. => "class declaration"
  | .imports .. => "import"
  | .package _ => "package declaration"
  | .includes .. => "include"

end Decl

/-- Definitions. -/
inductive Def where
  /-- A whole program; the main class and the entry point are soft references. -/
  | program (body : List NodeId) (mainClass entryPoint : Option NodeId)
  | function (decl body : NodeId)
  | classBody (decl : NodeId) (members : List NodeId)
  deriving DecidableEq, Repr

namespace Def

def kindName : Def → String
  | .program .. => "program entry point"
  | .function .. => "function definition"
  | .classBody .. => "class definition"

end Def

/-- The five categories of nodes. -/
inductive Category where
  | expression
  | statement
  | declaration
  | definition
  | type
  deriving DecidableEq, Repr

/-- Any node. -/
inductive Node where
  | expr (expr : Expr)
  | stmt (stmt : Stmt)
  | decl (decl : Decl)
  | defn (defn : Def)
  | type (ty : Ty)
  deriving DecidableEq, Repr

namespace Node

def category : Node → Category
  | .expr _ => .expression
  | .stmt _ => .statement
  | .decl _ => .declaration
  | .defn _ => .definition
  | .type _ => .type

/-- Whether a statement is a loop; nothing for other nodes. -/
def isLoop? : Node → Option Bool
  | .stmt s => some s.isLoop
  | _ => none

def kindName : Node → String
  | .expr e => e.kindName
  | .stmt s => s.kindName
  | .decl d => d.kindName
  | .defn d => d.kindName
  | .type _ => "type"

end Node

end Interlingua
