import Interlingua.Node.Children

/-!
# The arena

All nodes of a tree live in one arena.  Allocation appends, so the position of a node is its
identity, and an identity is never used again.  A copy of an arena keeps every identity, and with
it every soft reference.

* `Arena.alloc` — appends a node.
* `Arena.node`, `Arena.expr`, … — what an identity names; a reference that names nothing, or a
  node of another category than its place demands, is a `Fault`.
* checked builders (`Arena.addCompound`, `Arena.addConditional`, …) refuse a node that lacks a part its
  kind requires; the refusal is a `TreeError`.
-/

namespace Interlingua

/-- A reference that cannot be followed. -/
inductive Fault where
  /-- The identity names no node of the arena, or no token of the list. -/
  | dangling (index : Nat)
  /-- The identity names a node of another category. -/
  | miscast (id : NodeId) (found : Category)
  /-- The tree goes on below the size of its arena, so it contains itself. -/
  | endless
  deriving DecidableEq, Repr

def Fault.message : Fault → String
  | .dangling index => "nothing is numbered " ++ Text.count index
  | .miscast id _ => "node " ++ id.display ++ " is of another category"
  | .endless => "the tree contains itself"

/-- Why a tree could not be read, built or edited. -/
inductive TreeError where
  /-- A reference could not be followed. -/
  | broken (fault : Fault)
  /-- A part was asked for that the node does not have. -/
  | missingField (node field : String)
  /-- A node was built without a part that its kind requires. -/
  | malformed (node reason : String)
  /-- An edit was aimed at something other than a block. -/
  | notABlock (id : NodeId)
  | indexOutOfRange (index length : Nat)
  deriving DecidableEq, Repr

def TreeError.message : TreeError → String
  | .broken fault => fault.message
  | .missingField node field => node ++ " has no " ++ field
  | .malformed node reason => "malformed " ++ node ++ ": " ++ reason
  | .notABlock id => "node " ++ id.display ++ " is not a block statement"
  | .indexOutOfRange index length =>
      "index " ++ Text.count index ++ " is out of range for a block of " ++ Text.count length ++
        " statements"

instance : MonadLift (Except Fault) (Except TreeError) where
  monadLift
    | .ok value => .ok value
    | .error fault => .error (.broken fault)

/-- The nodes of one tree, by identity. -/
structure Arena where
  nodes : Array Node := #[]
  deriving DecidableEq, Repr

namespace Arena

/-- Number of nodes. -/
def size (arena : Arena) : Nat := arena.nodes.size

def isEmpty (arena : Arena) : Bool := arena.nodes.isEmpty

/-- The identity the next node gets. -/
def nextId (arena : Arena) : NodeId := ⟨arena.size⟩

/-- Appends a node, which gets the next identity. -/
def alloc (arena : Arena) (node : Node) : NodeId × Arena :=
  (arena.nextId, ⟨arena.nodes.push node⟩)

/-- Whether an identity names a node. -/
def contains (arena : Arena) (id : NodeId) : Bool := id.index < arena.size

def node? (arena : Arena) (id : NodeId) : Option Node := arena.nodes[id.index]?

/-- The node an identity names. -/
def node (arena : Arena) (id : NodeId) : Except Fault Node :=
  match arena.node? id with
  | some node => .ok node
  | none => .error (.dangling id.index)

/-- The expression an identity names. -/
def expr (arena : Arena) (id : NodeId) : Except Fault Expr :=
  match arena.node id with
  | .error fault => .error fault
  | .ok (.expr e) => .ok e
  | .ok other => .error (.miscast id other.category)

/-- The statement an identity names. -/
def stmt (arena : Arena) (id : NodeId) : Except Fault Stmt :=
  match arena.node id with
  | .error fault => .error fault
  | .ok (.stmt s) => .ok s
  | .ok other => .error (.miscast id other.category)

/-- The declaration an identity names. -/
def decl (arena : Arena) (id : NodeId) : Except Fault Decl :=
  match arena.node id with
  | .error fault => .error fault
  | .ok (.decl d) => .ok d
  | .ok other => .error (.miscast id other.category)

/-- The definition an identity names. -/
def defn (arena : Arena) (id : NodeId) : Except Fault Def :=
  match arena.node id with
  | .error fault => .error fault
  | .ok (.defn d) => .ok d
  | .ok other => .error (.miscast id other.category)

/-- The type an identity names. -/
def ty (arena : Arena) (id : NodeId) : Except Fault Ty :=
  match arena.node id with
  | .error fault => .error fault
  | .ok (.type t) => .ok t
  | .ok other => .error (.miscast id other.category)

/-- Whether an identity names a node of a category. -/
def isA (arena : Arena) (category : Category) (id : NodeId) : Bool :=
  match arena.node? id with
  | some node => node.category == category
  | none => false

/-- Owned children of the node an identity names. -/
def children (arena : Arena) (id : NodeId) : Except Fault (List Child) :=
  match arena.node id with
  | .error fault => .error fault
  | .ok node => .ok node.children

/-- A bound on the length of every downward path of a tree that does not contain itself: such a
path visits no node twice. -/
def depthBound (arena : Arena) : Nat := arena.size + 1

/-! ## Builders -/

def addExpr (arena : Arena) (e : Expr) : NodeId × Arena := arena.alloc (.expr e)

def addStmt (arena : Arena) (s : Stmt) : NodeId × Arena := arena.alloc (.stmt s)

def addDecl (arena : Arena) (d : Decl) : NodeId × Arena := arena.alloc (.decl d)

def addDef (arena : Arena) (d : Def) : NodeId × Arena := arena.alloc (.defn d)

/-- Adds the call of a function by name; the name becomes a node before the call does. -/
def addCall (arena : Arena) (callee : String) (args : List NodeId) : NodeId × Arena :=
  let (id, arena) := arena.addExpr (.ident callee)
  arena.addExpr (.call id args)

/-- Refuses an operand of a compound comparison that is not a comparison. -/
def checkComparison (arena : Arena) (id : NodeId) : Except TreeError Unit := do
  let e ← arena.expr id
  match e with
  | .binary op _ _ => if op.isComparison then .ok () else .error (refusal e)
  | _ => .error (refusal e)
where
  /-- The refusal of an operand. -/
  refusal (e : Expr) : TreeError :=
    .malformed "compound comparison" ("operand is a " ++ e.kindName ++ ", not a comparison")

/-- Adds a compound comparison, made of at least two comparisons. -/
def addCompound (arena : Arena) (comparisons : List NodeId) :
    Except TreeError (NodeId × Arena) := do
  if comparisons.length < 2 then
    .error (.malformed "compound comparison"
      ("needs at least 2 comparisons, got " ++ Text.count comparisons.length))
  else
    comparisons.forM arena.checkComparison
    return arena.addExpr (.compound comparisons)

/-- Adds a conditional of at least one branch. -/
def addConditional (arena : Arena) (branches : List Branch) (otherwise : Option NodeId) :
    Except TreeError (NodeId × Arena) :=
  if branches.isEmpty then
    .error (.malformed "if statement" "needs at least one branch")
  else
    .ok (arena.addStmt (.conditional branches otherwise))

/-- Adds a declaration of at least one variable. -/
def addVars (arena : Arena) (ty : NodeId) (declarators : List Declarator)
    (modifiers : Modifiers) : Except TreeError (NodeId × Arena) :=
  if declarators.isEmpty then
    .error (.malformed "variable declaration" "needs at least one declarator")
  else
    .ok (arena.addDecl (.vars ty declarators modifiers))

/-- The main class that a program names. -/
def mainClass (arena : Arena) (program : NodeId) : Except TreeError NodeId := do
  match ← arena.defn program with
  | .program _ (some id) _ => .ok id
  | _ => .error (.missingField "program entry point" "main class")

/-- The entry point that a program names. -/
def entryPoint (arena : Arena) (program : NodeId) : Except TreeError NodeId := do
  match ← arena.defn program with
  | .program _ _ (some id) => .ok id
  | _ => .error (.missingField "program entry point" "entry point")

end Arena

end Interlingua
