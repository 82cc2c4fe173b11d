import Interlingua.Scope.Infer

/-!
# The parts of a program

A program mixes loose statements with definitions and imports.  A rendering that puts the loose
statements into an entry point takes the parts one after another.

* `Sections` — the parts of a program, each in its own order.
* `soleExpression?` — the expression that a tree consists of.
* `leavesAtEnd`, `declaresDirectly` — what the printing of a case has to know about its body.
-/

namespace Interlingua

/-- Imports, includes and packages. -/
def Node.isPreamble : Node → Bool
  | .decl (.imports ..) | .decl (.package _) | .decl (.includes ..) => true
  | _ => false

/-- Functions and classes, declared or defined. -/
def Node.isDefinition : Node → Bool
  | .defn (.function ..) | .defn (.classBody ..) => true
  | .decl (.function ..) | .decl (.classHead ..) => true
  | _ => false

/-- The parts of a program, each in its own order. -/
structure Sections where
  preamble : List NodeId
  definitions : List NodeId
  statements : List NodeId

/-- Splits the body of a program. -/
def Sections.ofItems (arena : Arena) : List NodeId → Except Fault Sections
  | [] => .ok ⟨[], [], []⟩
  | item :: rest => do
    let node ← arena.node item
    let sections ← ofItems arena rest
    if node.isPreamble then
      return { sections with preamble := item :: sections.preamble }
    else if node.isDefinition then
      return { sections with definitions := item :: sections.definitions }
    else
      return { sections with statements := item :: sections.statements }

namespace Arena

/-- Whether a node is a function or a class. -/
def isDefinition (arena : Arena) (id : NodeId) : Except Fault Bool := do
  return (← arena.node id).isDefinition

/-- The expression that a tree of at most the given depth consists of. -/
def soleExpressionTo? (arena : Arena) : Nat → NodeId → Except Fault (Option NodeId)
  | 0, _ => .error .endless
  | depth + 1, id => do
    match ← arena.node id with
    | .expr _ => return some id
    | .stmt (.expr value) => return some value
    | .defn (.program [only] _ _) => soleExpressionTo? arena depth only
    | _ => return none

/-- The expression that a tree consists of: alone, as a statement, or as a program of one. -/
def soleExpression? (arena : Arena) (id : NodeId) : Except Fault (Option NodeId) :=
  arena.soleExpressionTo? arena.depthBound id

/-- Whether control never runs off the end of a body of at most the given depth. -/
def leavesAtEndTo (arena : Arena) : Nat → NodeId → Except Fault Bool
  | 0, _ => .error .endless
  | depth + 1, id => do
    match ← arena.node id with
    | .stmt (.block items) =>
      match items.getLast? with
      | some last => leavesAtEndTo arena depth last
      | none => return false
    | .stmt (.breakTo _) | .stmt (.continueTo _) | .stmt (.ret _) => return true
    | _ => return false

/-- Whether control never runs off the end of a body. -/
def leavesAtEnd (arena : Arena) (id : NodeId) : Except Fault Bool :=
  arena.leavesAtEndTo arena.depthBound id

/-- Whether one of some nodes declares variables. -/
def anyDeclares (arena : Arena) : List NodeId → Except Fault Bool
  | [] => .ok false
  | item :: rest => do
    match ← arena.node item with
    | .decl (.vars ..) => return true
    | _ => anyDeclares arena rest

/-- Whether a body declares variables directly, for which a case needs braces of its own. -/
def declaresDirectly (arena : Arena) (id : NodeId) : Except Fault Bool := do
  match ← arena.node id with
  | .stmt (.block items) => arena.anyDeclares items
  | .decl (.vars ..) => return true
  | _ => return false

/-- Whether a body is a block without statements. -/
def isEmptyBlock (arena : Arena) (id : NodeId) : Except Fault Bool := do
  match ← arena.stmt id with
  | .block [] => return true
  | _ => return false

end Arena

namespace Infer

/-- Records the return types of the functions that a program defines, so that calls before a
definition have a type. -/
def programFunctions (arena : Arena) (root : NodeId) : Infer Unit := do
  match ← arena.node root with
  | .defn (.program body _ _) =>
    body.forM fun item => do
      match ← arena.node item with
      | .defn (.function decl _) => declare arena decl
      | _ => pure ()
  | _ => pure ()

end Infer

end Interlingua
