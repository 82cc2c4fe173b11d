import Interlingua.Arena.Basic

/-!
# Editing blocks

Nodes do not change once they are allocated, except that a block can get another statement in
place of one of its own, or one more.

* `Arena.reaches` — whether a node is another or lies above it, found by a search that keeps the
  identities still to be looked at on a stack.
* `Arena.insert`, `Arena.substitute` — the two edits.  The block is checked first, then that the
  new statement does not contain the block (the tree would contain itself), then the position.
-/

namespace Interlingua

namespace Arena

/-- The largest number of children of a node. -/
def width (arena : Arena) : Nat :=
  arena.nodes.foldl (fun most node => max most node.children.length) 0

/-- A bound on the number of nodes, counted once for each path that leads to them, below a node
of a tree that does not contain itself. -/
def visitBound (arena : Arena) : Nat := Nat.pow (arena.width + 1) arena.depthBound

/-- Searches below the identities on a stack, the top one first, for a target.  The children of a
node are put on the stack in order, so the last one is looked at first. -/
def search (arena : Arena) (target : NodeId) : Nat → List NodeId → Except Fault Bool
  | _, [] => .ok false
  | 0, _ :: _ => .error .endless
  | fuel + 1, id :: stack =>
    if id = target then .ok true
    else
      match arena.children id with
      | .error fault => .error fault
      | .ok children => search arena target fuel ((children.map Child.id).reverse ++ stack)

/-- Whether the target is the given node or lies below it. -/
def reaches (arena : Arena) (origin target : NodeId) : Except Fault Bool :=
  arena.search target arena.visitBound [origin]

/-- The body of the block an identity names. -/
def blockBody? (arena : Arena) (id : NodeId) : Option (List NodeId) :=
  match arena.node? id with
  | some (.stmt (.block body)) => some body
  | _ => none

/-- The body of a block that a node may be put into: the node must not contain the block. -/
def openBlock (arena : Arena) (block node : NodeId) : Except TreeError (List NodeId) := do
  match arena.blockBody? block with
  | none => .error (.notABlock block)
  | some body =>
    if arena.contains node then
      if ← arena.reaches node block then
        .error (.malformed "block statement"
          ("inserting " ++ node.display ++ " would make the block contain itself"))
      else
        .ok body
    else
      .ok body

/-- The arena with another body in a block. -/
def setBody (arena : Arena) (block : NodeId) (body : List NodeId) : Arena :=
  ⟨arena.nodes.setIfInBounds block.index (.stmt (.block body))⟩

/-- Puts a node before the given position of a block; the length of the block appends. -/
def insert (arena : Arena) (block : NodeId) (index : Nat) (node : NodeId) :
    Except TreeError Arena := do
  let body ← arena.openBlock block node
  if index ≤ body.length then
    .ok (arena.setBody block (body.insertIdx index node))
  else
    .error (.indexOutOfRange index body.length)

/-- Puts a node in the place of the one at the given position of a block, which is returned. -/
def substitute (arena : Arena) (block : NodeId) (index : Nat) (node : NodeId) :
    Except TreeError (NodeId × Arena) := do
  let body ← arena.openBlock block node
  match body[index]? with
  | some old => .ok (old, arena.setBody block (body.set index node))
  | none => .error (.indexOutOfRange index body.length)

end Arena

end Interlingua
