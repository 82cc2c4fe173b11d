import Interlingua.Arena.Basic

/-!
# Structural equality

Two subtrees are structurally equal when their nodes agree on everything except stored
identities, recursively through their owned children.  A soft reference counts by its presence
only, so equality does not depend on where in its arena a subtree was allocated.

* `Arena.same` — the comparison; it stops at the first difference, so a reference behind it is
  never followed.
* `Arena.code` — the listing of a subtree as a sequence of skeletons and field names, which a
  hash of the structure reads.
-/

namespace Interlingua

namespace Arena

/-- Compares children pairwise, in order, up to the first difference. -/
def sameAll (same : NodeId → NodeId → Except Fault Bool) :
    List Child → List Child → Except Fault Bool
  | [], [] => .ok true
  | a :: as, b :: bs =>
    if a.field = b.field then
      match same a.id b.id with
      | .ok true => sameAll same as bs
      | other => other
    else .ok false
  | _, _ => .ok false

/-- Compares subtrees of at most the given depth. -/
def sameTo (left right : Arena) : Nat → NodeId → NodeId → Except Fault Bool
  | 0, _, _ => .error .endless
  | depth + 1, a, b => do
    let x ← left.node a
    let y ← right.node b
    if x.skeleton = y.skeleton then
      if x.children.length = y.children.length then
        sameAll (sameTo left right depth) x.children y.children
      else .ok false
    else .ok false

/-- Whether the subtree of one arena is structurally equal to that of another. -/
def same (left : Arena) (a : NodeId) (right : Arena) (b : NodeId) : Except Fault Bool :=
  sameTo left right left.depthBound a b

/-- One entry of the listing of a subtree. -/
inductive CodeItem where
  | node (skeleton : Node)
  | field (name : String)
  deriving DecidableEq, Repr

/-- The listing of subtrees of at most the given depth. -/
def codeTo (arena : Arena) : Nat → NodeId → Except Fault (List CodeItem)
  | 0, _ => .error .endless
  | depth + 1, id => do
    let node ← arena.node id
    let below ← node.children.mapM fun child => do
      let code ← codeTo arena depth child.id
      return .field child.field :: code
    return .node node.skeleton :: below.flatten

/-- The listing of a subtree: its skeleton, then each child's field and listing. -/
def code (arena : Arena) (id : NodeId) : Except Fault (List CodeItem) :=
  arena.codeTo arena.depthBound id

end Arena

end Interlingua
