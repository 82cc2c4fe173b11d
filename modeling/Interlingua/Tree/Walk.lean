import Interlingua.Arena.Edit

/-!
# Walking a tree

A tree is an arena with a root.  It is walked in pre-order: a node, then what lies below each of
its children in turn.

* `Cursor` — a walk in progress, the visits still to be made on a stack; `Cursor.next` makes one.
* `Tree.trail` — the whole walk.  A reference that names no node ends it with a fault, and the
  visits before it count.
* `Tree.find?`, `Tree.parent?`, `Tree.subtree?` — look up a node by the first visit to it; they
  read the trail no further than that visit.
-/

namespace Interlingua

/-- One step of a walk: a node and where it was met. -/
structure Visit where
  id : NodeId
  /-- The node it was met below; none for the root. -/
  parent : Option NodeId
  /-- Its position among the children of that node. -/
  index : Option Nat
  /-- The field of that node which holds it. -/
  field : String
  deriving DecidableEq, Repr

/-- The visit a walk starts with. -/
def Visit.root (id : NodeId) : Visit := ⟨id, none, none, "root"⟩

/-- The visit to a child. -/
def Visit.below (parent : NodeId) (child : Child) (index : Nat) : Visit :=
  ⟨child.id, some parent, some index, child.field⟩

/-- A walk in progress: the visits still to be made, the next one first. -/
structure Cursor where
  pending : List Visit
  deriving DecidableEq, Repr

namespace Cursor

/-- A walk about to start. -/
def start (root : NodeId) : Cursor := ⟨[.root root]⟩

/-- Makes one visit and lets the children of the node visited come next. -/
def next (arena : Arena) (cursor : Cursor) : Except Fault (Option (Visit × Cursor)) :=
  match cursor.pending with
  | [] => .ok none
  | visit :: rest =>
    match arena.children visit.id with
    | .error fault => .error fault
    | .ok children => .ok (some (visit, ⟨children.mapIdx (fun i c => .below visit.id c i) ++ rest⟩))

end Cursor

/-- The visits of a walk, and the fault that ended it if it could not be finished. -/
structure Trail where
  visits : List Visit
  fault : Option Fault
  deriving DecidableEq, Repr

namespace Trail

/-- All visits of a finished walk. -/
def toExcept (trail : Trail) : Except Fault (List Visit) :=
  match trail.fault with
  | none => .ok trail.visits
  | some fault => .error fault

/-- The first visit to a node; a fault counts if no visit before it is to the node. -/
def find? (trail : Trail) (id : NodeId) : Except Fault (Option Visit) :=
  match trail.visits.find? (·.id == id), trail.fault with
  | some visit, _ => .ok (some visit)
  | none, none => .ok none
  | none, some fault => .error fault

end Trail

/-- Follows a walk for at most the given number of visits. -/
def Cursor.run (arena : Arena) : Nat → Cursor → Trail
  | 0, cursor => ⟨[], if cursor.pending.isEmpty then none else some .endless⟩
  | fuel + 1, cursor =>
    match cursor.next arena with
    | .error fault => ⟨[], some fault⟩
    | .ok none => ⟨[], none⟩
    | .ok (some (visit, rest)) =>
      let trail := run arena fuel rest
      ⟨visit :: trail.visits, trail.fault⟩

/-- A program tree: an arena and the node to start from. -/
structure Tree where
  arena : Arena
  root : NodeId
  deriving DecidableEq, Repr

namespace Tree

/-- The tree with the given root, which must be a node of the arena. -/
def ofRoot (arena : Arena) (root : NodeId) : Except Fault Tree :=
  if arena.contains root then .ok ⟨arena, root⟩ else .error (.dangling root.index)

/-- The walk of a tree. -/
def trail (tree : Tree) : Trail :=
  (Cursor.start tree.root).run tree.arena tree.arena.visitBound

/-- Every visit of the walk of a tree. -/
def walk (tree : Tree) : Except Fault (List Visit) := tree.trail.toExcept

/-- Where a node sits in a tree: the first visit to it. -/
def find? (tree : Tree) (id : NodeId) : Except Fault (Option Visit) := tree.trail.find? id

/-- The node that the first visit to a node was met below. -/
def parent? (tree : Tree) (id : NodeId) : Except Fault (Option NodeId) := do
  return (← tree.find? id).bind Visit.parent

/-- The tree below a node of a tree; the arena is kept whole. -/
def subtree? (tree : Tree) (id : NodeId) : Except Fault (Option Tree) := do
  return (← tree.find? id).map fun _ => ⟨tree.arena, id⟩

end Tree

end Interlingua
