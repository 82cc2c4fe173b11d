import Interlingua.Decimal.Notation
import Interlingua.Text.Escaped
import Interlingua.Tree.Walk

/-!
# Outlines

The outline of a tree has one line for each visit of its walk: the field, the kind of the node,
a detail where there is one, and the identity, indented by two blanks for each level.

The level of a visit is one more than the level last noted for its parent; the levels are noted
by identity as the walk goes on.
-/

namespace Interlingua

/-- What the outline adds to the kind of a node. -/
def Node.detail? : Node → Option String
  | .expr e =>
    match e with
    | .int value => some (Text.numeral value)
    | .float bits => some (Decimal.Layout.plain.writeBits bits)
    | .bool value => some (if value then "true" else "false")
    | .char value => some (Text.escapedChar value)
    | .str value _ => some (Text.escapedString value)
    | .ident name => some name
    | .binary op _ _ => some op.symbol
    | .unary op _ => some op.symbol
    | .assign op _ _ => some op.symbol
    | _ => none
  | .type ty => some ty.display
  | .stmt _ | .decl _ | .defn _ => none

namespace Outline

/-- The level of each identity, as last noted. -/
abbrev Levels := List (NodeId × Nat)

/-- The level of a visit, given the levels noted before it. -/
def level (levels : Levels) (visit : Visit) : Nat :=
  match visit.parent with
  | none => 0
  | some parent => (levels.lookup parent).getD 0 + 1

/-- One line. -/
def line (level : Nat) (visit : Visit) (node : Node) : String :=
  String.ofList (List.replicate (2 * level) ' ') ++ visit.field ++ ": " ++ node.kindName ++
    (match node.detail? with
      | some detail => " " ++ detail
      | none => "") ++
    " " ++ visit.id.display ++ "\n"

/-- The lines of some visits, after some levels have been noted. -/
def lines (arena : Arena) : Levels → List Visit → Except Fault (List String)
  | _, [] => .ok []
  | levels, visit :: rest => do
    let here := level levels visit
    let node ← arena.node visit.id
    let below ← lines arena ((visit.id, here) :: levels) rest
    return line here visit node :: below

end Outline

/-- The outline of a tree. -/
def Tree.outline (tree : Tree) : Except Fault String := do
  let visits ← tree.walk
  return String.join (← Outline.lines tree.arena [] visits)

end Interlingua
