import Interlingua.Language.Basic

/-!
# Grouping

Where an operand has to be put between parentheses.  Only those are added that the meaning needs;
an operand is wrapped

* if it binds weaker than its parent;
* if both bind alike and the parent does not chain;
* if both stand before their operand and their spellings would run together;
* if both bind alike and the operand stands on the side that its parent does not group from.

Atoms are never wrapped.
-/

namespace Interlingua

namespace OperatorForm

/-- Whether two operators written next to each other would read as one. -/
def fuses (outer inner : String) : Bool :=
  match outer.toList.getLast?, inner.toList.head? with
  | some last, some first => (last == '+' || last == '-' || last == '&') && first == last
  | _, _ => false

/-- Whether an operand written with one operator needs grouping under another. -/
def mustGroup (parent child : OperatorForm) (side : Side) : Bool :=
  if child.level ≠ parent.level then parent.level < child.level
  else if parent.strict then true
  else if parent.isLeading && child.isLeading && fuses parent.value child.value then true
  else
    match parent.assoc with
    | .left => side ≠ .left
    | .right => side ≠ .right

end OperatorForm

namespace Language

/-- Whether an expression needs grouping as an operand. -/
def wraps (lang : Language) (arena : Arena) (parent : OperatorForm) (child : NodeId)
    (side : Side) : Except Fault Bool := do
  match ← lang.exprForm? arena child with
  | some form => return parent.mustGroup form side
  | none => return false

/-- Whether an expression needs grouping as an operand of another; an atom asks for none. -/
def wrapsUnder (lang : Language) (arena : Arena) (parent child : NodeId) (side : Side) :
    Except Fault Bool := do
  match ← lang.exprForm? arena parent with
  | some form => lang.wraps arena form child side
  | none => return false

end Language

end Interlingua
