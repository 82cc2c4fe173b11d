import Interlingua.Node.Children
import Interlingua.Arena.Basic

/-!
# Loops that count

A loop of three clauses counts if its first clause sets a variable, its second compares the
variable with a bound, and its third moves the variable toward the bound.  It can be written with
a range if, besides, neither the bound nor the step changes while it runs and its body leaves the
variable alone.

* `Arena.isRepeatable` — evaluating an expression again gives the same value unless a name in it is
  assigned.
* `Arena.assignsOneOf` — something in a subtree assigns, steps or rebinds one of some names.
* `Arena.counting?` — the variable and the range of a loop that counts.

References are followed from left to right and no further than the answer needs.
-/

namespace Interlingua

/-- The comparisons that a counting loop goes on with, as the direction and the inclusion of the
bound. -/
def BinaryOp.bound? : BinaryOp → Option (Bool × Bool)
  | .lt => some (false, false)
  | .ltEq => some (false, true)
  | .gt => some (true, false)
  | .gtEq => some (true, true)
  | _ => none

namespace Arena

/-- Whether an expression is a given name. -/
def isNamed (arena : Arena) (name : String) (id : NodeId) : Except Fault Bool := do
  match ← arena.expr id with
  | .ident found => return found = name
  | _ => return false

/-- The name that an assignment of a value gives to its target. -/
def assignedName? (arena : Arena) (target value : NodeId) :
    Except Fault (Option (String × NodeId)) := do
  match ← arena.expr target with
  | .ident name => return some (name, value)
  | _ => return none

/-- The variable that the first clause of a loop sets, and its first value. -/
def startOf? (arena : Arena) (init : NodeId) : Except Fault (Option (String × NodeId)) := do
  match ← arena.node init with
  | .decl (.vars _ [only] _) => return only.init.map fun value => (only.name, value)
  | .stmt (.assign .plain target value) => arena.assignedName? target value
  | .expr (.assign .plain target value) => arena.assignedName? target value
  | .stmt (.expr inner) =>
    match ← arena.expr inner with
    | .assign .plain target value => arena.assignedName? target value
    | _ => return none
  | _ => return none

/-- The direction of the loop, the inclusion of the bound, and the bound, if the second clause
compares the variable with one. -/
def boundOf? (arena : Arena) (name : String) (cond : NodeId) :
    Except Fault (Option (Bool × Bool × NodeId)) := do
  match ← arena.expr cond with
  | .binary op left right =>
    match op.bound? with
    | none => return none
    | some (descending, inclusive) =>
      if ← arena.isNamed name left then return some (descending, inclusive, right)
      else return none
  | _ => return none

/-- The step of a loop whose third clause moves the variable in the direction of the loop: none is
a step of one. -/
def stepOf? (arena : Arena) (name : String) (descending : Bool) (update : NodeId) :
    Except Fault (Option (Option NodeId)) := do
  match ← arena.expr update with
  | .unary op operand =>
    if ← arena.isNamed name operand then
      return match op, descending with
        | .preInc, false | .postInc, false | .preDec, true | .postDec, true => some none
        | _, _ => none
    else return none
  | .assign op target value =>
    if ← arena.isNamed name target then
      return match op, descending with
        | .add, false | .sub, true => some (some value)
        | _, _ => none
    else return none
  | _ => return none

/-- `isRepeatable` for an expression of at most the given depth. -/
def isRepeatableTo (arena : Arena) : Nat → NodeId → Except Fault Bool
  | 0, _ => .error .endless
  | depth + 1, id => do
    match ← arena.expr id with
    | .int _ | .float _ | .bool _ | .char _ | .str .. | .null | .ident _ | .scoped _
    | .selfRef => return true
    | .binary _ left right => [left, right].allM (isRepeatableTo arena depth)
    | .unary op operand => if op.isStep then return false else isRepeatableTo arena depth operand
    | .paren inner => isRepeatableTo arena depth inner
    | .member target _ => isRepeatableTo arena depth target
    | _ => return false

/-- Whether evaluating an expression again gives the same value unless a name in it is
assigned. -/
def isRepeatable (arena : Arena) (id : NodeId) : Except Fault Bool :=
  arena.isRepeatableTo arena.depthBound id

/-- The names read in a subtree of at most the given depth. -/
def namesReadTo (arena : Arena) : Nat → NodeId → Except Fault (List String)
  | 0, _ => .error .endless
  | depth + 1, id => do
    let node ← arena.node id
    let own := match node with
      | .expr (.ident name) => [name]
      | _ => []
    let below ← node.children.mapM fun child => namesReadTo arena depth child.id
    return own ++ below.flatten

/-- The names read in a subtree. -/
def namesRead (arena : Arena) (id : NodeId) : Except Fault (List String) :=
  arena.namesReadTo arena.depthBound id

/-- Whether an expression is one of some names. -/
def isOneOf (arena : Arena) (names : List String) (id : NodeId) : Except Fault Bool := do
  match ← arena.expr id with
  | .ident name => return names.contains name
  | _ => return false

/-- Whether a node itself assigns, steps or rebinds one of some names. -/
def assignsHere (arena : Arena) (names : List String) : Node → Except Fault Bool
  | .expr (.assign _ target _) | .stmt (.assign _ target _) => arena.isOneOf names target
  | .expr (.unary op operand) => if op.isStep then arena.isOneOf names operand else .ok false
  | .decl (.vars _ declarators _) => .ok (declarators.any fun d => names.contains d.name)
  | .stmt (.rangeFor var _ _) | .stmt (.forEach var _ _ _) => .ok (names.contains var)
  | _ => .ok false

/-- `assignsOneOf` for a subtree of at most the given depth. -/
def assignsOneOfTo (arena : Arena) (names : List String) : Nat → NodeId → Except Fault Bool
  | 0, _ => .error .endless
  | depth + 1, id => do
    let node ← arena.node id
    if ← arena.assignsHere names node then return true
    else node.children.anyM fun child => assignsOneOfTo arena names depth child.id

/-- Whether something in a subtree assigns, steps or rebinds one of some names. -/
def assignsOneOf (arena : Arena) (names : List String) (id : NodeId) : Except Fault Bool :=
  arena.assignsOneOfTo names arena.depthBound id

/-- Whether a range stays what it is while a body runs, and the body leaves the variable alone. -/
def isFixed (arena : Arena) (name : String) (stop : NodeId) (step : Option NodeId)
    (body : NodeId) : Except Fault Bool := do
  let bounds := stop :: step.toList
  if ← bounds.allM arena.isRepeatable then
    let names ← bounds.mapM arena.namesRead
    return !(← arena.assignsOneOf (name :: names.flatten) body)
  else return false

/-- The variable and the range of a loop of three clauses that counts. -/
def counting? (arena : Arena) (init cond update : Option NodeId) (body : NodeId) :
    Except Fault (Option (String × Range)) := do
  let some init := init | return none
  let some (name, start) ← arena.startOf? init | return none
  let some cond := cond | return none
  let some (descending, inclusive, stop) ← arena.boundOf? name cond | return none
  let some update := update | return none
  let some step ← arena.stepOf? name descending update | return none
  if ← arena.isFixed name stop step body then
    return some (name, { start, stop, step, inclusive, descending })
  else return none

end Arena

end Interlingua
