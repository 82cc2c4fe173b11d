import Interlingua.Emit.Stmt.Cpp
import Interlingua.Emit.Stmt.Java
import Interlingua.Emit.Stmt.Python

/-!
# Trees as source text

* `View.emit` — the source text of a whole tree.
* `View.exprs` — those of single expressions; the scope goes on from one to the next.
-/

namespace Interlingua

namespace View

/-- Prints a node in the language of a view. -/
def node (view : View) : NodeId → Emit Unit :=
  match view.lang with
  | .java => Braced.node Java.idiom view
  | .python => Python.node view
  | .cpp => Braced.node Cpp.idiom view

/-- Prints a whole tree, with the functions of a program known from its start. -/
def program (view : View) : Emit Unit := do
  Emit.infer (Infer.programFunctions view.arena view.tree.root)
  view.node view.tree.root

/-- The expression that is written bare, in place of the whole tree. -/
def bare? (view : View) : Except Fault (Option NodeId) :=
  if view.isOn .expressionMode then view.arena.soleExpression? view.tree.root else .ok none

/-- What is there before anything is printed. -/
def start (view : View) : Printer := { page := Page.blank view.options }

/-- The source text of a tree. -/
def emit (view : View) : Except EmitError String :=
  match view.bare? with
  | .error fault => .error (.ofFault fault)
  | .ok (some id) =>
    match view.expr id {} with
    | .ok text _ => .ok text
    | .error error _ => .error error
  | .ok none =>
    match view.program view.start with
    | .ok _ printer => .ok printer.page.output
    | .error error _ => .error error

/-- The texts of expressions one after another.  What one of them registers holds for those after
it, also if it fails. -/
def exprs (view : View) (scope : Scope) : List NodeId → List (Except EmitError String)
  | [] => []
  | id :: rest =>
    match view.expr id scope with
    | .ok text after => .ok text :: exprs view after rest
    | .error error after => .error error :: exprs view after rest

end View

/-- The source text of a tree in a language, under the options of a caller. -/
def Tree.emit (tree : Tree) (lang : Language) (options : Options) : Except EmitError String :=
  (View.make tree lang options).emit

end Interlingua
