import Interlingua.Emit.Expr.Cpp
import Interlingua.Emit.Expr.Java
import Interlingua.Emit.Expr.Python

/-!
# Expressions as text

`View.expr` renders an expression in the language of a view.
-/

namespace Interlingua

def Language.dialect : Language → Dialect
  | .java => Java.dialect
  | .python => Python.dialect
  | .cpp => Cpp.dialect

namespace View

/-- The text of an expression of at most the given depth. -/
def exprTo (view : View) : Nat → NodeId → Render String
  | 0, _ => throw (.ofFault .endless)
  | depth + 1, id => do
    view.lang.dialect.expr ⟨view, view.exprTo depth⟩ id (← view.arena.expr id)

theorem exprTo_succ {view : View} {depth : Nat} {id : NodeId} {e : Expr}
    (h : view.arena.expr id = .ok e) :
    view.exprTo (depth + 1) id = view.lang.dialect.expr ⟨view, view.exprTo depth⟩ id e := by
  rw [exprTo, h]
  rfl

theorem exprTo_of_error {view : View} {depth : Nat} {id : NodeId} {fault : Fault}
    (h : view.arena.expr id = .error fault) :
    view.exprTo (depth + 1) id = throw (.ofFault fault) := by
  rw [exprTo, h]
  rfl

/-- The text of an expression. -/
def expr (view : View) (id : NodeId) : Render String := view.exprTo view.arena.depthBound id

/-- Where the expressions of a statement are rendered. -/
def site (view : View) : Site := ⟨view, view.expr⟩

/-- How a type is written. -/
def typeName (view : View) (ty : Ty) : Except EmitError String := view.lang.dialect.typeName ty

/-- The type that an identity names. -/
def typeAt (view : View) (id : NodeId) : Except EmitError String :=
  match view.arena.ty id with
  | .error fault => .error (.ofFault fault)
  | .ok ty => view.typeName ty

end View

end Interlingua
