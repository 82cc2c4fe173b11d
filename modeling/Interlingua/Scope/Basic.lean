import Interlingua.Table
import Interlingua.Ty

/-!
# Scopes

A scope is a stack of frames.  A frame gives variables their types and functions their return
types; a name is looked up from the innermost frame outward.  There is always a root frame.

Every write goes to the innermost frame, so what is done inside a frame is undone by leaving it.
-/

namespace Interlingua

/-- Types of the variables and return types of the functions declared at one level. -/
structure Frame where
  vars : Table Ty := {}
  methods : Table Ty := {}
  deriving DecidableEq, Repr

/-- Misuse of a scope. -/
inductive ScopeError where
  | noSuchVariable (name : String)
  | leaveRoot
  deriving DecidableEq, Repr

def ScopeError.message : ScopeError → String
  | .noSuchVariable name => "no such variable: " ++ name
  | .leaveRoot => "cannot leave the root scope"

/-- The innermost frame and those around it, the nearest first. -/
structure Scope where
  inner : Frame := {}
  outer : List Frame := []
  /-- Number of frames inside the root frame, counted as they are opened and closed. -/
  depth : Nat := 0
  deriving DecidableEq, Repr

namespace Scope

/-- All frames, the innermost first. -/
def frames (scope : Scope) : List Frame := scope.inner :: scope.outer

/-- What is around the innermost frame: the frames and their number. -/
def around (scope : Scope) : List Frame × Nat := (scope.outer, scope.depth)

/-- Opens a frame. -/
def enter (scope : Scope) : Scope := ⟨{}, scope.inner :: scope.outer, scope.depth + 1⟩

/-- Closes the innermost frame.  The root frame stays, which is an error if the scope is
required to have another one. -/
def leave (scope : Scope) (mustHaveOuter : Bool) : Except ScopeError Scope :=
  match scope.outer with
  | frame :: rest => .ok ⟨frame, rest, scope.depth - 1⟩
  | [] => if mustHaveOuter then .error .leaveRoot else .ok scope

/-- **The frame that was opened last, once it is closed, leaves the scope it was opened in.** -/
theorem leave_of_around {scope inside : Scope} (h : inside.around = scope.enter.around)
    (mustHaveOuter : Bool) : inside.leave mustHaveOuter = .ok scope := by
  obtain ⟨inner, outer, depth⟩ := inside
  cases h
  rfl

/-- Gives a variable a type in the innermost frame. -/
def setVariable (scope : Scope) (name : String) (ty : Ty) : Scope :=
  { scope with inner := { scope.inner with vars := scope.inner.vars.insert name ty } }

/-- Gives a function a return type in the innermost frame. -/
def setMethod (scope : Scope) (name : String) (ret : Ty) : Scope :=
  { scope with inner := { scope.inner with methods := scope.inner.methods.insert name ret } }

/-- The type of a variable, as the innermost frame that has the name gives it. -/
def varType? (scope : Scope) (name : String) : Option Ty :=
  scope.frames.findSome? (·.vars.find? name)

/-- The return type of a function, if some frame has the name. -/
def returnType? (scope : Scope) (name : String) : Option Ty :=
  scope.frames.findSome? (·.methods.find? name)

/-- The return type of a function; unknown if it was never recorded. -/
def returnType (scope : Scope) (name : String) : Ty := (scope.returnType? name).getD .unknown

def hasVariable (scope : Scope) (name : String) : Bool := (scope.varType? name).isSome

/-- Whether the innermost frame itself has a variable. -/
def declaresHere (scope : Scope) (name : String) : Bool := scope.inner.vars.contains name

/-- Gives a variable a type in the innermost frame; unless it may be created, it must be visible
already. -/
def changeVariable (scope : Scope) (name : String) (ty : Ty) (create : Bool) :
    Except ScopeError Scope :=
  if create || scope.hasVariable name then .ok (scope.setVariable name ty)
  else .error (.noSuchVariable name)

end Scope

end Interlingua
