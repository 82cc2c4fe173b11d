import Interlingua.Emit.Stmt.Braced

/-!
# Statements in Java

A program without a main class of its own is put into one: its functions and classes become
static members, its loose statements the body of the entry point.
-/

namespace Interlingua.Java

open Braced

/-- A lone initial value lets the compiler find out an unknown type. -/
def variableType (view : View) (ty : Ty) (inferable : Bool) : Except EmitError String :=
  if inferable && !ty.isKnown then .ok "var" else view.typeName ty

/-- Modifiers, each followed by a blank. -/
def modifierText (modifiers : Modifiers) : String :=
  String.join
    (([(modifiers.isPublic, "public "), (modifiers.isPrivate, "private "),
      (modifiers.isProtected, "protected "), (modifiers.isAbstract, "abstract "),
      (modifiers.isStatic, "static "), (modifiers.isFinal || modifiers.isConst, "final ")].filter
        (·.1)).map (·.2))

def style : Style where
  variableType := variableType
  modifiers := modifierText

/-- Where a definition stands. -/
inductive Enclosing where
  /-- Where the tree has it. -/
  | own
  /-- In the class that a program is put into; every member of it is static. -/
  | mainClass
  deriving DecidableEq, Repr

/-- The modifiers that a definition has where it stands. -/
def Enclosing.adjust (place : Enclosing) (modifiers : Modifiers) : Modifiers :=
  match place with
  | .own => modifiers
  | .mainClass => { modifiers with isStatic := true }

/-- The signature of a function. -/
def signature (view : View) (place : Enclosing) : Decl → Except EmitError String
  | .function name params ret modifiers _ =>
    signatureOf view (modifierText (place.adjust modifiers)) name params ret
  | other => .error (notDeclared "function definition" other)

/-- What a class extends, and what it implements besides. -/
def parentClause (view : View) : List NodeId → Except EmitError String
  | [] => .ok ""
  | [only] => do return " extends " ++ (← view.typeAt only)
  | first :: rest => do
    let firstName ← view.typeAt first
    let names ← rest.mapM view.typeAt
    return " extends " ++ firstName ++ " implements " ++ commas names

/-- The header of a class. -/
def classHeader (view : View) (place : Enclosing) : Decl → Except EmitError String
  | .classHead name parents modifiers => do
    let clause ← parentClause view parents
    return modifierText (place.adjust modifiers) ++ "class " ++ name ++ clause
  | other => .error (notDeclared "class definition" other)

/-- An import of a module, of all its members, or of each of some members. -/
def imports (path : List String) (items : ImportItems) (static : Bool) : Emit Unit :=
  let front := (if static then "import static " else "import ") ++ ".".intercalate path
  match items with
  | .wholeModule => Emit.line (front ++ ";")
  | .all => Emit.line (front ++ ".*;")
  | .members names => names.forM fun name => Emit.line (front ++ "." ++ name ++ ";")

/-- Prints a declaration. -/
def decl (view : View) (id : NodeId) : Emit Unit := do
  let declaration ← Emit.follow (view.arena.decl id)
  match declaration with
  | .vars .. => variablesLine style view id
  | .function .. => do
    Emit.infer (Infer.declare view.arena id)
    Emit.line ((← Emit.allowed (signature view .own declaration)) ++ ";")
  | .classHead .. => do
    Emit.line ((← Emit.allowed (classHeader view .own declaration)) ++ " \x7b\x7d")
  | .imports path items static => imports path items static
  | .package path => Emit.line ("package " ++ ".".intercalate path ++ ";")
  | .includes .. => throw (view.refusal "include")

/-- A function where it stands. -/
def function (view : View) (below : NodeId → Emit Unit) (place : Enclosing) (decl body : NodeId) :
    Emit Unit := do
  let header ← Emit.allowed (signature view place (← Emit.follow (view.arena.decl decl)))
  Braced.function view below header decl body

/-- A class where it stands; its members are printed as they are. -/
def classBody (view : View) (below : NodeId → Emit Unit) (place : Enclosing) (decl : NodeId)
    (members : List NodeId) : Emit Unit := do
  let header ← Emit.allowed (classHeader view place (← Emit.follow (view.arena.decl decl)))
  openBlock view header
  Emit.indent
  Emit.enter
  separated below members
  Emit.leave
  Emit.dedent
  closeBlock

/-- A member of the class that a program is put into. -/
def staticMember (view : View) (below : NodeId → Emit Unit) (id : NodeId) : Emit Unit := do
  match ← Emit.follow (view.arena.node id) with
  | .defn (.function decl body) => function view below .mainClass decl body
  | .defn (.classBody decl members) => classBody view below .mainClass decl members
  | _ => below id

/-- A program that is put into a class. -/
def wrapped (view : View) (below : NodeId → Emit Unit) (items : List NodeId) : Emit Unit := do
  let sections ← Emit.follow (Sections.ofItems view.arena items)
  Emit.preamble below sections.preamble
  openBlock view "public class Main"
  Emit.indent
  Emit.definitions (staticMember view below) sections.definitions
  entryPoint view below "public static void main(String[] args)" sections.statements none
  Emit.dedent
  closeBlock

/-- Prints a definition. -/
def defn (view : View) (below : NodeId → Emit Unit) : Def → Emit Unit
  | .program items mainClass _ =>
    if mainClass.isSome || !view.isOn .unitMode then Emit.spaced view.arena below none items
    else wrapped view below items
  | .function decl body => function view below .own decl body
  | .classBody decl members => classBody view below .own decl members

def idiom : Idiom where
  toStyle := style
  decl := decl
  defn := defn
  delete view _ _ := throw (view.refusal "delete")

end Interlingua.Java
