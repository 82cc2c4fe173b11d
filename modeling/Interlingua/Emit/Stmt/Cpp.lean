import Interlingua.Emit.Stmt.Braced

/-!
# Statements in C++

A program without an entry point of its own gets one, which holds its loose statements and
returns zero; includes and definitions stand before it.
-/

namespace Interlingua.Cpp

open Braced

/-- An unknown type needs an initial value to be found out from. -/
def variableType (view : View) (ty : Ty) (inferable : Bool) : Except EmitError String :=
  if !inferable && !ty.isKnown then
    .error (view.refusal "untyped declaration without initializer")
  else view.typeName ty

/-- Modifiers, each followed by a blank. -/
def modifierText (modifiers : Modifiers) : String :=
  (if modifiers.isStatic then "static " else "") ++
    (if modifiers.isConst || modifiers.isFinal then "const " else "")

def style : Style where
  variableType := variableType
  modifiers := modifierText

/-- The signature of a function. -/
def signature (view : View) : Decl → Except EmitError String
  | .function name params ret modifiers _ =>
    signatureOf view (modifierText modifiers) name params ret
  | other => .error (notDeclared "function definition" other)

/-- The header of a class; every parent is public. -/
def classHeader (view : View) : Decl → Except EmitError String
  | .classHead name parents _ => do
    let names ← parents.mapM view.typeAt
    let clause := if names.isEmpty then "" else " : " ++ commas (names.map ("public " ++ ·))
    return "class " ++ name ++ clause
  | other => .error (notDeclared "class definition" other)

/-- An import of a namespace, or of each of some of its members. -/
def imports (path : List String) (items : ImportItems) : Emit Unit :=
  let scope := "::".intercalate path
  match items with
  | .wholeModule | .all => Emit.line ("using namespace " ++ scope ++ ";")
  | .members names => names.forM fun name => Emit.line ("using " ++ scope ++ "::" ++ name ++ ";")

/-- Prints a declaration. -/
def decl (view : View) (id : NodeId) : Emit Unit := do
  let declaration ← Emit.follow (view.arena.decl id)
  match declaration with
  | .vars .. => variablesLine style view id
  | .function .. => do
    Emit.infer (Infer.declare view.arena id)
    Emit.line ((← Emit.allowed (signature view declaration)) ++ ";")
  | .classHead .. => do
    Emit.line ((← Emit.allowed (classHeader view declaration)) ++ ";")
  | .imports path items _ => imports path items
  | .package _ => throw (view.refusal "package declaration")
  | .includes path true => Emit.line ("#include <" ++ path ++ ">")
  | .includes path false => Emit.line ("#include " ++ Text.quote path)

/-- A class, all of whose members are public. -/
def classBody (view : View) (below : NodeId → Emit Unit) (decl : NodeId)
    (members : List NodeId) : Emit Unit := do
  let header ← Emit.allowed (classHeader view (← Emit.follow (view.arena.decl decl)))
  openBlock view header
  Emit.line "public:"
  Emit.indent
  Emit.enter
  separated below members
  Emit.leave
  Emit.dedent
  Emit.line "\x7d;"

/-- A program that gets an entry point. -/
def wrapped (view : View) (below : NodeId → Emit Unit) (items : List NodeId) : Emit Unit := do
  let sections ← Emit.follow (Sections.ofItems view.arena items)
  Emit.preamble below sections.preamble
  Emit.definitions below sections.definitions
  entryPoint view below "int main()" sections.statements (some "return 0;")

/-- Prints a definition. -/
def defn (view : View) (below : NodeId → Emit Unit) : Def → Emit Unit
  | .program items _ entryPoint =>
    if entryPoint.isSome || !view.isOn .unitMode then Emit.spaced view.arena below none items
    else wrapped view below items
  | .function decl body => do
    let header ← Emit.allowed (signature view (← Emit.follow (view.arena.decl decl)))
    Braced.function view below header decl body
  | .classBody decl members => classBody view below decl members

/-- Frees a value, or an array of them. -/
def delete (view : View) (target : NodeId) (array : Bool) : Emit Unit := do
  let text ← view.expr target
  Emit.line ((if array then "delete[] " else "delete ") ++ text ++ ";")

def idiom : Idiom where
  toStyle := style
  decl := decl
  defn := defn
  delete := delete

end Interlingua.Cpp
