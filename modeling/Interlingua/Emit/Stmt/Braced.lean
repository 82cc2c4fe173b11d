import Interlingua.Emit.Printer

/-!
# Statements of the languages with braces

Blocks, conditionals, loops, switches, assignments and variable declarations as Java and C++ write
them.  What the two write differently is a `Braced.Idiom`; definitions and imports are theirs
alone.
-/

namespace Interlingua.Braced

/-- How each language writes what stands before a variable. -/
structure Style where
  /-- How the type of a variable is written.  The flag tells whether a lone initial value lets
  the compiler find out an unknown type. -/
  variableType : View → Ty → Bool → Except EmitError String
  /-- Modifiers, each followed by a blank. -/
  modifiers : Modifiers → String

/-- What each language says for itself about statements. -/
structure Idiom extends Style where
  /-- Prints a declaration. -/
  decl : View → NodeId → Emit Unit
  /-- Prints a definition, given how to print what is below it. -/
  defn : View → (NodeId → Emit Unit) → Def → Emit Unit
  /-- Prints the freeing of a value. -/
  delete : View → NodeId → Bool → Emit Unit

/-- A header and its opening brace. -/
def openBlock (view : View) (header : String) : Emit Unit := do
  if view.isOn .bracesOnSameLine then Emit.line (header ++ " \x7b")
  else
    Emit.line header
    Emit.line "\x7b"

/-- The closing brace of one arm, and the next arm of the same statement. -/
def reopenBlock (view : View) (header : String) : Emit Unit := do
  if view.isOn .bracesOnSameLine then Emit.line ("\x7d " ++ header ++ " \x7b")
  else
    Emit.line "\x7d"
    Emit.line header
    Emit.line "\x7b"

def closeBlock : Emit Unit := Emit.line "\x7d"

/-- The statements of a body one level deeper, in a frame of their own, and a last line. -/
def body (view : View) (below : NodeId → Emit Unit) (id : NodeId) (tail : Option String) :
    Emit Unit := do
  Emit.indent
  Emit.enter
  match ← Emit.follow (view.arena.stmt id) with
  | .block items => items.forM below
  | _ => below id
  tail.forM Emit.line
  Emit.leave
  Emit.dedent

/-- A header, and a body in braces. -/
def bodyUnder (view : View) (below : NodeId → Emit Unit) (header : String) (id : NodeId) :
    Emit Unit := do
  openBlock view header
  body view below id none
  closeBlock

/-! ## Assignments and declarations -/

/-- An assignment without its end.  Where it declares its target, it carries the type. -/
def assignment (style : Style) (view : View) (op : AssignOp) (target value : NodeId) :
    Render String := do
  match ← view.declaredName? op target with
  | some name =>
    let valueText ← view.expr value
    let ty ← view.inferred value
    let typeText ← style.variableType view ty true
    modify (·.setVariable name ty)
    return typeText ++ " " ++ name ++ " = " ++ valueText
  | none =>
    let text ← assignWith view.lang.operators.assignStatement view.site
      (view.lang.dialect.binary view.site) op target value
    let _ ← liftM (Infer.assignment view.arena op target value)
    return text

/-- Whether there is one declarator and it has an initial value. -/
def isLoneInit : List Declarator → Bool
  | [only] => only.init.isSome
  | _ => false

/-- A variable declaration without its end; the variables are registered. -/
def varsText (style : Style) (view : View) (id : NodeId) : Render String := do
  match ← view.arena.decl id with
  | .vars ty declarators modifiers =>
    let declared ← view.arena.ty ty
    let typeText ←
      if declared.isKnown then liftM (view.typeName declared)
      else liftM (style.variableType view declared (isLoneInit declarators))
    let parts ← declarators.mapM fun declarator => do
      match declarator.init with
      | some init => return declarator.name ++ " = " ++ (← view.expr init)
      | none => return declarator.name
    liftM (Infer.declare view.arena id)
    return style.modifiers modifiers ++ typeText ++ " " ++ commas parts
  | other => throw (view.refusal (other.kindName ++ " as a statement"))

/-- The first clause of a loop header, of at most the given depth. -/
def inlineTo (style : Style) (view : View) : Nat → NodeId → Render String
  | 0, _ => throw (.ofFault .endless)
  | depth + 1, id => do
    let node ← view.arena.node id
    match node with
    | .decl _ => varsText style view id
    | .expr _ => view.expr id
    | .stmt (.expr value) => view.expr value
    | .stmt (.assign op target value) => assignment style view op target value
    | .stmt (.multiAssign items) =>
      return commas (← items.mapM (inlineTo style view depth))
    | .stmt _ | .defn _ | .type _ => throw (view.refusal (node.kindName ++ " in a loop header"))

/-- A clause of a loop header, set off by a blank if there is one. -/
def clause (view : View) : Option NodeId → Render String
  | none => return ""
  | some id => return " " ++ (← view.expr id)

/-! ## Statements -/

/-- The arms of a conditional after the first. -/
def otherArms (view : View) (below : NodeId → Emit Unit) : List Branch → Emit Unit
  | [] => pure ()
  | branch :: rest => do
    let cond ← view.expr branch.cond
    reopenBlock view ("else if (" ++ cond ++ ")")
    body view below branch.body none
    otherArms view below rest

/-- A conditional. -/
def conditional (view : View) (below : NodeId → Emit Unit) (branches : List Branch)
    (otherwise : Option NodeId) : Emit Unit := do
  match branches with
  | [] => pure ()
  | first :: rest =>
    let cond ← view.expr first.cond
    openBlock view ("if (" ++ cond ++ ")")
    body view below first.body none
    otherArms view below rest
  match otherwise with
  | none => pure ()
  | some id =>
    reopenBlock view "else"
    body view below id none
  closeBlock

/-- The label of a case. -/
def caseLabel (view : View) (label : CaseLabel) : Render String :=
  match label.value? with
  | some value => do return "case " ++ (← view.expr value) ++ ":"
  | none => return "default:"

/-- What a case ends with: it leaves the switch if its body does not leave on its own. -/
def caseTail (view : View) (case : Case) : Except Fault (Option String) := do
  match case.label with
  | .leaves _ => return if ← view.arena.leavesAtEnd case.body then none else some "break;"
  | .falls _ | .default => return none

/-- Whether a case body stands in braces. -/
def isBracedCase (view : View) (case : Case) : Except Fault Bool := do
  if view.isOn .bracesAroundCases then return true
  else view.arena.declaresDirectly case.body

/-- One case of a switch. -/
def switchCase (view : View) (below : NodeId → Emit Unit) (case : Case) : Emit Unit := do
  let label ← caseLabel view case.label
  let braced ← Emit.follow (isBracedCase view case)
  let tail ← Emit.follow (caseTail view case)
  if braced then
    Emit.line (label ++ " \x7b")
    body view below case.body tail
    closeBlock
  else
    Emit.line label
    body view below case.body tail

/-- The comparison that a counting loop goes on with. -/
def rangeTest (range : Range) : BinaryOp :=
  match range.descending, range.inclusive with
  | false, false => .lt
  | false, true => .ltEq
  | true, false => .gt
  | true, true => .gtEq

/-- The step of a counting loop. -/
def rangeUpdate (view : View) (var : String) (range : Range) : Render String := do
  match range.step with
  | none => return var ++ (if range.descending then "--" else "++")
  | some step =>
    return var ++ (if range.descending then " -= " else " += ") ++ (← view.expr step)

/-- The header of a counting loop, and the type of its counter. -/
def rangeHeader (view : View) (var : String) (range : Range) : Render (String × Ty) := do
  let startType ← view.inferred range.start
  let stopType ← view.inferred range.stop
  let counter := (startType.wider? stopType).getD .int
  let typeText ← view.typeName counter
  let start ← view.expr range.start
  match view.lang.operators.binary (rangeTest range) with
  | none => throw (view.operatorRefusal (rangeTest range).symbol)
  | some test =>
    let stop ← view.site.operand test range.stop .right
    let update ← rangeUpdate view var range
    return ("for (" ++ typeText ++ " " ++ var ++ " = " ++ start ++ "; " ++ var ++ " " ++
      test.value ++ " " ++ stop ++ "; " ++ update ++ ")", counter)

/-- The header of a loop over a container, and the type of its variable. -/
def forEachHeader (style : Style) (view : View) (var : String) (ty iterable : NodeId) :
    Render (String × Ty) := do
  let iterableText ← view.expr iterable
  let declared ← view.arena.ty ty
  let item ←
    if declared.isKnown then pure declared
    else do pure ((← view.inferred iterable).element?.getD .unknown)
  let typeText ← style.variableType view item true
  return ("for (" ++ typeText ++ " " ++ var ++ " : " ++ iterableText ++ ")", item)

/-- A comment, line by line. -/
def comment (text : String) (multiline : Bool) : Emit Unit := do
  let written (mark : String) (line : List Char) : Emit Unit :=
    Emit.line (String.ofList (Text.trimEnd (mark.toList ++ line)))
  if multiline then
    Emit.line "/*"
    (Text.lines text.toList).forM (written " * ")
    Emit.line " */"
  else
    (Text.lines text.toList).forM (written "// ")

/-- One statement, given how to print what is below it. -/
def stmt (idiom : Idiom) (view : View) (below : NodeId → Emit Unit) (id : NodeId) :
    Stmt → Emit Unit
  | .block _ => do
    Emit.line "\x7b"
    body view below id none
    closeBlock
  | .expr value => do
    let text ← view.expr value
    Emit.line (text ++ ";")
  | .assign op target value => do
    let text ← assignment idiom.toStyle view op target value
    Emit.line (text ++ ";")
  | .multiAssign items => items.forM below
  | .conditional branches otherwise => conditional view below branches otherwise
  | .switch subject cases => do
    let subjectText ← view.expr subject
    openBlock view ("switch (" ++ subjectText ++ ")")
    Emit.indent
    cases.forM (switchCase view below)
    Emit.dedent
    closeBlock
  | .whileLoop cond loopBody => do
    let condText ← view.expr cond
    bodyUnder view below ("while (" ++ condText ++ ")") loopBody
  | .doWhile loopBody cond => do
    openBlock view "do"
    body view below loopBody none
    let condText ← view.expr cond
    Emit.line ("\x7d while (" ++ condText ++ ");")
  | .forLoop init cond update loopBody => do
    Emit.enter
    let initText ← match init with
      | some init => liftM (inlineTo idiom.toStyle view view.arena.depthBound init)
      | none => pure ""
    let condText ← clause view cond
    let updateText ← clause view update
    bodyUnder view below ("for (" ++ initText ++ ";" ++ condText ++ ";" ++ updateText ++ ")")
      loopBody
    Emit.leave
  | .rangeFor var range loopBody => do
    Emit.enter
    let (header, counter) ← rangeHeader view var range
    Emit.setVariable var counter
    bodyUnder view below header loopBody
    Emit.leave
  | .forEach var ty iterable loopBody => do
    Emit.enter
    let (header, item) ← forEachHeader idiom.toStyle view var ty iterable
    Emit.setVariable var item
    bodyUnder view below header loopBody
    Emit.leave
  | .infinite loopBody => bodyUnder view below "while (true)" loopBody
  | .breakTo _ => Emit.line "break;"
  | .continueTo _ => Emit.line "continue;"
  | .ret none => Emit.line "return;"
  | .ret (some value) => do
    let text ← view.expr value
    Emit.line ("return " ++ text ++ ";")
  | .delete target array => idiom.delete view target array
  | .comment text multiline => comment text multiline

/-- Prints a node of at most the given depth. -/
def nodeTo (idiom : Idiom) (view : View) : Nat → NodeId → Emit Unit
  | 0, _ => throw (.ofFault .endless)
  | depth + 1, id => do
    let below := nodeTo idiom view depth
    match ← Emit.follow (view.arena.node id) with
    | .expr _ =>
      let text ← view.expr id
      Emit.line (text ++ ";")
    | .stmt s => stmt idiom view below id s
    | .decl _ => idiom.decl view id
    | .defn d => idiom.defn view below d
    | .type ty => Emit.line (← Emit.allowed (view.typeName ty))

/-- Prints a node. -/
def node (idiom : Idiom) (view : View) (id : NodeId) : Emit Unit :=
  nodeTo idiom view view.arena.depthBound id

/-! ## Parts of definitions that both languages share -/

/-- A list of parameters, each with its type. -/
def paramList (view : View) (params : List Param) : Except EmitError (List String) :=
  params.mapM fun param => do
    return (← view.typeAt param.ty) ++ " " ++ param.name

/-- The signature of a function with the given modifiers in front. -/
def signatureOf (view : View) (front name : String) (params : List Param) (ret : NodeId) :
    Except EmitError String := do
  let list ← paramList view params
  let retText ← view.typeAt ret
  return front ++ retText ++ " " ++ name ++ parenthesized (commas list)

/-- Items with an empty line between any two. -/
def separated (node : NodeId → Emit Unit) : List NodeId → Emit Unit
  | [] => pure ()
  | first :: rest => do
    node first
    rest.forM fun item => do
      Emit.blankLine
      node item

/-- The refusal of a definition whose declaration is of another kind. -/
def notDeclared (definition : String) (found : Decl) : EmitError :=
  .tree (.malformed definition ("declaration is a " ++ found.kindName))

/-- A line that declares variables. -/
def variablesLine (style : Style) (view : View) (id : NodeId) : Emit Unit := do
  let text ← varsText style view id
  Emit.line (text ++ ";")

/-- A function: its return type is registered outside its frame, its parameters inside. -/
def function (view : View) (below : NodeId → Emit Unit) (header : String) (decl : NodeId)
    (functionBody : NodeId) : Emit Unit := do
  Emit.infer (Infer.declare view.arena decl)
  Emit.enter
  Emit.infer (Infer.params view.arena decl)
  bodyUnder view below header functionBody
  Emit.leave

/-- The entry point that the loose statements of a program are put into. -/
def entryPoint (view : View) (below : NodeId → Emit Unit) (header : String)
    (statements : List NodeId) (tail : Option String) : Emit Unit := do
  openBlock view header
  Emit.indent
  Emit.enter
  statements.forM below
  tail.forM Emit.line
  Emit.leave
  Emit.dedent
  closeBlock

end Interlingua.Braced
