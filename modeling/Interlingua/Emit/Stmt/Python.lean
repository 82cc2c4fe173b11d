import Interlingua.Emit.Counting
import Interlingua.Emit.Printer

/-!
# Statements in Python

There are no braces and no declarations, and several kinds of statement have no form of their own:

* a loop of three clauses is a loop over a range where it counts, and else a `while` loop that
  ends each round with the third clause;
* a loop that is checked at its end is an endless loop that ends each round with the check;
* a switch is a `match`, where cases without a body that fall through join the next pattern.

What a loop does at the end of a round is done before a `continue` too.
-/

namespace Interlingua.Python

/-- Statements at the level at hand; nothing at all is written `pass`. -/
def orPass (below : NodeId → Emit Unit) : List NodeId → Emit Unit
  | [] => Emit.line "pass"
  | items => items.forM below

/-- The statements of a body at the level at hand. -/
def statements (view : View) (below : NodeId → Emit Unit) (body : NodeId) : Emit Unit := do
  match ← Emit.follow (view.arena.stmt body) with
  | .block items => orPass below items
  | _ => below body

/-- Whether a node leaves the innermost loop or switch. -/
def isPlainBreak (arena : Arena) (id : NodeId) : Except Fault Bool := do
  match ← arena.node id with
  | .stmt (.breakTo none) => return true
  | _ => return false

/-- The statements of a case without the last one if it leaves the switch. -/
def withoutBreak (arena : Arena) (items : List NodeId) : Except Fault (List NodeId) := do
  match items.getLast? with
  | none => return items
  | some last => return if ← isPlainBreak arena last then items.dropLast else items

/-- The statements of a case at the level at hand. -/
def caseStatements (view : View) (below : NodeId → Emit Unit) (body : NodeId) : Emit Unit := do
  match ← Emit.follow (view.arena.stmt body) with
  | .block items => orPass below (← Emit.follow (withoutBreak view.arena items))
  | .breakTo none => Emit.line "pass"
  | _ => below body

/-- A header, and what is below it one level deeper in a frame of its own. -/
def suite (header : String) (inside : Emit Unit) : Emit Unit := do
  Emit.line (header ++ ":")
  Emit.indent
  Emit.enter
  inside
  Emit.leave
  Emit.dedent

/-! ## Conditionals and switches -/

/-- The arms of a conditional, the first under another keyword than the others. -/
def arms (view : View) (below : NodeId → Emit Unit) (keyword : String) :
    List Branch → Emit Unit
  | [] => pure ()
  | branch :: rest => do
    let cond ← view.expr branch.cond
    suite (keyword ++ " " ++ cond) (statements view below branch.body)
    arms view below "elif" rest

def conditional (view : View) (below : NodeId → Emit Unit) (branches : List Branch)
    (otherwise : Option NodeId) : Emit Unit := do
  arms view below "if" branches
  otherwise.forM fun body => suite "else" (statements view below body)

/-- Patterns joined; one that takes everything makes the others needless. -/
def patternLabel (patterns : List String) : String :=
  if patterns.contains "_" then "_" else " | ".intercalate patterns

/-- The pattern of a case. -/
def casePattern (view : View) (label : CaseLabel) : Render String :=
  match label.value? with
  | some value => view.expr value
  | none => return "_"

/-- The cases of a switch, given the patterns that fall into the first of them. -/
def cases (view : View) (below : NodeId → Emit Unit) (pending : List String) :
    List Case → Emit Unit
  | [] => do
    if !pending.isEmpty then
      Emit.line ("case " ++ " | ".intercalate pending ++ ":")
      Emit.indent
      Emit.line "pass"
      Emit.dedent
  | case :: rest => do
    let pattern ← casePattern view case.label
    let patterns := pending ++ [pattern]
    match case.label with
    | .falls _ =>
      if ← Emit.follow (view.arena.isEmptyBlock case.body) then cases view below patterns rest
      else throw (view.refusal "fall-through case with a body")
    | .leaves _ | .default =>
      suite ("case " ++ patternLabel patterns) (caseStatements view below case.body)
      cases view below [] rest

def switch (view : View) (below : NodeId → Emit Unit) (subject : NodeId) (items : List Case) :
    Emit Unit := do
  let subjectText ← view.expr subject
  Emit.line ("match " ++ subjectText ++ ":")
  Emit.indent
  cases view below [] items
  Emit.dedent

/-! ## Loops -/

/-- An expression on a line of its own. -/
def exprLine (view : View) (id : NodeId) : Emit Unit := do
  let text ← view.expr id
  Emit.line text

/-- Leaves a loop unless a condition holds. -/
def leaveUnless (view : View) (cond : NodeId) : Emit Unit := do
  match unary .not with
  | none => throw (view.operatorRefusal UnaryOp.not.symbol)
  | some form =>
    let negated ← view.site.unaryOperand form .not cond
    Emit.line ("if " ++ negated ++ ":")
    Emit.indent
    Emit.line "break"
    Emit.dedent

/-- What a loop does at the end of a round. -/
def roundEnd (view : View) : RoundEnd → Emit Unit
  | .update id => exprLine view id
  | .check cond => leaveUnless view cond

/-- Starts the next round of the innermost loop. -/
def continueTo (view : View) (target : Option NodeId) : Emit Unit := do
  match (← get).loops.head? with
  | none => pure ()
  | some innermost =>
    if target.any (· ≠ innermost.id) then throw (view.refusal "continue of an outer loop")
    innermost.tail.forM (roundEnd view)
  Emit.line "continue"

/-- A body and what a loop does at the end of a round; either alone is enough. -/
def round (view : View) (below : NodeId → Emit Unit) (body : NodeId) (tail : Option RoundEnd) :
    Emit Unit := do
  match tail with
  | none => statements view below body
  | some tail =>
    if !(← Emit.follow (view.arena.isEmptyBlock body)) then statements view below body
    roundEnd view tail

/-- A loop that is checked at its end. -/
def doWhile (view : View) (below : NodeId → Emit Unit) (body cond : NodeId) : Emit Unit :=
  suite "while True" (round view below body (some (.check cond)))

/-- An expression more or less one; a whole number is computed. -/
def offset (view : View) (value : NodeId) (less : Bool) : Render String := do
  match ← view.arena.expr value with
  | .int n => return Text.numeral (if less then n - 1 else n + 1)
  | _ =>
    let op : BinaryOp := if less then .sub else .add
    match binary op with
    | none => throw (view.operatorRefusal op.symbol)
    | some form =>
      let text ← view.site.operand form value .left
      return text ++ " " ++ form.value ++ " 1"

/-- An expression with its sign changed; a whole number is computed. -/
def negated (view : View) (value : NodeId) : Render String := do
  match ← view.arena.expr value with
  | .int n => return Text.numeral (-n)
  | _ => view.site.unary .neg value

/-- The bound of a range, which is never counted. -/
def rangeStop (view : View) (range : Range) : Render String :=
  if range.inclusive then offset view range.stop range.descending else view.expr range.stop

/-- The step of a range, if it has to be written. -/
def rangeStep (view : View) (range : Range) : Render (Option String) :=
  match range.step, range.descending with
  | some step, true => return some (← negated view step)
  | some step, false => return some (← view.expr step)
  | none, true => return some "-1"
  | none, false => return none

/-- A range; the start is left out where it is zero and the step is one. -/
def rangeText (view : View) (range : Range) : Render String := do
  let stop ← rangeStop view range
  let step ← rangeStep view range
  match step, ← view.arena.expr range.start with
  | none, .int 0 => return "range" ++ parenthesized stop
  | _, _ =>
    let start ← view.expr range.start
    return "range" ++ parenthesized (commas (start :: stop :: step.toList))

/-- A loop over a range. -/
def rangeFor (view : View) (below : NodeId → Emit Unit) (var : String) (range : Range)
    (body : NodeId) : Emit Unit := do
  Emit.enter
  let call ← rangeText view range
  Emit.setVariable var .int
  suite ("for " ++ var ++ " in " ++ call) (statements view below body)
  Emit.leave

/-- A loop over a container. -/
def forEach (view : View) (below : NodeId → Emit Unit) (var : String)
    (ty iterable body : NodeId) : Emit Unit := do
  Emit.enter
  let iterableText ← view.expr iterable
  let declared ← Emit.follow (view.arena.ty ty)
  let item ←
    if declared.isKnown then pure declared
    else do pure ((← liftM (view.inferred iterable)).element?.getD .unknown)
  Emit.setVariable var item
  suite ("for " ++ var ++ " in " ++ iterableText) (statements view below body)
  Emit.leave

/-- A loop of three clauses. -/
def forLoop (view : View) (below : NodeId → Emit Unit) (id : NodeId)
    (init cond update : Option NodeId) (body : NodeId) : Emit Unit := do
  match ← Emit.follow (view.arena.counting? init cond update body) with
  | some (var, range) => Emit.inLoop ⟨id, none⟩ (rangeFor view below var range body)
  | none =>
    let tail := update.map RoundEnd.update
    Emit.enter
    init.forM below
    let condText ← match cond with
      | some cond => liftM (view.expr cond)
      | none => pure "True"
    suite ("while " ++ condText) (Emit.inLoop ⟨id, tail⟩ (round view below body tail))
    Emit.leave

/-! ## Statements -/

def comment (text : String) : Emit Unit :=
  (Text.lines text.toList).forM fun line =>
    Emit.line (String.ofList (Text.trimEnd ("# ".toList ++ line)))

/-- One statement, given how to print what is below it. -/
def stmt (view : View) (below : NodeId → Emit Unit) (id : NodeId) : Stmt → Emit Unit
  | .block items => do
    Emit.enter
    items.forM below
    Emit.leave
  | .expr value => exprLine view value
  | .assign op target value => do
    let text ← assignment view.site op target value
    Emit.line text
  | .multiAssign items => items.forM below
  | .conditional branches otherwise => conditional view below branches otherwise
  | .switch subject items => switch view below subject items
  | .whileLoop cond body => do
    let condText ← view.expr cond
    Emit.inLoop ⟨id, none⟩ (suite ("while " ++ condText) (statements view below body))
  | .doWhile body cond => Emit.inLoop ⟨id, some (.check cond)⟩ (doWhile view below body cond)
  | .forLoop init cond update body => forLoop view below id init cond update body
  | .rangeFor var range body => Emit.inLoop ⟨id, none⟩ (rangeFor view below var range body)
  | .forEach var ty iterable body =>
    Emit.inLoop ⟨id, none⟩ (forEach view below var ty iterable body)
  | .infinite body => Emit.inLoop ⟨id, none⟩ (suite "while True" (statements view below body))
  | .breakTo _ => Emit.line "break"
  | .continueTo target => continueTo view target
  | .ret none => Emit.line "return"
  | .ret (some value) => do
    let text ← view.expr value
    Emit.line ("return " ++ text)
  | .delete target _ => do
    let text ← view.expr target
    Emit.line ("del " ++ text)
  | .comment text _ => comment text

/-! ## Declarations -/

/-- A declared variable: its type if that is known, its first value if it has one. -/
def declarator (view : View) (typeNote : Option String) (d : Declarator) : Render String := do
  let typed := match typeNote with
    | some name => d.name ++ ": " ++ name
    | none => d.name
  match d.init, typeNote with
  | some init, _ => return typed ++ " = " ++ (← view.expr init)
  | none, some _ => return typed
  | none, none => return typed ++ " = None"

/-- What is annotated with the type that an identity names: nothing if it is unknown. -/
def typeNote? (view : View) (id : NodeId) : Except EmitError (Option String) :=
  match view.arena.ty id with
  | .error fault => .error (.ofFault fault)
  | .ok ty => if ty.isKnown then (view.typeName ty).map some else .ok none

def imports (path : List String) (items : ImportItems) : Emit Unit :=
  let source := ".".intercalate path
  match items with
  | .wholeModule => Emit.line ("import " ++ source)
  | .all => Emit.line ("from " ++ source ++ " import *")
  | .members names => Emit.line ("from " ++ source ++ " import " ++ commas names)

/-- Prints a declaration.  Functions and classes need none, nor do packages. -/
def decl (view : View) (id : NodeId) : Emit Unit := do
  match ← Emit.follow (view.arena.decl id) with
  | .vars ty declarators _ => do
    let typeNote ← Emit.allowed (typeNote? view ty)
    declarators.forM fun d => do
      let text ← declarator view typeNote d
      Emit.line text
    Emit.infer (Infer.declare view.arena id)
  | .function .. | .classHead .. => Emit.infer (Infer.declare view.arena id)
  | .imports path items _ => imports path items
  | .package _ => pure ()
  | .includes .. => throw (view.refusal "include")

/-! ## Definitions -/

/-- A parameter, with its type if that is known. -/
def param (view : View) (p : Param) : Except EmitError String := do
  match ← typeNote? view p.ty with
  | some name => return p.name ++ ": " ++ name
  | none => return p.name

/-- The header of a function; a method that is not static names its receiver. -/
def functionHeader (view : View) (name : String) (params : List Param) (ret : NodeId)
    (hasReceiver : Bool) : Except EmitError String := do
  let list ← params.mapM (param view)
  let full := if hasReceiver then "self" :: list else list
  let arrow := match ← typeNote? view ret with
    | some name => " -> " ++ name
    | none => ""
  return "def " ++ name ++ parenthesized (commas full) ++ arrow

def function (view : View) (below : NodeId → Emit Unit) (id body : NodeId) : Emit Unit := do
  match ← Emit.follow (view.arena.decl id) with
  | .function name params ret modifiers owner => do
    Emit.infer (Infer.declare view.arena id)
    let isMethod := owner.isSome
    let header ← Emit.allowed
      (functionHeader view name params ret (isMethod && !modifiers.isStatic))
    if isMethod && modifiers.isStatic then Emit.line "@staticmethod"
    Emit.enter
    Emit.infer (Infer.params view.arena id)
    suite header (statements view below body)
    Emit.leave
  | other => throw (view.refusal (other.kindName ++ " as function"))

/-- What a class is derived from. -/
def parentClause (view : View) (parents : List NodeId) : Except EmitError String := do
  let names ← parents.mapM view.typeAt
  return if names.isEmpty then "" else parenthesized (commas names)

def classBody (view : View) (below : NodeId → Emit Unit) (id : NodeId) (members : List NodeId) :
    Emit Unit := do
  match ← Emit.follow (view.arena.decl id) with
  | .classHead name parents _ => do
    let clause ← Emit.allowed (parentClause view parents)
    suite ("class " ++ name ++ clause) do
      if members.isEmpty then Emit.line "pass"
      Emit.spaced view.arena below none members
  | other => throw (view.refusal (other.kindName ++ " as class"))

/-- Calls the entry point if the program itself is run. -/
def runGuard (entry : String) : Emit Unit := do
  Emit.blankLine
  Emit.line "if __name__ == \"__main__\":"
  Emit.indent
  Emit.line (entry ++ "()")
  Emit.dedent

/-- The name of the function that a program names as its entry point. -/
def entryName (view : View) (entry : NodeId) : Emit String := do
  match ← Emit.follow (view.arena.defn entry) with
  | .function id _ =>
    match ← Emit.follow (view.arena.decl id) with
    | .function name _ _ _ _ => return name
    | other => throw (view.refusal (other.kindName ++ " as entry point"))
  | other => throw (view.refusal (other.kindName ++ " as entry point"))

/-- A program that gets an entry point, which holds its loose statements. -/
def wrapped (view : View) (below : NodeId → Emit Unit) (items : List NodeId) : Emit Unit := do
  let sections ← Emit.follow (Sections.ofItems view.arena items)
  Emit.preamble below sections.preamble
  Emit.definitions below sections.definitions
  suite "def main()" (orPass below sections.statements)
  runGuard "main"

def program (view : View) (below : NodeId → Emit Unit) (items : List NodeId)
    (entryPoint : Option NodeId) : Emit Unit :=
  if view.isOn .unitMode then
    match entryPoint with
    | some entry => do
      Emit.spaced view.arena below none items
      let name ← entryName view entry
      runGuard name
    | none => wrapped view below items
  else Emit.spaced view.arena below none items

/-- Prints a node of at most the given depth. -/
def nodeTo (view : View) : Nat → NodeId → Emit Unit
  | 0, _ => throw (.ofFault .endless)
  | depth + 1, id => do
    let below := nodeTo view depth
    match ← Emit.follow (view.arena.node id) with
    | .expr _ => exprLine view id
    | .stmt s => stmt view below id s
    | .decl _ => decl view id
    | .defn (.program items _ entryPoint) => program view below items entryPoint
    | .defn (.function declaration body) => function view below declaration body
    | .defn (.classBody declaration members) => classBody view below declaration members
    | .type ty => Emit.line (← Emit.allowed (view.typeName ty))

/-- Prints a node. -/
def node (view : View) (id : NodeId) : Emit Unit := nodeTo view view.arena.depthBound id

end Interlingua.Python
