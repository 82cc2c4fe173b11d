import Interlingua.Arena.Same
import Interlingua.Emit.Render

/-!
# Expressions in Python

An assignment or a step whose value is not used is written as a statement; elsewhere it is an
assignment expression.  Where an expression stands is read off the first visit to it in the walk
of the whole tree.

Adjacent comparisons that share operands chain, also where the tree has them as conjunctions.
-/

namespace Interlingua.Python

mutual
/-- How a type is written in an annotation. -/
def typeName : Ty → Except EmitError String
  | .int => .ok "int"
  | .float => .ok "float"
  | .bool => .ok "bool"
  | .char | .str => .ok "str"
  | .void => .ok "None"
  | .unknown => .ok "object"
  | .pointer _ => .error (.unsupported operators.name "pointer type")
  | .reference target => typeName target
  | .array item | .list item => do return "list[" ++ (← typeName item) ++ "]"
  | .set item => do return "set[" ++ (← typeName item) ++ "]"
  | .dict key value => do
    let keyName ← typeName key
    let valueName ← typeName value
    return "dict[" ++ keyName ++ ", " ++ valueName ++ "]"
  | .tuple items => do return "tuple[" ++ commas (← typeNames items) ++ "]"
  | .user name => .ok name
  | .generic name args => do return name ++ "[" ++ commas (← typeNames args) ++ "]"

/-- How types are written in annotations. -/
def typeNames : List Ty → Except EmitError (List String)
  | [] => .ok []
  | ty :: rest => do
    let name ← typeName ty
    return name :: (← typeNames rest)
end

def stringLiteral (value : String) : StringKind → String
  | .plain => Text.quote value
  | .raw => "r\"" ++ value ++ "\""
  | .multiline => "\"\"\"" ++ value ++ "\"\"\""

/-! ## Comparisons -/

def isNull (arena : Arena) (id : NodeId) : Except Fault Bool := do
  match ← arena.expr id with
  | .null => return true
  | _ => return false

/-- The form of a binary operator; a comparison with the null value is one of identity. -/
def binaryForm? (site : Site) (op : BinaryOp) (left right : NodeId) :
    Render (Option OperatorForm) := do
  let withNull ← do
    if ← isNull site.arena left then pure true else isNull site.arena right
  return match op, withNull with
    | .eq, true => binary .refEq
    | .notEq, true => binary .refNotEq
    | _, _ => binary op

/-- One comparison of a chain; the first one brings its left operand. -/
def chainLink (site : Site) (isFirst : Bool) (item : NodeId) : Render String := do
  match ← site.arena.expr item with
  | .binary op left right =>
    match ← binaryForm? site op left right with
    | none => throw (site.view.operatorRefusal op.symbol)
    | some form =>
      let leftText ← if isFirst then site.operand form left .left else pure ""
      let rightText ← site.operand form right .right
      return leftText ++ " " ++ form.value ++ " " ++ rightText
  | other =>
    throw (.tree (.malformed "compound comparison" ("operand is a " ++ other.kindName)))

/-- Adjacent comparisons, each shared operand written once. -/
def chain (site : Site) : List NodeId → Render String
  | [] => return ""
  | first :: rest => do
    let firstText ← chainLink site true first
    let restTexts ← rest.mapM (chainLink site false)
    return firstText ++ String.join restTexts

/-- The operands of nested conjunctions, in order. -/
def conjunctsTo (arena : Arena) : Nat → NodeId → Except Fault (List NodeId)
  | 0, _ => .error .endless
  | depth + 1, id => do
    match ← arena.expr id with
    | .binary .and left right =>
      let lefts ← conjunctsTo arena depth left
      let rights ← conjunctsTo arena depth right
      return lefts ++ rights
    | _ => return [id]

/-- Whether each of some expressions is a comparison that goes on from the right operand of the
one before. -/
def isChain (arena : Arena) (previous : Option NodeId) : List NodeId → Except Fault Bool
  | [] => .ok true
  | item :: rest => do
    match ← arena.expr item with
    | .binary op left right =>
      if op.isComparison then
        let connected ← match previous with
          | some previous => arena.same previous arena left
          | none => pure true
        if connected then isChain arena (some right) rest else return false
      else return false
    | _ => return false

/-- The operands of a conjunction, if they make a chain. -/
def chainOf? (arena : Arena) (left right : NodeId) :
    Except Fault (Option (List NodeId)) := do
  let lefts ← conjunctsTo arena arena.depthBound left
  let rights ← conjunctsTo arena arena.depthBound right
  let items := lefts ++ rights
  return if ← isChain arena none items then some items else none

/-- A binary operator; the class test is a call. -/
def binaryExpr (site : Site) (op : BinaryOp) (left right : NodeId) : Render String := do
  match op with
  | .instanceOf =>
    let leftText ← site.below left
    let rightText ← site.below right
    return "isinstance" ++ parenthesized (commas [leftText, rightText])
  | .and =>
    if site.view.isOn .keepComparisons then infixed
    else
      match ← chainOf? site.arena left right with
      | some items => chain site items
      | none => infixed
  | _ => infixed
where
  /-- The operator between its operands. -/
  infixed : Render String := do
    match ← binaryForm? site op left right with
    | some form => site.between form left right
    | none => throw (site.view.operatorRefusal op.symbol)

/-! ## Assignments and steps -/

/-- Whether the value of an expression is not used, so that it can be a statement. -/
def isStatement (view : View) (id : NodeId) : Except Fault Bool := do
  match ← view.tree.parent? id with
  | none => return !view.isOn .expressionMode
  | some parent =>
    match ← view.arena.node parent with
    | .stmt (.expr _) => return true
    | .stmt (.forLoop init _ update _) => return update = some id || init = some id
    | _ => return false

/-- Whether an assignment expression may go without parentheses of its own: as an argument or a
condition, or where its parent groups it already. -/
def isBare (view : View) (id : NodeId) : Except Fault Bool := do
  match ← view.tree.parent? id with
  | none => return false
  | some parent =>
    match ← view.arena.node parent with
    | .expr e =>
      match e with
      | .binary .. | .unary .. | .ternary .. | .compound _ | .assign .. | .call .. | .method ..
      | .member .. | .new .. => return true
      | .index target _ => return target = id
      | _ => return false
    | .stmt (.conditional branches _) => return branches.any (·.cond = id)
    | .stmt (.whileLoop cond _) => return cond = id
    | .stmt (.assign _ _ value) => return value = id
    | _ => return false

/-- The value of an assignment; an assignment inside it is grouped. -/
def assignedValue (site : Site) (value : NodeId) : Render String := do
  let e ← site.arena.expr value
  let text ← site.below value
  match e with
  | .assign .. => return parenthesized text
  | _ => return text

/-- An assignment as a statement.  Where it declares its target, it carries the type if that is
known. -/
def assignment (site : Site) (op : AssignOp) (target value : NodeId) : Render String := do
  let valueText ← assignedValue site value
  match ← site.view.declaredName? op target with
  | some name =>
    let ty ← site.view.inferred value
    let annotation ← if ty.isKnown then do pure (": " ++ (← typeName ty)) else pure ""
    modify (·.setVariable name ty)
    return name ++ annotation ++ " = " ++ valueText
  | none =>
    let targetText ← site.below target
    let _ ← liftM (Infer.assignment site.arena op target value)
    return targetText ++ " " ++ op.symbol ++ " " ++ valueText

/-- Whether an expression is a plain name. -/
def isName (arena : Arena) (id : NodeId) : Except Fault Bool := do
  match ← arena.expr id with
  | .ident _ => return true
  | _ => return false

/-- An assignment expression, or a statement where the value is not used. -/
def assignExpr (site : Site) (id : NodeId) (op : AssignOp) (target value : NodeId) :
    Render String := do
  if ← isStatement site.view id then assignment site op target value
  else if !(← isName site.arena target) then
    throw (site.view.refusal "assignment expression to a non-name target")
  else
    let text ← match op.binary? with
      | none =>
        match assign op with
        | some form => site.between form target value
        | none => throw (site.view.operatorRefusal op.symbol)
      | some applied => do
        let targetText ← site.below target
        let valueText ← binaryExpr site applied target value
        pure (targetText ++ " := " ++ valueText)
    return if ← isBare site.view id then text else parenthesized text

/-- The assignment that a step makes. -/
def stepAssign : UnaryOp → AssignOp
  | .preInc | .postInc => .add
  | _ => .sub

/-- A unary operator; a step is an assignment. -/
def unaryExpr (site : Site) (id : NodeId) (op : UnaryOp) (operand : NodeId) : Render String := do
  if !op.isStep then site.unary op operand
  else
    let target ← site.below operand
    if ← isStatement site.view id then
      return target ++ " " ++ (stepAssign op).symbol ++ " 1"
    else if !(← isName site.arena operand) then
      throw (site.view.refusal ("operator `" ++ op.symbol ++ "` inside an expression"))
    else
      let symbol := match (stepAssign op).binary? with
        | some applied => applied.symbol
        | none => "+"
      return parenthesized (target ++ " := " ++ target ++ " " ++ symbol ++ " 1")

/-! ## Other expressions -/

/-- A cast is a call, or nothing where the type has no conversion. -/
def cast (site : Site) (ty value : NodeId) : Render String := do
  let convert := match ← site.arena.ty ty with
    | .int => some "int"
    | .float => some "float"
    | .str | .char => some "str"
    | .bool => some "bool"
    | _ => none
  let text ← site.below value
  return match convert with
    | some name => name ++ parenthesized text
    | none => text

def newObject (site : Site) (ty : Ty) (args : List NodeId) : Render String := do
  let name ← typeName ty
  return name ++ parenthesized (← site.args args)

def collection (site : Site) (_id : NodeId) (kind : CollectionKind) (items : List NodeId) :
    Render String := do
  let list ← site.args items
  return match kind with
    | .list | .array => "[" ++ list ++ "]"
    | .set => if items.isEmpty then "set()" else inBraces list
    | .tuple => if items.length = 1 then "(" ++ list ++ ",)" else parenthesized list

def dict (site : Site) (_id : NodeId) (entries : List (NodeId × NodeId)) : Render String := do
  let list ← entries.mapM fun (key, value) => do
    let keyText ← site.below key
    let valueText ← site.below value
    return keyText ++ ": " ++ valueText
  return inBraces (commas list)

/-- The inside of a string literal, every brace written twice. -/
def formatText (value : String) : String :=
  String.ofList ((Text.quotedBody value.toList).flatMap fun c =>
    if c = '\x7b' || c = '\x7d' then [c, c] else [c])

/-- A part of a formatted string: text, or an expression in braces. -/
def formatPart (site : Site) (part : NodeId) : Render String := do
  match ← site.arena.expr part with
  | .str value _ => return formatText value
  | _ => return inBraces (← site.below part)

def interpolated (site : Site) (parts : List NodeId) : Render String := do
  return "f\"" ++ String.join (← parts.mapM (formatPart site)) ++ "\""

/-- What an array of a type is filled with. -/
def fillOf : Ty → String
  | .int => "0"
  | .float => "0.0"
  | .bool => "False"
  | .str => "\"\""
  | _ => "None"

/-- An array is a list: its items, or nested lists of its dimensions, the innermost dimension
first. -/
def newArray (site : Site) (ty : Ty) (dims : List NodeId) (init : Option NodeId) :
    Render String := do
  match init with
  | some init =>
    match ← site.arena.expr init with
    | .collection _ items => return "[" ++ (← site.args items) ++ "]"
    | _ => site.below init
  | none =>
    match dims.reverse with
    | [] => return "[]"
    | innermost :: outer =>
      let start := "[" ++ fillOf ty ++ "] * " ++ (← site.below innermost)
      let sizes ← outer.mapM site.below
      return sizes.foldl
        (fun text size => "[" ++ text ++ " for _ in range(" ++ size ++ ")]") start

def dialect : Dialect where
  typeName := typeName
  charLiteral c := Text.quote (String.singleton c)
  stringLiteral := stringLiteral
  binary := binaryExpr
  unary := unaryExpr
  assign := assignExpr
  compound := chain
  cast := cast
  sizeOf site _ := throw (site.view.refusal "sizeof")
  newObject := newObject
  newArray := newArray
  collection := collection
  dict := dict
  interpolated := interpolated
  sequence site items := site.args items

end Interlingua.Python
