import Interlingua.Emit.Expr.Braced

/-!
# Expressions in Java
-/

namespace Interlingua.Java

/-- The class that stands for a primitive type among type arguments. -/
def boxed : String → String
  | "int" => "Integer"
  | "double" => "Double"
  | "boolean" => "Boolean"
  | "char" => "Character"
  | name => name

mutual
/-- How a type is written. -/
def typeName : Ty → Except EmitError String
  | .int => .ok "int"
  | .float => .ok "double"
  | .bool => .ok "boolean"
  | .char => .ok "char"
  | .str => .ok "String"
  | .void => .ok "void"
  | .unknown => .ok "Object"
  | .pointer _ => .error (.unsupported operators.name "pointer type")
  | .reference target => typeName target
  | .array item => do return (← typeName item) ++ "[]"
  | .list item => do return "List<" ++ boxed (← typeName item) ++ ">"
  | .set item => do return "Set<" ++ boxed (← typeName item) ++ ">"
  | .dict key value => do
    let keyName ← typeName key
    let valueName ← typeName value
    return "Map<" ++ boxed keyName ++ ", " ++ boxed valueName ++ ">"
  | .tuple _ => .ok "Object[]"
  | .user name => .ok name
  | .generic name args => do return name ++ "<" ++ commas (← boxedNames args) ++ ">"

/-- How type arguments are written. -/
def boxedNames : List Ty → Except EmitError (List String)
  | [] => .ok []
  | ty :: rest => do
    let name ← typeName ty
    return boxed name :: (← boxedNames rest)
end

/-- Powers and floor division are calls. -/
def binaryExpr (site : Site) (op : BinaryOp) (left right : NodeId) : Render String :=
  match op with
  | .pow => call "Math.pow"
  | .floorDiv => call "Math.floorDiv"
  | _ => site.binary op left right
where
  /-- A call on both operands. -/
  call (name : String) : Render String := do
    let leftText ← site.below left
    let rightText ← site.below right
    return name ++ parenthesized (commas [leftText, rightText])

def collection (site : Site) (id : NodeId) (kind : CollectionKind) (items : List NodeId) :
    Render String := do
  let list ← site.args items
  match kind with
  | .array =>
    let item ← match ← site.view.inferred id with
      | .array item => if item.isKnown then liftM (typeName item) else pure "Object"
      | _ => pure "Object"
    return "new " ++ item ++ "[] " ++ inBraces list
  | .list =>
    return if items.isEmpty then "new ArrayList<>()"
      else "new ArrayList<>(List.of(" ++ list ++ "))"
  | .set =>
    return if items.isEmpty then "new HashSet<>()" else "new HashSet<>(Set.of(" ++ list ++ "))"
  | .tuple => return "List.of(" ++ list ++ ")"

def dict (site : Site) (_id : NodeId) (entries : List (NodeId × NodeId)) : Render String := do
  if entries.isEmpty then return "new HashMap<>()"
  else
    let list ← entries.mapM fun (key, value) => do
      let keyText ← site.below key
      let valueText ← site.below value
      return [keyText, valueText]
    return "new HashMap<>(Map.of(" ++ commas list.flatten ++ "))"

/-- Whether some parts start with a string literal. -/
def startsWithString (site : Site) : List NodeId → Render Bool
  | [] => return false
  | first :: _ => do
    match ← site.arena.expr first with
    | .str .. => return true
    | _ => return false

/-- A concatenation, which an empty string leads if no string literal does. -/
def interpolated (site : Site) (parts : List NodeId) : Render String := do
  let ledByString ← startsWithString site parts
  let texts ← parts.mapIdx (fun index part =>
      if ledByString && index == 0 then (part, Side.left) else (part, Side.right))
    |>.mapM fun (part, side) =>
      match binary .add with
      | some form => site.operand form part side
      | none => throw (site.view.refusal "string concatenation")
  return " + ".intercalate (if ledByString then texts else Text.quote "" :: texts)

def newArray (site : Site) (ty : Ty) (dims : List NodeId) (init : Option NodeId) :
    Render String := do
  let item ← typeName ty
  match init with
  | none => Braced.newArrayOf site item dims
  | some init =>
    let items ← match ← site.arena.expr init with
      | .collection _ items => site.args items
      | _ => site.below init
    return "new " ++ item ++ "[] " ++ inBraces items

def dialect : Dialect where
  typeName := typeName
  charLiteral := Braced.charLiteral
  stringLiteral value _ := Text.quote value
  binary := binaryExpr
  unary site _ op operand := site.unary op operand
  assign site _ op target value := Braced.assignWith assign site (binaryExpr site) op target value
  compound := Braced.compound
  cast := Braced.cast typeName
  sizeOf site _ := throw (site.view.refusal "sizeof")
  newObject := Braced.newObject typeName
  newArray := newArray
  collection := collection
  dict := dict
  interpolated := interpolated
  sequence site _ := throw (site.view.refusal "expression sequence")

end Interlingua.Java
