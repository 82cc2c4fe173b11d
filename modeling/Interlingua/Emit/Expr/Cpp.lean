import Interlingua.Emit.Expr.Braced

/-!
# Expressions in C++
-/

namespace Interlingua.Cpp

mutual
/-- How a type is written. -/
def typeName : Ty → String
  | .int => "int"
  | .float => "double"
  | .bool => "bool"
  | .char => "char"
  | .str => "std::string"
  | .void => "void"
  | .unknown => "auto"
  | .pointer target => typeName target ++ "*"
  | .reference target => typeName target ++ "&"
  | .array item | .list item => "std::vector<" ++ typeName item ++ ">"
  | .set item => "std::set<" ++ typeName item ++ ">"
  | .dict key value => "std::map<" ++ typeName key ++ ", " ++ typeName value ++ ">"
  | .tuple items => "std::tuple<" ++ commas (typeNames items) ++ ">"
  | .user name => name
  | .generic name args => name ++ "<" ++ commas (typeNames args) ++ ">"

/-- How types are written. -/
def typeNames : List Ty → List String
  | [] => []
  | ty :: rest => typeName ty :: typeNames rest
end

/-- A raw string stands between marks of its own. -/
def stringLiteral (value : String) : StringKind → String
  | .raw => "R\"(" ++ value ++ ")\""
  | .plain | .multiline => Text.quote value

/-- A power is a call, and floor division a quotient cast to a whole number. -/
def binaryExpr (site : Site) (op : BinaryOp) (left right : NodeId) : Render String := do
  match op with
  | .pow =>
    let leftText ← site.below left
    let rightText ← site.below right
    return "pow" ++ parenthesized (commas [leftText, rightText])
  | .floorDiv =>
    match binary .div with
    | some form => return "(int)" ++ parenthesized (← site.between form left right)
    | none => throw (site.view.operatorRefusal "//")
  | _ => site.binary op left right

/-- Whether a container is known well enough to be named. -/
def isKnownContainer : Ty → Bool
  | .dict key value => key.isKnown && value.isKnown
  | other => other.element?.any Ty.isKnown

/-- Items in braces, after the name of the container if its type is known. -/
def typedInit (site : Site) (id : NodeId) (list : String) : Render String := do
  let ty ← site.view.inferred id
  return (if isKnownContainer ty then typeName ty else "") ++ inBraces list

def collection (site : Site) (id : NodeId) (kind : CollectionKind) (items : List NodeId) :
    Render String := do
  let list ← site.args items
  match kind with
  | .tuple => return "std::make_tuple" ++ parenthesized list
  | .list | .array | .set => typedInit site id list

def dict (site : Site) (id : NodeId) (entries : List (NodeId × NodeId)) : Render String := do
  let list ← entries.mapM fun (key, value) => do
    let keyText ← site.below key
    let valueText ← site.below value
    return inBraces (commas [keyText, valueText])
  typedInit site id (commas list)

/-- Text in which every brace is written twice. -/
def doubleBraces (s : String) : String :=
  String.ofList (s.toList.flatMap fun c => if c = '\x7b' || c = '\x7d' then [c, c] else [c])

/-- A part of a format: its text, and the argument that it takes. -/
def formatPart (site : Site) (part : NodeId) : Render (String × Option String) := do
  match ← site.arena.expr part with
  | .str value _ => return (doubleBraces value, none)
  | _ => return ("\x7b\x7d", some (← site.below part))

/-- A format with a place for each embedded expression. -/
def interpolated (site : Site) (parts : List NodeId) : Render String := do
  let rendered ← parts.mapM (formatPart site)
  let format := String.join (rendered.map Prod.fst)
  return "std::format" ++ parenthesized (commas (Text.quote format :: rendered.filterMap Prod.snd))

def newArray (site : Site) (ty : Ty) (dims : List NodeId) (init : Option NodeId) :
    Render String := do
  let item := typeName ty
  match init with
  | none => Braced.newArrayOf site item dims
  | some init =>
    match ← site.arena.expr init with
    | .collection _ items =>
      let list ← site.args items
      return "new " ++ item ++ "[" ++ Text.count items.length ++ "]" ++ inBraces list
    | _ => Braced.newArrayOf site item dims

def dialect : Dialect where
  typeName ty := .ok (typeName ty)
  charLiteral := Braced.charLiteral
  stringLiteral := stringLiteral
  binary := binaryExpr
  unary site _ op operand := site.unary op operand
  assign site _ op target value := Braced.assignWith assign site (binaryExpr site) op target value
  compound := Braced.compound
  cast := Braced.cast fun ty => .ok (typeName ty)
  sizeOf site value := do return "sizeof" ++ parenthesized (← site.below value)
  newObject := Braced.newObject fun ty => .ok (typeName ty)
  newArray := newArray
  collection := collection
  dict := dict
  interpolated := interpolated
  sequence site items := site.args items

end Interlingua.Cpp
