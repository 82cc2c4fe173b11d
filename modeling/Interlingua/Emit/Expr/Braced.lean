import Interlingua.Emit.Render

/-!
# Expressions of the languages with braces

What Java and C++ say alike about expressions.
-/

namespace Interlingua.Braced

/-- A character between apostrophes. -/
def charLiteral (c : Char) : String :=
  let escaped := match c with
    | '\'' => "\\'"
    | '\\' => "\\\\"
    | '\n' => "\\n"
    | '\r' => "\\r"
    | '\t' => "\\t"
    | '\x00' => "\\0"
    | c => String.singleton c
  "'" ++ escaped ++ "'"

/-- An augmented assignment written out: the target becomes the target under the operator. -/
def writtenOut (site : Site)
    (binary : BinaryOp → NodeId → NodeId → Render String) (plain : Option OperatorForm)
    (op : AssignOp) (target value : NodeId) : Render String :=
  match plain, op.binary? with
  | some plain, some applied => do
    let targetText ← site.below target
    let valueText ← binary applied target value
    return targetText ++ " " ++ plain.value ++ " " ++ valueText
  | _, _ => throw (site.view.operatorRefusal op.symbol)

/-- An assignment under the forms that a language has for them. -/
def assignWith (forms : AssignOp → Option OperatorForm) (site : Site)
    (binary : BinaryOp → NodeId → NodeId → Render String) (op : AssignOp)
    (target value : NodeId) : Render String :=
  match forms op with
  | some form => site.between form target value
  | none => writtenOut site binary (forms .plain) op target value

/-- Comparisons joined by the logical operator. -/
def compound (site : Site) (items : List NodeId) : Render String :=
  match site.lang.operators.binary .and with
  | none => throw (site.view.refusal "compound comparison")
  | some form => do
    let parts ← match items with
      | [] => pure []
      | first :: rest => do
        let firstText ← site.operand form first .left
        let restTexts ← rest.mapM fun item => site.operand form item .right
        pure (firstText :: restTexts)
    return (" " ++ form.value ++ " ").intercalate parts

/-- A cast before its operand. -/
def cast (typeName : Ty → Except EmitError String) (site : Site) (ty value : NodeId) :
    Render String :=
  match site.lang.operators.cast with
  | none => throw (site.view.refusal "cast")
  | some form => do
    let name ← typeName (← site.arena.ty ty)
    let text ← site.operand form value .right
    return parenthesized name ++ " " ++ text

/-- The construction of an object. -/
def newObject (typeName : Ty → Except EmitError String) (site : Site) (ty : Ty)
    (args : List NodeId) : Render String := do
  let name ← typeName ty
  return "new " ++ name ++ parenthesized (← site.args args)

/-- The construction of an array by its dimensions. -/
def newArrayOf (site : Site) (item : String) (dims : List NodeId) : Render String := do
  let sizes ← dims.mapM site.below
  return "new " ++ item ++ String.join (sizes.map fun size => "[" ++ size ++ "]")

end Interlingua.Braced
