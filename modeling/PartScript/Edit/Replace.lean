import PartScript.Edit.Literal
import PartScript.Edit.Placement

/-!
Putting something else in the place of the expression that stands exactly at a range of the text, the
outermost one if there are several. What is put there is another expression or plain data.
-/

namespace PartScript.Edit

/-- What is put in the place of an expression. -/
inductive Substitute where
  | node (n : Node)
  | data (item : Plain)

/-- What comes into the place of an expression with a span. -/
def Substitute.expression (span : Span) : Substitute → Except Fault Node
  | .node n =>
    if n.isExpression then do
      placedExpression n
      return n
    else .error (.noLiteral n.kindName)
  | .data item => valueExpression span item

/-- A range and what is put there. -/
structure Replacement where
  range : Range
  substitute : Substitute

namespace Replacement

/-- The effect of going through a tree: whether the replacement has been made is kept, and a node
out of place stops it. -/
abbrev Pass := StateT Bool (Except Fault)

mutual

/-- Replace in an expression. -/
def expression (r : Replacement) (n : Node) : Pass Node := do
  if !(← get) && n.range == r.range then
    set true
    r.substitute.expression n.span
  else
    match n with
    | .literal m value raw => return .literal m value raw
    | .identifier i => return .identifier i
    | .binary m op l e => return .binary m op (← expression r l) (← expression r e)
    | .unary m op e => return .unary m op (← expression r e)
    | .call m callee args => return .call m callee (← expressions r args)
    | .array m es => return .array m (← expressions r es)
    | .object m ps => return .object m (← properties r ps)
    | .member m e label => return .member m (← expression r e) label
    | .index m e key =>
      let key ← expression r key
      return .index m (← expression r e) key
    | .pipe m stages => return .pipe m (← expressions r stages)
    | .hole m => return .hole m
    | .function m params body => return .function m params (← statements r body)
    | .program _ _ => throw (.notAnExpression "Program")
    | .declaration _ _ _ _ => throw (.notAnExpression "VariableDeclaration")
    | .statement _ _ => throw (.notAnExpression "ExpressionStatement")
    | .giveBack _ _ => throw (.notAnExpression "ReturnStatement")
    | .property _ _ _ => throw (.notAnExpression "ObjectProperty")

/-- Replace in the expressions of a row. -/
def expressions (r : Replacement) : List Node → Pass (List Node)
  | [] => return []
  | e :: rest => return (← expression r e) :: (← expressions r rest)

/-- Replace in the entries of an object. -/
def properties (r : Replacement) : List Node → Pass (List Node)
  | [] => return []
  | .property m key e :: rest =>
    return .property m key (← expression r e) :: (← properties r rest)
  | _ :: _ => throw .malformed

/-- Replace in a statement. -/
def statement (r : Replacement) : Node → Pass Node
  | .declaration m word name init => return .declaration m word name (← expression r init)
  | .statement m e => return .statement m (← expression r e)
  | .giveBack m e => return .giveBack m (← expression r e)
  | n => throw (.notAStatement n.kindName)

/-- Replace in the statements of a body. -/
def statements (r : Replacement) : List Node → Pass (List Node)
  | [] => return []
  | s :: rest => return (← statement r s) :: (← statements r rest)

end

end Replacement

/-- Replace the expression at a range of a script. -/
def replace (r : Replacement) : Node → Except Fault Node
  | .program m body => do
    let (body, made) ← (r.statements body).run false
    if made then return (Node.program m body).withPaths else throw (.noExpressionAt r.range)
  | _ => .error .malformed

end PartScript.Edit
