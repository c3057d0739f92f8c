import PartScript.Fault
import PartScript.Node.Tree

/-!
What may stand where: statements in scripts and function bodies, expressions in the places of
expressions, entries in objects. An edit looks at every place of a tree in a fixed order and stops at
the first node that is out of place.
-/

namespace PartScript.Edit

mutual

/-- Everything below an expression is in place, and it is an expression. -/
def placedExpression : Node → Except Fault Unit
  | .literal _ _ _ => .ok ()
  | .identifier _ => .ok ()
  | .binary _ _ l r => do placedExpression l; placedExpression r
  | .unary _ _ e => placedExpression e
  | .call _ _ args => placedExpressions args
  | .array _ es => placedExpressions es
  | .object _ ps => placedProperties ps
  | .member _ e _ => placedExpression e
  | .index _ e key => do placedExpression key; placedExpression e
  | .pipe _ stages => placedExpressions stages
  | .hole _ => .ok ()
  | .function _ _ body => placedStatements body
  | .program _ _ => .error (.notAnExpression "Program")
  | .declaration _ _ _ _ => .error (.notAnExpression "VariableDeclaration")
  | .statement _ _ => .error (.notAnExpression "ExpressionStatement")
  | .giveBack _ _ => .error (.notAnExpression "ReturnStatement")
  | .property _ _ _ => .error (.notAnExpression "ObjectProperty")

/-- The expressions of a row are in place. -/
def placedExpressions : List Node → Except Fault Unit
  | [] => .ok ()
  | e :: rest => do placedExpression e; placedExpressions rest

/-- The entries of an object are in place. -/
def placedProperties : List Node → Except Fault Unit
  | [] => .ok ()
  | .property _ _ e :: rest => do placedExpression e; placedProperties rest
  | _ :: _ => .error .malformed

/-- Everything below a statement is in place, and it is a statement. -/
def placedStatement : Node → Except Fault Unit
  | .declaration _ _ _ init => placedExpression init
  | .statement _ e => placedExpression e
  | .giveBack _ e => placedExpression e
  | n => .error (.notAStatement n.kindName)

/-- The statements of a body are in place. -/
def placedStatements : List Node → Except Fault Unit
  | [] => .ok ()
  | s :: rest => do placedStatement s; placedStatements rest

end

/-- Everything in a script is in place. -/
def placed : Node → Except Fault Unit
  | .program _ body => placedStatements body
  | _ => .error .malformed

/-- Edit a script in which everything is in place; the result gets its paths anew. -/
def apply (edit : Node → Node) (script : Node) : Except Fault Node := do
  placed script
  return (edit script).withPaths

/-- The script itself, with its paths made anew. -/
def identity (script : Node) : Except Fault Node := apply id script

end PartScript.Edit
