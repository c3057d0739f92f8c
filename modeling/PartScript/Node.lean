import PartScript.Plain
import PartScript.Span

/-!
Syntax trees. A tree is made of nodes of one type, so that every position of a tree can be addressed
by a path of child indices and hand-made trees can hold any node anywhere; what may stand where is
the business of those who read a tree. Every node is marked with the span of the text it came from
and with its path from the root.
-/

namespace PartScript

/-- Where a node comes from and where it stands in its tree. -/
structure Mark where
  span : Span
  path : List Nat
  deriving DecidableEq, Repr, Inhabited

/-- A name with its place: a reference, a declared name, a parameter, a callee or a label. -/
structure Ident where
  mark : Mark
  name : String
  deriving DecidableEq, Repr, Inhabited

/-- Operators between two operands. -/
inductive BinaryOp where
  | add | sub | mul | div | rem
  | other (text : String)
  deriving DecidableEq, Repr

/-- Operators in front of one operand. -/
inductive UnaryOp where
  | minus | not
  | other (text : String)
  deriving DecidableEq, Repr

/-- The words that start a declaration. -/
inductive Declarator where
  | constWord | letWord | varWord | fnWord
  | other (text : String)
  deriving DecidableEq, Repr

/-- A node of a syntax tree. -/
inductive Node where
  /-- A whole script. -/
  | program (mark : Mark) (body : List Node)
  /-- A name bound to a value. -/
  | declaration (mark : Mark) (declarator : Declarator) (name : Ident) (init : Node)
  /-- An expression that stands as a statement. -/
  | statement (mark : Mark) (expression : Node)
  /-- The statement that ends a function with a value. -/
  | giveBack (mark : Mark) (argument : Node)
  /-- A number, string or truth value as written. -/
  | literal (mark : Mark) (value : Plain) (raw : String)
  /-- A reference by name. -/
  | identifier (ident : Ident)
  | binary (mark : Mark) (operator : BinaryOp) (left right : Node)
  | unary (mark : Mark) (operator : UnaryOp) (argument : Node)
  | call (mark : Mark) (callee : Ident) (arguments : List Node)
  | array (mark : Mark) (elements : List Node)
  | object (mark : Mark) (properties : List Node)
  /-- One entry of an object. -/
  | property (mark : Mark) (key : Ident) (value : Node)
  /-- A member by its label. -/
  | member (mark : Mark) (target : Node) (label : Ident)
  /-- A member by a computed key. -/
  | index (mark : Mark) (target key : Node)
  /-- Stages, each of which sees the result of the one before. -/
  | pipe (mark : Mark) (stages : List Node)
  /-- The result of the stage before. -/
  | hole (mark : Mark)
  | function (mark : Mark) (params : List Ident) (body : List Node)

namespace BinaryOp

/-- The spelling of an operator. -/
def text : BinaryOp → String
  | add => "+"
  | sub => "-"
  | mul => "*"
  | div => "/"
  | rem => "%"
  | other text => text

/-- The operator with a spelling. -/
def ofText (s : String) : BinaryOp :=
  match s with
  | "+" => add
  | "-" => sub
  | "*" => mul
  | "/" => div
  | "%" => rem
  | s => other s

/-- How tightly an operator binds. -/
def strength? : BinaryOp → Option Nat
  | add | sub => some 1
  | mul | div | rem => some 2
  | other _ => none

end BinaryOp

namespace UnaryOp

/-- The spelling of an operator. -/
def text : UnaryOp → String
  | minus => "-"
  | not => "!"
  | other text => text

/-- The operator with a spelling. -/
def ofText (s : String) : UnaryOp :=
  match s with
  | "-" => minus
  | "!" => not
  | s => other s

end UnaryOp

namespace Declarator

/-- The spelling of a declaring word. -/
def text : Declarator → String
  | constWord => "const"
  | letWord => "let"
  | varWord => "var"
  | fnWord => "fn"
  | other text => text

/-- The declaring word with a spelling. -/
def ofText (s : String) : Declarator :=
  match s with
  | "const" => constWord
  | "let" => letWord
  | "var" => varWord
  | "fn" => fnWord
  | s => other s

end Declarator

/-- The mark of what stands in no tree yet. -/
def Mark.at (span : Span) : Mark := ⟨span, []⟩

/-- A name that stands in no tree yet. -/
def Ident.at (span : Span) (name : String) : Ident := ⟨.at span, name⟩

/-- The span of a name. -/
def Ident.span (i : Ident) : Span := i.mark.span

namespace Node

instance : Inhabited Node := ⟨.hole default⟩

/-- The mark of a node. -/
def mark : Node → Mark
  | program m _ | declaration m _ _ _ | statement m _ | giveBack m _ | literal m _ _
  | binary m _ _ _ | unary m _ _ | call m _ _ | array m _ | object m _ | property m _ _
  | member m _ _ | index m _ _ | pipe m _ | hole m | function m _ _ => m
  | identifier i => i.mark

/-- The node with another mark. -/
def setMark (m : Mark) : Node → Node
  | program _ body => program m body
  | declaration _ word name init => declaration m word name init
  | statement _ e => statement m e
  | giveBack _ e => giveBack m e
  | literal _ value raw => literal m value raw
  | identifier i => identifier { i with mark := m }
  | binary _ op l r => binary m op l r
  | unary _ op e => unary m op e
  | call _ callee args => call m callee args
  | array _ es => array m es
  | object _ ps => object m ps
  | property _ key e => property m key e
  | member _ e label => member m e label
  | index _ e key => index m e key
  | pipe _ stages => pipe m stages
  | hole _ => hole m
  | function _ params body => function m params body

/-- The span of a node. -/
def span (n : Node) : Span := n.mark.span

/-- The offsets of a node. -/
def range (n : Node) : Range := n.span.range

/-- The path of a node. -/
def path (n : Node) : List Nat := n.mark.path

/-- The name of a node's sort in listings and messages. -/
def kindName : Node → String
  | program _ _ => "Program"
  | declaration _ _ _ _ => "VariableDeclaration"
  | statement _ _ => "ExpressionStatement"
  | giveBack _ _ => "ReturnStatement"
  | literal _ _ _ => "Literal"
  | identifier _ => "Identifier"
  | binary _ _ _ _ => "BinaryExpression"
  | unary _ _ _ => "UnaryExpression"
  | call _ _ _ => "CallExpression"
  | array _ _ => "ArrayExpression"
  | object _ _ => "ObjectExpression"
  | property _ _ _ => "ObjectProperty"
  | member _ _ _ | index _ _ _ => "MemberExpression"
  | pipe _ _ => "PipeExpression"
  | hole _ => "PipeSubstitution"
  | function _ _ _ => "FunctionExpression"

/-- Is the node an expression? -/
def isExpression : Node → Bool
  | program _ _ | declaration _ _ _ _ | statement _ _ | giveBack _ _ | property _ _ _ => false
  | _ => true

/-- Is the node a statement? -/
def isStatement : Node → Bool
  | declaration _ _ _ _ | statement _ _ | giveBack _ _ => true
  | _ => false

/-- Is the node a call? -/
def isCall : Node → Bool
  | call _ _ _ => true
  | _ => false

/-- The children of a node in the order of the source, which is the order of path indices. -/
def children : Node → List Node
  | program _ body => body
  | declaration _ _ name init => [identifier name, init]
  | statement _ e => [e]
  | giveBack _ e => [e]
  | literal _ _ _ => []
  | identifier _ => []
  | binary _ _ l r => [l, r]
  | unary _ _ e => [e]
  | call _ callee args => identifier callee :: args
  | array _ es => es
  | object _ ps => ps
  | property _ key e => [identifier key, e]
  | member _ e label => [e, identifier label]
  | index _ e key => [e, key]
  | pipe _ stages => stages
  | hole _ => []
  | function _ params body => params.map identifier ++ body

@[simp] theorem mark_setMark (m : Mark) (n : Node) : (n.setMark m).mark = m := by
  cases n <;> rfl

@[simp] theorem kindName_setMark (m : Mark) (n : Node) : (n.setMark m).kindName = n.kindName := by
  cases n <;> rfl

end Node

end PartScript
