import PartScript.Node

/-!
Equality of trees. Two trees are alike if they have the same shape, names, operators and values,
wherever they come from; they are the same if in addition every node comes from the same place.
Paths never count. Numbers are compared by value.
-/

namespace PartScript.Node

/-- Do two names agree, their spans being compared by the given test? -/
def agreeIdent (spans : Span → Span → Bool) (a b : Ident) : Bool :=
  spans a.span b.span && a.name == b.name

/-- Do two lists of names agree? -/
def agreeIdents (spans : Span → Span → Bool) : List Ident → List Ident → Bool
  | [], [] => true
  | a :: as, b :: bs => agreeIdent spans a b && agreeIdents spans as bs
  | _, _ => false

mutual

/-- Do two trees agree, their spans being compared by the given test? -/
def agree (spans : Span → Span → Bool) : Node → Node → Bool
  | program m body, program m' body' => spans m.span m'.span && agreeAll spans body body'
  | declaration m word name init, declaration m' word' name' init' =>
    spans m.span m'.span && word == word' && agreeIdent spans name name' && agree spans init init'
  | statement m e, statement m' e' => spans m.span m'.span && agree spans e e'
  | giveBack m e, giveBack m' e' => spans m.span m'.span && agree spans e e'
  | literal m value raw, literal m' value' raw' =>
    spans m.span m'.span && value.same value' && raw == raw'
  | identifier i, identifier i' => agreeIdent spans i i'
  | binary m op l r, binary m' op' l' r' =>
    spans m.span m'.span && op == op' && agree spans l l' && agree spans r r'
  | unary m op e, unary m' op' e' => spans m.span m'.span && op == op' && agree spans e e'
  | call m callee args, call m' callee' args' =>
    spans m.span m'.span && agreeIdent spans callee callee' && agreeAll spans args args'
  | array m es, array m' es' => spans m.span m'.span && agreeAll spans es es'
  | object m ps, object m' ps' => spans m.span m'.span && agreeAll spans ps ps'
  | property m key e, property m' key' e' =>
    spans m.span m'.span && agreeIdent spans key key' && agree spans e e'
  | member m e label, member m' e' label' =>
    spans m.span m'.span && agree spans e e' && agreeIdent spans label label'
  | index m e key, index m' e' key' =>
    spans m.span m'.span && agree spans e e' && agree spans key key'
  | pipe m stages, pipe m' stages' => spans m.span m'.span && agreeAll spans stages stages'
  | hole m, hole m' => spans m.span m'.span
  | function m params body, function m' params' body' =>
    spans m.span m'.span && agreeIdents spans params params' && agreeAll spans body body'
  | _, _ => false

/-- Do two lists of trees agree one by one? -/
def agreeAll (spans : Span → Span → Bool) : List Node → List Node → Bool
  | [], [] => true
  | a :: as, b :: bs => agree spans a b && agreeAll spans as bs
  | _, _ => false

end

/-- Are two trees alike, wherever they come from? -/
def alike (a b : Node) : Bool := agree (fun _ _ => true) a b

/-- Are two trees the same, spans included? -/
def same (a b : Node) : Bool := agree (· == ·) a b

end PartScript.Node
