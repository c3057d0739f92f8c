import PartScript.Node

/-!
Listings: a tree as indented text, one line for each node with its sort, range and path, followed by
its parts.
-/

namespace PartScript.Node

/-- A line at a depth of indentation. -/
def listed (depth : Nat) (text : String) : String :=
  String.ofList (List.replicate (2 * depth) ' ') ++ text

/-- The first line of a node. -/
def listedHead (depth : Nat) (kind : String) (m : Mark) : String :=
  listed depth (kind ++ " " ++ m.span.range.text ++ " path=" ++
    Plain.bracketed "[" "]" (m.path.map toString))

/-- A part that is no node. -/
def listedItem (depth : Nat) (name shown : String) : String :=
  listed depth ("  " ++ name ++ ": " ++ shown)

/-- A part that is a node. -/
def listedPart (depth : Nat) (name : String) (lines : List String) : List String :=
  listed depth ("  " ++ name ++ ":") :: lines

/-- A part that is a list. -/
def listedParts (depth : Nat) (name : String) (lines : List String) : List String :=
  listed depth ("  " ++ name ++ ": [") :: (lines ++ [listed depth "  ]"])

/-- The lines of a name. -/
def listIdent (depth : Nat) (i : Ident) : List String :=
  [listedHead depth "Identifier" i.mark, listedItem depth "name" (Text.quoted i.name)]

/-- The lines of the value of a literal. -/
def listValue (depth : Nat) : Plain → List String
  | .list items => listedParts depth "value" (items.map fun item => listed depth ("    " ++ item.shown))
  | value => [listedItem depth "value" value.shown]

mutual

/-- The lines of a node at a depth of indentation. -/
def list (depth : Nat) : Node → List String
  | program m body =>
    listedHead depth "Program" m :: listedParts depth "body" (listAll (depth + 2) body)
  | declaration m word name init =>
    listedHead depth "VariableDeclaration" m :: listedItem depth "kind" (Text.quoted word.text) ::
      (listedPart depth "id" (listIdent (depth + 2) name) ++
        listedPart depth "init" (list (depth + 2) init))
  | statement m e =>
    listedHead depth "ExpressionStatement" m ::
      listedPart depth "expression" (list (depth + 2) e)
  | giveBack m e =>
    listedHead depth "ReturnStatement" m :: listedPart depth "argument" (list (depth + 2) e)
  | literal m value raw =>
    listedHead depth "Literal" m ::
      (listValue depth value ++ [listedItem depth "raw" (Text.quoted raw)])
  | identifier i => listIdent depth i
  | binary m op l r =>
    listedHead depth "BinaryExpression" m :: listedItem depth "operator" (Text.quoted op.text) ::
      (listedPart depth "left" (list (depth + 2) l) ++
        listedPart depth "right" (list (depth + 2) r))
  | unary m op e =>
    listedHead depth "UnaryExpression" m :: listedItem depth "operator" (Text.quoted op.text) ::
      listedPart depth "argument" (list (depth + 2) e)
  | call m callee args =>
    listedHead depth "CallExpression" m ::
      (listedPart depth "callee" (listIdent (depth + 2) callee) ++
        listedParts depth "arguments" (listAll (depth + 2) args))
  | array m es =>
    listedHead depth "ArrayExpression" m :: listedParts depth "elements" (listAll (depth + 2) es)
  | object m ps =>
    listedHead depth "ObjectExpression" m ::
      listedParts depth "properties" (listAll (depth + 2) ps)
  | property m key e =>
    listedHead depth "ObjectProperty" m ::
      (listedPart depth "key" (listIdent (depth + 2) key) ++
        listedPart depth "value" (list (depth + 2) e))
  | member m e label =>
    listedHead depth "MemberExpression" m ::
      (listedPart depth "object" (list (depth + 2) e) ++
        listedPart depth "property" (listIdent (depth + 2) label) ++
        [listedItem depth "computed" "False"])
  | index m e key =>
    listedHead depth "MemberExpression" m ::
      (listedPart depth "object" (list (depth + 2) e) ++
        listedPart depth "property" (list (depth + 2) key) ++
        [listedItem depth "computed" "True"])
  | pipe m stages =>
    listedHead depth "PipeExpression" m :: listedParts depth "body" (listAll (depth + 2) stages)
  | hole m => [listedHead depth "PipeSubstitution" m]
  | function m params body =>
    listedHead depth "FunctionExpression" m ::
      (listedParts depth "params" (params.flatMap (listIdent (depth + 2))) ++
        listedParts depth "body" (listAll (depth + 2) body))

/-- The lines of a list of nodes. -/
def listAll (depth : Nat) : List Node → List String
  | [] => []
  | n :: rest => list depth n ++ listAll depth rest

end

/-- A tree as indented text. -/
def listing (n : Node) : String := String.intercalate "\n" (list 0 n)

end PartScript.Node
