import PartScript.Fault
import PartScript.Node

/-!
Moving about in a tree: all nodes in the order of the source, paths from the root, the node at a
path, the first node that is too deep, and the nodes at a place of the text.
-/

namespace PartScript.Node

/-! ### All nodes -/

mutual

/-- A node and everything below it, parents first, in the order of the source. -/
def walk : Node → List Node
  | n@(program _ body) => n :: walkAll body
  | n@(declaration _ _ name init) => n :: identifier name :: walk init
  | n@(statement _ e) => n :: walk e
  | n@(giveBack _ e) => n :: walk e
  | n@(literal _ _ _) => [n]
  | n@(identifier _) => [n]
  | n@(binary _ _ l r) => n :: (walk l ++ walk r)
  | n@(unary _ _ e) => n :: walk e
  | n@(call _ callee args) => n :: identifier callee :: walkAll args
  | n@(array _ es) => n :: walkAll es
  | n@(object _ ps) => n :: walkAll ps
  | n@(property _ key e) => n :: identifier key :: walk e
  | n@(member _ e label) => n :: (walk e ++ [identifier label])
  | n@(index _ e key) => n :: (walk e ++ walk key)
  | n@(pipe _ stages) => n :: walkAll stages
  | n@(hole _) => [n]
  | n@(function _ params body) => n :: (params.map identifier ++ walkAll body)

/-- Everything in a list of nodes. -/
def walkAll : List Node → List Node
  | [] => []
  | n :: rest => walk n ++ walkAll rest

end

/-! ### Paths -/

/-- Give a name its path. -/
def placeIdent (path : List Nat) (i : Ident) : Ident := { i with mark := ⟨i.mark.span, path⟩ }

/-- Give names in a row their paths, the first with the given index. -/
def placeIdents (path : List Nat) : Nat → List Ident → List Ident
  | _, [] => []
  | k, i :: rest => placeIdent (path ++ [k]) i :: placeIdents path (k + 1) rest

mutual

/-- Give a node and everything below it their paths, the node itself having the given one. -/
def place (path : List Nat) : Node → Node
  | program m body => program ⟨m.span, path⟩ (placeAll path 0 body)
  | declaration m word name init =>
    declaration ⟨m.span, path⟩ word (placeIdent (path ++ [0]) name) (place (path ++ [1]) init)
  | statement m e => statement ⟨m.span, path⟩ (place (path ++ [0]) e)
  | giveBack m e => giveBack ⟨m.span, path⟩ (place (path ++ [0]) e)
  | literal m value raw => literal ⟨m.span, path⟩ value raw
  | identifier i => identifier (placeIdent path i)
  | binary m op l r => binary ⟨m.span, path⟩ op (place (path ++ [0]) l) (place (path ++ [1]) r)
  | unary m op e => unary ⟨m.span, path⟩ op (place (path ++ [0]) e)
  | call m callee args =>
    call ⟨m.span, path⟩ (placeIdent (path ++ [0]) callee) (placeAll path 1 args)
  | array m es => array ⟨m.span, path⟩ (placeAll path 0 es)
  | object m ps => object ⟨m.span, path⟩ (placeAll path 0 ps)
  | property m key e =>
    property ⟨m.span, path⟩ (placeIdent (path ++ [0]) key) (place (path ++ [1]) e)
  | member m e label =>
    member ⟨m.span, path⟩ (place (path ++ [0]) e) (placeIdent (path ++ [1]) label)
  | index m e key => index ⟨m.span, path⟩ (place (path ++ [0]) e) (place (path ++ [1]) key)
  | pipe m stages => pipe ⟨m.span, path⟩ (placeAll path 0 stages)
  | hole m => hole ⟨m.span, path⟩
  | function m params body =>
    function ⟨m.span, path⟩ (placeIdents path 0 params) (placeAll path params.length body)

/-- Give nodes in a row their paths, the first with the given index. -/
def placeAll (path : List Nat) : Nat → List Node → List Node
  | _, [] => []
  | k, n :: rest => place (path ++ [k]) n :: placeAll path (k + 1) rest

end

/-- Give every node of a tree its path from the root. -/
def withPaths (n : Node) : Node := n.place []

/-- The child with an index. -/
def child? (n : Node) (k : Int) : Option Node :=
  if k < 0 then none else n.children[k.toNat]?

/-- The node at the end of a path of child indices. -/
def descend? : Node → List Int → Option Node
  | n, [] => some n
  | n, k :: rest => (n.child? k).bind (descend? · rest)

/-- The node at a path, or the fault that there is none. -/
def find (n : Node) (path : List Int) : Except Fault Node :=
  match n.descend? path with
  | some found => .ok found
  | none => .error (.noNode path)

/-! ### Depth -/

/-- The first of some names, if there is no room left for them. -/
def overdeepIdents (room : Nat) (is : List Ident) : Option Node :=
  if room = 0 then is.head?.map identifier else none

mutual

/-- The first node, in the order of the source, for which there is no room when every level takes
one unit. -/
def overdeep : Nat → Node → Option Node
  | 0, n => some n
  | room + 1, program _ body => overdeepAll room body
  | room + 1, declaration _ _ name init =>
    (overdeepIdents room [name]).or (overdeep room init)
  | room + 1, statement _ e => overdeep room e
  | room + 1, giveBack _ e => overdeep room e
  | _ + 1, literal _ _ _ => none
  | _ + 1, identifier _ => none
  | room + 1, binary _ _ l r => (overdeep room l).or (overdeep room r)
  | room + 1, unary _ _ e => overdeep room e
  | room + 1, call _ callee args => (overdeepIdents room [callee]).or (overdeepAll room args)
  | room + 1, array _ es => overdeepAll room es
  | room + 1, object _ ps => overdeepAll room ps
  | room + 1, property _ key e => (overdeepIdents room [key]).or (overdeep room e)
  | room + 1, member _ e label => (overdeep room e).or (overdeepIdents room [label])
  | room + 1, index _ e key => (overdeep room e).or (overdeep room key)
  | room + 1, pipe _ stages => overdeepAll room stages
  | _ + 1, hole _ => none
  | room + 1, function _ params body =>
    (overdeepIdents room params).or (overdeepAll room body)

/-- The first node of a list or below it for which there is no room. -/
def overdeepAll (room : Nat) : List Node → Option Node
  | [] => none
  | n :: rest => (overdeep room n).or (overdeepAll room rest)

end

/-- The first node more than a number of levels below the root. -/
def deeperThan? (limit : Int) (n : Node) : Option Node := n.overdeep (limit + 1).toNat

/-! ### Questions about a script -/

/-- The statements of a script. -/
def body : Node → List Node
  | program _ body => body
  | _ => []

/-- Does the script end with an expression? -/
def endsWithExpression (n : Node) : Bool :=
  match n.body.getLast? with
  | some (statement _ _) => true
  | _ => false

/-- The statement of a script whose range includes an offset. -/
def statementAt? (n : Node) (offset : Int) : Option Node :=
  n.body.find? (·.range.contains offset)

/-- The innermost expression whose range includes an offset: of all that do, the one that comes last
when parents come first. -/
def expressionAt? (n : Node) (offset : Int) : Option Node := do
  let item ← n.statementAt? offset
  (item.walk.filter fun e => e.isExpression && e.range.contains offset).getLast?

/-- Is the node a declaration of a name? -/
def declares (name : String) : Node → Bool
  | declaration _ _ i _ => i.name == name
  | _ => false

/-- The declaration of a name among the statements of a script. -/
def declarationOf? (n : Node) (name : String) : Option Node := n.body.find? (declares name)

end PartScript.Node
