import PartScript.Edit.Placement
import PartScript.Token.Lexer

/-!
Renaming. The binding of a name at the level of the script and all references to it get a new name. A
parameter or a declaration inside a function that has the same name hides it; neither they nor what
refers to them changes. Calls are renamed only if the script itself declares the name, so that library
functions keep theirs.
-/

namespace PartScript.Edit

/-- What is renamed: the names, and whether the script declares the old one. -/
structure Renaming where
  old : String
  new : String
  declared : Bool
  deriving DecidableEq, Repr

/-- Can the text be used as a name? -/
def isName (s : String) : Bool :=
  match s.toList with
  | [] => false
  | c :: rest => Lexer.isNameStart c && rest.all Lexer.isNameChar && (Keyword.ofText? s).isNone

namespace Renaming

/-- Rename one name unless it is hidden. -/
def ident (r : Renaming) (hidden : Bool) (i : Ident) : Ident :=
  if i.name == r.old && !hidden then { i with name := r.new } else i

/-- Rename the callee of a call. -/
def callee (r : Renaming) (hidden : Bool) (i : Ident) : Ident :=
  if r.declared then r.ident hidden i else i

mutual

/-- Rename in a tree. The flags say whether it stands in a function, and whether the old name is
hidden there. -/
def tree (r : Renaming) (inFunction hidden : Bool) : Node → Node
  | .program m body => .program m (bodyOf r inFunction hidden body)
  | .declaration m word name init =>
    .declaration m word (if inFunction then name else r.ident hidden name)
      (tree r inFunction hidden init)
  | .statement m e => .statement m (tree r inFunction hidden e)
  | .giveBack m e => .giveBack m (tree r inFunction hidden e)
  | .literal m value raw => .literal m value raw
  | .identifier i => .identifier (r.ident hidden i)
  | .binary m op l e =>
    .binary m op (tree r inFunction hidden l) (tree r inFunction hidden e)
  | .unary m op e => .unary m op (tree r inFunction hidden e)
  | .call m name args => .call m (r.callee hidden name) (trees r inFunction hidden args)
  | .array m es => .array m (trees r inFunction hidden es)
  | .object m ps => .object m (trees r inFunction hidden ps)
  | .property m key e => .property m key (tree r inFunction hidden e)
  | .member m e label => .member m (tree r inFunction hidden e) label
  | .index m e key => .index m (tree r inFunction hidden e) (tree r inFunction hidden key)
  | .pipe m stages => .pipe m (trees r inFunction hidden stages)
  | .hole m => .hole m
  | .function m params body =>
    .function m params (bodyOf r true (hidden || params.any (·.name == r.old)) body)

/-- Rename in each tree of a row. -/
def trees (r : Renaming) (inFunction hidden : Bool) : List Node → List Node
  | [] => []
  | n :: rest => tree r inFunction hidden n :: trees r inFunction hidden rest

/-- Rename in the statements of a body. A declaration inside a function hides the name from there
on. -/
def bodyOf (r : Renaming) (inFunction hidden : Bool) : List Node → List Node
  | [] => []
  | s :: rest =>
    tree r inFunction hidden s ::
      bodyOf r inFunction (hidden || (inFunction && s.declares r.old)) rest

end

end Renaming

/-- Rename in a script. The new name has to be usable as a name. -/
def rename (old new : String) (script : Node) : Except Fault Node := do
  if !isName new then throw (.invalidName new)
  apply (Renaming.tree ⟨old, new, (script.declarationOf? old).isSome⟩ false false) script

end PartScript.Edit
