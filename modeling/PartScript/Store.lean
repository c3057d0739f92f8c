import PartScript.Value

/-!
Scopes. A store holds all scopes that were ever opened; scopes are only added, and a scope only gains
bindings. A scope has at most one parent, which was opened before it, and a name is looked up along
the chain of parents. Everything one can ask about a scope is a function of its chain.
-/

namespace PartScript

/-- The bindings made in one scope, in the order in which they were made. -/
structure Scope where
  parent : Option Nat
  name : String
  bindings : List (String × Value)

/-- All scopes, each known by its place. -/
structure Store where
  scopes : Array Scope

namespace Scope

instance : Inhabited Scope := ⟨⟨none, "", []⟩⟩

/-- What a name is bound to in this scope. -/
def get? (s : Scope) (name : String) : Option Value :=
  (s.bindings.find? fun (n, _) => n == name).map (·.2)

/-- The names bound in this scope. -/
def names (s : Scope) : List String := s.bindings.map (·.1)

/-- The scope with one more binding. -/
def bind (s : Scope) (name : String) (v : Value) : Scope :=
  { s with bindings := s.bindings ++ [(name, v)] }

end Scope

namespace Store

/-- No scopes at all. -/
def empty : Store := ⟨#[]⟩

/-- The scope at a place. -/
def scope? (s : Store) (id : Nat) : Option Scope := s.scopes[id]?

/-- A scope and its ancestors, as places, nearest first. The number bounds the length of the
chain. -/
def chainWithin (s : Store) : Nat → Nat → List Nat
  | 0, _ => []
  | fuel + 1, id =>
    match s.scope? id with
    | none => []
    | some scope =>
      id :: (match scope.parent with
        | none => []
        | some parent => s.chainWithin fuel parent)

/-- A scope and its ancestors, as places, nearest first. -/
def chain (s : Store) (id : Nat) : List Nat := s.chainWithin (id + 1) id

/-- A scope and its ancestors, nearest first. -/
def view (s : Store) (id : Nat) : List Scope := (s.chain id).filterMap s.scope?

/-- What a name is bound to, seen from a scope. -/
def get? (s : Store) (id : Nat) (name : String) : Option Value :=
  (s.view id).findSome? (·.get? name)

/-- Keep the first of equal names. -/
def distinct (names : List String) : List String :=
  names.foldl (fun seen n => if seen.contains n then seen else seen ++ [n]) []

/-- The names visible from a scope: nearer scopes first, hidden names once. -/
def names (s : Store) (id : Nat) : List String :=
  distinct ((s.view id).flatMap (·.names))

/-- The bindings made in a scope itself. -/
def localBindings (s : Store) (id : Nat) : List (String × Value) :=
  ((s.scope? id).map (·.bindings)).getD []

/-- Is a name bound in the scope itself? -/
def isLocal (s : Store) (id : Nat) (name : String) : Bool :=
  ((s.scope? id).bind (·.get? name)).isSome

/-- The oldest ancestor of a scope. -/
def root (s : Store) (id : Nat) : Nat := (s.chain id).getLast?.getD id

/-- The number of ancestors of a scope. -/
def depth (s : Store) (id : Nat) : Nat := (s.chain id).length - 1

/-- Bind a name in a scope where it is not bound yet. -/
def bind (s : Store) (id : Nat) (name : String) (v : Value) : Store :=
  ⟨s.scopes.modify id (·.bind name v)⟩

/-- Bind a name in a scope. A name bound there already stays as it is, and there is no result. -/
def define? (s : Store) (id : Nat) (name : String) (v : Value) : Option Store :=
  if s.isLocal id name then none else some (s.bind id name v)

/-- Open a scope; the result has its place. -/
def push (s : Store) (scope : Scope) : Store × Nat := (⟨s.scopes.push scope⟩, s.scopes.size)

/-- Open a scope without a parent. -/
def openRoot (s : Store) (name : String) : Store × Nat := s.push ⟨none, name, []⟩

/-- Open a scope inside another. -/
def openChild (s : Store) (parent : Nat) (name : String) : Store × Nat :=
  s.push ⟨some parent, name, []⟩

/-- The bindings that a scope sees, for all visible names or for those asked for. -/
def visibleBindings (s : Store) (id : Nat) (wanted : Option (List String)) :
    List (String × Value) :=
  (distinct (wanted.getD (s.names id))).filterMap fun n => (s.get? id n).map (n, ·)

/-- Open a scope without a parent that holds what another scope sees. -/
def snapshot (s : Store) (id : Nat) (wanted : Option (List String)) : Store × Nat :=
  s.push ⟨none, "snapshot", s.visibleBindings id wanted⟩

end Store

/-- A value as an entry of a listing of bindings. -/
def Value.document (v : Value) : Plain :=
  .named [
    ("type", .text v.kind.name),
    ("value", v.toPlain),
    ("__meta", .list (v.trail.map fun o => .named [
      ("sourceRange", .wholes [o.range.start, o.range.stop]),
      ("pathToNode", .wholes (o.path.map Int.ofNat))]))]

/-- Bindings as a document. -/
def bindingsDocument (bindings : List (String × Value)) : Plain :=
  .named (bindings.map fun (n, v) => (n, v.document))

end PartScript
