import PartScript.Node.Equality
import PartScript.Node.Tree

/-!
Trees without marks. What is left of a tree when every mark is forgotten is what it says: two trees
that come from different texts can be compared by it, and giving paths to a tree does not change it.
-/

namespace PartScript

/-- The mark of everything in a bare tree. -/
def Mark.blank : Mark := .at .absent

/-- A name without its mark. -/
def Ident.bare (i : Ident) : Ident := ⟨.blank, i.name⟩

@[simp] theorem Ident.name_bare (i : Ident) : i.bare.name = i.name := rfl

@[simp] theorem Ident.bare_bare (i : Ident) : i.bare.bare = i.bare := rfl

theorem Ident.bare_eq_iff {i j : Ident} : i.bare = j.bare ↔ i.name = j.name := by
  simp [Ident.bare]

namespace Node

mutual

/-- A tree without its marks. -/
def bare : Node → Node
  | program _ body => program .blank (bareAll body)
  | declaration _ word name init => declaration .blank word name.bare (bare init)
  | statement _ e => statement .blank (bare e)
  | giveBack _ e => giveBack .blank (bare e)
  | literal _ value raw => literal .blank value raw
  | identifier i => identifier i.bare
  | binary _ op l r => binary .blank op (bare l) (bare r)
  | unary _ op e => unary .blank op (bare e)
  | call _ callee args => call .blank callee.bare (bareAll args)
  | array _ es => array .blank (bareAll es)
  | object _ ps => object .blank (bareAll ps)
  | property _ key e => property .blank key.bare (bare e)
  | member _ e label => member .blank (bare e) label.bare
  | index _ e key => index .blank (bare e) (bare key)
  | pipe _ stages => pipe .blank (bareAll stages)
  | hole _ => hole .blank
  | function _ params body => function .blank (params.map Ident.bare) (bareAll body)

/-- Trees in a row without their marks. -/
def bareAll : List Node → List Node
  | [] => []
  | n :: rest => bare n :: bareAll rest

end

theorem bareAll_eq_map (ns : List Node) : bareAll ns = ns.map bare := by
  induction ns with
  | nil => rfl
  | cons n ns ih => simp [bareAll, ih]

@[simp] theorem bare_setMark (m : Mark) (n : Node) : (n.setMark m).bare = n.bare := by
  cases n <;> rfl

mutual

@[simp] theorem bare_bare : (n : Node) → n.bare.bare = n.bare
  | literal _ _ _ | identifier _ | hole _ => rfl
  | declaration _ _ _ e | statement _ e | giveBack _ e | unary _ _ e | property _ _ e
  | member _ e _ => by simp [bare, bare_bare e]
  | binary _ _ l r | index _ l r => by simp [bare, bare_bare l, bare_bare r]
  | program _ ns | call _ _ ns | array _ ns | object _ ns | pipe _ ns | function _ _ ns => by
      simp [bare, bareAll_bareAll ns]

theorem bareAll_bareAll : (ns : List Node) → bareAll (bareAll ns) = bareAll ns
  | [] => rfl
  | n :: rest => by simp [bareAll, bare_bare n, bareAll_bareAll rest]

end

/-! ### Paths -/

@[simp] theorem bare_placeIdent (path : List Nat) (i : Ident) :
    (placeIdent path i).bare = i.bare := rfl

theorem map_bare_placeIdents (path : List Nat) (k : Nat) (is : List Ident) :
    (placeIdents path k is).map Ident.bare = is.map Ident.bare := by
  induction is generalizing k with
  | nil => rfl
  | cons i is ih => simp [placeIdents, ih]

mutual

theorem bare_place (path : List Nat) : (n : Node) → (n.place path).bare = n.bare
  | program _ body => by simp [place, bare, bareAll_placeAll path 0 body]
  | declaration _ _ _ init => by simp [place, bare, bare_place _ init]
  | statement _ e | giveBack _ e | unary _ _ e | property _ _ e | member _ e _ => by
      simp [place, bare, bare_place _ e]
  | literal _ _ _ | identifier _ | hole _ => rfl
  | binary _ _ l r => by simp [place, bare, bare_place _ l, bare_place _ r]
  | call _ _ args => by simp [place, bare, bareAll_placeAll path 1 args]
  | array _ es => by simp [place, bare, bareAll_placeAll path 0 es]
  | object _ ps => by simp [place, bare, bareAll_placeAll path 0 ps]
  | index _ e key => by simp [place, bare, bare_place _ e, bare_place _ key]
  | pipe _ stages => by simp [place, bare, bareAll_placeAll path 0 stages]
  | function _ params body => by
      simp [place, bare, map_bare_placeIdents, bareAll_placeAll path params.length body]

theorem bareAll_placeAll (path : List Nat) (k : Nat) :
    (ns : List Node) → bareAll (placeAll path k ns) = bareAll ns
  | [] => rfl
  | n :: rest => by
      simp [placeAll, bareAll, bare_place (path ++ [k]) n, bareAll_placeAll path (k + 1) rest]

end

@[simp] theorem bare_withPaths (n : Node) : n.withPaths.bare = n.bare := bare_place [] n

end Node

end PartScript
