import PartScript.Library
import PartScript.Proofs.Edit.Edited
import PartScript.Proofs.Node.Runnable

/-!
What a reference by the old name means. Renaming decides it from the order of the statements, while a
run looks the name up when it gets there; in between a function may have been made, and the name may
have been declared in the scope it was made in. A reference is settled if that cannot happen to it, and
if a call by it cannot be one of a library function.
-/

namespace PartScript.Edit

/-- What a reference by the old name means at a place of a script. -/
inductive Sight where
  /-- The binding of the script, for good. -/
  | clear
  /-- The binding of the script so far; the function around the place declares the name further
  down. -/
  | passing
  /-- A parameter or a declaration of a function around the place. -/
  | hidden
  /-- One or the other: the place is in a function that is made before the name is declared around
  it. -/
  | unsettled
  deriving DecidableEq

namespace Sight

/-- Is nothing renamed at the place? -/
def hides (σ : Sight) : Bool := σ == hidden

theorem hides_eq_true {σ : Sight} : σ.hides = true ↔ σ = hidden := beq_iff_eq

/-- The sight at the beginning of a function that is made at a place. -/
def inside (r : Renaming) (params : List Ident) (body : List Node) (σ : Sight) : Sight :=
  if σ.hides || params.any (·.name == r.old) then hidden
  else if σ == clear then if body.any (·.declares r.old) then passing else clear
  else unsettled

/-- The sight behind a statement of a function. -/
def after (r : Renaming) (s : Node) (σ : Sight) : Sight := if s.declares r.old then hidden else σ

theorem hides_inside (r : Renaming) (params : List Ident) (body : List Node) (σ : Sight) :
    (σ.inside r params body).hides = (σ.hides || params.any (·.name == r.old)) := by
  unfold inside
  split
  · next h => exact h.symm
  · next h =>
    have hfalse : (σ.hides || params.any (·.name == r.old)) = false := Bool.eq_false_iff.2 h
    rw [hfalse]
    split
    · split <;> rfl
    · rfl

/-- Nothing hides the name later where the script's binding is in sight for good. -/
theorem declares_of_inside_eq_clear {r : Renaming} {params : List Ident} {body : List Node}
    {σ : Sight} (h : σ.inside r params body = clear) :
    ∀ s ∈ body, s.declares r.old = false := by
  unfold inside at h
  split at h
  · cases h
  · split at h
    · split at h
      · cases h
      · next hbody => simpa using hbody
    · cases h

theorem hides_after (r : Renaming) (s : Node) (σ : Sight) :
    (σ.after r s).hides = (σ.hides || s.declares r.old) := by
  unfold after
  cases s.declares r.old with
  | true => rw [Bool.or_true]; rfl
  | false => rw [Bool.or_false]; rfl

end Sight

namespace Renaming

theorem ident_of_ne {r : Renaming} {i : Ident} (h : i.name ≠ r.old) (hidden : Bool) :
    r.ident hidden i = i :=
  if_neg (by simp [h])

theorem ident_hidden (r : Renaming) (i : Ident) : r.ident true i = i := if_neg (by simp)

theorem name_ident {r : Renaming} {i : Ident} (h : i.name = r.old) :
    (r.ident false i).name = r.new := by
  rw [ident, if_pos (by simp [h])]

theorem mark_ident (r : Renaming) (hidden : Bool) (i : Ident) : (r.ident hidden i).mark = i.mark := by
  unfold ident
  split <;> rfl

/-- Renaming moves nothing. -/
theorem span_tree (r : Renaming) (inFunction hidden : Bool) (n : Node) :
    (r.tree inFunction hidden n).span = n.span := by
  cases n <;> simp [tree, Node.span, Node.mark, mark_ident]

/-! ### Settled references -/

/-- Is the callee of a call settled? Where the script's binding is meant, a call by a name that the
library has as well is settled only if the binding is a function by then. -/
def settledCallee (r : Renaming) (calls : Bool) (σ : Sight) (callee : Ident) : Bool :=
  !r.declared || callee.name != r.old || σ.hides || (σ != .unsettled && calls)

mutual

/-- Are all references by the old name in a tree settled? The flag says whether the script's binding
may be called. -/
def settled (r : Renaming) (calls : Bool) (σ : Sight) : Node → Bool
  | .program _ body => settledAll r calls σ body
  | .declaration _ _ _ init => settled r calls σ init
  | .statement _ e => settled r calls σ e
  | .giveBack _ e => settled r calls σ e
  | .literal _ _ _ => true
  | .identifier i => i.name != r.old || σ != .unsettled
  | .binary _ _ l e => settled r calls σ l && settled r calls σ e
  | .unary _ _ e => settled r calls σ e
  | .call _ callee args => r.settledCallee calls σ callee && settledAll r calls σ args
  | .array _ es => settledAll r calls σ es
  | .object _ ps => settledAll r calls σ ps
  | .property _ _ e => settled r calls σ e
  | .member _ e _ => settled r calls σ e
  | .index _ e key => settled r calls σ e && settled r calls σ key
  | .pipe _ stages => settledAll r calls σ stages
  | .hole _ => true
  | .function _ params body => settledBody r calls (σ.inside r params body) body

/-- The same for trees in a row. -/
def settledAll (r : Renaming) (calls : Bool) (σ : Sight) : List Node → Bool
  | [] => true
  | n :: rest => settled r calls σ n && settledAll r calls σ rest

/-- The same for the statements of a function. -/
def settledBody (r : Renaming) (calls : Bool) (σ : Sight) : List Node → Bool
  | [] => true
  | s :: rest => settled r calls σ s && settledBody r calls (σ.after r s) rest

end

/-- Does a statement bind the old name to a function? -/
def bindsFunction (r : Renaming) : Node → Bool
  | .declaration _ _ name (.function _ _ _) => name.name == r.old
  | _ => false

/-- Are all references by the old name in the statements of a script settled? The script's binding may
be called from where it is bound to a function, and anywhere if the library has no such function. -/
def settledScript (r : Renaming) : Bool → List Node → Bool
  | _, [] => true
  | calls, s :: rest =>
    r.settled (calls || r.bindsFunction s) .clear s &&
      settledScript r (calls || r.bindsFunction s) rest

/-- The renaming of a name in a script. -/
def ofScript (old new : String) (script : Node) : Renaming :=
  ⟨old, new, (script.declarationOf? old).isSome⟩

end Renaming

/-- Are all references by a name in a script settled, so that it can be renamed? -/
def isSettled (library : Library) (old new : String) (script : Node) : Bool :=
  (Renaming.ofScript old new script).settledScript (library.find? old).isNone script.body

end PartScript.Edit

namespace PartScript.Node

/-! ### Names that do not occur -/

/-- Is the node a name, and this one? -/
def isNamed (name : String) : Node → Bool
  | identifier i => i.name == name
  | _ => false

/-- The name occurs nowhere in the tree. -/
def Lacks (name : String) (n : Node) : Prop := ∀ m ∈ n.walk, m.isNamed name = false

instance (name : String) (n : Node) : Decidable (n.Lacks name) :=
  inferInstanceAs (Decidable (∀ m ∈ n.walk, m.isNamed name = false))

theorem Lacks.child {name : String} {c n : Node} (h : n.Lacks name) (hc : c ∈ n.children) :
    c.Lacks name :=
  fun m hm => h m (walk_subset_of_mem_children hc hm)

theorem Lacks.name_ne {name : String} {i : Ident} (h : (identifier i).Lacks name) : i.name ≠ name :=
  beq_eq_false_iff_ne.1 (h _ (mem_walk _))

theorem Lacks.function {name : String} {m : Mark} {params : List Ident} {body : List Node}
    (h : (Node.function m params body).Lacks name) :
    (∀ i ∈ params, i.name ≠ name) ∧ ∀ s ∈ body, s.Lacks name := by
  refine ⟨fun i hi => Lacks.name_ne (h.child ?_), fun s hs => h.child ?_⟩
  · simp [children, hi]
  · simp [children, hs]

end PartScript.Node
