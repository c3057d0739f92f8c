import PartScript.Proofs.Library.Like
import PartScript.Proofs.Pass.Budgets
import PartScript.Proofs.Pipe.Nested
import PartScript.Proofs.Store

/-!
A script with pipes and one with nested calls, run one after the other. The second run follows the first
one: whenever a part of the first succeeds, the corresponding part of the second succeeds as well, in no
more steps, and sends, shows and binds the same. Functions correspond if the body of the second one is
that of the first with nested calls for pipes.
-/

namespace PartScript

/-- The second function is the first one with nested calls in place of some pipes. It was made in the
same scope, one of the first `b`. -/
structure Closure.Nests (K b : Nat) (c c' : Closure) : Prop where
  params : c.params.map (·.name) = c'.params.map (·.name)
  scope : c.scope = c'.scope
  lt : c.scope < b
  body : Node.NestsAll K false K c.body c'.body

/-- The values differ in functions, which have nested calls for pipes in the second one. -/
abbrev Value.Nests (K b : Nat) : Value → Value → Prop := Value.Like (Closure.Nests K b)

/-- The same for values in a row. -/
abbrev Value.NestsAll (K b : Nat) : List Value → List Value → Prop :=
  Value.LikeAll (Closure.Nests K b)

/-- The same for host data. -/
abbrev Host.Nests (K b : Nat) : Host → Host → Prop := Host.Like (Closure.Nests K b)

/-- The worlds of the two runs. How many steps they have taken does not matter. -/
structure World.Nests (K : Nat) (w u : World) : Prop where
  sent : w.sent = u.sent
  shown : Value.NestsAll K w.store.scopes.size w.shown u.shown
  store : w.store.Matches (Value.Nests K w.store.scopes.size) u.store
  linked : w.store.Linked

/-- The frames are in the same scope, the second one has room for some more levels, and if the value of
a stage may be used, values that correspond come in. -/
structure Frame.Nests (K b : Nat) (inStage : Bool) (k : Nat) (f g : Frame) : Prop where
  scope : f.scope = g.scope
  lt : f.scope < b
  hole : inStage = true → Option.Rel (Value.Nests K b) f.hole g.hole
  room : Limits.RoomLe (f.room.map (· + k)) g.room

section

variable {K b b' : Nat}

theorem Closure.Nests.length_params {c c' : Closure} (h : c.Nests K b c') :
    c.params.length = c'.params.length := by
  simpa using congrArg List.length h.params

theorem Closure.Nests.mono (hb : b ≤ b') {c c' : Closure} (h : c.Nests K b c') : c.Nests K b' c' :=
  ⟨h.params, h.scope, Nat.lt_of_lt_of_le h.lt hb, h.body⟩

theorem Value.Nests.mono (hb : b ≤ b') {v v' : Value} (h : Value.Nests K b v v') :
    Value.Nests K b' v v' :=
  Value.Like.mono (fun _ _ => .mono hb) h

theorem Value.NestsAll.mono (hb : b ≤ b') {vs vs' : List Value} (h : Value.NestsAll K b vs vs') :
    Value.NestsAll K b' vs vs' :=
  Value.LikeAll.mono (fun _ _ => .mono hb) h

theorem Host.Nests.mono (hb : b ≤ b') {h h' : Host} (hh : Host.Nests K b h h') :
    Host.Nests K b' h h' :=
  Host.Like.mono (fun _ _ => .mono hb) hh

theorem Frame.Nests.mono (hb : b ≤ b') {inStage : Bool} {k : Nat} {f g : Frame}
    (h : f.Nests K b inStage k g) : f.Nests K b' inStage k g :=
  ⟨h.scope, Nat.lt_of_lt_of_le h.lt hb, fun hu => rel_mono (fun _ _ => .mono hb) (h.hole hu), h.room⟩

/-- Outside of stages it does not matter what comes in. -/
theorem Frame.nests_outside {scope : Nat} (hlt : scope < b) {k : Nat} {room room' : Option Nat}
    (hroom : Limits.RoomLe (room.map (· + k)) room') (hole hole' : Option Value) :
    Frame.Nests K b false k ⟨scope, hole, room⟩ ⟨scope, hole', room'⟩ :=
  ⟨rfl, hlt, fun h => absurd h Bool.false_ne_true, hroom⟩

theorem Limits.RoomLe.less {k : Nat} {room₀ room room' : Option Nat}
    (h : RoomLe (room.map (· + k)) room') (h₀ : RoomLe room₀ room) :
    RoomLe (room₀.map (· + k)) room' := by
  match room₀, room, room' with
  | _, _, none => trivial
  | some n₀, some n, some n' => exact Nat.le_trans (Nat.add_le_add_right h₀ k) h

theorem World.Nests.withSteps {w u : World} (h : w.Nests K u) (n m : Nat) :
    World.Nests K { w with steps := n } { u with steps := m } :=
  ⟨h.sent, h.shown, h.store, h.linked⟩

end

namespace Pass

/-- What a computation that succeeds does to the counts of a world, where `L` is the limit on steps. -/
structure Advances (L : Nat) (w w' : World) : Prop where
  steps : w.steps ≤ w'.steps
  scopes : w.store.scopes.size ≤ w'.store.scopes.size
  limit : w'.steps = w.steps ∨ w'.steps ≤ L

theorem Advances.refl {L : Nat} (w : World) : Advances L w w :=
  ⟨Nat.le_refl _, Nat.le_refl _, .inl rfl⟩

theorem Advances.trans {L : Nat} {a b c : World} (h : Advances L a b) (h' : Advances L b c) :
    Advances L a c := by
  have hsteps := h.steps
  have hlimit := h.limit
  have hsteps' := h'.steps
  have hlimit' := h'.limit
  exact ⟨by omega, Nat.le_trans h.scopes h'.scopes, by omega⟩

/-- Whenever the first computation succeeds, in a world with at least `b` scopes, it advances, and the
second one succeeds from a world that corresponds if as many steps are left there. It takes no more
steps and has a related result. -/
def Follows (L K b : Nat) {α β : Type} (rel : Nat → α → β → Prop) (x : Eval α) (y : Eval β) : Prop :=
  ∀ w u a w', x.run w = (.ok a, w') → World.Nests K w u → b ≤ w.store.scopes.size →
    Advances L w w' ∧
      (u.steps + (w'.steps - w.steps) ≤ L →
        ∃ a' u', y.run u = (.ok a', u') ∧ World.Nests K w' u' ∧ rel w'.store.scopes.size a a' ∧
          u'.steps ≤ u.steps + (w'.steps - w.steps))

variable {L K b : Nat} {α β γ δ : Type}

theorem follows_pure {rel : Nat → α → β → Prop} {a : α} {a' : β} (h : ∀ b', b ≤ b' → rel b' a a') :
    Follows L K b rel (pure a) (pure a') := by
  intro w u _ _ hrun hw hb
  rw [run_pure] at hrun
  cases hrun
  exact ⟨.refl w, fun _ => ⟨a', u, rfl, hw, h _ hb, Nat.le_add_right _ _⟩⟩

/-- Nothing has to follow what stops. -/
theorem follows_throw {rel : Nat → α → β → Prop} (stop : Stop) (y : Eval β) :
    Follows L K b rel (throw stop) y := by
  intro w u a w' hrun
  rw [run_throw] at hrun
  cases hrun

theorem follows_mismatch {rel : Nat → α → β → Prop} (what : Mismatch) (span : Span) (y : Eval β) :
    Follows L K b rel (mismatch what span) y :=
  follows_throw _ _

/-- Nothing goes on behind a stop. -/
theorem follows_throw_bind {rel : Nat → β → γ → Prop} (stop : Stop) (f : α → Eval β) (y : Eval γ) :
    Follows L K b rel (throw stop >>= f) y := by
  intro w u a w' hrun
  rw [run_bind_error f (run_throw stop w)] at hrun
  cases hrun

/-- A computation that succeeds is followed from any world that corresponds, once its steps are set
back. So what comes behind can be compared even where few steps are left. -/
theorem Follows.rewound {rel : Nat → α → β → Prop} {x : Eval α} {y : Eval β}
    (h : Follows L K b rel x y) {w u : World} {a : α} {w' : World} (hrun : x.run w = (.ok a, w'))
    (hw : World.Nests K w u) (hb : b ≤ w.store.scopes.size) :
    ∃ a' u', World.Nests K w' u' ∧ rel w'.store.scopes.size a a' := by
  obtain ⟨hadvances, hsucceeds⟩ := h w { u with steps := 0 } a w' hrun (hw.withSteps w.steps 0) hb
  have hlimit := hadvances.limit
  obtain ⟨a', u', -, hw', hrel, -⟩ := hsucceeds (by simp only; omega)
  exact ⟨a', u', hw', hrel⟩

theorem Follows.bind {rel : Nat → α → β → Prop} {rel' : Nat → γ → δ → Prop} {x : Eval α}
    {y : Eval β} {f : α → Eval γ} {g : β → Eval δ} (h : Follows L K b rel x y)
    (hf : ∀ b', b ≤ b' → ∀ a a', rel b' a a' → Follows L K b' rel' (f a) (g a')) :
    Follows L K b rel' (x >>= f) (y >>= g) := by
  intro w u c w₂ hrun hw hb
  obtain ⟨a, w₁, hx, hfa⟩ := run_bind_eq_ok hrun
  obtain ⟨hadvances, hsucceeds⟩ := h w u a w₁ hx hw hb
  have hb₁ := Nat.le_trans hb hadvances.scopes
  have hmore : Advances L w₁ w₂ := by
    obtain ⟨a', u₁, hw₁, hrel⟩ := h.rewound hx hw hb
    exact (hf _ hb₁ a a' hrel w₁ u₁ c w₂ hfa hw₁ (Nat.le_refl _)).1
  refine ⟨hadvances.trans hmore, fun hleft => ?_⟩
  have hsteps := hadvances.steps
  have hsteps' := hmore.steps
  obtain ⟨a', u₁, hy, hw₁, hrel, hcost⟩ := hsucceeds (by omega)
  obtain ⟨c', u₂, hg, hw₂, hrel', hcost'⟩ :=
    (hf _ hb₁ a a' hrel w₁ u₁ c w₂ hfa hw₁ (Nat.le_refl _)).2 (by omega)
  exact ⟨c', u₂, by rw [run_bind_ok g hy, hg], hw₂, hrel', by omega⟩

/-- Computations that change nothing. -/
theorem follows_readOnly {rel : Nat → α → β → Prop} {x : Eval α} {y : Eval β} (hx : ReadOnly x)
    (hy : ReadOnly y)
    (h : ∀ w u a, World.Nests K w u → b ≤ w.store.scopes.size → (x.run w).1 = .ok a →
      ∃ a', (y.run u).1 = .ok a' ∧ rel w.store.scopes.size a a') : Follows L K b rel x y := by
  intro w u a w' hrun hw hb
  obtain rfl : w' = w := by rw [← hx w, hrun]
  refine ⟨.refl w', fun _ => ?_⟩
  obtain ⟨a', ha', hrel⟩ := h w' u a hw hb (by rw [hrun])
  exact ⟨a', u, Prod.ext ha' (hy u), hw, hrel, Nat.le_add_right _ _⟩

end Pass

end PartScript
