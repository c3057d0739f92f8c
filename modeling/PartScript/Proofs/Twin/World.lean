import PartScript.Proofs.Store
import PartScript.Proofs.Twin.Library

/-!
Two passes side by side. Their worlds are twins if they have taken equally many steps and sent twin
commands, and what they have shown and bound are twin values. Two computations go in lockstep if they
take twin worlds to twin worlds and end alike. Identifiers only come to correspond on the way, so twins
stay twins.
-/

namespace PartScript

open List (Forall₂)

/-! ### Scopes -/

/-- The names are the same, and the values are twins. -/
def BindingTwin (R : Ranges) (ids : Ids) (b b' : String × Value) : Prop :=
  b.1 = b'.1 ∧ Value.Twin R ids b.2 b'.2

/-- The scopes have the same parent and bind the same names to twins. -/
structure Scope.Twin (R : Ranges) (ids : Ids) (s t : Scope) : Prop where
  parent : s.parent = t.parent
  bindings : Forall₂ (BindingTwin R ids) s.bindings t.bindings

/-- The stores have twin scopes in the same places. -/
structure Store.Twin (R : Ranges) (ids : Ids) (s t : Store) : Prop where
  size : s.scopes.size = t.scopes.size
  scope? : ∀ id, Option.Rel (Scope.Twin R ids) (s.scope? id) (t.scope? id)

section

variable {R : Ranges} {ids ids' : Ids}

theorem Scope.Twin.mono (hle : ids.Le ids') {s t : Scope} (h : s.Twin R ids t) :
    s.Twin R ids' t :=
  ⟨h.parent, h.bindings.imp fun _ _ hb => ⟨hb.1, hb.2.mono hle⟩⟩

theorem Store.Twin.mono (hle : ids.Le ids') {s t : Store} (h : s.Twin R ids t) :
    s.Twin R ids' t :=
  ⟨h.size, fun id => rel_mono (fun _ _ => .mono hle) (h.scope? id)⟩

theorem Store.Twin.matches {s t : Store} (h : s.Twin R ids t) :
    s.Matches (Value.Twin R ids) t :=
  ⟨h.size, fun id => rel_mono (fun _ _ hst => ⟨hst.parent, hst.bindings⟩) (h.scope? id)⟩

theorem Store.Matches.twin {s t : Store} (h : s.Matches (Value.Twin R ids) t) : s.Twin R ids t :=
  ⟨h.size, fun id => rel_mono (fun _ _ hst => ⟨hst.parent, hst.bindings⟩) (h.scope? id)⟩

end

/-! ### Worlds -/

/-- The worlds of two passes, of which the first has one text and the second another. -/
structure World.Twin (R : Ranges) (code code' : String) (w v : World) : Prop where
  steps : w.steps = v.steps
  sent : Command.TwinAll R code code' w.sent v.sent
  shown : Value.TwinAll R (paired w.sent v.sent) w.shown v.shown
  store : w.store.Twin R (paired w.sent v.sent) v.store

/-- The passes stop for the same reason, each at a place in its own text. -/
inductive Stop.Twin : Stop → Stop → Prop
  | wrong {cause : Cause} {span span' : Span} : Stop.Twin (.wrong cause span) (.wrong cause span')
  | tooDeep : Stop.Twin .tooDeep .tooDeep
  | fault {f : Fault} : Stop.Twin (.fault f) (.fault f)

/-- Both end with related results, or both stop for the same reason. -/
inductive EndsAlike {α β : Type} (rel : α → β → Prop) : Except Stop α → Except Stop β → Prop
  | ok {a b} (h : rel a b) : EndsAlike rel (.ok a) (.ok b)
  | stop {s s'} (h : s.Twin s') : EndsAlike rel (.error s) (.error s')

/-- The computations take twin worlds in which some identifiers correspond to twin worlds in which they
still do, and end alike. -/
def Lockstep (R : Ranges) (code code' : String) (ids : Ids) {α β : Type}
    (rel : Ids → α → β → Prop) (x : Eval α) (y : Eval β) : Prop :=
  ∀ w v, World.Twin R code code' w v → ids.Le (paired w.sent v.sent) →
    World.Twin R code code' (x.run w).2 (y.run v).2 ∧
      (paired w.sent v.sent).Le (paired (x.run w).2.sent (y.run v).2.sent) ∧
      EndsAlike (rel (paired (x.run w).2.sent (y.run v).2.sent)) (x.run w).1 (y.run v).1

section

variable {R : Ranges} {code code' : String} {ids : Ids} {α β γ δ : Type}

theorem lockstep_pure {rel : Ids → α → β → Prop} {a : α} {b : β}
    (h : ∀ ids', ids.Le ids' → rel ids' a b) :
    Lockstep R code code' ids rel (pure a) (pure b) :=
  fun _ _ hw hle => ⟨hw, .refl _, .ok (h _ hle)⟩

theorem lockstep_throw {rel : Ids → α → β → Prop} {s s' : Stop} (h : s.Twin s') :
    Lockstep R code code' ids rel (throw s : Eval α) (throw s' : Eval β) :=
  fun _ _ hw _ => ⟨hw, .refl _, .stop h⟩

/-- Nothing goes on behind a stop. -/
theorem lockstep_throw_bind {rel : Ids → γ → δ → Prop} {s s' : Stop} (h : s.Twin s')
    (f : α → Eval γ) (g : β → Eval δ) :
    Lockstep R code code' ids rel (throw s >>= f) (throw s' >>= g) :=
  fun _ _ hw _ => ⟨hw, .refl _, .stop h⟩

theorem lockstep_mismatch {rel : Ids → α → β → Prop} (what : Mismatch) (span span' : Span) :
    Lockstep R code code' ids rel (Pass.mismatch what span : Eval α)
      (Pass.mismatch what span' : Eval β) :=
  lockstep_throw .wrong

theorem Lockstep.bind {rel : Ids → α → β → Prop} {rel' : Ids → γ → δ → Prop} {x : Eval α}
    {y : Eval β} {f : α → Eval γ} {g : β → Eval δ} (h : Lockstep R code code' ids rel x y)
    (hf : ∀ ids', ids.Le ids' → ∀ a b, rel ids' a b →
      Lockstep R code code' ids' rel' (f a) (g b)) :
    Lockstep R code code' ids rel' (x >>= f) (y >>= g) := by
  intro w v hw hle
  obtain ⟨htwin, hmore, hends⟩ := h w v hw hle
  cases hx : x.run w with
  | mk result w' =>
      cases hy : y.run v with
      | mk result' v' =>
          rw [hx, hy] at htwin hmore hends
          cases hends with
          | ok hab =>
              rw [Pass.run_bind_ok f hx, Pass.run_bind_ok g hy]
              obtain ⟨hlast, hlater, hends⟩ :=
                hf _ (hle.trans hmore) _ _ hab w' v' htwin (.refl _)
              exact ⟨hlast, hmore.trans hlater, hends⟩
          | stop hs =>
              rw [Pass.run_bind_error f hx, Pass.run_bind_error g hy]
              exact ⟨htwin, hmore, .stop hs⟩

/-- A change of the worlds that sends nothing and keeps them twins. -/
theorem lockstep_modify {f g : World → World} (hf : ∀ w, (f w).sent = w.sent)
    (hg : ∀ v, (g v).sent = v.sent)
    (h : ∀ w v, World.Twin R code code' w v → ids.Le (paired w.sent v.sent) →
      World.Twin R code code' (f w) (g v)) :
    Lockstep R code code' ids (fun _ _ _ => True) (modify f : Eval Unit) (modify g : Eval Unit) := by
  intro w v hw hle
  refine ⟨h w v hw hle, ?_, .ok trivial⟩
  change (paired w.sent v.sent).Le (paired (f w).sent (g v).sent)
  rw [hf, hg]
  exact .refl _

/-- What goes on after a look at the worlds may use that they are twins. -/
theorem lockstep_get {rel : Ids → α → β → Prop} {f : World → Eval α} {g : World → Eval β}
    (h : ∀ w v, World.Twin R code code' w v → ids.Le (paired w.sent v.sent) →
      Lockstep R code code' (paired w.sent v.sent) rel (f w) (g v)) :
    Lockstep R code code' ids rel (get >>= f) (get >>= g) := by
  intro w v hw hle
  have hrun {η : Type} (k : World → Eval η) (u : World) : (get >>= k).run u = (k u).run u := rfl
  rw [hrun f w, hrun g v]
  exact h w v hw hle w v hw (.refl _)

end

end PartScript
