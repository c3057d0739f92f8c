/-!
Computations that may fail, taken apart: what goes on behind a part succeeds only if the part does. Two
of them agree if they fail in the same way or succeed with results that are related; success carries over
from one to another if that one succeeds with a related result whenever the first one succeeds. Things
that may be missing are related if both are missing or both are there and related. A single computation
is described by what its result is like and by the reasons for which it may fail.
-/

namespace PartScript

variable {ε ε' α β γ δ : Type}

theorem ok_bind (a : α) (f : α → Except ε β) : (Except.ok a >>= f) = f a := rfl

/-- What goes on behind a part succeeds only if the part does. -/
theorem bind_eq_ok {x : Except ε α} {f : α → Except ε β} {b : β} (h : (x >>= f) = .ok b) :
    ∃ a, x = .ok a ∧ f a = .ok b := by
  cases x with
  | error w => cases h
  | ok a => exact ⟨a, rfl, h⟩

theorem map_eq_ok {f : α → β} {x : Except ε α} {b : β} (h : x.map f = .ok b) :
    ∃ a, x = .ok a ∧ f a = b := by
  cases x with
  | error w => cases h
  | ok a => exact ⟨a, rfl, Except.ok.inj h⟩

theorem mapError_ok (f : ε → ε') (a : α) : (Except.ok a).mapError f = .ok a := rfl

theorem mapError_eq_ok {f : ε → ε'} {x : Except ε α} {a : α} :
    x.mapError f = .ok a ↔ x = .ok a := by
  cases x with
  | error w => exact ⟨nofun, nofun⟩
  | ok b => rw [mapError_ok]; exact ⟨fun h => Except.ok.inj h ▸ rfl, fun h => Except.ok.inj h ▸ rfl⟩

theorem mapError_eq_error {f : ε → ε'} {x : Except ε α} {e' : ε'} (h : x.mapError f = .error e') :
    ∃ e, x = .error e ∧ f e = e' := by
  cases x with
  | error e => exact ⟨e, rfl, Except.error.inj h⟩
  | ok a => cases h

theorem exists_mapError_eq_ok {f : ε → ε'} {x : Except ε α} :
    (∃ a, x.mapError f = .ok a) ↔ ∃ a, x = .ok a :=
  exists_congr fun _ => mapError_eq_ok

/-- If all of several computations together succeed then each of them does. -/
theorem forall_of_mapM_eq_ok {f : α → Except ε β} {as : List α} {bs : List β}
    (h : as.mapM f = .ok bs) : ∀ a ∈ as, ∃ b, f a = .ok b := by
  induction as generalizing bs with
  | nil => exact fun a ha => absurd ha List.not_mem_nil
  | cons a as ih =>
      rw [List.mapM_cons] at h
      obtain ⟨b, hb, h⟩ := bind_eq_ok h
      obtain ⟨rest, hrest, -⟩ := bind_eq_ok h
      exact List.forall_mem_cons.2 ⟨⟨b, hb⟩, ih hrest⟩

/-- A check of the result, if there is one, shows that there is one. -/
theorem exists_of_any_toOption {x : Except ε α} {check : α → Bool}
    (h : x.toOption.any check = true) : ∃ a, x = .ok a ∧ check a = true := by
  cases x with
  | error e => cases h
  | ok a => exact ⟨a, rfl, h⟩

theorem exists_of_isSome_toOption {x : Except ε α} (h : x.toOption.isSome = true) : ∃ a, x = .ok a := by
  cases x with
  | error e => cases h
  | ok a => exact ⟨a, rfl⟩

/-- Both succeed with related results, or both fail in the same way. -/
inductive Agree (r : α → β → Prop) : Except ε α → Except ε β → Prop
  | ok {a b} (h : r a b) : Agree r (.ok a) (.ok b)
  | error (e : ε) : Agree r (.error e) (.error e)

theorem Agree.bind {r : α → β → Prop} {q : γ → δ → Prop} {x : Except ε α} {y : Except ε β}
    {f : α → Except ε γ} {g : β → Except ε δ} (h : Agree r x y)
    (hf : ∀ a b, r a b → Agree q (f a) (g b)) : Agree q (x >>= f) (y >>= g) := by
  cases h with
  | ok h => exact hf _ _ h
  | error e => exact .error e

theorem agree_refl {x : Except ε α} : Agree (fun a b => a = b) x x := by
  cases x with
  | ok a => exact .ok rfl
  | error e => exact .error e

theorem agree_bind_same {q : β → γ → Prop} {x : Except ε α} {f : α → Except ε β}
    {g : α → Except ε γ} (h : ∀ a, Agree q (f a) (g a)) : Agree q (x >>= f) (x >>= g) :=
  agree_refl.bind fun a _ hab => hab ▸ h a

theorem Agree.mono {r q : α → β → Prop} {x : Except ε α} {y : Except ε β} (h : Agree r x y)
    (hq : ∀ a b, r a b → q a b) : Agree q x y := by
  cases h with
  | ok h => exact .ok (hq _ _ h)
  | error e => exact .error e

/-- The results are known to be those of the two computations. -/
theorem Agree.attach {r : α → β → Prop} {x : Except ε α} {y : Except ε β} (h : Agree r x y) :
    Agree (fun a b => x = .ok a ∧ y = .ok b) x y := by
  cases h with
  | ok h => exact .ok ⟨rfl, rfl⟩
  | error e => exact .error e

theorem Agree.mapError {r : α → β → Prop} {x : Except ε α} {y : Except ε β} (f : ε → ε')
    (h : Agree r x y) : Agree r (x.mapError f) (y.mapError f) := by
  cases h with
  | ok h => exact .ok h
  | error e => exact .error (f e)

/-! ### Success alone -/

/-- If the first one succeeds then the second one succeeds as well, with a related result. -/
def Carries (r : α → β → Prop) (x : Except ε α) (y : Except ε' β) : Prop :=
  ∀ a, x = .ok a → ∃ b, y = .ok b ∧ r a b

section

variable {r : α → β → Prop} {q : γ → δ → Prop}

theorem carries_ok {a : α} {b : β} (h : r a b) :
    Carries r (.ok a : Except ε α) (.ok b : Except ε' β) := by
  intro a' ha
  cases ha
  exact ⟨b, rfl, h⟩

/-- Nothing has to carry over from what fails. -/
theorem carries_error (e : ε) (y : Except ε' β) : Carries r (.error e : Except ε α) y := by
  intro a ha
  cases ha

theorem carries_refl (x : Except ε α) : Carries (fun a b => a = b) x x :=
  fun a ha => ⟨a, ha, rfl⟩

theorem Carries.bind {x : Except ε α} {y : Except ε' β} {f : α → Except ε γ} {g : β → Except ε' δ}
    (h : Carries r x y) (hf : ∀ a b, r a b → Carries q (f a) (g b)) :
    Carries q (x >>= f) (y >>= g) := by
  intro c hc
  obtain ⟨a, ha, hfa⟩ := bind_eq_ok hc
  obtain ⟨b, rfl, hab⟩ := h a ha
  exact hf a b hab c hfa

/-- What is behind computations that succeed with the same result. -/
theorem Carries.bind_eq {x : Except ε α} {y : Except ε' α} {f : α → Except ε γ}
    {g : α → Except ε' δ} (h : Carries (fun a b => a = b) x y) (hf : ∀ a, Carries q (f a) (g a)) :
    Carries q (x >>= f) (y >>= g) :=
  h.bind fun a _ hab => hab ▸ hf a

end

/-! ### One computation -/

/-- If there is a result it is good, and if there is none that has an allowed reason. -/
def Settles (allowed : ε → Prop) (good : α → Prop) : Except ε α → Prop
  | .ok a => good a
  | .error e => allowed e

section

variable {allowed : ε → Prop} {good : α → Prop} {good' : β → Prop} {x : Except ε α}

theorem Settles.bind {f : α → Except ε β} (h : Settles allowed good x)
    (hf : ∀ a, good a → Settles allowed good' (f a)) : Settles allowed good' (x >>= f) := by
  cases x with
  | ok a => exact hf a h
  | error e => exact h

theorem Settles.mono {allowed' : ε → Prop} {good' : α → Prop} (h : Settles allowed good x)
    (hallowed : ∀ e, allowed e → allowed' e) (hgood : ∀ a, good a → good' a) :
    Settles allowed' good' x := by
  cases x with
  | ok a => exact hgood a h
  | error e => exact hallowed e h

theorem Settles.map {f : α → β} (h : Settles allowed good x) (hf : ∀ a, good a → good' (f a)) :
    Settles allowed good' (x.map f) := by
  cases x with
  | ok a => exact hf a h
  | error e => exact h

theorem Settles.mapError {allowed' : ε' → Prop} {f : ε → ε'} (h : Settles allowed good x)
    (hf : ∀ e, allowed e → allowed' (f e)) : Settles allowed' good (x.mapError f) := by
  cases x with
  | ok a => exact h
  | error e => exact hf e h

theorem settles_mapM {f : α → Except ε β} {as : List α} (h : ∀ a ∈ as, Settles allowed good' (f a)) :
    Settles allowed (fun bs => ∀ b ∈ bs, good' b) (as.mapM f) := by
  induction as with
  | nil => exact fun b hb => absurd hb List.not_mem_nil
  | cons a as ih =>
      rw [List.mapM_cons]
      refine (h a List.mem_cons_self).bind fun b hb => ?_
      refine (ih fun a ha => h a (List.mem_cons_of_mem _ ha)).bind fun bs hbs => ?_
      exact List.forall_mem_cons.2 ⟨hb, hbs⟩

/-- There is a good result. -/
abbrev Succeeds (good : α → Prop) (x : Except ε α) : Prop := Settles (fun _ => False) good x

/-- What succeeds has no reason to fail, however the reasons are put. -/
theorem Succeeds.mapError (h : Succeeds good x) (f : ε → ε') {allowed' : ε' → Prop} :
    Settles allowed' good (x.mapError f) :=
  Settles.mapError h fun _ hfalse => hfalse.elim

end

/-! ### Things that may be missing -/

theorem rel_mono {r q : α → β → Prop} (h : ∀ a b, r a b → q a b) {x : Option α} {y : Option β}
    (hxy : Option.Rel r x y) : Option.Rel q x y := by
  cases hxy with
  | none => exact .none
  | some hab => exact .some (h _ _ hab)

/-- Both are missing on some condition, and are related otherwise. -/
theorem rel_ite_none {r : α → β → Prop} {p : Prop} [Decidable p] {x : Option α} {y : Option β}
    (h : Option.Rel r x y) : Option.Rel r (if p then none else x) (if p then none else y) := by
  split
  · exact .none
  · exact h

theorem rel_isSome {r : α → β → Prop} {x : Option α} {y : Option β} (h : Option.Rel r x y) :
    x.isSome = y.isSome := by
  cases h <;> rfl

end PartScript
