import Mathlib.Data.List.Forall2
import PartScript.Proofs.Pass.Frame

/-!
Stores side by side. Two stores match if they have the same scopes, with the same parents, which bind
the same names to values that are related; every name then means related values in them. In a store
where every scope is younger than its parent, what is seen from a scope depends on that scope and older
ones alone.
-/

namespace PartScript

open List (Forall₂)

/-- The scopes have the same parent and bind the same names to related values. -/
structure Scope.Matches (r : Value → Value → Prop) (s t : Scope) : Prop where
  parent : s.parent = t.parent
  bindings : Forall₂ (fun b b' => b.1 = b'.1 ∧ r b.2 b'.2) s.bindings t.bindings

/-- The stores have matching scopes in the same places. -/
structure Store.Matches (r : Value → Value → Prop) (s t : Store) : Prop where
  size : s.scopes.size = t.scopes.size
  scope? : ∀ id, Option.Rel (Scope.Matches r) (s.scope? id) (t.scope? id)

variable {r q : Value → Value → Prop}

theorem Scope.Matches.mono (hrq : ∀ v w, r v w → q v w) {s t : Scope} (h : s.Matches r t) :
    s.Matches q t :=
  ⟨h.parent, h.bindings.imp fun _ _ hb => ⟨hb.1, hrq _ _ hb.2⟩⟩

theorem Store.Matches.mono (hrq : ∀ v w, r v w → q v w) {s t : Store} (h : s.Matches r t) :
    s.Matches q t :=
  ⟨h.size, fun id => rel_mono (fun _ _ => .mono hrq) (h.scope? id)⟩

/-! ### Names -/

theorem Scope.Matches.get? {s t : Scope} (h : s.Matches r t) (name : String) :
    Option.Rel r (s.get? name) (t.get? name) := by
  have hbindings := h.bindings
  unfold Scope.get?
  generalize s.bindings = bs at hbindings
  generalize t.bindings = cs at hbindings
  induction hbindings with
  | nil => exact .none
  | @cons b c bs cs hbc _ ih =>
      obtain ⟨n, v⟩ := b
      obtain ⟨n', v'⟩ := c
      obtain ⟨rfl, hv⟩ : n = n' ∧ r v v' := hbc
      simp only [List.find?_cons]
      cases n == name with
      | true => exact .some hv
      | false => exact ih

theorem Store.Matches.isLocal {s t : Store} (h : s.Matches r t) (id : Nat) (name : String) :
    s.isLocal id name = t.isLocal id name := by
  have hscope := h.scope? id
  unfold Store.isLocal
  generalize s.scope? id = x at hscope
  generalize t.scope? id = y at hscope
  cases hscope with
  | none => rfl
  | some hst => exact rel_isSome (hst.get? name)

theorem Store.Matches.chainWithin {s t : Store} (h : s.Matches r t) (fuel id : Nat) :
    s.chainWithin fuel id = t.chainWithin fuel id := by
  induction fuel generalizing id with
  | zero => rfl
  | succ fuel ih =>
      have hscope := h.scope? id
      simp only [Store.chainWithin]
      generalize s.scope? id = x at hscope
      generalize t.scope? id = y at hscope
      cases hscope with
      | none => rfl
      | some hst =>
          simp only [hst.parent]
          split
          · rfl
          · rw [ih]

/-- A name is bound to related values, seen from the same scope. -/
theorem Store.Matches.get? {s t : Store} (h : s.Matches r t) (id : Nat) (name : String) :
    Option.Rel r (s.get? id name) (t.get? id name) := by
  have hchain : s.chain id = t.chain id := h.chainWithin _ _
  simp only [Store.get?, Store.view, ← hchain]
  generalize s.chain id = places
  -- Along the chain, each scope either answers in both stores or in neither.
  induction places with
  | nil => exact .none
  | cons place places ih =>
      have hscope := h.scope? place
      simp only [List.filterMap_cons]
      generalize s.scope? place = x at hscope
      generalize t.scope? place = y at hscope
      cases hscope with
      | none => exact ih
      | @some a b hab =>
          have hget := hab.get? name
          simp only [List.findSome?_cons]
          generalize a.get? name = x at hget
          generalize b.get? name = y at hget
          cases hget with
          | none => exact ih
          | some hv => exact .some hv

/-- Scopes in the same place bind values that look the same, if related values do. -/
theorem Store.Matches.bound {α : Type} {look look' : Value → α} (hr : ∀ v w, r v w → look v = look' w)
    {s t : Store} (h : s.Matches r t) (id : Nat) :
    ((s.localBindings id).map fun b => (b.1, look b.2)) =
      (t.localBindings id).map fun b => (b.1, look' b.2) := by
  have hscope := h.scope? id
  unfold Store.localBindings
  generalize s.scope? id = x at hscope
  generalize t.scope? id = y at hscope
  cases hscope with
  | none => rfl
  | @some a b hab =>
      have hbindings := hab.bindings
      simp only [Option.map_some, Option.getD_some]
      generalize a.bindings = bs at hbindings
      generalize b.bindings = cs at hbindings
      induction hbindings with
      | nil => rfl
      | cons hbc _ ih => rw [List.map_cons, List.map_cons, ih, hbc.1, hr _ _ hbc.2]

/-- A store matches itself if every value is related to itself. -/
theorem Store.matches_self (hr : ∀ v, r v v) (s : Store) : s.Matches r s := by
  refine ⟨rfl, fun id => ?_⟩
  cases s.scope? id with
  | none => exact .none
  | some scope => exact .some ⟨rfl, List.forall₂_same.2 fun b _ => ⟨rfl, hr b.2⟩⟩

/-! ### Bindings and new scopes -/

theorem Scope.Matches.bind {s t : Scope} (h : s.Matches r t) (name : String) {v w : Value}
    (hv : r v w) : (s.bind name v).Matches r (t.bind name w) :=
  ⟨h.parent, List.rel_append h.bindings (.cons ⟨rfl, hv⟩ .nil)⟩

theorem Store.Matches.bind {s t : Store} (h : s.Matches r t) (id : Nat) (name : String)
    {v w : Value} (hv : r v w) : (s.bind id name v).Matches r (t.bind id name w) := by
  refine ⟨by simp only [Store.bind, Array.size_modify, h.size], fun place => ?_⟩
  have hscope := h.scope? place
  simp only [Store.scope?, Store.bind, Array.getElem?_modify] at hscope ⊢
  split
  · generalize s.scopes[place]? = x at hscope
    generalize t.scopes[place]? = y at hscope
    cases hscope with
    | none => exact .none
    | some hst => exact .some (hst.bind name hv)
  · exact hscope

theorem Store.Matches.openChild {s t : Store} (h : s.Matches r t) (parent : Nat) (name : String) :
    (s.openChild parent name).1.Matches r (t.openChild parent name).1 := by
  refine ⟨?_, fun place => ?_⟩
  · simp only [Store.openChild, Store.push, Array.size_push, h.size]
  · have hscope := h.scope? place
    simp only [Store.scope?, Store.openChild, Store.push, Array.getElem?_push, h.size] at hscope ⊢
    split
    · exact .some ⟨rfl, .nil⟩
    · exact hscope

/-! ### Parents -/

/-- Every scope is younger than its parent. -/
def Store.Linked (s : Store) : Prop :=
  ∀ id scope, s.scope? id = some scope → ∀ p, scope.parent = some p → p < id

theorem Store.Linked.bind {s : Store} (h : s.Linked) (id : Nat) (name : String) (v : Value) :
    (s.bind id name v).Linked := by
  intro place scope hscope p hp
  simp only [Store.scope?, Store.bind, Array.getElem?_modify] at hscope
  split at hscope
  · obtain ⟨old, hold, rfl⟩ := Option.map_eq_some_iff.1 hscope
    exact h place old hold p hp
  · exact h place scope hscope p hp

theorem Store.Linked.push {s : Store} (h : s.Linked) {scope : Scope}
    (hparent : ∀ p, scope.parent = some p → p < s.scopes.size) : (s.push scope).1.Linked := by
  intro place other hother p hp
  simp only [Store.scope?, Store.push, Array.getElem?_push] at hother
  split at hother
  · next hplace =>
    obtain rfl := Option.some.inj hother
    exact hplace ▸ hparent p hp
  · exact h place other hother p hp

theorem Store.Linked.openChild {s : Store} (h : s.Linked) {parent : Nat}
    (hparent : parent < s.scopes.size) (name : String) : (s.openChild parent name).1.Linked :=
  h.push fun _ hp => Option.some.inj hp ▸ hparent

/-- A scope and another one inside it. -/
theorem Store.linked_pair (outer inner : String) (bs bs' : List (String × Value)) :
    Store.Linked ⟨#[⟨none, outer, bs⟩, ⟨some 0, inner, bs'⟩]⟩ := by
  intro id scope hscope p hp
  match id with
  | 0 =>
      cases hscope
      cases hp
  | 1 =>
      cases hscope
      cases hp
      exact Nat.zero_lt_one
  | _ + 2 => cases hscope

/-! ### Looking up -/

namespace Store

variable {s t : Store}

theorem chainWithin_succ (s : Store) (fuel id : Nat) :
    s.chainWithin (fuel + 1) id = match s.scope? id with
      | none => []
      | some scope => id :: (scope.parent.map (s.chainWithin fuel)).getD [] := by
  rw [chainWithin]
  cases s.scope? id with
  | none => rfl
  | some scope =>
      dsimp only
      cases scope.parent <;> rfl

/-- The chain of a scope is a matter of parents alone, and every scope in it was there when its first one was. -/
theorem Linked.chainWithin (h : s.Linked)
    (hsame : ∀ id, id < s.scopes.size → (t.scope? id).map (·.parent) = (s.scope? id).map (·.parent)) {id : Nat}
    (hid : id < s.scopes.size) (fuel : Nat) :
    t.chainWithin fuel id = s.chainWithin fuel id ∧
      ∀ place ∈ s.chainWithin fuel id, place < s.scopes.size := by
  induction fuel generalizing id with
  | zero => exact ⟨rfl, fun _ hplace => absurd hplace List.not_mem_nil⟩
  | succ fuel ih =>
      have hparents := hsame id hid
      rw [chainWithin_succ, chainWithin_succ]
      cases hscope : s.scope? id with
      | none =>
          rw [hscope] at hparents
          rw [Option.map_eq_none_iff.1 hparents]
          exact ⟨rfl, fun _ hplace => absurd hplace List.not_mem_nil⟩
      | some scope =>
          rw [hscope] at hparents
          obtain ⟨other, hother, hparents⟩ := Option.map_eq_some_iff.1 hparents
          have hparents : other.parent = scope.parent := hparents
          rw [hother]
          dsimp only
          rw [hparents]
          cases hparent : scope.parent with
          | none => exact ⟨rfl, by simpa using hid⟩
          | some p =>
              have hlt := h id scope hscope p hparent
              obtain ⟨hrest, hbound⟩ := ih (Nat.lt_trans hlt hid)
              simp only [Option.map_some, Option.getD_some, hrest, List.mem_cons, forall_eq_or_imp]
              exact ⟨trivial, hid, hbound⟩

theorem Linked.lt_of_mem_chain (h : s.Linked) {id place : Nat} (hid : id < s.scopes.size)
    (hplace : place ∈ s.chain id) : place < s.scopes.size :=
  (h.chainWithin (fun _ _ => rfl) hid (id + 1)).2 place hplace

/-- From a scope the same scopes are seen as long as no parent changes, each as it is by then. -/
theorem Linked.view_eq (h : s.Linked)
    (hsame : ∀ id, id < s.scopes.size → (t.scope? id).map (·.parent) = (s.scope? id).map (·.parent)) {id : Nat}
    (hid : id < s.scopes.size) : t.view id = (s.chain id).filterMap t.scope? := by
  rw [view, chain, (h.chainWithin hsame hid (id + 1)).1, ← chain]

/-- What is seen from a scope stays the same as long as the scopes that were there do. -/
theorem Linked.get?_of_keeps (h : s.Linked) (hkeeps : Pass.Keeps (fun _ => False) s t) {id : Nat}
    (hid : id < s.scopes.size) (name : String) : t.get? id name = s.get? id name := by
  have hsame : ∀ id, id < s.scopes.size → t.scope? id = s.scope? id :=
    fun id hid => hkeeps.same id hid fun hfalse => hfalse
  have hview : t.view id = s.view id := by
    rw [h.view_eq (fun id hid => congrArg _ (hsame id hid)) hid, view]
    exact List.filterMap_congr fun place hplace => hsame place (h.lt_of_mem_chain hid hplace)
  rw [get?, get?, hview]

/-- A bound that is large enough does not matter. -/
theorem Linked.chainWithin_eq (h : s.Linked) {fuel id : Nat} (hid : id < fuel) :
    s.chainWithin fuel id = s.chain id := by
  induction id using Nat.strongRecOn generalizing fuel with
  | ind id ih =>
      obtain ⟨fuel, rfl⟩ : ∃ k, fuel = k + 1 := ⟨fuel - 1, by omega⟩
      rw [chain, chainWithin_succ, chainWithin_succ]
      cases hscope : s.scope? id with
      | none => rfl
      | some scope =>
          dsimp only
          cases hparent : scope.parent with
          | none => rfl
          | some p =>
              have hlt := h id scope hscope p hparent
              show id :: s.chainWithin fuel p = id :: s.chainWithin id p
              rw [ih p hlt (by omega), ih p hlt hlt]

theorem get?_of_scope?_eq_none {id : Nat} (h : s.scope? id = none) (name : String) :
    s.get? id name = none := by
  rw [get?, view, chain, chainWithin_succ, h]
  rfl

/-- A name is looked up in the scope itself and then in its parent. -/
theorem Linked.get?_eq (h : s.Linked) {id : Nat} {scope : Scope} (hscope : s.scope? id = some scope)
    (name : String) :
    s.get? id name = (scope.get? name).or (scope.parent.bind fun p => s.get? p name) := by
  rw [get?, view, chain, chainWithin_succ, hscope]
  dsimp only
  rw [List.filterMap_cons, hscope, List.findSome?_cons]
  cases scope.get? name with
  | some v => rfl
  | none =>
      cases hparent : scope.parent with
      | none => rfl
      | some p =>
          show ((s.chainWithin id p).filterMap s.scope?).findSome? (·.get? name) = s.get? p name
          rw [h.chainWithin_eq (h id scope hscope p hparent)]
          rfl

/-- What is seen from a scope depends on that scope and older ones. -/
theorem Linked.get?_congr (hs : s.Linked) (ht : t.Linked) {id : Nat}
    (h : ∀ place ≤ id, s.scope? place = t.scope? place) (name : String) :
    s.get? id name = t.get? id name := by
  induction id using Nat.strongRecOn with
  | ind id ih =>
      have hsame := h id (Nat.le_refl id)
      cases hscope : s.scope? id with
      | none =>
          rw [get?_of_scope?_eq_none hscope, get?_of_scope?_eq_none (hsame ▸ hscope)]
      | some scope =>
          rw [hs.get?_eq hscope, ht.get?_eq (hsame ▸ hscope)]
          cases hparent : scope.parent with
          | none => rfl
          | some p =>
              have hlt := hs id scope hscope p hparent
              rw [Option.bind_some, Option.bind_some, ih p hlt fun place hplace => h place (by omega)]

theorem scope?_push_self (s : Store) (scope : Scope) :
    (s.push scope).1.scope? s.scopes.size = some scope := by
  simp [push, scope?]

theorem scope?_push_of_ne {scope : Scope} {id : Nat} (h : id ≠ s.scopes.size) :
    (s.push scope).1.scope? id = s.scope? id := by
  simp [push, scope?, Array.getElem?_push, h]

theorem size_bind (s : Store) (id : Nat) (name : String) (v : Value) :
    (s.bind id name v).scopes.size = s.scopes.size := by
  simp [bind]

theorem scope?_bind_of_ne {id place : Nat} (h : place ≠ id) (s : Store) (name : String) (v : Value) :
    (s.bind id name v).scope? place = s.scope? place := by
  simp [scope?, bind, Array.getElem?_modify, Ne.symm h]

end Store

end PartScript
