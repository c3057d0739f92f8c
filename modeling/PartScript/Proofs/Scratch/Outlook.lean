import PartScript.Proofs.Store
import PartScript.Proofs.Value.Parts

/-!
Stores with the same outlook. In a store where every scope is younger than its parent, a name is looked up one
scope at a time. If two stores differ in a single scope, and the same is seen from that scope in both, then
the same is seen from every scope, and this stays so when younger scopes are opened and written to. A scope
that holds a copy of what another one sees has the same outlook as an empty scope inside that other one.
-/

namespace PartScript

/-! ### Functions -/

/-- All functions among some parts were made in the first scopes, as many as given. -/
def Made (b : Nat) (parts : List Part) : Prop := ∀ c, .function c ∈ parts → c.scope < b

section

variable {b b' : Nat} {parts parts' : List Part}

theorem made_nil : Made b [] := fun _ hc => absurd hc List.not_mem_nil

theorem Made.mono (hb : b ≤ b') (h : Made b parts) : Made b' parts :=
  fun c hc => Nat.lt_of_lt_of_le (h c hc) hb

theorem Made.subset (h : Made b parts) (hsub : ∀ part ∈ parts', part ∈ parts) : Made b parts' :=
  fun c hc => h c (hsub _ hc)

theorem made_append : Made b (parts ++ parts') ↔ Made b parts ∧ Made b parts' := by
  simp only [Made, List.mem_append, or_imp, forall_and]

end

/-- Every scope is younger than its parent, and every function that is bound, perhaps deep inside a value,
was made in one of the scopes. -/
structure Store.Whole (s : Store) : Prop where
  linked : s.Linked
  made : Made s.scopes.size s.parts

/-! ### Two stores -/

/-- The stores have the same scopes apart from one, from which the same is seen in both. -/
structure Store.Mirrors (n : Nat) (s t : Store) : Prop where
  size : s.scopes.size = t.scopes.size
  same : ∀ id, id ≠ n → s.scope? id = t.scope? id
  seen : ∀ name, s.get? n name = t.get? n name
  lt : n < s.scopes.size
  whole : s.Whole
  linked : t.Linked

namespace Store

variable {n : Nat} {s t : Store}

/-- The same is seen from every scope. -/
theorem Mirrors.get? (h : s.Mirrors n t) (id : Nat) (name : String) :
    s.get? id name = t.get? id name := by
  induction id using Nat.strongRecOn with
  | ind id ih =>
      by_cases hid : id = n
      · rw [hid, h.seen name]
      · have hsame := h.same id hid
        cases hscope : s.scope? id with
        | none => rw [get?_of_scope?_eq_none hscope, get?_of_scope?_eq_none (hsame ▸ hscope)]
        | some scope =>
            rw [h.whole.linked.get?_eq hscope, h.linked.get?_eq (hsame ▸ hscope)]
            cases hparent : scope.parent with
            | none => rfl
            | some p =>
                rw [Option.bind_some, Option.bind_some, ih p (h.whole.linked id scope hscope p hparent)]

theorem Mirrors.isLocal (h : s.Mirrors n t) {id : Nat} (hid : n < id) (name : String) :
    s.isLocal id name = t.isLocal id name := by
  rw [Store.isLocal, Store.isLocal, h.same id (Nat.ne_of_gt hid)]

theorem Whole.bind (h : s.Whole) (id : Nat) (name : String) {v : Value}
    (hv : Made s.scopes.size v.parts) : (s.bind id name v).Whole where
  linked := h.linked.bind id name v
  made c hc := by
    rw [size_bind]
    exact (mem_parts_bind hc).elim (h.made c) (hv c)

theorem Whole.openChild (h : s.Whole) {parent : Nat} (hparent : parent < s.scopes.size)
    (name : String) : (s.openChild parent name).1.Whole where
  linked := h.linked.openChild hparent name
  made := by
    rw [parts_openChild]
    refine h.made.mono ?_
    simp [Store.openChild, push]

/-- A younger scope gains a binding in both stores. -/
theorem Mirrors.bind (h : s.Mirrors n t) {id : Nat} (hid : n < id) (name : String) {v : Value}
    (hv : Made s.scopes.size v.parts) : (s.bind id name v).Mirrors n (t.bind id name v) := by
  have hs := h.whole.bind id name hv
  have ht := h.linked.bind id name v
  refine ⟨?_, fun place hplace => ?_, fun x => ?_, ?_, hs, ht⟩
  · rw [size_bind, size_bind, h.size]
  · by_cases heq : place = id
    · subst heq
      have hsame := h.same place hplace
      simp only [scope?, Store.bind, Array.getElem?_modify] at hsame ⊢
      rw [hsame]
    · rw [scope?_bind_of_ne heq, scope?_bind_of_ne heq, h.same place hplace]
  · -- The scope is younger than the one that is looked from.
    have hold (s : Store) : ∀ place ≤ n, (s.bind id name v).scope? place = s.scope? place :=
      fun place hle => scope?_bind_of_ne (by omega) s name v
    rw [hs.linked.get?_congr h.whole.linked (hold s), ht.get?_congr h.linked (hold t), h.seen]
  · rw [size_bind]
    exact h.lt

/-- A scope is opened in both stores. -/
theorem Mirrors.openChild (h : s.Mirrors n t) {parent : Nat} (hparent : parent < s.scopes.size)
    (name : String) : (s.openChild parent name).1.Mirrors n (t.openChild parent name).1 := by
  have hs := h.whole.openChild hparent name
  have ht := h.linked.openChild (h.size ▸ hparent) name
  refine ⟨?_, fun place hplace => ?_, fun x => ?_, ?_, hs, ht⟩
  · simp only [Store.openChild, push, Array.size_push, h.size]
  · have hsame := h.same place hplace
    simp only [scope?, Store.openChild, push, Array.getElem?_push, h.size] at hsame ⊢
    rw [hsame]
  · have hold {s : Store} (hlt : n < s.scopes.size) :
        ∀ place ≤ n, (s.openChild parent name).1.scope? place = s.scope? place :=
      fun place hle => Pass.scope?_push_of_lt (by omega)
    rw [hs.linked.get?_congr h.whole.linked (hold h.lt),
      ht.get?_congr h.linked (hold (h.size ▸ h.lt)), h.seen]
  · exact Nat.lt_of_lt_of_le h.lt (by simp [Store.openChild, push])

end Store

end PartScript
