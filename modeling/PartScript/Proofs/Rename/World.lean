import PartScript.Proofs.Library.Like
import PartScript.Proofs.Rename.Sight
import PartScript.Proofs.Twin.World

/-!
A script and the renamed one, run side by side. The runs open the same scopes in the same order. An
outlook says of each of them what a reference by the old name means there; it is fixed when a function
is entered and changes only when the function declares the name. The root of the second run binds the
new name in place of the old one, all other scopes bind the same names in both runs, and functions that
correspond have bodies of which the second is the first one renamed, as the sight of their scope has
it.
-/

namespace PartScript

open List (Forall₂)
open Edit (Renaming Sight)

/-! ### Outlooks -/

/-- The sight in each scope opened so far, and whether the script's binding may be called by now. -/
structure Outlook where
  sight : Nat → Option Sight
  calls : Bool

namespace Outlook

/-- What is known stays known, but a scope of one's own can come to hide the name. -/
structure Le (own : Option Nat) (o o' : Outlook) : Prop where
  sight : ∀ id σ, o.sight id = some σ →
    o'.sight id = some σ ∨ own = some id ∧ σ ≠ .clear ∧ o'.sight id = some .hidden
  calls : o.calls = true → o'.calls = true

variable {own : Option Nat} {o o' o'' : Outlook}

theorem Le.refl (own : Option Nat) (o : Outlook) : Le own o o := ⟨fun _ _ h => .inl h, id⟩

theorem Le.trans (h : Le own o o') (h' : Le own o' o'') : Le own o o'' := by
  refine ⟨fun id σ hσ => ?_, fun hcalls => h'.calls (h.calls hcalls)⟩
  rcases h.sight id σ hσ with hsame | ⟨hown, hne, hhidden⟩
  · exact h'.sight id σ hsame
  · refine .inr ⟨hown, hne, ?_⟩
    rcases h'.sight id _ hhidden with hsame | ⟨-, -, hhidden⟩
    · exact hsame
    · exact hhidden

theorem Le.any (h : Le none o o') (own : Option Nat) : Le own o o' := by
  refine ⟨fun id σ hσ => ?_, h.calls⟩
  rcases h.sight id σ hσ with hsame | ⟨hnone, -⟩
  · exact .inl hsame
  · cases hnone

theorem Le.same (h : Le none o o') {id : Nat} {σ : Sight} (hσ : o.sight id = some σ) :
    o'.sight id = some σ := by
  rcases h.sight id σ hσ with hsame | ⟨hnone, -⟩
  · exact hsame
  · cases hnone

theorem Le.clear (h : Le own o o') {id : Nat} (hσ : o.sight id = some .clear) :
    o'.sight id = some .clear := by
  rcases h.sight id _ hσ with hsame | ⟨-, hne, -⟩
  · exact hsame
  · exact absurd rfl hne

theorem Le.hidden (h : Le own o o') {id : Nat} (hσ : o.sight id = some .hidden) :
    o'.sight id = some .hidden := by
  rcases h.sight id _ hσ with hsame | ⟨-, -, hhidden⟩
  · exact hsame
  · exact hhidden

/-- The scope has a sight that is still good for a function made in it under another one. -/
def Grants (o : Outlook) (id : Nat) : Sight → Prop
  | .clear => o.sight id = some .clear
  | .hidden => o.sight id = some .hidden
  | .passing | .unsettled => ∃ σ, o.sight id = some σ

theorem grants_of_sight {id : Nat} {σ : Sight} (h : o.sight id = some σ) : o.Grants id σ := by
  cases σ with
  | clear | hidden => exact h
  | passing | unsettled => exact ⟨_, h⟩

theorem Grants.mono (hle : Le own o o') {id : Nat} {σ : Sight} (h : o.Grants id σ) :
    o'.Grants id σ := by
  have hsome : (∃ τ, o.sight id = some τ) → ∃ τ, o'.sight id = some τ := by
    rintro ⟨τ, hτ⟩
    rcases hle.sight id τ hτ with hsame | ⟨-, -, hhidden⟩
    · exact ⟨τ, hsame⟩
    · exact ⟨_, hhidden⟩
  cases σ with
  | clear => exact hle.clear h
  | hidden => exact hle.hidden h
  | passing | unsettled => exact hsome h

/-- The outlook once one more scope is open. -/
def opened (o : Outlook) (id : Nat) (σ : Sight) : Outlook :=
  { o with sight := fun k => if k = id then some σ else o.sight k }

/-- The outlook once a scope has come to hide the name. -/
def hide (o : Outlook) (id : Nat) : Outlook := o.opened id .hidden

theorem le_hide {id : Nat} {σ : Sight} (h : o.sight id = some σ) (hne : σ ≠ .clear) :
    Le (some id) o (o.hide id) := by
  refine ⟨fun k τ hτ => ?_, fun h => h⟩
  by_cases hk : k = id
  · subst hk
    obtain rfl : σ = τ := Option.some.inj (h.symm.trans hτ)
    exact .inr ⟨rfl, hne, if_pos rfl⟩
  · exact .inl ((if_neg hk).trans hτ)

theorem le_opened {id : Nat} (h : o.sight id = none) (σ : Sight) : Le none o (o.opened id σ) := by
  refine ⟨fun k τ hτ => .inl ?_, fun h => h⟩
  have hk : k ≠ id := fun hk => by rw [hk, h] at hτ; cases hτ
  exact (if_neg hk).trans hτ

end Outlook

/-! ### Functions, scopes and stores -/

/-- The second function is the first one renamed, as the sight in its scope has it. -/
structure Closure.Renamed (r : Renaming) (o : Outlook) (c c' : Closure) : Prop where
  params : c'.params = c.params
  scope : c'.scope = c.scope
  lacks : (∀ i ∈ c.params, i.name ≠ r.new) ∧ ∀ s ∈ c.body, s.Lacks r.new
  body : ∃ σ calls, o.Grants c.scope σ ∧ (calls = true → o.calls = true) ∧
    r.settledBody calls (σ.inside r c.params c.body) c.body = true ∧
    c'.body = r.bodyOf true (σ.inside r c.params c.body).hides c.body

/-- The values differ in functions, which are renamed in the second one. -/
abbrev Value.Renamed (r : Renaming) (o : Outlook) : Value → Value → Prop :=
  Value.Like (Closure.Renamed r o)

/-- The same for values in a row. -/
abbrev Value.RenamedAll (r : Renaming) (o : Outlook) : List Value → List Value → Prop :=
  Value.LikeAll (Closure.Renamed r o)

/-- The same for host data. -/
abbrev Host.Renamed (r : Renaming) (o : Outlook) : Host → Host → Prop :=
  Host.Like (Closure.Renamed r o)

/-- The name of a binding in a scope after renaming. Only the root has the script's bindings. -/
def boundName (r : Renaming) (id : Nat) (name : String) : String :=
  if id = 0 ∧ name = r.old then r.new else name

/-- The scopes bind the same names, up to renaming, and never the new one in the first run. -/
structure Scope.Renamed (r : Renaming) (o : Outlook) (id : Nat) (s t : Scope) : Prop where
  parent : s.parent = t.parent
  bindings : Forall₂ (fun b b' => b'.1 = boundName r id b.1 ∧ Value.Renamed r o b.2 b'.2)
    s.bindings t.bindings
  lacks : ∀ b ∈ s.bindings, b.1 ≠ r.new

/-- The scope bears out its sight. The root has the script's binding, which is a function if it may be
called and the library has one by the same name. -/
inductive Scope.Stands (r : Renaming) (library : Library) (o : Outlook) (s : Scope) : Nat → Prop
  | root (hparent : s.parent = none) (hsight : o.sight 0 = some .clear)
      (hdeclared : r.declared = false → s.get? r.old = none)
      (hcalls : o.calls = true → library.find? r.old = none ∨
        ∃ c trail, s.get? r.old = some (.mk (.function c) trail)) : Stands r library o s 0
  | below {id p : Nat} (hsight : o.sight id = some .clear ∨ o.sight id = some .passing)
      (hparent : s.parent = some p) (hlt : p < id) (hclear : o.sight p = some .clear)
      (hnone : s.get? r.old = none) : Stands r library o s id
  | covering {id : Nat} (hne : id ≠ 0) (hsight : o.sight id = some .hidden)
      (hsome : s.get? r.old ≠ none) : Stands r library o s id
  | shaded {id p : Nat} (hne : id ≠ 0) (hsight : o.sight id = some .hidden)
      (hparent : s.parent = some p) (hhidden : o.sight p = some .hidden) : Stands r library o s id
  | unsettled {id : Nat} (hne : id ≠ 0) (hsight : o.sight id = some .unsettled) :
      Stands r library o s id

/-- The stores have the same scopes, which bear out the outlook. -/
structure Store.Renamed (r : Renaming) (library : Library) (o : Outlook) (s t : Store) : Prop where
  size : s.scopes.size = t.scopes.size
  fresh : ∀ id, s.scopes.size ≤ id → o.sight id = none
  scope? : ∀ id, Option.Rel (fun a b => a.Renamed r o id b ∧ a.Stands r library o id)
    (s.scope? id) (t.scope? id)

section

variable {r : Renaming} {library : Library} {own : Option Nat} {o o' : Outlook}

theorem Closure.Renamed.mono (hle : o.Le own o') {c c' : Closure} (h : c.Renamed r o c') :
    c.Renamed r o' c' := by
  obtain ⟨σ, calls, hgrants, hcalls, hsettled, hbody⟩ := h.body
  exact ⟨h.params, h.scope, h.lacks, σ, calls, hgrants.mono hle, fun hc => hle.calls (hcalls hc),
    hsettled, hbody⟩

theorem Value.Renamed.mono (hle : o.Le own o') {v v' : Value} (h : v.Renamed r o v') :
    v.Renamed r o' v' :=
  Value.Like.mono (fun _ _ => .mono hle) h

theorem Value.RenamedAll.mono (hle : o.Le own o') {vs vs' : List Value}
    (h : Value.RenamedAll r o vs vs') : Value.RenamedAll r o' vs vs' :=
  Value.LikeAll.mono (fun _ _ => .mono hle) h

theorem Scope.Renamed.mono (hle : o.Le own o') {id : Nat} {s t : Scope} (h : s.Renamed r o id t) :
    s.Renamed r o' id t :=
  ⟨h.parent, h.bindings.imp fun _ _ hb => ⟨hb.1, hb.2.mono hle⟩, h.lacks⟩

theorem Scope.get?_eq_none_iff {s : Scope} {name : String} :
    s.get? name = none ↔ ∀ b ∈ s.bindings, b.1 ≠ name := by
  simp [Scope.get?]

theorem Scope.get?_bind_self {s : Scope} {name : String} {v : Value} (h : s.get? name = none) :
    (s.bind name v).get? name = some v := by
  simp only [Scope.get?, Option.map_eq_none_iff] at h
  simp [Scope.get?, Scope.bind, h]

theorem Scope.get?_bind_of_ne {s : Scope} {name other : String} {v : Value} (h : other ≠ name) :
    (s.bind other v).get? name = s.get? name := by
  simp [Scope.get?, Scope.bind, List.find?_append, h]

/-- Names that are bound by corresponding bindings are bound to values that correspond. -/
theorem Scope.Renamed.get? {id : Nat} {s t : Scope} (h : s.Renamed r o id t) {x y : String}
    (hxy : ∀ b ∈ s.bindings, b.1 = x ↔ boundName r id b.1 = y) :
    Option.Rel (Value.Renamed r o) (s.get? x) (t.get? y) := by
  have hbindings := h.bindings
  unfold Scope.get?
  generalize s.bindings = bs at hbindings hxy
  generalize t.bindings = cs at hbindings
  induction hbindings with
  | nil => exact .none
  | @cons b c bs cs hbc _ ih =>
      obtain ⟨n, v⟩ := b
      obtain ⟨n', v'⟩ := c
      obtain ⟨rfl, hv⟩ : n' = boundName r id n ∧ Value.Renamed r o v v' := hbc
      have hsame : (n == x) = (boundName r id n == y) := by
        rw [Bool.eq_iff_iff, beq_iff_eq, beq_iff_eq]
        exact hxy (n, v) List.mem_cons_self
      simp only [List.find?_cons, hsame]
      cases boundName r id n == y with
      | true => exact .some hv
      | false => exact ih fun b hb => hxy b (List.mem_cons_of_mem _ hb)

theorem Scope.Renamed.bind {id : Nat} {s t : Scope} (h : s.Renamed r o id t) {name : String}
    (hname : name ≠ r.new) {v v' : Value} (hv : v.Renamed r o v') :
    (s.bind name v).Renamed r o id (t.bind (boundName r id name) v') := by
  refine ⟨h.parent, List.rel_append h.bindings (.cons ⟨rfl, hv⟩ .nil), fun b hb => ?_⟩
  simp only [Scope.bind, List.mem_append, List.mem_singleton] at hb
  rcases hb with hb | rfl
  · exact h.lacks b hb
  · exact hname

/-! ### References -/

/-- A reference by one name in the first run and by another in the second means the same in a
scope. -/
inductive Outlook.Reads (r : Renaming) (o : Outlook) (id : Nat) : String → String → Prop
  | other {x : String} (hold : x ≠ r.old) (hnew : x ≠ r.new) : Outlook.Reads r o id x x
  | renamed (h : o.sight id = some .clear ∨ o.sight id = some .passing) :
      Outlook.Reads r o id r.old r.new
  | hidden (h : o.sight id = some .hidden) : Outlook.Reads r o id r.old r.old
  | undeclared (h : r.declared = false) : Outlook.Reads r o id r.old r.old

/-- A reference that finds nothing in a scope means the same in its parent. -/
theorem Outlook.Reads.parent {id p : Nat} {s : Scope} {x y : String} (h : o.Reads r id x y)
    (hstands : s.Stands r library o id) (hparent : s.parent = some p) (hnone : s.get? x = none) :
    o.Reads r p x y := by
  cases h with
  | other hold hnew => exact .other hold hnew
  | undeclared hdeclared => exact .undeclared hdeclared
  | renamed hsight =>
      cases hstands with
      | root hroot => rw [hroot] at hparent; cases hparent
      | below _ hbelow _ hclear =>
          obtain rfl : _ = p := Option.some.inj (hbelow.symm.trans hparent)
          exact .renamed (.inl hclear)
      | covering _ hhidden | shaded _ hhidden | unsettled _ hhidden =>
          rw [hhidden] at hsight
          simp at hsight
  | hidden hsight =>
      cases hstands with
      | root hroot => rw [hroot] at hparent; cases hparent
      | below hclear =>
          rw [hsight] at hclear
          simp at hclear
      | covering _ _ hsome => exact absurd hnone hsome
      | shaded _ _ hshaded hhidden =>
          obtain rfl : _ = p := Option.some.inj (hshaded.symm.trans hparent)
          exact .hidden hhidden
      | unsettled _ hunsettled => rw [hunsettled] at hsight; cases hsight

/-- In the scope itself the names are bound to values that correspond, or the old name is the script's
and this is the root. -/
theorem Scope.Renamed.get?_reads {id : Nat} {s t : Scope} (h : s.Renamed r o id t)
    (hstands : s.Stands r library o id) {x y : String} (hreads : o.Reads r id x y) :
    Option.Rel (Value.Renamed r o) (s.get? x) (t.get? y) := by
  -- Only the root renames its bindings, and no scope of the first run has the new name.
  refine h.get? fun b hb => ?_
  have hnew := h.lacks b hb
  unfold boundName
  cases hreads with
  | other hold hnew => grind
  | renamed hsight =>
      cases hstands with
      | root => grind
      | below _ _ _ _ hnone => grind [Scope.get?_eq_none_iff]
      | covering _ hhidden | shaded _ hhidden | unsettled _ hhidden =>
          rw [hhidden] at hsight
          simp at hsight
  | hidden hsight =>
      cases hstands with
      | root _ hclear => rw [hclear] at hsight; cases hsight
      | below _ _ hlt => grind
      | covering hne | shaded hne | unsettled hne => grind
  | undeclared hdeclared =>
      cases hstands with
      | root _ _ hnone => grind [Scope.get?_eq_none_iff]
      | below _ _ hlt => grind
      | covering hne | shaded hne | unsettled hne => grind

end

/-- What a name is bound to in a scope and its ancestors, as far as a bounded chain goes. -/
def Store.seek (s : Store) (fuel id : Nat) (name : String) : Option Value :=
  ((s.chainWithin fuel id).filterMap s.scope?).findSome? (·.get? name)

namespace Store

variable {s : Store} {a : Scope} {id p : Nat}

theorem get?_eq_seek (s : Store) (id : Nat) (name : String) :
    s.get? id name = s.seek (id + 1) id name := rfl

theorem seek_of_none (h : s.scope? id = none) (fuel : Nat) (name : String) :
    s.seek (fuel + 1) id name = none := by
  simp [seek, chainWithin, h]

theorem seek_of_root (h : s.scope? id = some a) (hparent : a.parent = none) (fuel : Nat)
    (name : String) : s.seek (fuel + 1) id name = a.get? name := by
  simp [seek, chainWithin, h, hparent]

theorem seek_of_child (h : s.scope? id = some a) (hparent : a.parent = some p) (fuel : Nat)
    (name : String) : s.seek (fuel + 1) id name = (a.get? name).or (s.seek fuel p name) := by
  simp only [seek, chainWithin, h, hparent, List.filterMap_cons, List.findSome?_cons]
  cases a.get? name <;> rfl

end Store

section

variable {r : Renaming} {library : Library} {own : Option Nat} {o o' : Outlook} {s t : Store}

theorem Store.Renamed.scope_cases (h : s.Renamed r library o t) (id : Nat) :
    (s.scope? id = none ∧ t.scope? id = none) ∨
      ∃ a b, s.scope? id = some a ∧ t.scope? id = some b ∧ a.Renamed r o id b ∧
        a.Stands r library o id := by
  have hscope := h.scope? id
  generalize s.scope? id = x at hscope
  generalize t.scope? id = y at hscope
  cases hscope with
  | none => exact .inl ⟨rfl, rfl⟩
  | some hab => exact .inr ⟨_, _, rfl, rfl, hab⟩

theorem Store.Renamed.exists_scope (h : s.Renamed r library o t) {id : Nat} {σ : Sight}
    (hσ : o.sight id = some σ) :
    ∃ a b, s.scope? id = some a ∧ t.scope? id = some b ∧ a.Renamed r o id b ∧
      a.Stands r library o id := by
  refine (h.scope_cases id).resolve_left fun ⟨hnone, _⟩ => ?_
  rw [h.fresh id (Array.getElem?_eq_none_iff.1 hnone)] at hσ
  cases hσ

theorem rel_or {α β : Type} {q : α → β → Prop} {x x' : Option α} {y y' : Option β}
    (h : Option.Rel q x y) (h' : x = none → Option.Rel q x' y') :
    Option.Rel q (x.or x') (y.or y') := by
  cases h with
  | some hxy => exact .some hxy
  | none => exact h' rfl

/-- References that mean the same find values that correspond. -/
theorem Store.Renamed.seek (h : s.Renamed r library o t) (fuel : Nat) {id : Nat} {x y : String}
    (hreads : o.Reads r id x y) :
    Option.Rel (Value.Renamed r o) (s.seek fuel id x) (t.seek fuel id y) := by
  induction fuel generalizing id with
  | zero => exact .none
  | succ fuel ih =>
      rcases h.scope_cases id with ⟨hs, ht⟩ | ⟨a, b, hs, ht, hab, hstands⟩
      · rw [seek_of_none hs, seek_of_none ht]
        exact .none
      · have hget := hab.get?_reads hstands hreads
        cases hparent : a.parent with
        | none =>
            rw [seek_of_root hs hparent, seek_of_root ht (hab.parent ▸ hparent)]
            exact hget
        | some p =>
            rw [seek_of_child hs hparent, seek_of_child ht (hab.parent ▸ hparent)]
            exact rel_or hget fun hnone => ih (hreads.parent hstands hparent hnone)

/-- Where the script's binding is in sight, the old name means what it means in the root. -/
theorem Store.Renamed.seek_clear (h : s.Renamed r library o t) {fuel id : Nat} (hlt : id < fuel)
    (hsight : o.sight id = some .clear ∨ o.sight id = some .passing) :
    ∃ root : Scope, root.Stands r library o 0 ∧ s.seek fuel id r.old = root.get? r.old := by
  induction fuel generalizing id with
  | zero => cases hlt
  | succ fuel ih =>
      obtain ⟨σ, hσ⟩ : ∃ σ, o.sight id = some σ := hsight.elim (⟨_, ·⟩) (⟨_, ·⟩)
      obtain ⟨a, b, hs, -, -, hstands⟩ := h.exists_scope hσ
      cases hstands with
      | root hparent hclear hdeclared hcalls =>
          exact ⟨a, .root hparent hclear hdeclared hcalls, seek_of_root hs hparent _ _⟩
      | below _ hparent hbelow hclear hnone =>
          obtain ⟨root, hroot, hseek⟩ := ih (Nat.lt_of_lt_of_le hbelow (Nat.lt_succ_iff.1 hlt))
            (.inl hclear)
          rw [seek_of_child hs hparent, hnone, Option.none_or]
          exact ⟨root, hroot, hseek⟩
      | covering _ hhidden | shaded _ hhidden | unsettled _ hhidden =>
          rw [hhidden] at hsight
          simp at hsight

/-- The script's binding is a function where it may be called, or the library has none by its name. -/
theorem Store.Renamed.function_of_calls (h : s.Renamed r library o t) (hcalls : o.calls = true)
    {id : Nat} (hsight : o.sight id = some .clear ∨ o.sight id = some .passing) :
    library.find? r.old = none ∨ ∃ c trail, s.get? id r.old = some (.mk (.function c) trail) := by
  obtain ⟨root, hroot, hseek⟩ := h.seek_clear (Nat.lt_succ_self id) hsight
  rw [get?_eq_seek, hseek]
  cases hroot with
  | root _ _ _ hfunction => exact hfunction hcalls
  | below _ _ hlt => exact absurd hlt (Nat.not_lt_zero _)
  | covering hne | shaded hne | unsettled hne => exact absurd rfl hne

/-! ### Bindings and new scopes -/

theorem Store.Renamed.isLocal (h : s.Renamed r library o t) (id : Nat) {name : String}
    (hname : name ≠ r.new) : s.isLocal id name = t.isLocal id (boundName r id name) := by
  unfold Store.isLocal
  rcases h.scope_cases id with ⟨hs, ht⟩ | ⟨a, b, hs, ht, hab, -⟩
  · rw [hs, ht]
    rfl
  · rw [hs, ht]
    refine rel_isSome (hab.get? fun b hb => ?_)
    have hnew := hab.lacks b hb
    unfold boundName
    grind

theorem Scope.Stands.mono {id : Nat} {a : Scope} (h : a.Stands r library o id) (hle : o.Le own o')
    (hsame : o'.sight id = o.sight id) (hcalls : id = 0 → o'.calls = true → o.calls = true) :
    a.Stands r library o' id := by
  cases h with
  | root hparent hsight hdeclared hfunction =>
      exact .root hparent (hsame.trans hsight) hdeclared fun hc => hfunction (hcalls rfl hc)
  | below hsight hparent hlt hclear hnone =>
      exact .below (hsame ▸ hsight) hparent hlt (hle.clear hclear) hnone
  | covering hne hsight hsome => exact .covering hne (hsame.trans hsight) hsome
  | shaded hne hsight hparent hhidden =>
      exact .shaded hne (hsame.trans hsight) hparent (hle.hidden hhidden)
  | unsettled hne hsight => exact .unsettled hne (hsame.trans hsight)

/-- Binding a name in a scope keeps the stores what they are if the scope bears out its sight
afterwards. -/
theorem Store.Renamed.bind (h : s.Renamed r library o t) {id : Nat} {σ : Sight}
    (hσ : o.sight id = some σ) (hle : o.Le (some id) o')
    (hsame : ∀ k, k ≠ id → o'.sight k = o.sight k)
    (hcalls : id ≠ 0 → o'.calls = true → o.calls = true) {name : String} (hname : name ≠ r.new)
    {v v' : Value} (hv : v.Renamed r o' v')
    (hstands : ∀ a, s.scope? id = some a → a.Stands r library o id →
      (a.bind name v).Stands r library o' id) :
    (s.bind id name v).Renamed r library o' (t.bind id (boundName r id name) v') := by
  obtain ⟨a, b, hs, ht, hab, ha⟩ := h.exists_scope hσ
  refine ⟨by simp only [Store.bind, Array.size_modify, h.size], fun k hk => ?_, fun k => ?_⟩
  · simp only [Store.bind, Array.size_modify] at hk
    have hne : k ≠ id := fun hkid => by
      rw [← hkid, h.fresh k hk] at hσ
      cases hσ
    rw [hsame k hne, h.fresh k hk]
  · simp only [Store.scope?, Store.bind, Array.getElem?_modify] at hs ht ⊢
    by_cases hk : id = k
    · subst hk
      simp only [if_pos, hs, ht, Option.map_some]
      exact .some ⟨(hab.mono hle).bind hname hv, hstands a hs ha⟩
    -- The other scopes are as before, under an outlook that says the same of them.
    · simp only [if_neg hk]
      refine rel_mono (fun a b hab => ?_) (h.scope? k)
      refine ⟨hab.1.mono hle, hab.2.mono hle (hsame k (Ne.symm hk)) ?_⟩
      exact fun hzero => hcalls fun hid => hk (hid.trans hzero.symm)

/-- Any name but the old one. -/
theorem Store.Renamed.bind_other (h : s.Renamed r library o t) {id : Nat} {σ : Sight}
    (hσ : o.sight id = some σ) {name : String} (hname : name ≠ r.new) (hother : name ≠ r.old)
    {v v' : Value} (hv : v.Renamed r o v') :
    (s.bind id name v).Renamed r library o (t.bind id name v') := by
  have hbound : boundName r id name = name := if_neg fun hboth => hother hboth.2
  have hbind := h.bind hσ (.refl _ o) (fun _ _ => rfl) (fun _ hc => hc) hname hv ?_
  · rw [hbound] at hbind
    exact hbind
  · intro a _ ha
    have hget : (a.bind name v).get? r.old = a.get? r.old := Scope.get?_bind_of_ne hother
    cases ha with
    | root hparent hsight hdeclared hcalls =>
        exact .root hparent hsight (hget ▸ hdeclared) (hget ▸ hcalls)
    | below hsight hparent hlt hclear hnone =>
        exact .below hsight hparent hlt hclear (hget.trans hnone)
    | covering hne hsight hsome => exact .covering hne hsight (hget ▸ hsome)
    | shaded hne hsight hparent hhidden => exact .shaded hne hsight hparent hhidden
    | unsettled hne hsight => exact .unsettled hne hsight

/-- The old name, in a scope that may come to hide it. -/
theorem Store.Renamed.bind_hiding (h : s.Renamed r library o t) {id : Nat} {σ : Sight}
    (hid : id ≠ 0) (hσ : o.sight id = some σ) (hne : σ ≠ .clear) (hnew : r.old ≠ r.new)
    {v v' : Value} (hv : v.Renamed r o v') :
    (s.bind id r.old v).Renamed r library (o.hide id) (t.bind id r.old v') := by
  have hbound : boundName r id r.old = r.old := if_neg fun hboth => hid hboth.1
  have hle := Outlook.le_hide hσ hne
  have hbind := h.bind hσ hle (fun k hk => if_neg hk) (fun _ hc => hc) hnew (hv.mono hle) ?_
  · rw [hbound] at hbind
    exact hbind
  · intro a _ _
    refine .covering hid (if_pos rfl) fun hnone => ?_
    exact Scope.get?_eq_none_iff.1 hnone (r.old, v) (by simp [Scope.bind]) rfl

/-- The old name, in the root: the second run binds the new one. From then on the binding may be called
if it is a function. -/
theorem Store.Renamed.bind_script (h : s.Renamed r library o t) (hdeclared : r.declared = true)
    (hσ : o.sight 0 = some .clear) (hnew : r.old ≠ r.new) (hlocal : s.isLocal 0 r.old = false)
    {v v' : Value} {calls : Bool} (hle : o.calls = true → calls = true)
    (hcalls : calls = true → o.calls = true ∨ ∃ c trail, v = .mk (.function c) trail)
    (hv : v.Renamed r { o with calls := calls } v') :
    (s.bind 0 r.old v).Renamed r library { o with calls := calls } (t.bind 0 r.new v') := by
  have hbound : boundName r 0 r.old = r.new := if_pos ⟨rfl, rfl⟩
  have hlater : o.Le (some 0) { o with calls := calls } := ⟨fun _ _ hσ => .inl hσ, hle⟩
  have hbind := h.bind hσ hlater (fun _ _ => rfl) (fun hne => absurd rfl hne) hnew hv ?_
  · rw [hbound] at hbind
    exact hbind
  · intro a ha hstands
    have hnone : a.get? r.old = none := by
      simpa [Store.isLocal, ha] using hlocal
    -- The name was free, so what is bound now is what is found from now on.
    have hself : (a.bind r.old v).get? r.old = some v := Scope.get?_bind_self hnone
    cases hstands with
    | root hparent hsight _ hfunction =>
        refine .root hparent hsight (fun hfalse => ?_) fun hc => ?_
        · rw [hdeclared] at hfalse
          cases hfalse
        · rcases hcalls hc with hbefore | ⟨c, trail, rfl⟩
          · rcases hfunction hbefore with hlibrary | ⟨c, trail, hsome⟩
            · exact .inl hlibrary
            · rw [hnone] at hsome
              cases hsome
          · exact .inr ⟨c, trail, hself⟩
    | below _ _ hlt => exact absurd hlt (Nat.not_lt_zero _)
    | covering hne | shaded hne | unsettled hne => exact absurd rfl hne

theorem Store.Renamed.openChild (h : s.Renamed r library o t) (parent : Nat) (name name' : String)
    {σ : Sight} (hstands : Scope.Stands r library (o.opened s.scopes.size σ) ⟨some parent, name, []⟩
      s.scopes.size) :
    (s.openChild parent name).1.Renamed r library (o.opened s.scopes.size σ)
      (t.openChild parent name').1 := by
  have hle := Outlook.le_opened (h.fresh _ (Nat.le_refl _)) σ
  refine ⟨?_, fun k hk => ?_, fun k => ?_⟩
  · simp only [Store.openChild, Store.push, Array.size_push, h.size]
  · simp only [Store.openChild, Store.push, Array.size_push] at hk
    exact (if_neg (by omega)).trans (h.fresh k (by omega))
  · have hscope := h.scope? k
    simp only [Store.scope?, Store.openChild, Store.push, Array.getElem?_push, ← h.size] at hscope ⊢
    split
    · next hk =>
      subst hk
      exact .some ⟨⟨rfl, .nil, fun b hb => absurd hb List.not_mem_nil⟩, hstands⟩
    · next hk =>
      refine rel_mono (fun a b hab => ?_) hscope
      exact ⟨hab.1.mono hle, hab.2.mono hle (if_neg hk) fun _ hc => hc⟩

end

/-! ### Worlds -/

/-- The worlds of the two runs: as many steps and the same commands, and what is shown and bound
corresponds. -/
structure World.Renamed (r : Renaming) (library : Library) (o : Outlook) (w v : World) : Prop where
  steps : w.steps = v.steps
  sent : w.sent = v.sent
  shown : Value.RenamedAll r o w.shown v.shown
  store : w.store.Renamed r library o v.store

/-- Both end with related results, or both stop. -/
inductive EndsBoth {α β : Type} (rel : α → β → Prop) : Except Stop α → Except Stop β → Prop
  | ok {a b} (h : rel a b) : EndsBoth rel (.ok a) (.ok b)
  | stop {s s'} : EndsBoth rel (.error s) (.error s')

theorem EndsBoth.imp {α β : Type} {rel rel' : α → β → Prop} {x : Except Stop α} {y : Except Stop β}
    (h : EndsBoth rel x y) (himp : ∀ a b, rel a b → rel' a b) : EndsBoth rel' x y := by
  cases h with
  | ok hab => exact .ok (himp _ _ hab)
  | stop => exact .stop

/-- The computations take worlds that correspond under an outlook to worlds that correspond under a
later one, and end with results that are related under it, or both stop. -/
def Abreast (r : Renaming) (library : Library) (own : Option Nat) (o : Outlook) {α β : Type}
    (rel : Outlook → α → β → Prop) (x : Eval α) (y : Eval β) : Prop :=
  ∀ w v, World.Renamed r library o w v →
    ∃ o', o.Le own o' ∧ World.Renamed r library o' (x.run w).2 (y.run v).2 ∧
      EndsBoth (rel o') (x.run w).1 (y.run v).1

section

variable {r : Renaming} {library : Library} {own : Option Nat} {o : Outlook} {α β γ δ : Type}

theorem abreast_pure {rel : Outlook → α → β → Prop} {a : α} {b : β} (h : rel o a b) :
    Abreast r library own o rel (pure a) (pure b) :=
  fun _ _ hw => ⟨o, .refl own o, hw, .ok h⟩

theorem abreast_throw {rel : Outlook → α → β → Prop} (s s' : Stop) :
    Abreast r library own o rel (throw s : Eval α) (throw s' : Eval β) :=
  fun _ _ hw => ⟨o, .refl own o, hw, .stop⟩

/-- Nothing goes on behind a stop. -/
theorem abreast_throw_bind {rel : Outlook → γ → δ → Prop} (s s' : Stop) (f : α → Eval γ)
    (g : β → Eval δ) : Abreast r library own o rel (throw s >>= f) (throw s' >>= g) :=
  fun _ _ hw => ⟨o, .refl own o, hw, .stop⟩

theorem abreast_mismatch {rel : Outlook → α → β → Prop} (what what' : Mismatch)
    (span span' : Span) :
    Abreast r library own o rel (Pass.mismatch what span : Eval α)
      (Pass.mismatch what' span' : Eval β) :=
  abreast_throw _ _

theorem Abreast.bind {rel : Outlook → α → β → Prop} {rel' : Outlook → γ → δ → Prop} {x : Eval α}
    {y : Eval β} {f : α → Eval γ} {g : β → Eval δ} (h : Abreast r library own o rel x y)
    (hf : ∀ o', o.Le own o' → ∀ a b, rel o' a b → Abreast r library own o' rel' (f a) (g b)) :
    Abreast r library own o rel' (x >>= f) (y >>= g) := by
  intro w v hw
  obtain ⟨o', hle, hworld, hends⟩ := h w v hw
  cases hx : x.run w with
  | mk result w' =>
      cases hy : y.run v with
      | mk result' v' =>
          rw [hx, hy] at hworld hends
          cases hends with
          | ok hab =>
              rw [Pass.run_bind_ok f hx, Pass.run_bind_ok g hy]
              obtain ⟨o'', hle', hlast, hends⟩ := hf o' hle _ _ hab w' v' hworld
              exact ⟨o'', hle.trans hle', hlast, hends⟩
          | stop =>
              rw [Pass.run_bind_error f hx, Pass.run_bind_error g hy]
              exact ⟨o', hle, hworld, .stop⟩

theorem Abreast.imp {rel rel' : Outlook → α → β → Prop} {x : Eval α} {y : Eval β}
    (h : Abreast r library own o rel x y) (himp : ∀ o' a b, rel o' a b → rel' o' a b) :
    Abreast r library own o rel' x y := by
  intro w v hw
  obtain ⟨o', hle, hworld, hends⟩ := h w v hw
  exact ⟨o', hle, hworld, hends.imp (himp o')⟩

/-- Behind something that hides the name in no scope. -/
theorem Abreast.bind_any {rel : Outlook → α → β → Prop} {rel' : Outlook → γ → δ → Prop}
    {x : Eval α} {y : Eval β} {f : α → Eval γ} {g : β → Eval δ}
    (h : Abreast r library none o rel x y)
    (hf : ∀ o', o.Le none o' → ∀ a b, rel o' a b → Abreast r library own o' rel' (f a) (g b)) :
    Abreast r library own o rel' (x >>= f) (y >>= g) := by
  have hlater : Abreast r library own o (fun o' a b => o.Le none o' ∧ rel o' a b) x y := by
    intro w v hw
    obtain ⟨o', hle, hworld, hends⟩ := h w v hw
    exact ⟨o', hle.any own, hworld, hends.imp fun _ _ hab => ⟨hle, hab⟩⟩
  exact hlater.bind fun o' _ a b hab => hf o' hab.1 a b hab.2

/-- What goes on after a look at the worlds may use that they correspond. -/
theorem abreast_get {rel : Outlook → α → β → Prop} {f : World → Eval α} {g : World → Eval β}
    (h : ∀ w v, World.Renamed r library o w v → Abreast r library own o rel (f w) (g v)) :
    Abreast r library own o rel (get >>= f) (get >>= g) := by
  intro w v hw
  have hrun {η : Type} (k : World → Eval η) (u : World) : (get >>= k).run u = (k u).run u := rfl
  rw [hrun f w, hrun g v]
  exact h w v hw w v hw

theorem abreast_modify {rel : Outlook → Unit → Unit → Prop} {f g : World → World}
    (h : ∀ w v, World.Renamed r library o w v →
      ∃ o', o.Le own o' ∧ World.Renamed r library o' (f w) (g v) ∧ rel o' () ()) :
    Abreast r library own o rel (modify f : Eval Unit) (modify g : Eval Unit) := by
  intro w v hw
  obtain ⟨o', hle, hworld, hrel⟩ := h w v hw
  exact ⟨o', hle, hworld, .ok hrel⟩

end

end PartScript
