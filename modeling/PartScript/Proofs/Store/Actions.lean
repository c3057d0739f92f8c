import PartScript.Proofs.Store.Visible

/-!
What is done to scopes. Each action is done to one scope: a name is bound in it, a scope is opened inside it, or
what it sees is copied. Whatever else is done, a scope is what its own actions have made of it, and what is seen
from a scope depends on the actions done to that scope and its ancestors. So a copy and the scope that it was
made from go their own ways.
-/

namespace PartScript

namespace Store

/-- Something that is done to a scope. -/
inductive Action where
  | define (id : Nat) (name : String) (v : Value) (span : Span)
  | openChild (id : Nat) (name : String)
  | snapshot (id : Nat) (wanted : Option (List String))

namespace Action

/-- The scope that it is done to. -/
def scope : Action → Nat
  | define id _ _ _ | openChild id _ | snapshot id _ => id

/-- What it makes of that scope. Nothing but a new name changes it. -/
def change : Action → Scope → Scope
  | define _ name v _ => fun scope => if (scope.get? name).isSome then scope else scope.bind name v
  | openChild _ _ | snapshot _ _ => fun scope => scope

theorem parent_change (a : Action) (scope : Scope) : (a.change scope).parent = scope.parent := by
  cases a with
  | define _ name v span =>
      simp only [change]
      split <;> rfl
  | openChild | snapshot => rfl

end Action

/-- The store after an action. A name that is bound already is refused, and the store stays as it is. -/
def after (s : Store) : Action → Store
  | .define id name v span => (s.define id name v span).toOption.getD s
  | .openChild id name => (s.openChild id name).1
  | .snapshot id wanted => (s.snapshot id wanted).1

/-- The store after some actions, one after another. -/
def afterAll (s : Store) (actions : List Action) : Store := actions.foldl after s

variable {s t : Store}

theorem after_define (s : Store) (id : Nat) (name : String) (v : Value) (span : Span) :
    s.after (.define id name v span) = if s.isLocal id name then s else s.bind id name v := by
  rw [after, define, define?]
  cases s.isLocal id name <;> rfl

/-- Scopes are opened inside those that are there, so that they stay younger than their parents. -/
theorem Linked.after (h : s.Linked) {a : Action} (ha : a.scope < s.scopes.size) : (s.after a).Linked := by
  cases a with
  | define id name v span =>
      rw [after_define]
      split
      · exact h
      · exact h.bind id name v
  | openChild id name => exact h.openChild ha name
  | snapshot id wanted => exact Linked.of_snapshot rfl h

/-- However much is done, as long as it is done to scopes that are there by then, scopes stay younger than
their parents. -/
theorem Linked.afterAll (h : s.Linked) {actions : List Action}
    (hthere : ∀ done a rest, actions = done ++ a :: rest → a.scope < (s.afterAll done).scopes.size) :
    (s.afterAll actions).Linked := by
  induction actions generalizing s with
  | nil => exact h
  | cons a actions ih =>
      have hnext : (s.after a).Linked := h.after (hthere [] a actions rfl)
      exact ih hnext fun done b rest heq => hthere (a :: done) b rest (congrArg (a :: ·) heq)

/-! ### One scope -/

theorem size_le_after (s : Store) (a : Action) : s.scopes.size ≤ (s.after a).scopes.size := by
  cases a with
  | define id name v span =>
      rw [after_define]
      split
      · exact Nat.le_refl _
      · exact Nat.le_of_eq (size_bind s id name v).symm
  | openChild | snapshot =>
      simp only [after, Store.openChild, Store.snapshot, push, Array.size_push]
      exact Nat.le_succ _

/-- An action changes the scope that it is done to, and no other that is there. -/
theorem scope?_after (s : Store) (a : Action) {id : Nat} (hid : id < s.scopes.size) :
    (s.after a).scope? id = if a.scope = id then (s.scope? id).map a.change else s.scope? id := by
  have hopened (scope : Scope) : (s.push scope).1.scope? id = s.scope? id :=
    scope?_push_of_ne (Nat.ne_of_lt hid)
  cases a with
  | define place name v span =>
      rw [after_define, show (Action.define place name v span).scope = place from rfl]
      by_cases hplace : place = id
      · subst hplace
        have hscope : s.scope? place = some s.scopes[place] := Array.getElem?_eq_getElem hid
        have hlocal : s.isLocal place name = (s.scopes[place].get? name).isSome := by
          rw [isLocal, hscope, Option.bind_some]
        simp only [if_true, hscope, Option.map_some, Action.change, ← hlocal]
        split
        · exact hscope
        · exact Pass.scope?_bind_self name v hscope
      · rw [if_neg hplace]
        split
        · rfl
        · exact scope?_bind_of_ne (Ne.symm hplace) s name v
  | openChild | snapshot => simp [after, Store.openChild, Store.snapshot, hopened, Action.change]

/-- A scope is what the actions that are done to it have made of it. -/
theorem scope?_afterAll (s : Store) (actions : List Action) {id : Nat} (hid : id < s.scopes.size) :
    (s.afterAll actions).scope? id =
      (s.scope? id).map ((actions.filter (·.scope = id)).foldl fun scope a => a.change scope) := by
  induction actions generalizing s with
  | nil => simp [afterAll]
  | cons a actions ih =>
      have hnext : (s.afterAll (a :: actions)).scope? id = ((s.after a).afterAll actions).scope? id := rfl
      rw [hnext, ih _ (Nat.lt_of_lt_of_le hid (s.size_le_after a)), scope?_after s a hid]
      by_cases ha : a.scope = id
      · rw [if_pos ha, List.filter_cons_of_pos (by simpa using ha), Option.map_map]
        rfl
      · rw [if_neg ha, List.filter_cons_of_neg (by simpa using ha)]

theorem parent_foldl_change (actions : List Action) (scope : Scope) :
    (actions.foldl (fun scope a => a.change scope) scope).parent = scope.parent := by
  induction actions generalizing scope with
  | nil => rfl
  | cons a actions ih => rw [List.foldl_cons, ih, a.parent_change]

/-! ### What is seen -/

/-- What is seen from a scope depends on the actions that are done to it and its ancestors. The others can be
left out, and scopes that were opened since do not matter. -/
theorem Linked.view_afterAll (hs : s.Linked) (hold : ∀ place < s.scopes.size, t.scope? place = s.scope? place)
    (hsize : s.scopes.size ≤ t.scopes.size) {id : Nat} (hid : id < s.scopes.size) (actions : List Action) :
    (t.afterAll actions).view id = (s.afterAll (actions.filter (·.scope ∈ s.chain id))).view id := by
  have hparent (s : Store) (actions : List Action) {place : Nat} (hplace : place < s.scopes.size) :
      ((s.afterAll actions).scope? place).map (·.parent) = (s.scope? place).map (·.parent) := by
    rw [scope?_afterAll s actions hplace, Option.map_map]
    exact congrArg (Option.map · _) (funext fun scope => parent_foldl_change _ scope)
  have hlater {place : Nat} (hplace : place < s.scopes.size) : place < t.scopes.size :=
    Nat.lt_of_lt_of_le hplace hsize
  rw [hs.view_eq (fun place hplace => (hparent t actions (hlater hplace)).trans
      (congrArg _ (hold place hplace))) hid,
    hs.view_eq (fun place hplace => hparent s _ hplace) hid]
  refine List.filterMap_congr fun place hplace => ?_
  have hlt := hs.lt_of_mem_chain hid hplace
  have hkept : (actions.filter (·.scope ∈ s.chain id)).filter (·.scope = place) =
      actions.filter (·.scope = place) := by
    rw [List.filter_filter]
    refine List.filter_congr fun a _ => ?_
    by_cases ha : a.scope = place
    · simp [ha, hplace]
    · simp [ha]
  rw [scope?_afterAll t actions (hlater hlt), scope?_afterAll s _ hlt, hold place hlt, hkept]

theorem lookup_of_view {id : Nat} (h : s.view id = t.view id) (name : String) (span : Span) :
    s.lookup id name span = t.lookup id name span := by
  have hget : s.get? id name = t.get? id name := by rw [get?, get?, h]
  exact lookup_congr hget span

/-! ### Copies -/

/-- Copies are faithful and apart. The names that are listed for a scope are those that can be looked up from it,
each once, nearer scopes first and each scope's names in the order of their bindings. A copy of all that the
scope sees has no parent, lists the same names in the same order, and answers every lookup as the scope does; a
copy of some names answers for these alone. Whatever is done afterwards to any scopes, the copy answers as if
only the actions on the copy had been done, and the scope as if there were no copy and only the actions on the
scope and its ancestors had been done. -/
theorem snapshot_faithful {s : Store} (hs : s.Linked) {m : Nat} (hm : m < s.scopes.size) :
    ((s.names m).Nodup ∧ (s.names m).Pairwise (s.Before m) ∧
      ∀ name span, name ∈ s.names m ↔ ∃ v, s.lookup m name span = .ok v) ∧
    (∀ t k, s.snapshot m none = (t, k) → (t.scope? k).map (·.parent) = some none ∧ t.names k = s.names m ∧
      ∀ name span, t.lookup k name span = s.lookup m name span) ∧
    (∀ wanted t k, s.snapshot m (some wanted) = (t, k) → ∀ name span,
      t.lookup k name span = if name ∈ wanted then s.lookup m name span
        else .error (.diagnostic ⟨.undefinedName name, span, none⟩)) ∧
    ∀ wanted t k, s.snapshot m wanted = (t, k) → ∀ actions name span,
      (t.afterAll actions).lookup k name span =
        (t.afterAll (actions.filter (·.scope = k))).lookup k name span ∧
      (t.afterAll actions).lookup m name span =
        (s.afterAll (actions.filter (·.scope ∈ s.chain m))).lookup m name span := by
  refine ⟨⟨s.nodup_names m, s.pairwise_names m, fun name span => ?_⟩, fun t k h => ?_,
    fun wanted t k h name span => ?_, fun wanted t k h actions name span => ?_⟩
  · simp only [mem_names_iff_isSome, lookup_eq_ok_iff, Option.isSome_iff_exists]
  · obtain ⟨-, -, hscope⟩ := scope?_of_snapshot h
    refine ⟨by rw [hscope]; rfl, names_of_snapshot h, fun name span => lookup_congr ?_ span⟩
    rw [get?_of_snapshot h, get?_visibleBindings]
  · have hget := get?_of_snapshot h name
    rw [get?_copy, Option.getD_some] at hget
    split
    · next hwanted => exact lookup_congr (hget.trans (if_pos hwanted)) span
    · next hwanted => rw [lookup, hget, if_neg hwanted]
  · have ht := hs.of_snapshot h
    have hsize := size_of_snapshot h
    constructor
    · have hview := ht.view_afterAll (fun _ _ => rfl) (Nat.le_refl _)
        (show k < t.scopes.size by rw [(scope?_of_snapshot h).1]; omega) actions
      simp only [(view_of_snapshot h).1, List.mem_singleton] at hview
      exact lookup_of_view hview name span
    · exact lookup_of_view (hs.view_afterAll (fun _ => scope?_snapshot_of_lt h) (by omega) hm actions) name span

/-- A scope inside another one, with a name that both of them bind. -/
def nested : Store :=
  ⟨#[⟨none, "root", [("a", .ofNumber (.int 1) []), ("b", .ofNumber (.int 2) [])]⟩,
    ⟨some 0, "block", [("c", .ofNumber (.int 3) []), ("a", .ofNumber (.int 4) [])]⟩]⟩

theorem linked_nested : nested.Linked := linked_pair _ _ _ _

/-- A name that is bound in the outer scope after the copy was made is seen from the inner scope, but not from
the copy, and a name that is bound in the copy is seen from the copy alone. -/
theorem snapshot_faithful_nested :
    ∃ t, nested.Linked ∧ nested.snapshot 1 none = (t, 2) ∧ t.names 2 = ["c", "a", "b"] ∧
      ∀ v w span, ∃ later, later = t.afterAll [.define 0 "z" v span, .define 2 "d" w span] ∧
        later.lookup 1 "z" span = .ok v ∧
        later.lookup 2 "z" span = .error (.diagnostic ⟨.undefinedName "z", span, none⟩) ∧
        later.lookup 2 "d" span = .ok w ∧
        later.lookup 1 "d" span = .error (.diagnostic ⟨.undefinedName "d", span, none⟩) := by
  have hm : 1 < nested.scopes.size := Nat.lt_add_one 1
  obtain ⟨-, hwhole, -, hapart⟩ := snapshot_faithful linked_nested hm
  obtain ⟨t, ht⟩ : ∃ t, nested.snapshot 1 none = (t, 2) := ⟨_, rfl⟩
  refine ⟨t, linked_nested, ht, (hwhole t 2 ht).2.1.trans (by decide), fun v w span => ⟨_, rfl, ?_⟩⟩
  have hlater := hapart none t 2 ht [.define 0 "z" v span, .define 2 "d" w span]
  obtain ⟨rfl, -⟩ := Prod.mk.inj ht
  exact ⟨(hlater "z" span).2.trans rfl, (hlater "z" span).1.trans rfl, (hlater "d" span).1.trans rfl,
    (hlater "d" span).2.trans rfl⟩

end Store

end PartScript
