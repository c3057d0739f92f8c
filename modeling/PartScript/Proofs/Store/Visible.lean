import Mathlib.Data.List.Dedup
import Mathlib.Data.List.Induction
import PartScript.Proofs.Store
import PartScript.Store.Access

/-!
What is seen from a scope. The names that are listed for a scope are those that can be looked up from it, each
once, the ones of nearer scopes first and those of one scope in the order in which they were bound. A copy of
what a scope sees is a scope of its own, from which the same names are seen, in the same order and with the
same values, or those of them that were asked for.
-/

namespace PartScript

namespace Store

variable {s t : Store}

/-! ### Names without repetitions -/

theorem distinct_concat (names : List String) (n : String) :
    distinct (names ++ [n]) = if n ∈ distinct names then distinct names else distinct names ++ [n] := by
  simp [distinct]

/-- The first of equal names is the last one from behind. -/
theorem distinct_eq (names : List String) : distinct names = names.reverse.dedup.reverse := by
  induction names using List.reverseRecOn with
  | nil => rfl
  | append_singleton names n ih =>
      rw [distinct_concat, ih, List.reverse_append, List.reverse_singleton, List.singleton_append]
      by_cases hn : n ∈ names
      · simp [hn]
      · simp [hn]

theorem mem_distinct {names : List String} {x : String} : x ∈ distinct names ↔ x ∈ names := by
  rw [distinct_eq, List.mem_reverse, List.mem_dedup, List.mem_reverse]

theorem nodup_distinct (names : List String) : (distinct names).Nodup := by
  rw [distinct_eq, List.nodup_reverse]
  exact List.nodup_dedup _

theorem distinct_of_nodup {names : List String} (h : names.Nodup) : distinct names = names := by
  rw [distinct_eq, (List.nodup_reverse.2 h).dedup, List.reverse_reverse]

/-- Names are listed in the order in which they turn up first. -/
theorem pairwise_distinct (names : List String) :
    (distinct names).Pairwise fun a b => names.idxOf a < names.idxOf b := by
  induction names using List.reverseRecOn with
  | nil => exact .nil
  | append_singleton names n ih =>
      have hkept : (distinct names).Pairwise fun a b =>
          (names ++ [n]).idxOf a < (names ++ [n]).idxOf b := by
        refine ih.imp_of_mem fun ha hb hlt => ?_
        rwa [List.idxOf_append_of_mem (mem_distinct.1 ha), List.idxOf_append_of_mem (mem_distinct.1 hb)]
      rw [distinct_concat]
      split
      · exact hkept
      · next hn =>
        refine List.pairwise_append.2 ⟨hkept, List.pairwise_singleton _ _, fun a ha b hb => ?_⟩
        have ha := mem_distinct.1 ha
        obtain rfl := List.mem_singleton.1 hb
        rw [List.idxOf_append_of_mem ha, List.idxOf_append_of_notMem fun hb => hn (mem_distinct.2 hb)]
        exact Nat.lt_add_right _ (List.idxOf_lt_length_of_mem ha)

/-! ### Names that are seen -/

theorem nodup_names (s : Store) (id : Nat) : (s.names id).Nodup := nodup_distinct _

theorem mem_names_iff {id : Nat} {name : String} :
    name ∈ s.names id ↔ ∃ scope ∈ s.view id, name ∈ scope.names := by
  rw [names, mem_distinct, List.mem_flatMap]

theorem isSome_scope_get? {scope : Scope} {name : String} :
    (scope.get? name).isSome = true ↔ name ∈ scope.names := by
  simp [Scope.get?, Scope.names]

/-- A name is listed exactly if it is bound. -/
theorem mem_names_iff_isSome {id : Nat} {name : String} :
    name ∈ s.names id ↔ (s.get? id name).isSome = true := by
  rw [mem_names_iff, get?, List.findSome?_isSome_iff]
  exact exists_congr fun scope => and_congr_right fun _ => isSome_scope_get?.symm

theorem lookup_eq_ok_iff {id : Nat} {name : String} {span : Span} {v : Value} :
    s.lookup id name span = .ok v ↔ s.get? id name = some v := by
  rw [lookup]
  cases s.get? id name with
  | none => simp
  | some w => simp

theorem lookup_congr {id id' : Nat} {name : String} (h : s.get? id name = t.get? id' name) (span : Span) :
    s.lookup id name span = t.lookup id' name span := by
  rw [lookup, lookup, h]

/-- How far away a name is bound, seen along some scopes: how many scopes are nearer than the one that answers,
and how many bindings were made in that one before. -/
def away : List Scope → String → Nat × Nat
  | [], _ => (0, 0)
  | scope :: rest, name =>
    if name ∈ scope.names then (0, scope.names.idxOf name)
    else ((away rest name).1 + 1, (away rest name).2)

/-- Seen from a scope, one name is bound in a nearer scope than the other, or in the same scope and before it. -/
def Before (s : Store) (id : Nat) (a b : String) : Prop :=
  (away (s.view id) a).1 < (away (s.view id) b).1 ∨
    (away (s.view id) a).1 = (away (s.view id) b).1 ∧ (away (s.view id) a).2 < (away (s.view id) b).2

theorem away_lt_of_idxOf_lt {scopes : List Scope} {a b : String}
    (h : (scopes.flatMap (·.names)).idxOf a < (scopes.flatMap (·.names)).idxOf b) :
    (away scopes a).1 < (away scopes b).1 ∨
      (away scopes a).1 = (away scopes b).1 ∧ (away scopes a).2 < (away scopes b).2 := by
  induction scopes with
  | nil => exact absurd h (Nat.lt_irrefl _)
  | cons scope rest ih =>
      rw [List.flatMap_cons] at h
      by_cases ha : a ∈ scope.names
      · by_cases hb : b ∈ scope.names
        · rw [List.idxOf_append_of_mem ha, List.idxOf_append_of_mem hb] at h
          simpa [away, ha, hb] using h
        · simp [away, ha, hb]
      · rw [List.idxOf_append_of_notMem ha] at h
        by_cases hb : b ∈ scope.names
        · rw [List.idxOf_append_of_mem hb] at h
          have hlt := List.idxOf_lt_length_of_mem hb
          omega
        · rw [List.idxOf_append_of_notMem hb] at h
          simpa [away, ha, hb] using ih (by omega)

/-- The names of nearer scopes come first, and those of one scope in the order of their bindings. -/
theorem pairwise_names (s : Store) (id : Nat) : (s.names id).Pairwise (s.Before id) :=
  (pairwise_distinct _).imp away_lt_of_idxOf_lt

/-! ### Copies -/

/-- A name is bound, among those that a table binds, to what the table has for it. -/
theorem get?_of_table (table : String → Option Value) (parent : Option Nat) (name x : String)
    (names : List String) :
    Scope.get? ⟨parent, name, names.filterMap fun n => (table n).map (n, ·)⟩ x =
      if x ∈ names then table x else none := by
  rw [Scope.get?]
  induction names with
  | nil => rfl
  | cons n rest ih =>
      cases htable : table n with
      | none =>
          rw [List.filterMap_cons_none (by rw [htable]; rfl), ih]
          by_cases hx : x = n
          · simp [hx, htable]
          · simp [hx]
      | some v =>
          rw [List.filterMap_cons_some (b := (n, v)) (by rw [htable]; rfl), List.find?_cons]
          by_cases hx : x = n
          · simp [hx, htable]
          · simp only [beq_false_of_ne (Ne.symm hx), ih, List.mem_cons, hx, false_or]

/-- A copy binds what is seen, of all names or of those that were asked for. -/
theorem get?_copy (s : Store) (id : Nat) (wanted : Option (List String)) (x : String) :
    Scope.get? ⟨none, "snapshot", s.visibleBindings id wanted⟩ x =
      if x ∈ wanted.getD (s.names id) then s.get? id x else none := by
  rw [visibleBindings, get?_of_table]
  simp only [mem_distinct]

theorem get?_visibleBindings (s : Store) (id : Nat) (x : String) :
    Scope.get? ⟨none, "snapshot", s.visibleBindings id none⟩ x = s.get? id x := by
  rw [get?_copy, Option.getD_none]
  split
  · rfl
  · next hx =>
      cases hget : s.get? id x with
      | none => rfl
      | some v => exact absurd (mem_names_iff_isSome.2 (by rw [hget]; rfl)) hx

theorem map_fst_visibleBindings (s : Store) (id : Nat) :
    (s.visibleBindings id none).map (·.1) = s.names id := by
  have hseen : ∀ n ∈ s.names id, ((s.get? id n).map (n, ·)).map (·.1) = some n := by
    intro n hn
    obtain ⟨v, hv⟩ := Option.isSome_iff_exists.1 (mem_names_iff_isSome.1 hn)
    rw [hv]
    rfl
  rw [visibleBindings, Option.getD_none, distinct_of_nodup (s.nodup_names id), List.map_filterMap,
    List.filterMap_congr hseen, List.filterMap_some]

/-- From a scope without a parent only that scope is seen. -/
theorem view_of_parent_eq_none {id : Nat} {scope : Scope} (hscope : s.scope? id = some scope)
    (hparent : scope.parent = none) : s.chain id = [id] ∧ s.view id = [scope] := by
  have hchain : s.chain id = [id] := by
    rw [chain, chainWithin_succ, hscope]
    simp [hparent]
  exact ⟨hchain, by simp [view, hchain, hscope]⟩

section

variable {id k : Nat} {wanted : Option (List String)} (h : s.snapshot id wanted = (t, k))

include h

/-- A copy is a new scope without a parent. -/
theorem scope?_of_snapshot : k = s.scopes.size ∧ s.scope? k = none ∧
    t.scope? k = some ⟨none, "snapshot", s.visibleBindings id wanted⟩ := by
  obtain ⟨rfl, rfl⟩ := Prod.mk.inj h
  exact ⟨rfl, by simp [scope?], scope?_push_self s _⟩

theorem scope?_snapshot_of_lt {place : Nat} (hplace : place < s.scopes.size) :
    t.scope? place = s.scope? place := by
  obtain ⟨rfl, rfl⟩ := Prod.mk.inj h
  exact scope?_push_of_ne (Nat.ne_of_lt hplace)

theorem size_of_snapshot : t.scopes.size = s.scopes.size + 1 := by
  obtain ⟨rfl, rfl⟩ := Prod.mk.inj h
  exact Array.size_push _

theorem Linked.of_snapshot (hs : s.Linked) : t.Linked := by
  obtain ⟨rfl, rfl⟩ := Prod.mk.inj h
  exact hs.push nofun

/-- Only the copy is seen from it. -/
theorem view_of_snapshot :
    t.chain k = [k] ∧ t.view k = [⟨none, "snapshot", s.visibleBindings id wanted⟩] :=
  view_of_parent_eq_none (scope?_of_snapshot h).2.2 rfl

theorem get?_of_snapshot (name : String) :
    t.get? k name = Scope.get? ⟨none, "snapshot", s.visibleBindings id wanted⟩ name := by
  rw [get?, (view_of_snapshot h).2]
  simp

end

theorem names_of_snapshot {id k : Nat} (h : s.snapshot id none = (t, k)) : t.names k = s.names id := by
  rw [names, (view_of_snapshot h).2, List.flatMap_cons, List.flatMap_nil, List.append_nil, Scope.names,
    map_fst_visibleBindings, distinct_of_nodup (s.nodup_names id)]

end Store

end PartScript
