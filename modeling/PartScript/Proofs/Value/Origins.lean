import PartScript.Proofs.Value.Parts

/-!
Where values come from. Every value has a trail, and so has every value inside it; the origins of a value
are all of these in a row. Moving values around adds no origin, apart from the trail that a value is given
when it is handed on.
-/

namespace PartScript

/-! ### Trails -/

theorem mem_addOrigins {trail more : List Origin} {o : Origin} :
    o ∈ addOrigins trail more ↔ o ∈ trail ∨ o ∈ more := by
  unfold addOrigins
  induction more generalizing trail with
  | nil => simp
  | cons first more ih =>
      rw [List.foldl_cons, ih, List.mem_cons]
      split
      · rename_i hfirst
        have hmem : first ∈ trail := List.contains_iff_mem.1 hfirst
        constructor
        · exact fun h => h.imp_right .inr
        · rintro (h | rfl | h)
          · exact .inl h
          · exact .inl hmem
          · exact .inr h
      · rw [List.mem_append, List.mem_singleton, or_assoc]

theorem nodup_addOrigins {trail : List Origin} (h : trail.Nodup) (more : List Origin) :
    (addOrigins trail more).Nodup := by
  unfold addOrigins
  induction more generalizing trail with
  | nil => exact h
  | cons first more ih =>
      rw [List.foldl_cons]
      split
      · exact ih h
      · rename_i hfirst
        refine ih (List.nodup_append.2 ⟨h, List.pairwise_singleton _ _, ?_⟩)
        rintro o ho o' ho' rfl
        rw [List.mem_singleton.1 ho'] at ho
        exact hfirst (List.contains_iff_mem.2 ho)

theorem prefix_addOrigins (trail more : List Origin) : trail <+: addOrigins trail more := by
  unfold addOrigins
  induction more generalizing trail with
  | nil => exact List.prefix_refl _
  | cons first more ih =>
      rw [List.foldl_cons]
      split
      · exact ih trail
      · exact (List.prefix_append _ _).trans (ih _)

/-- A merged trail has its own origin and those of the inputs, and no others. -/
theorem mem_mergeTrails {own o : Origin} {inputs : List Value} :
    o ∈ mergeTrails own inputs ↔ o = own ∨ ∃ v ∈ inputs, o ∈ v.trail := by
  have hfold : ∀ done : List Origin,
      o ∈ inputs.foldl (fun done v => addOrigins done v.trail) done ↔
        o ∈ done ∨ ∃ v ∈ inputs, o ∈ v.trail := by
    induction inputs with
    | nil => simp
    | cons v inputs ih =>
        intro done
        simp [ih, mem_addOrigins, or_assoc]
  rw [mergeTrails, hfold, List.mem_singleton]

theorem nodup_mergeTrails (own : Origin) (inputs : List Value) : (mergeTrails own inputs).Nodup := by
  have hfold : ∀ done : List Origin, done.Nodup →
      (inputs.foldl (fun done v => addOrigins done v.trail) done).Nodup := by
    induction inputs with
    | nil => exact fun _ h => h
    | cons v inputs ih => exact fun done h => ih _ (nodup_addOrigins h v.trail)
  exact hfold [own] (List.pairwise_singleton _ _)

/-- A merged trail starts with its own origin. -/
theorem exists_mergeTrails_eq (own : Origin) (inputs : List Value) :
    ∃ rest, mergeTrails own inputs = own :: rest := by
  have hfold : ∀ done : List Origin,
      done <+: inputs.foldl (fun done v => addOrigins done v.trail) done := by
    induction inputs with
    | nil => exact fun _ => List.prefix_refl _
    | cons v inputs ih => exact fun done => (prefix_addOrigins done v.trail).trans (ih _)
  obtain ⟨rest, hrest⟩ := hfold [own]
  exact ⟨rest, hrest.symm⟩

theorem mergeTrails_ne_nil (own : Origin) (inputs : List Value) : mergeTrails own inputs ≠ [] := by
  obtain ⟨rest, hrest⟩ := exists_mergeTrails_eq own inputs
  rw [hrest]
  exact List.cons_ne_nil _ _

/-! ### Origins -/

mutual

/-- All origins in a value: those of its trail, and those of the values inside it. -/
def Value.origins : Value → List Origin
  | .mk data trail => trail ++ data.origins

/-- The origins of the values in what a value is. -/
def Data.origins : Data → List Origin
  | .number _ | .text _ | .boolean _ | .sketch _ | .extrusion _ | .function _ => []
  | .array items => Value.originsOf items
  | .host h => h.origins

/-- The same for data from outside. -/
def Host.origins : Host → List Origin
  | .null | .bool _ | .number _ | .text _ | .sketch _ | .extrusion _ | .segment _ | .wall _
  | .opaqueItem => []
  | .list items | .tuple items => Host.originsOf items
  | .record entries => Host.entryOrigins entries
  | .value v => v.origins

/-- The same for values in a row. -/
def Value.originsOf : List Value → List Origin
  | [] => []
  | v :: rest => v.origins ++ Value.originsOf rest

/-- The same for host data in a row. -/
def Host.originsOf : List Host → List Origin
  | [] => []
  | h :: rest => h.origins ++ Host.originsOf rest

/-- The same for the entries of a record. -/
def Host.entryOrigins : List (Key × Host) → List Origin
  | [] => []
  | (_, h) :: rest => h.origins ++ Host.entryOrigins rest

end

theorem Value.mem_originsOf {vs : List Value} {o : Origin} :
    o ∈ Value.originsOf vs ↔ ∃ v ∈ vs, o ∈ v.origins := by
  induction vs with
  | nil => simp [Value.originsOf]
  | cons v vs ih => simp [Value.originsOf, ih]

theorem Host.mem_originsOf {hs : List Host} {o : Origin} :
    o ∈ Host.originsOf hs ↔ ∃ h ∈ hs, o ∈ h.origins := by
  induction hs with
  | nil => simp [Host.originsOf]
  | cons h hs ih => simp [Host.originsOf, ih]

theorem Host.mem_entryOrigins {es : List (Key × Host)} {o : Origin} :
    o ∈ Host.entryOrigins es ↔ ∃ e ∈ es, o ∈ e.2.origins := by
  induction es with
  | nil => simp [Host.entryOrigins]
  | cons e es ih => simp [Host.entryOrigins, ih]

theorem Value.mem_origins {v : Value} {o : Origin} :
    o ∈ v.origins ↔ o ∈ v.trail ∨ o ∈ v.data.origins := by
  obtain ⟨data, trail⟩ := v
  exact List.mem_append

mutual

/-- Host data that is made a value without a trail gains no origin. -/
theorem Host.origins_toValue : (h : Host) → (h.toValue []).origins = h.origins
  | .null | .bool _ | .number _ | .text _ | .record _ | .value _ | .sketch _ | .extrusion _
  | .segment _ | .wall _ | .opaqueItem => rfl
  | .list items => Host.originsOf_toValues items
  | .tuple items => Host.originsOf_toValues items

theorem Host.originsOf_toValues :
    (hs : List Host) → Value.originsOf (Host.toValues hs) = Host.originsOf hs
  | [] => rfl
  | h :: rest => by
      simp only [Host.toValues, Value.originsOf, Host.originsOf, Host.origins_toValue h,
        Host.originsOf_toValues rest]

end

/-- What a value stands for has no origin that the value has not. -/
theorem Pass.mem_origins_of_unwrapped {o : Origin} (v : Value) (h : o ∈ (Pass.unwrapped v).origins) :
    o ∈ v.origins := by
  fun_induction Pass.unwrapped v with
  | case1 v trail ih => exact List.mem_append_right _ (ih h)
  | case2 => exact h

/-! ### Records -/

theorem mem_putEntry {key : Key} {item : Host} {es : List (Key × Host)} {e : Key × Host}
    (h : e ∈ putEntry key item es) : e.2 = item ∨ e ∈ es := by
  induction es with
  | nil => exact .inl (congrArg Prod.snd (List.mem_singleton.1 h))
  | cons first es ih =>
      obtain ⟨k, old⟩ := first
      simp only [putEntry] at h
      split at h
      · rcases List.mem_cons.1 h with rfl | h
        · exact .inl rfl
        · exact .inr (List.mem_cons_of_mem _ h)
      · rcases List.mem_cons.1 h with rfl | h
        · exact .inr List.mem_cons_self
        · exact (ih h).imp_right (List.mem_cons_of_mem _)

/-- Collecting entries adds no item. -/
theorem exists_of_mem_collectEntries {es : List (Key × Host)} {e : Key × Host}
    (h : e ∈ collectEntries es) : ∃ e' ∈ es, e'.2 = e.2 := by
  have hfold : ∀ done : List (Key × Host),
      e ∈ es.foldl (fun done e => putEntry e.1 e.2 done) done →
        e ∈ done ∨ ∃ e' ∈ es, e'.2 = e.2 := by
    clear h
    induction es with
    | nil => exact fun _ h => .inl h
    | cons first es ih =>
        intro done h
        rcases ih _ h with h | ⟨e', he', heq⟩
        · rcases mem_putEntry h with heq | h
          · exact .inr ⟨first, List.mem_cons_self, heq.symm⟩
          · exact .inl h
        · exact .inr ⟨e', List.mem_cons_of_mem _ he', heq⟩
  exact (hfold [] h).resolve_left List.not_mem_nil

/-! ### Stores -/

/-- Everything that is bound in any scope has a property. -/
def Store.Each (s : Store) (P : Value → Prop) : Prop :=
  ∀ id scope, s.scope? id = some scope → ∀ b ∈ scope.bindings, P b.2

section

variable {P : Value → Prop} {s : Store}

theorem Store.Each.get? (h : s.Each P) {id : Nat} {name : String} {v : Value}
    (hget : s.get? id name = some v) : P v := by
  obtain ⟨scope, hscope, hvalue⟩ := List.exists_of_findSome?_eq_some hget
  obtain ⟨place, -, hplace⟩ := List.mem_filterMap.1 hscope
  obtain ⟨b, hb, rfl⟩ := Option.map_eq_some_iff.1 hvalue
  exact h place scope hplace b (List.mem_of_find?_eq_some hb)

theorem Store.Each.bind (h : s.Each P) (id : Nat) (name : String) {v : Value} (hv : P v) :
    (s.bind id name v).Each P := by
  intro place scope hscope b hb
  simp only [Store.scope?, Store.bind, Array.getElem?_modify] at hscope
  split at hscope
  · obtain ⟨old, hold, rfl⟩ := Option.map_eq_some_iff.1 hscope
    rcases List.mem_append.1 hb with hb | hb
    · exact h place old hold b hb
    · rw [List.mem_singleton.1 hb]
      exact hv
  · exact h place scope hscope b hb

theorem Store.Each.openChild (h : s.Each P) (parent : Nat) (name : String) :
    (s.openChild parent name).1.Each P := by
  intro place scope hscope b hb
  simp only [Store.scope?, Store.openChild, Store.push, Array.getElem?_push] at hscope
  split at hscope
  · cases hscope
    cases hb
  · exact h place scope hscope b hb

end

end PartScript
