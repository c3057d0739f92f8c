import PartScript.Pass

/-!
What values are made of. A value holds numbers, shapes and functions, perhaps deep inside arrays and
records; its parts are all of them in a row. Whatever moves values around without making new ones,
such as taking a member or collecting a record, leaves no part that was not there before.
-/

namespace PartScript

/-- Something that is found in a value. -/
inductive Part where
  | number (n : Number)
  | sketch (s : Sketch)
  | extrusion (e : Extrusion)
  | function (c : Closure)
  | segment (s : Segment)
  | wall (w : Wall)

mutual

/-- The parts of a value. A function is a part by itself; what its scope binds is not looked at. -/
def Value.parts : Value → List Part
  | .mk data _ => data.parts

/-- The same for what a value is. -/
def Data.parts : Data → List Part
  | .number n => [.number n]
  | .text _ | .boolean _ => []
  | .array items => Value.partsOf items
  | .sketch s => [.sketch s]
  | .extrusion e => [.extrusion e]
  | .function c => [.function c]
  | .host h => h.parts

/-- The same for data from outside. -/
def Host.parts : Host → List Part
  | .null | .bool _ | .text _ | .opaqueItem => []
  | .number n => [.number n]
  | .list items | .tuple items => Host.partsOf items
  | .record entries => Host.entryParts entries
  | .value v => v.parts
  | .sketch s => [.sketch s]
  | .extrusion e => [.extrusion e]
  | .segment s => [.segment s]
  | .wall w => [.wall w]

/-- The same for values in a row. -/
def Value.partsOf : List Value → List Part
  | [] => []
  | v :: rest => v.parts ++ Value.partsOf rest

/-- The same for host data in a row. -/
def Host.partsOf : List Host → List Part
  | [] => []
  | h :: rest => h.parts ++ Host.partsOf rest

/-- The same for the entries of a record. -/
def Host.entryParts : List (Key × Host) → List Part
  | [] => []
  | (_, h) :: rest => h.parts ++ Host.entryParts rest

end

/-! ### Rows -/

theorem Value.mem_partsOf {vs : List Value} {part : Part} :
    part ∈ Value.partsOf vs ↔ ∃ v ∈ vs, part ∈ v.parts := by
  induction vs with
  | nil => simp [Value.partsOf]
  | cons v vs ih => simp [Value.partsOf, ih]

theorem Host.mem_partsOf {hs : List Host} {part : Part} :
    part ∈ Host.partsOf hs ↔ ∃ h ∈ hs, part ∈ h.parts := by
  induction hs with
  | nil => simp [Host.partsOf]
  | cons h hs ih => simp [Host.partsOf, ih]

theorem Host.mem_entryParts {es : List (Key × Host)} {part : Part} :
    part ∈ Host.entryParts es ↔ ∃ e ∈ es, part ∈ e.2.parts := by
  induction es with
  | nil => simp [Host.entryParts]
  | cons e es ih => simp [Host.entryParts, ih]

theorem Value.partsOf_append (vs ws : List Value) :
    Value.partsOf (vs ++ ws) = Value.partsOf vs ++ Value.partsOf ws := by
  induction vs with
  | nil => rfl
  | cons v vs ih => simp [Value.partsOf, ih]

/-! ### Values moved around -/

@[simp] theorem Value.parts_withTrail (v : Value) (trail : List Origin) :
    (v.withTrail trail).parts = v.parts := by
  cases v
  rfl

theorem Host.partsOf_values (vs : List Value) :
    Host.partsOf (vs.map .value) = Value.partsOf vs := by
  induction vs with
  | nil => rfl
  | cons v vs ih => simp [Host.partsOf, Value.partsOf, Host.parts, ih]

mutual

theorem Host.parts_toValue (trail : List Origin) : (h : Host) → (h.toValue trail).parts = h.parts
  | .null | .bool _ | .number _ | .text _ | .record _ | .value _ | .sketch _ | .extrusion _
  | .segment _ | .wall _ | .opaqueItem => rfl
  | .list items => Host.partsOf_toValues items
  | .tuple items => Host.partsOf_toValues items

theorem Host.partsOf_toValues : (hs : List Host) → Value.partsOf (Host.toValues hs) = Host.partsOf hs
  | [] => rfl
  | h :: rest => by
      simp only [Host.toValues, Value.partsOf, Host.partsOf, Host.parts_toValue [] h,
        Host.partsOf_toValues rest]

end

theorem Pass.parts_unwrapped (v : Value) : (Pass.unwrapped v).parts = v.parts := by
  fun_induction Pass.unwrapped v with
  | case1 v trail ih => exact ih
  | case2 => rfl

/-- Putting in an entry adds no part but those of its item. -/
theorem Host.mem_entryParts_putEntry {key : Key} {item : Host} {es : List (Key × Host)} {part : Part}
    (h : part ∈ Host.entryParts (putEntry key item es)) :
    part ∈ item.parts ∨ part ∈ Host.entryParts es := by
  induction es with
  | nil => exact List.mem_append.1 h
  | cons e es ih =>
      obtain ⟨k, old⟩ := e
      simp only [putEntry] at h
      split at h
      · simp only [Host.entryParts, List.mem_append] at h ⊢
        exact h.imp_right .inr
      · simp only [Host.entryParts, List.mem_append] at h ⊢
        rcases h with h | h
        · exact .inr (.inl h)
        · exact (ih h).imp_right .inr

theorem Host.mem_entryParts_foldl {es done : List (Key × Host)} {part : Part}
    (h : part ∈ Host.entryParts (es.foldl (fun done e => putEntry e.1 e.2 done) done)) :
    part ∈ Host.entryParts done ∨ part ∈ Host.entryParts es := by
  induction es generalizing done with
  | nil => exact .inl h
  | cons e es ih =>
      rcases ih h with hdone | hrest
      · rcases Host.mem_entryParts_putEntry hdone with hitem | hdone
        · exact .inr (List.mem_append_left _ hitem)
        · exact .inl hdone
      · exact .inr (List.mem_append_right _ hrest)

theorem Host.mem_entryParts_collectEntries {es : List (Key × Host)} {part : Part}
    (h : part ∈ Host.entryParts (collectEntries es)) : part ∈ Host.entryParts es :=
  (Host.mem_entryParts_foldl h).resolve_left List.not_mem_nil

theorem Host.mem_entryParts_of_itemAt? {name : String} {es : List (Key × Host)} {item : Host}
    (h : itemAt? name es = some item) {part : Part} (hpart : part ∈ item.parts) :
    part ∈ Host.entryParts es := by
  obtain ⟨e, he, rfl⟩ := Option.map_eq_some_iff.1 h
  exact Host.mem_entryParts.2 ⟨e, List.mem_of_find?_eq_some he, hpart⟩

/-! ### Stores -/

/-- The parts of what a scope binds. -/
def Scope.parts (s : Scope) : List Part := Value.partsOf (s.bindings.map (·.2))

/-- The parts of what all scopes bind. -/
def Store.parts (s : Store) : List Part := s.scopes.toList.flatMap Scope.parts

theorem Store.mem_parts {s : Store} {part : Part} :
    part ∈ s.parts ↔ ∃ id scope, s.scope? id = some scope ∧ part ∈ scope.parts := by
  simp only [Store.parts, List.mem_flatMap, Array.mem_toList_iff, Array.mem_iff_getElem?, Store.scope?]
  exact ⟨fun ⟨scope, ⟨id, hid⟩, hpart⟩ => ⟨id, scope, hid, hpart⟩,
    fun ⟨id, scope, hid, hpart⟩ => ⟨scope, ⟨id, hid⟩, hpart⟩⟩

theorem Scope.parts_bind (s : Scope) (name : String) (v : Value) :
    (s.bind name v).parts = s.parts ++ v.parts := by
  simp [Scope.parts, Scope.bind, Value.partsOf_append, Value.partsOf]

theorem Scope.mem_parts_of_get? {s : Scope} {name : String} {v : Value} (h : s.get? name = some v)
    {part : Part} (hpart : part ∈ v.parts) : part ∈ s.parts := by
  obtain ⟨b, hb, rfl⟩ := Option.map_eq_some_iff.1 h
  exact Value.mem_partsOf.2 ⟨b.2, List.mem_map_of_mem (List.mem_of_find?_eq_some hb), hpart⟩

/-- What a name is bound to is part of the store. -/
theorem Store.mem_parts_of_get? {s : Store} {id : Nat} {name : String} {v : Value}
    (h : s.get? id name = some v) {part : Part} (hpart : part ∈ v.parts) : part ∈ s.parts := by
  obtain ⟨scope, hscope, hget⟩ := List.exists_of_findSome?_eq_some h
  obtain ⟨place, -, hplace⟩ := List.mem_filterMap.1 hscope
  exact Store.mem_parts.2 ⟨place, scope, hplace, Scope.mem_parts_of_get? hget hpart⟩

theorem Store.mem_parts_bind {s : Store} {id : Nat} {name : String} {v : Value} {part : Part}
    (h : part ∈ (s.bind id name v).parts) : part ∈ s.parts ∨ part ∈ v.parts := by
  obtain ⟨place, scope, hscope, hpart⟩ := Store.mem_parts.1 h
  simp only [Store.scope?, Store.bind, Array.getElem?_modify] at hscope
  split at hscope
  · obtain ⟨old, hold, rfl⟩ := Option.map_eq_some_iff.1 hscope
    rw [Scope.parts_bind, List.mem_append] at hpart
    exact hpart.imp_left fun hpart => Store.mem_parts.2 ⟨place, old, hold, hpart⟩
  · exact .inl (Store.mem_parts.2 ⟨place, scope, hscope, hpart⟩)

/-- A scope that is opened binds nothing yet. -/
theorem Store.parts_openChild (s : Store) (parent : Nat) (name : String) :
    (s.openChild parent name).1.parts = s.parts := by
  simp [Store.parts, Store.openChild, Store.push, Scope.parts, Value.partsOf]

end PartScript
