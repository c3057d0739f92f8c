import Mathlib.Data.List.Forall2
import PartScript.Proofs.Value.Like

/-!
Values that serve in the place of others. Wherever a value has a number, a value that stands for this
number serves as well, even if it comes from outside; functions are related, and apart from that and from
where they come from the values are the same. What works with a value works in the same way with a value
that serves in its place, and from outside the two look the same.
-/

namespace PartScript

open List (Forall₂)

mutual

/-- The second value serves in the place of the first one. -/
inductive Value.Serves (C : Closures) : Value → Value → Prop
  | mk {d d' t t'} : Data.Serves C d d' → Value.Serves C (.mk d t) (.mk d' t')

/-- The same for what values are. -/
inductive Data.Serves (C : Closures) : Data → Data → Prop
  | number {n d} : d.number? = some n → Data.Serves C (.number n) d
  | text {s} : Data.Serves C (.text s) (.text s)
  | boolean {b} : Data.Serves C (.boolean b) (.boolean b)
  | array {vs vs'} : Forall₂ (Value.Serves C) vs vs' → Data.Serves C (.array vs) (.array vs')
  | sketch {s} : Data.Serves C (.sketch s) (.sketch s)
  | extrusion {e} : Data.Serves C (.extrusion e) (.extrusion e)
  | function {c c'} : C c c' → Data.Serves C (.function c) (.function c')
  | host {h h'} : Host.Serves C h h' → Data.Serves C (.host h) (.host h')

/-- The same for data from outside. -/
inductive Host.Serves (C : Closures) : Host → Host → Prop
  | null : Host.Serves C .null .null
  | bool {b} : Host.Serves C (.bool b) (.bool b)
  | number {n} : Host.Serves C (.number n) (.number n)
  | text {s} : Host.Serves C (.text s) (.text s)
  | list {hs hs'} : Forall₂ (Host.Serves C) hs hs' → Host.Serves C (.list hs) (.list hs')
  | tuple {hs hs'} : Forall₂ (Host.Serves C) hs hs' → Host.Serves C (.tuple hs) (.tuple hs')
  | record {es es'} : Forall₂ (Host.ServesEntry C) es es' → Host.Serves C (.record es) (.record es')
  | value {v v'} : Value.Serves C v v' → Host.Serves C (.value v) (.value v')
  | sketch {s} : Host.Serves C (.sketch s) (.sketch s)
  | extrusion {e} : Host.Serves C (.extrusion e) (.extrusion e)
  | segment {s} : Host.Serves C (.segment s) (.segment s)
  | wall {w} : Host.Serves C (.wall w) (.wall w)
  | opaqueItem : Host.Serves C .opaqueItem .opaqueItem

/-- The entries have the same key, and the item of the second one serves. -/
inductive Host.ServesEntry (C : Closures) : Key × Host → Key × Host → Prop
  | mk {k h h'} : Host.Serves C h h' → Host.ServesEntry C (k, h) (k, h')

end

section

variable {C : Closures}

mutual

/-- A value serves in its own place. -/
theorem Value.serves_self (hC : ∀ c, C c c) : (v : Value) → Value.Serves C v v
  | .mk d _ => .mk (Data.serves_self hC d)

theorem Data.serves_self (hC : ∀ c, C c c) : (d : Data) → Data.Serves C d d
  | .number _ => .number rfl
  | .text _ => .text
  | .boolean _ => .boolean
  | .array items => .array (Value.servesAll_self hC items)
  | .sketch _ => .sketch
  | .extrusion _ => .extrusion
  | .function c => .function (hC c)
  | .host g => .host (Host.serves_self hC g)

theorem Host.serves_self (hC : ∀ c, C c c) : (g : Host) → Host.Serves C g g
  | .null => .null
  | .bool _ => .bool
  | .number _ => .number
  | .text _ => .text
  | .list items => .list (Host.servesAll_self hC items)
  | .tuple items => .tuple (Host.servesAll_self hC items)
  | .record entries => .record (Host.servesEntries_self hC entries)
  | .value v => .value (Value.serves_self hC v)
  | .sketch _ => .sketch
  | .extrusion _ => .extrusion
  | .segment _ => .segment
  | .wall _ => .wall
  | .opaqueItem => .opaqueItem

theorem Value.servesAll_self (hC : ∀ c, C c c) : (vs : List Value) → Forall₂ (Value.Serves C) vs vs
  | [] => .nil
  | v :: vs => .cons (Value.serves_self hC v) (Value.servesAll_self hC vs)

theorem Host.servesAll_self (hC : ∀ c, C c c) : (gs : List Host) → Forall₂ (Host.Serves C) gs gs
  | [] => .nil
  | g :: gs => .cons (Host.serves_self hC g) (Host.servesAll_self hC gs)

theorem Host.servesEntries_self (hC : ∀ c, C c c) :
    (es : List (Key × Host)) → Forall₂ (Host.ServesEntry C) es es
  | [] => .nil
  | (_, g) :: es => .cons (.mk (Host.serves_self hC g)) (Host.servesEntries_self hC es)

end

/-! ### Looking into values -/

theorem Value.Serves.data {v w : Value} (h : Value.Serves C v w) : Data.Serves C v.data w.data := by
  cases h with
  | mk h => exact h

theorem Value.Serves.withTrail {v w : Value} (h : Value.Serves C v w) (t t' : List Origin) :
    Value.Serves C (v.withTrail t) (w.withTrail t') :=
  .mk h.data

mutual

/-- A value that serves stands for the same number. -/
theorem Value.Serves.number? {v w : Value} : Value.Serves C v w → v.number? = w.number?
  | .mk h => h.number?

theorem Data.Serves.number? {d e : Data} : Data.Serves C d e → d.number? = e.number?
  | .number h => h.symm
  | .text | .boolean | .array _ | .sketch | .extrusion | .function _ => rfl
  | .host h => h.number?

theorem Host.Serves.number? {g h : Host} : Host.Serves C g h → g.number? = h.number?
  | .null | .bool | .number | .text | .list _ | .tuple _ | .record _ | .sketch | .extrusion
  | .segment | .wall | .opaqueItem => rfl
  | .value h => h.number?

end

mutual

theorem Host.Serves.toValue {g h : Host} (t t' : List Origin) :
    Host.Serves C g h → Value.Serves C (g.toValue t) (h.toValue t')
  | .null => .mk (.host .null)
  | .bool => .mk .boolean
  | .number => .mk (.number rfl)
  | .text => .mk .text
  | .list h => .mk (.array (Host.Serves.toValues h))
  | .tuple h => .mk (.array (Host.Serves.toValues h))
  | .record h => .mk (.host (.record h))
  | .value h => h
  | .sketch => .mk .sketch
  | .extrusion => .mk .extrusion
  | .segment => .mk (.host .segment)
  | .wall => .mk (.host .wall)
  | .opaqueItem => .mk (.host .opaqueItem)

theorem Host.Serves.toValues {gs hs : List Host} :
    Forall₂ (Host.Serves C) gs hs → Forall₂ (Value.Serves C) (Host.toValues gs) (Host.toValues hs)
  | .nil => .nil
  | .cons h hrest => .cons (h.toValue [] []) (Host.Serves.toValues hrest)

end

/-- Looking through a value does not change the number that it stands for. -/
theorem Pass.number?_unwrapped (v : Value) : (unwrapped v).number? = v.number? := by
  fun_induction unwrapped v with
  | case1 v trail ih => exact ih
  | case2 => rfl

theorem Pass.unwrapped_serves (v : Value) {v' : Value} (h : Value.Serves C v v') :
    Value.Serves C (unwrapped v) (unwrapped v') := by
  fun_induction unwrapped v generalizing v' with
  | case1 v trail ih =>
      obtain ⟨hd⟩ := h
      cases hd with
      | host hh =>
          cases hh with
          | value hv =>
              have hinner := ih hv
              exact hinner
  | case2 v hother =>
      have hsame := h
      -- Whatever is found behind a value that stands for a number stands for it, too.
      have hnumber := (number?_unwrapped v').trans h.number?.symm
      obtain ⟨hd⟩ := h
      cases hd with
      | number =>
          generalize unwrapped _ = found at hnumber ⊢
          obtain ⟨d, t⟩ := found
          exact .mk (.number hnumber)
      | text | boolean | array | sketch | extrusion | function => exact hsame
      | host hh =>
          cases hh with
          | value => exact absurd rfl (hother _ _)
          | null | bool | number | text | list | tuple | record | sketch | extrusion | segment
          | wall | opaqueItem => exact hsame

/-! ### Items of lists and records -/

theorem getElem?_serves {gs hs : List Host} (h : Forall₂ (Host.Serves C) gs hs) (i : Nat) :
    Option.Rel (Host.Serves C) gs[i]? hs[i]? := by
  induction h generalizing i with
  | nil => exact .none
  | cons hg _ ih =>
      cases i with
      | zero => exact .some hg
      | succ i => exact ih i

theorem itemAt?_serves (name : String) {es fs : List (Key × Host)}
    (h : Forall₂ (Host.ServesEntry C) es fs) :
    Option.Rel (Host.Serves C) (itemAt? name es) (itemAt? name fs) := by
  unfold itemAt?
  induction h with
  | nil => exact .none
  | cons he _ ih =>
      obtain @⟨k, _, _, hh⟩ := he
      simp only [List.find?_cons]
      cases k == Key.text name with
      | true => exact .some hh
      | false => exact ih

theorem putEntry_serves (key : Key) {g g' : Host} (hg : Host.Serves C g g')
    {es fs : List (Key × Host)} (h : Forall₂ (Host.ServesEntry C) es fs) :
    Forall₂ (Host.ServesEntry C) (putEntry key g es) (putEntry key g' fs) := by
  induction h with
  | nil => exact .cons (.mk hg) .nil
  | cons he hrest ih =>
      obtain ⟨hh⟩ := he
      simp only [putEntry]
      split
      · exact .cons (.mk hg) hrest
      · exact .cons (.mk hh) ih

theorem collectEntries_serves {es fs : List (Key × Host)}
    (h : Forall₂ (Host.ServesEntry C) es fs) :
    Forall₂ (Host.ServesEntry C) (collectEntries es) (collectEntries fs) := by
  refine List.rel_foldl (fun done done' hdone e e' he => ?_) .nil h
  obtain ⟨hh⟩ := he
  exact putEntry_serves _ hh hdone

/-! ### The plain view -/

mutual

/-- What stands for a number looks like the number. -/
theorem Value.toPlain_of_number? {n : Number} :
    (v : Value) → v.number? = some n → v.toPlain = .number n
  | .mk d _, h => Data.toPlain_of_number? d h

theorem Data.toPlain_of_number? {n : Number} :
    (d : Data) → d.number? = some n → d.toPlain = .number n
  | .number _, h => congrArg Plain.number (Option.some.inj h)
  | .host g, h => Host.toPlain_of_number? g h
  | .text _, h | .boolean _, h | .array _, h | .sketch _, h | .extrusion _, h | .function _, h => by
      cases h

theorem Host.toPlain_of_number? {n : Number} :
    (g : Host) → g.number? = some n → g.toPlain = .number n
  | .number _, h => congrArg Plain.number (Option.some.inj h)
  | .value v, h => Value.toPlain_of_number? v h
  | .null, h | .bool _, h | .text _, h | .list _, h | .tuple _, h | .record _, h | .sketch _, h
  | .extrusion _, h | .segment _, h | .wall _, h | .opaqueItem, h => by cases h

end

mutual

/-- A value that serves looks the same from outside. -/
theorem Value.Serves.toPlain (hC : ∀ c c', C c c' → c.params.length = c'.params.length)
    {v w : Value} : Value.Serves C v w → v.toPlain = w.toPlain
  | .mk h => h.toPlain hC

theorem Data.Serves.toPlain (hC : ∀ c c', C c c' → c.params.length = c'.params.length)
    {d e : Data} : Data.Serves C d e → d.toPlain = e.toPlain
  | .number h => (Data.toPlain_of_number? e h).symm
  | .text | .boolean | .sketch | .extrusion => rfl
  | .array h => congrArg Plain.list (Value.Serves.toPlains hC h)
  | .function h => by simp only [Data.toPlain, hC _ _ h]
  | .host h => h.toPlain hC

theorem Host.Serves.toPlain (hC : ∀ c c', C c c' → c.params.length = c'.params.length)
    {g h : Host} : Host.Serves C g h → g.toPlain = h.toPlain
  | .null | .bool | .number | .text | .sketch | .extrusion | .segment | .wall | .opaqueItem => rfl
  | .list h => congrArg Plain.list (Host.Serves.toPlains hC h)
  | .tuple h => congrArg Plain.list (Host.Serves.toPlains hC h)
  | .record h => congrArg Plain.record (Host.ServesEntry.toPlains hC h)
  | .value h => h.toPlain hC

theorem Value.Serves.toPlains (hC : ∀ c c', C c c' → c.params.length = c'.params.length)
    {vs ws : List Value} : Forall₂ (Value.Serves C) vs ws → Value.toPlains vs = Value.toPlains ws
  | .nil => rfl
  | .cons h hrest => congrArg₂ List.cons (h.toPlain hC) (Value.Serves.toPlains hC hrest)

theorem Host.Serves.toPlains (hC : ∀ c c', C c c' → c.params.length = c'.params.length)
    {gs hs : List Host} : Forall₂ (Host.Serves C) gs hs → Host.toPlains gs = Host.toPlains hs
  | .nil => rfl
  | .cons h hrest => congrArg₂ List.cons (h.toPlain hC) (Host.Serves.toPlains hC hrest)

theorem Host.ServesEntry.toPlains (hC : ∀ c c', C c c' → c.params.length = c'.params.length)
    {es fs : List (Key × Host)} :
    Forall₂ (Host.ServesEntry C) es fs → Host.toPlainEntries es = Host.toPlainEntries fs
  | .nil => rfl
  | .cons (.mk h) hrest =>
      congrArg₂ List.cons (congrArg (Prod.mk _) (h.toPlain hC)) (Host.ServesEntry.toPlains hC hrest)

end

/-! ### Operators and keys -/

namespace Pass

/-- Values that stand for numbers are combined as numbers. -/
theorem combine_numbers (op : BinaryOp) {v w : Value} {a b : Number} (hv : v.number? = some a)
    (hw : w.number? = some b) : combine op v w = (calculate op a b).map .number := by
  unfold combine
  split
  · next hdata _ =>
    obtain ⟨d, t⟩ := v
    obtain rfl : d = _ := hdata
    cases hv
  · rw [hv, hw]

theorem combine_serves (op : BinaryOp) {v v' w w' : Value} (hv : Value.Serves C v v')
    (hw : Value.Serves C w w') :
    Carries (fun d d' => d = d') (combine op v w) (combine op v' w') := by
  intro d hd
  refine ⟨d, ?_, rfl⟩
  unfold combine at hd
  split at hd
  · next hleft hright =>
    have hdata := hv.data
    have hdata' := hw.data
    rw [hleft] at hdata
    rw [hright] at hdata'
    generalize hsame : v'.data = e at hdata
    generalize hsame' : w'.data = e' at hdata'
    cases hdata
    cases hdata'
    simp only [combine, hsame, hsame']
    exact hd
  · split at hd
    · next ha hb =>
      rw [combine_numbers _ (hv.number?.symm.trans ha) (hw.number?.symm.trans hb)]
      exact hd
    · cases hd

theorem convert_serves (op : UnaryOp) {v v' : Value} (hv : Value.Serves C v v') :
    Carries (fun d d' => d = d') (convert op v) (convert op v') := by
  cases op with
  | minus =>
      simp only [convert, hv.number?]
      cases v'.number? with
      | none => exact carries_error _ _
      | some n => exact carries_refl _
  | not =>
      obtain ⟨hd⟩ := hv
      cases hd with
      | boolean => exact carries_refl _
      | number | text | array | sketch | extrusion | function | host => exact carries_error _ _
  | other text => exact carries_error _ _

/-- A value that stands for a number is a key by this number. -/
theorem memberKey_number {v : Value} {n : Number} (h : v.number? = some n) (span : Span) :
    memberKey v span = pure (.number n) := by
  unfold memberKey
  split
  · next hdata =>
    obtain ⟨d, t⟩ := v
    obtain rfl : d = _ := hdata
    cases h
  · rw [h]

end Pass

end

end PartScript
