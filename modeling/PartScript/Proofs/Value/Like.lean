import Mathlib.Data.List.Forall2
import PartScript.Proofs.Results
import PartScript.Proofs.Value.Parts

/-!
Values that differ in functions only. Where one value has a function the other one has a related
function in the same place; apart from that and from where they come from the values are the same. The
library, operators and members cannot tell such values apart, and they look the same from outside as
long as related functions have equally many parameters.
-/

namespace PartScript

/-- Which functions of one run correspond to which of another. -/
abbrev Closures := Closure → Closure → Prop

mutual

/-- The values differ in trails and functions only. -/
inductive Value.Like (C : Closures) : Value → Value → Prop
  | mk {d d' t t'} : Data.Like C d d' → Value.Like C (.mk d t) (.mk d' t')

/-- The same for what values are. -/
inductive Data.Like (C : Closures) : Data → Data → Prop
  | number {n} : Data.Like C (.number n) (.number n)
  | text {s} : Data.Like C (.text s) (.text s)
  | boolean {b} : Data.Like C (.boolean b) (.boolean b)
  | array {vs vs'} : Value.LikeAll C vs vs' → Data.Like C (.array vs) (.array vs')
  | sketch {s} : Data.Like C (.sketch s) (.sketch s)
  | extrusion {e} : Data.Like C (.extrusion e) (.extrusion e)
  | function {c c'} : C c c' → Data.Like C (.function c) (.function c')
  | host {h h'} : Host.Like C h h' → Data.Like C (.host h) (.host h')

/-- The same for data from outside. -/
inductive Host.Like (C : Closures) : Host → Host → Prop
  | null : Host.Like C .null .null
  | bool {b} : Host.Like C (.bool b) (.bool b)
  | number {n} : Host.Like C (.number n) (.number n)
  | text {s} : Host.Like C (.text s) (.text s)
  | list {hs hs'} : Host.LikeAll C hs hs' → Host.Like C (.list hs) (.list hs')
  | tuple {hs hs'} : Host.LikeAll C hs hs' → Host.Like C (.tuple hs) (.tuple hs')
  | record {es es'} : Host.LikeEntries C es es' → Host.Like C (.record es) (.record es')
  | value {v v'} : Value.Like C v v' → Host.Like C (.value v) (.value v')
  | sketch {s} : Host.Like C (.sketch s) (.sketch s)
  | extrusion {e} : Host.Like C (.extrusion e) (.extrusion e)
  | segment {s} : Host.Like C (.segment s) (.segment s)
  | wall {w} : Host.Like C (.wall w) (.wall w)
  | opaqueItem : Host.Like C .opaqueItem .opaqueItem

/-- Values in a row are alike one by one. -/
inductive Value.LikeAll (C : Closures) : List Value → List Value → Prop
  | nil : Value.LikeAll C [] []
  | cons {v v' rest rest'} : Value.Like C v v' → Value.LikeAll C rest rest' →
      Value.LikeAll C (v :: rest) (v' :: rest')

/-- Host data in a row are alike one by one. -/
inductive Host.LikeAll (C : Closures) : List Host → List Host → Prop
  | nil : Host.LikeAll C [] []
  | cons {h h' rest rest'} : Host.Like C h h' → Host.LikeAll C rest rest' →
      Host.LikeAll C (h :: rest) (h' :: rest')

/-- The entries have the same keys, and their items are alike. -/
inductive Host.LikeEntries (C : Closures) : List (Key × Host) → List (Key × Host) → Prop
  | nil : Host.LikeEntries C [] []
  | cons {k h h' rest rest'} : Host.Like C h h' → Host.LikeEntries C rest rest' →
      Host.LikeEntries C ((k, h) :: rest) ((k, h') :: rest')

end

section

variable {C C' : Closures}

mutual

theorem Value.Like.mono (hC : ∀ c c', C c c' → C' c c') {v w : Value} :
    Value.Like C v w → Value.Like C' v w
  | .mk h => .mk (h.mono hC)

theorem Data.Like.mono (hC : ∀ c c', C c c' → C' c c') {d e : Data} :
    Data.Like C d e → Data.Like C' d e
  | .number => .number
  | .text => .text
  | .boolean => .boolean
  | .array h => .array (h.mono hC)
  | .sketch => .sketch
  | .extrusion => .extrusion
  | .function h => .function (hC _ _ h)
  | .host h => .host (h.mono hC)

theorem Host.Like.mono (hC : ∀ c c', C c c' → C' c c') {g h : Host} :
    Host.Like C g h → Host.Like C' g h
  | .null => .null
  | .bool => .bool
  | .number => .number
  | .text => .text
  | .list h => .list (h.mono hC)
  | .tuple h => .tuple (h.mono hC)
  | .record h => .record (h.mono hC)
  | .value h => .value (h.mono hC)
  | .sketch => .sketch
  | .extrusion => .extrusion
  | .segment => .segment
  | .wall => .wall
  | .opaqueItem => .opaqueItem

theorem Value.LikeAll.mono (hC : ∀ c c', C c c' → C' c c') {vs ws : List Value} :
    Value.LikeAll C vs ws → Value.LikeAll C' vs ws
  | .nil => .nil
  | .cons h hrest => .cons (h.mono hC) (hrest.mono hC)

theorem Host.LikeAll.mono (hC : ∀ c c', C c c' → C' c c') {gs hs : List Host} :
    Host.LikeAll C gs hs → Host.LikeAll C' gs hs
  | .nil => .nil
  | .cons h hrest => .cons (h.mono hC) (hrest.mono hC)

theorem Host.LikeEntries.mono (hC : ∀ c c', C c c' → C' c c') {es fs : List (Key × Host)} :
    Host.LikeEntries C es fs → Host.LikeEntries C' es fs
  | .nil => .nil
  | .cons h hrest => .cons (h.mono hC) (hrest.mono hC)

end

/-! ### Looking into values -/

theorem Value.Like.data {v w : Value} (h : Value.Like C v w) : Data.Like C v.data w.data := by
  cases h with
  | mk h => exact h

theorem Value.Like.withTrail {v w : Value} (h : Value.Like C v w) (t t' : List Origin) :
    Value.Like C (v.withTrail t) (w.withTrail t') :=
  .mk h.data

theorem Data.Like.kind {d e : Data} (h : Data.Like C d e) : d.kind = e.kind := by
  cases h <;> rfl

theorem Value.Like.kind {v w : Value} (h : Value.Like C v w) : v.kind = w.kind := h.data.kind

mutual

theorem Value.Like.number? {v w : Value} : Value.Like C v w → v.number? = w.number?
  | .mk h => h.number?

theorem Data.Like.number? {d e : Data} : Data.Like C d e → d.number? = e.number?
  | .number | .text | .boolean | .array _ | .sketch | .extrusion | .function _ => rfl
  | .host h => h.number?

theorem Host.Like.number? {g h : Host} : Host.Like C g h → g.number? = h.number?
  | .null | .bool | .number | .text | .list _ | .tuple _ | .record _ | .sketch | .extrusion
  | .segment | .wall | .opaqueItem => rfl
  | .value h => h.number?

end

theorem Value.LikeAll.forall₂ {vs ws : List Value} (h : Value.LikeAll C vs ws) :
    List.Forall₂ (Value.Like C) vs ws := by
  induction vs generalizing ws with
  | nil => cases h; exact .nil
  | cons v vs ih =>
      cases h with
      | cons hv hrest => exact .cons hv (ih hrest)

theorem Value.LikeAll.length_eq {vs ws : List Value} (h : Value.LikeAll C vs ws) :
    vs.length = ws.length :=
  h.forall₂.length_eq

theorem Value.LikeAll.append {vs ws vs' ws' : List Value} (h : Value.LikeAll C vs ws)
    (h' : Value.LikeAll C vs' ws') : Value.LikeAll C (vs ++ vs') (ws ++ ws') := by
  induction vs generalizing ws with
  | nil => cases h; exact h'
  | cons v vs ih =>
      cases h with
      | cons hv hrest => exact .cons hv (ih hrest)

theorem Value.LikeAll.values {vs ws : List Value} (h : Value.LikeAll C vs ws) :
    Host.LikeAll C (vs.map .value) (ws.map .value) := by
  induction vs generalizing ws with
  | nil => cases h; exact .nil
  | cons v vs ih =>
      cases h with
      | cons hv hrest => exact .cons (.value hv) (ih hrest)

theorem Host.LikeAll.getElem? {gs hs : List Host} (h : Host.LikeAll C gs hs) (i : Nat) :
    Option.Rel (Host.Like C) gs[i]? hs[i]? := by
  induction gs generalizing hs i with
  | nil =>
      cases h
      exact .none
  | cons g gs ih =>
      cases h with
      | cons hg hrest =>
          cases i with
          | zero => exact .some hg
          | succ i => exact ih hrest i

mutual

theorem Host.Like.toValue {g h : Host} (t t' : List Origin) :
    Host.Like C g h → Value.Like C (g.toValue t) (h.toValue t')
  | .null => .mk (.host .null)
  | .bool => .mk .boolean
  | .number => .mk .number
  | .text => .mk .text
  | .list h => .mk (.array h.toValues)
  | .tuple h => .mk (.array h.toValues)
  | .record h => .mk (.host (.record h))
  | .value h => h
  | .sketch => .mk .sketch
  | .extrusion => .mk .extrusion
  | .segment => .mk (.host .segment)
  | .wall => .mk (.host .wall)
  | .opaqueItem => .mk (.host .opaqueItem)

theorem Host.LikeAll.toValues {gs hs : List Host} :
    Host.LikeAll C gs hs → Value.LikeAll C (Host.toValues gs) (Host.toValues hs)
  | .nil => .nil
  | .cons h hrest => .cons (h.toValue [] []) hrest.toValues

end

theorem Pass.unwrapped_like (v : Value) {v' : Value} (h : Value.Like C v v') :
    Value.Like C (unwrapped v) (unwrapped v') := by
  fun_induction unwrapped v generalizing v' with
  | case1 v trail ih =>
      obtain ⟨hd⟩ := h
      cases hd with
      | host hh =>
          cases hh with
          | value hv =>
              have hinner := ih hv
              exact hinner
  | case2 v hother =>
      have hsame := h
      obtain ⟨hd⟩ := h
      cases hd with
      | number | text | boolean | array | sketch | extrusion | function => exact hsame
      | host hh =>
          cases hh with
          | value => exact absurd rfl (hother _ _)
          | null | bool | number | text | list | tuple | record | sketch | extrusion | segment
          | wall | opaqueItem => exact hsame

/-! ### Records -/

theorem putEntry_like (key : Key) {h h' : Host} (hh : Host.Like C h h')
    {es fs : List (Key × Host)} (hes : Host.LikeEntries C es fs) :
    Host.LikeEntries C (putEntry key h es) (putEntry key h' fs) := by
  induction es generalizing fs with
  | nil =>
      cases hes
      exact .cons hh .nil
  | cons e es ih =>
      cases hes with
      | cons he hrest =>
          simp only [putEntry]
          split
          · exact .cons hh hrest
          · exact .cons he (ih hrest)

theorem collectEntries_like {es fs : List (Key × Host)} (hes : Host.LikeEntries C es fs) :
    Host.LikeEntries C (collectEntries es) (collectEntries fs) := by
  have hfold (done done' : List (Key × Host)) (hdone : Host.LikeEntries C done done') :
      Host.LikeEntries C (es.foldl (fun done (k, item) => putEntry k item done) done)
        (fs.foldl (fun done (k, item) => putEntry k item done) done') := by
    induction es generalizing fs done done' with
    | nil =>
        cases hes
        exact hdone
    | cons e es ih =>
        cases hes with
        | cons he hrest => exact ih hrest _ _ (putEntry_like _ he hdone)
  exact hfold [] [] .nil

theorem itemAt?_like (name : String) {es fs : List (Key × Host)} (hes : Host.LikeEntries C es fs) :
    Option.Rel (Host.Like C) (itemAt? name es) (itemAt? name fs) := by
  unfold itemAt?
  induction es generalizing fs with
  | nil =>
      cases hes
      exact .none
  | cons e es ih =>
      cases hes with
      | @cons k _ _ _ _ he hrest =>
          simp only [List.find?_cons]
          cases k == Key.text name with
          | true => exact .some he
          | false => exact ih hrest

/-! ### The plain view -/

mutual

/-- Values that are alike look the same from outside. -/
theorem Value.Like.toPlain (hC : ∀ c c', C c c' → c.params.length = c'.params.length)
    {v w : Value} : Value.Like C v w → v.toPlain = w.toPlain
  | .mk h => h.toPlain hC

theorem Data.Like.toPlain (hC : ∀ c c', C c c' → c.params.length = c'.params.length)
    {d e : Data} : Data.Like C d e → d.toPlain = e.toPlain
  | .number | .text | .boolean | .sketch | .extrusion => rfl
  | .array h => congrArg Plain.list (h.toPlain hC)
  | .function h => by simp only [Data.toPlain, hC _ _ h]
  | .host h => h.toPlain hC

theorem Host.Like.toPlain (hC : ∀ c c', C c c' → c.params.length = c'.params.length)
    {g h : Host} : Host.Like C g h → g.toPlain = h.toPlain
  | .null | .bool | .number | .text | .sketch | .extrusion | .segment | .wall | .opaqueItem => rfl
  | .list h => congrArg Plain.list (h.toPlain hC)
  | .tuple h => congrArg Plain.list (h.toPlain hC)
  | .record h => congrArg Plain.record (h.toPlain hC)
  | .value h => h.toPlain hC

theorem Value.LikeAll.toPlain (hC : ∀ c c', C c c' → c.params.length = c'.params.length)
    {vs ws : List Value} : Value.LikeAll C vs ws → Value.toPlains vs = Value.toPlains ws
  | .nil => rfl
  | .cons h hrest => by simp only [Value.toPlains, h.toPlain hC, hrest.toPlain hC]

theorem Host.LikeAll.toPlain (hC : ∀ c c', C c c' → c.params.length = c'.params.length)
    {gs hs : List Host} : Host.LikeAll C gs hs → Host.toPlains gs = Host.toPlains hs
  | .nil => rfl
  | .cons h hrest => by simp only [Host.toPlains, h.toPlain hC, hrest.toPlain hC]

theorem Host.LikeEntries.toPlain (hC : ∀ c c', C c c' → c.params.length = c'.params.length)
    {es fs : List (Key × Host)} :
    Host.LikeEntries C es fs → Host.toPlainEntries es = Host.toPlainEntries fs
  | .nil => rfl
  | .cons h hrest => by simp only [Host.toPlainEntries, h.toPlain hC, hrest.toPlain hC]

end

theorem Value.LikeAll.map_toPlain (hC : ∀ c c', C c c' → c.params.length = c'.params.length)
    {vs ws : List Value} (h : Value.LikeAll C vs ws) :
    vs.map Value.toPlain = ws.map Value.toPlain := by
  rw [← List.forall₂_eq_eq_eq]
  exact List.rel_map (fun _ _ hv => hv.toPlain hC) h.forall₂

/-! ### Operators and keys -/

namespace Pass

/-- What an operator makes of two values has no function in it and does not depend on any. -/
theorem combine_like (op : BinaryOp) {v v' w w' : Value} (hv : Value.Like C v v')
    (hw : Value.Like C w w') : combine op v w = combine op v' w' := by
  have hnumber := hv.number?
  have hnumber' := hw.number?
  have hkind := hv.kind
  have hkind' := hw.kind
  obtain ⟨hd⟩ := hv
  obtain ⟨he⟩ := hw
  cases op with
  | add =>
      -- Two texts are joined; anything else is taken for numbers.
      cases hd with
      | text =>
          cases he with
          | text => rfl
          | number | boolean | array | sketch | extrusion | function | host =>
              simp only [combine, Value.data, hnumber, hnumber', hkind, hkind']
      | number | boolean | array | sketch | extrusion | function | host =>
          simp only [combine, Value.data, hnumber, hnumber', hkind, hkind']
  | sub | mul | div | rem | other => simp only [combine, hnumber, hnumber', hkind, hkind']

theorem convert_like (op : UnaryOp) {v v' : Value} (hv : Value.Like C v v') :
    convert op v = convert op v' := by
  cases op with
  | minus => simp only [convert, hv.number?, hv.kind]
  | not =>
      obtain ⟨hd⟩ := hv
      cases hd <;> rfl
  | other text => rfl

theorem like_of_combine {op : BinaryOp} {v w : Value} {d : Data}
    (h : combine op v w = .ok d) : Data.Like C d d := by
  unfold combine at h
  split at h
  · cases h
    exact .text
  · split at h
    · obtain ⟨n, -, rfl⟩ := map_eq_ok h
      exact .number
    · cases h

theorem like_of_convert {op : UnaryOp} {v : Value} {d : Data}
    (h : convert op v = .ok d) : Data.Like C d d := by
  unfold convert at h
  split at h
  · split at h
    · cases h
    · split at h
      · cases h
        exact .number
      · cases h
  · split at h
    · cases h
      exact .boolean
    · cases h
  · cases h

theorem memberKey_like {v v' : Value} (hv : Value.Like C v v') (span : Span) :
    memberKey v span = memberKey v' span := by
  have hnumber := hv.number?
  have hkind := hv.kind
  obtain ⟨hd⟩ := hv
  unfold memberKey
  cases hd with
  | text => rfl
  | number | boolean | array | sketch | extrusion | function | host =>
      dsimp only [Value.data]
      rw [hnumber, hkind]

end Pass

end

end PartScript
