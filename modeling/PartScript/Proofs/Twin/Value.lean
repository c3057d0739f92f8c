import Mathlib.Data.List.Forall2
import PartScript.Pass
import PartScript.Proofs.Node.Calls

/-!
Twins. Two trees are twins if they say the same and their calls stand at ranges that correspond; two
values are twins if they differ only in where they come from and in the identifiers of the shapes in
them, which correspond as well. What a value looks like from outside then differs by the names of
identifiers alone.
-/

namespace PartScript

/-- Which ranges in one text correspond to which in another. -/
abbrev Ranges := Range → Range → Prop

/-- Which identifiers in one run correspond to which in another. -/
abbrev Ids := String → String → Prop

/-! ### Trees -/

namespace Node

mutual

/-- The trees say the same, and their calls correspond. -/
inductive Twin (R : Ranges) : Node → Node → Prop
  | program {m m' body body'} : TwinAll R body body' → Twin R (.program m body) (.program m' body')
  | declaration {m m' word i i' e e'} : i.name = i'.name → Twin R e e' →
      Twin R (.declaration m word i e) (.declaration m' word i' e')
  | statement {m m' e e'} : Twin R e e' → Twin R (.statement m e) (.statement m' e')
  | giveBack {m m' e e'} : Twin R e e' → Twin R (.giveBack m e) (.giveBack m' e')
  | literal {m m' value raw} : Twin R (.literal m value raw) (.literal m' value raw)
  | identifier {i i'} : i.name = i'.name → Twin R (.identifier i) (.identifier i')
  | binary {m m' op l l' r r'} : Twin R l l' → Twin R r r' →
      Twin R (.binary m op l r) (.binary m' op l' r')
  | unary {m m' op e e'} : Twin R e e' → Twin R (.unary m op e) (.unary m' op e')
  | call {m m' i i' args args'} : R m.span.range m'.span.range → i.name = i'.name →
      TwinAll R args args' → Twin R (.call m i args) (.call m' i' args')
  | array {m m' es es'} : TwinAll R es es' → Twin R (.array m es) (.array m' es')
  | object {m m' ps ps'} : TwinAll R ps ps' → Twin R (.object m ps) (.object m' ps')
  | property {m m' i i' e e'} : i.name = i'.name → Twin R e e' →
      Twin R (.property m i e) (.property m' i' e')
  | member {m m' e e' i i'} : Twin R e e' → i.name = i'.name →
      Twin R (.member m e i) (.member m' e' i')
  | index {m m' e e' key key'} : Twin R e e' → Twin R key key' →
      Twin R (.index m e key) (.index m' e' key')
  | pipe {m m' stages stages'} : TwinAll R stages stages' →
      Twin R (.pipe m stages) (.pipe m' stages')
  | hole {m m'} : Twin R (.hole m) (.hole m')
  | function {m m' params params' body body'} :
      params.map (·.name) = params'.map (·.name) → TwinAll R body body' →
      Twin R (.function m params body) (.function m' params' body')

/-- The trees in a row are twins one by one. -/
inductive TwinAll (R : Ranges) : List Node → List Node → Prop
  | nil : TwinAll R [] []
  | cons {n n' rest rest'} : Twin R n n' → TwinAll R rest rest' →
      TwinAll R (n :: rest) (n' :: rest')

end

theorem Twin.kindName {R : Ranges} {n n' : Node} (h : Twin R n n') : n.kindName = n'.kindName := by
  cases h <;> rfl

end Node

/-! ### Shapes -/

/-- A segment without its range. -/
def Segment.bare (s : Segment) : Segment := { s with range := ⟨0, 0⟩ }

/-- A sketch without its identifier and the ranges in it. -/
def Sketch.bare (s : Sketch) : Sketch :=
  { s with id := "", segments := s.segments.map Segment.bare }

/-- A wall without its range. -/
def Wall.bare (w : Wall) : Wall := { w with range := ⟨0, 0⟩ }

/-- An extrusion without its identifiers and the ranges in it. -/
def Extrusion.bare (e : Extrusion) : Extrusion :=
  { e with id := "", sketchId := "", walls := e.walls.map Wall.bare }

/-- The sketches differ in ranges and identifiers only. -/
structure Sketch.Twin (ids : Ids) (s t : Sketch) : Prop where
  id : ids s.id t.id
  bare : s.bare = t.bare

/-- The extrusions differ in ranges and identifiers only. -/
structure Extrusion.Twin (ids : Ids) (e f : Extrusion) : Prop where
  id : ids e.id f.id
  sketchId : ids e.sketchId f.sketchId
  bare : e.bare = f.bare

/-! ### Values -/

/-- The functions have twin bodies and the same names and scope. -/
structure Closure.Twin (R : Ranges) (c d : Closure) : Prop where
  params : c.params.map (·.name) = d.params.map (·.name)
  body : Node.TwinAll R c.body d.body
  scope : c.scope = d.scope

theorem Closure.Twin.length_params {R : Ranges} {c d : Closure} (h : c.Twin R d) :
    c.params.length = d.params.length := by
  simpa using congrArg List.length h.params

mutual

/-- The values differ in trails, ranges and identifiers only. -/
inductive Value.Twin (R : Ranges) (ids : Ids) : Value → Value → Prop
  | mk {d d' t t'} : Data.Twin R ids d d' → Value.Twin R ids (.mk d t) (.mk d' t')

/-- The same for what values are. -/
inductive Data.Twin (R : Ranges) (ids : Ids) : Data → Data → Prop
  | number {n} : Data.Twin R ids (.number n) (.number n)
  | text {s} : Data.Twin R ids (.text s) (.text s)
  | boolean {b} : Data.Twin R ids (.boolean b) (.boolean b)
  | array {vs vs'} : Value.TwinAll R ids vs vs' → Data.Twin R ids (.array vs) (.array vs')
  | sketch {s s'} : s.Twin ids s' → Data.Twin R ids (.sketch s) (.sketch s')
  | extrusion {e e'} : e.Twin ids e' → Data.Twin R ids (.extrusion e) (.extrusion e')
  | function {c c'} : c.Twin R c' → Data.Twin R ids (.function c) (.function c')
  | host {h h'} : Host.Twin R ids h h' → Data.Twin R ids (.host h) (.host h')

/-- The same for data from outside. -/
inductive Host.Twin (R : Ranges) (ids : Ids) : Host → Host → Prop
  | null : Host.Twin R ids .null .null
  | bool {b} : Host.Twin R ids (.bool b) (.bool b)
  | number {n} : Host.Twin R ids (.number n) (.number n)
  | text {s} : Host.Twin R ids (.text s) (.text s)
  | list {hs hs'} : Host.TwinAll R ids hs hs' → Host.Twin R ids (.list hs) (.list hs')
  | tuple {hs hs'} : Host.TwinAll R ids hs hs' → Host.Twin R ids (.tuple hs) (.tuple hs')
  | record {es es'} : Host.TwinEntries R ids es es' → Host.Twin R ids (.record es) (.record es')
  | value {v v'} : Value.Twin R ids v v' → Host.Twin R ids (.value v) (.value v')
  | sketch {s s'} : s.Twin ids s' → Host.Twin R ids (.sketch s) (.sketch s')
  | extrusion {e e'} : e.Twin ids e' → Host.Twin R ids (.extrusion e) (.extrusion e')
  | segment {s s'} : s.bare = s'.bare → Host.Twin R ids (.segment s) (.segment s')
  | wall {w w'} : w.bare = w'.bare → Host.Twin R ids (.wall w) (.wall w')
  | opaqueItem : Host.Twin R ids .opaqueItem .opaqueItem

/-- Values in a row are twins one by one. -/
inductive Value.TwinAll (R : Ranges) (ids : Ids) : List Value → List Value → Prop
  | nil : Value.TwinAll R ids [] []
  | cons {v v' rest rest'} : Value.Twin R ids v v' → Value.TwinAll R ids rest rest' →
      Value.TwinAll R ids (v :: rest) (v' :: rest')

/-- Host data in a row are twins one by one. -/
inductive Host.TwinAll (R : Ranges) (ids : Ids) : List Host → List Host → Prop
  | nil : Host.TwinAll R ids [] []
  | cons {h h' rest rest'} : Host.Twin R ids h h' → Host.TwinAll R ids rest rest' →
      Host.TwinAll R ids (h :: rest) (h' :: rest')

/-- The entries have the same keys, and their items are twins. -/
inductive Host.TwinEntries (R : Ranges) (ids : Ids) :
    List (Key × Host) → List (Key × Host) → Prop
  | nil : Host.TwinEntries R ids [] []
  | cons {k h h' rest rest'} : Host.Twin R ids h h' → Host.TwinEntries R ids rest rest' →
      Host.TwinEntries R ids ((k, h) :: rest) ((k, h') :: rest')

end

/-! ### More identifiers -/

/-- Every pair of identifiers that corresponds still does. -/
def Ids.Le (ids ids' : Ids) : Prop := ∀ a b, ids a b → ids' a b

theorem Ids.Le.refl (ids : Ids) : ids.Le ids := fun _ _ h => h

theorem Ids.Le.trans {ids ids' ids'' : Ids} (h : ids.Le ids') (h' : ids'.Le ids'') :
    ids.Le ids'' :=
  fun a b hab => h' a b (h a b hab)

section

variable {R : Ranges} {ids ids' : Ids}

theorem Sketch.Twin.mono (hle : ids.Le ids') {s t : Sketch} (h : s.Twin ids t) :
    s.Twin ids' t :=
  ⟨hle _ _ h.id, h.bare⟩

theorem Extrusion.Twin.mono (hle : ids.Le ids') {e f : Extrusion} (h : e.Twin ids f) :
    e.Twin ids' f :=
  ⟨hle _ _ h.id, hle _ _ h.sketchId, h.bare⟩

mutual

theorem Value.Twin.mono (hle : ids.Le ids') {v w : Value} :
    Value.Twin R ids v w → Value.Twin R ids' v w
  | .mk h => .mk (h.mono hle)

theorem Data.Twin.mono (hle : ids.Le ids') {d e : Data} :
    Data.Twin R ids d e → Data.Twin R ids' d e
  | .number => .number
  | .text => .text
  | .boolean => .boolean
  | .array h => .array (h.mono hle)
  | .sketch h => .sketch (h.mono hle)
  | .extrusion h => .extrusion (h.mono hle)
  | .function h => .function h
  | .host h => .host (h.mono hle)

theorem Host.Twin.mono (hle : ids.Le ids') {g h : Host} :
    Host.Twin R ids g h → Host.Twin R ids' g h
  | .null => .null
  | .bool => .bool
  | .number => .number
  | .text => .text
  | .list h => .list (h.mono hle)
  | .tuple h => .tuple (h.mono hle)
  | .record h => .record (h.mono hle)
  | .value h => .value (h.mono hle)
  | .sketch h => .sketch (h.mono hle)
  | .extrusion h => .extrusion (h.mono hle)
  | .segment h => .segment h
  | .wall h => .wall h
  | .opaqueItem => .opaqueItem

theorem Value.TwinAll.mono (hle : ids.Le ids') {vs ws : List Value} :
    Value.TwinAll R ids vs ws → Value.TwinAll R ids' vs ws
  | .nil => .nil
  | .cons h hrest => .cons (h.mono hle) (hrest.mono hle)

theorem Host.TwinAll.mono (hle : ids.Le ids') {gs hs : List Host} :
    Host.TwinAll R ids gs hs → Host.TwinAll R ids' gs hs
  | .nil => .nil
  | .cons h hrest => .cons (h.mono hle) (hrest.mono hle)

theorem Host.TwinEntries.mono (hle : ids.Le ids') {es fs : List (Key × Host)} :
    Host.TwinEntries R ids es fs → Host.TwinEntries R ids' es fs
  | .nil => .nil
  | .cons h hrest => .cons (h.mono hle) (hrest.mono hle)

end

/-! ### Looking into values -/

theorem Value.Twin.data {v w : Value} (h : Value.Twin R ids v w) :
    Data.Twin R ids v.data w.data := by
  cases h with
  | mk h => exact h

theorem Value.Twin.withTrail {v w : Value} (h : Value.Twin R ids v w) (t t' : List Origin) :
    Value.Twin R ids (v.withTrail t) (w.withTrail t') :=
  .mk h.data

theorem Data.Twin.kind {d e : Data} (h : Data.Twin R ids d e) : d.kind = e.kind := by
  cases h <;> rfl

theorem Value.Twin.kind {v w : Value} (h : Value.Twin R ids v w) : v.kind = w.kind :=
  h.data.kind

mutual

theorem Value.Twin.number? {v w : Value} : Value.Twin R ids v w → v.number? = w.number?
  | .mk h => h.number?

theorem Data.Twin.number? {d e : Data} : Data.Twin R ids d e → d.number? = e.number?
  | .number | .text | .boolean | .array _ | .sketch _ | .extrusion _ | .function _ => rfl
  | .host h => h.number?

theorem Host.Twin.number? {g h : Host} : Host.Twin R ids g h → g.number? = h.number?
  | .null | .bool | .number | .text | .list _ | .tuple _ | .record _ | .sketch _ | .extrusion _
  | .segment _ | .wall _ | .opaqueItem => rfl
  | .value h => h.number?

end

theorem Value.TwinAll.forall₂ {vs ws : List Value} (h : Value.TwinAll R ids vs ws) :
    List.Forall₂ (Value.Twin R ids) vs ws := by
  induction vs generalizing ws with
  | nil => cases h; exact .nil
  | cons v vs ih =>
      cases h with
      | cons hv hrest => exact .cons hv (ih hrest)

theorem Value.TwinAll.length_eq {vs ws : List Value} (h : Value.TwinAll R ids vs ws) :
    vs.length = ws.length :=
  h.forall₂.length_eq

theorem Value.TwinAll.append {vs ws vs' ws' : List Value} (h : Value.TwinAll R ids vs ws)
    (h' : Value.TwinAll R ids vs' ws') : Value.TwinAll R ids (vs ++ vs') (ws ++ ws') := by
  induction vs generalizing ws with
  | nil => cases h; exact h'
  | cons v vs ih =>
      cases h with
      | cons hv hrest => exact .cons hv (ih hrest)

theorem Value.TwinAll.values {vs ws : List Value} (h : Value.TwinAll R ids vs ws) :
    Host.TwinAll R ids (vs.map .value) (ws.map .value) := by
  induction vs generalizing ws with
  | nil => cases h; exact .nil
  | cons v vs ih =>
      cases h with
      | cons hv hrest => exact .cons (.value hv) (ih hrest)

theorem Host.TwinAll.length_eq {gs hs : List Host} (h : Host.TwinAll R ids gs hs) :
    gs.length = hs.length := by
  induction gs generalizing hs with
  | nil => cases h; rfl
  | cons g gs ih =>
      cases h with
      | cons _ hrest => simp only [List.length_cons, ih hrest]

mutual

theorem Host.Twin.toValue {g h : Host} (t t' : List Origin) :
    Host.Twin R ids g h → Value.Twin R ids (g.toValue t) (h.toValue t')
  | .null => .mk (.host .null)
  | .bool => .mk .boolean
  | .number => .mk .number
  | .text => .mk .text
  | .list h => .mk (.array h.toValues)
  | .tuple h => .mk (.array h.toValues)
  | .record h => .mk (.host (.record h))
  | .value h => h
  | .sketch h => .mk (.sketch h)
  | .extrusion h => .mk (.extrusion h)
  | .segment h => .mk (.host (.segment h))
  | .wall h => .mk (.host (.wall h))
  | .opaqueItem => .mk (.host .opaqueItem)

theorem Host.TwinAll.toValues {gs hs : List Host} :
    Host.TwinAll R ids gs hs → Value.TwinAll R ids (Host.toValues gs) (Host.toValues hs)
  | .nil => .nil
  | .cons h hrest => .cons (h.toValue [] []) hrest.toValues

end

end

/-! ### Renamed identifiers -/

/-- The sketch under another identifier. -/
def Sketch.rename (f : String → String) (s : Sketch) : Sketch := { s with id := f s.id }

/-- The extrusion under other identifiers. -/
def Extrusion.rename (f : String → String) (e : Extrusion) : Extrusion :=
  { e with id := f e.id, sketchId := f e.sketchId }

mutual

/-- The value with the identifiers of the shapes in it renamed. -/
def Value.rename (f : String → String) : Value → Value
  | .mk data trail => .mk (data.rename f) trail

/-- The same for what a value is. -/
def Data.rename (f : String → String) : Data → Data
  | .number n => .number n
  | .text s => .text s
  | .boolean b => .boolean b
  | .array items => .array (Value.renameAll f items)
  | .sketch s => .sketch (s.rename f)
  | .extrusion e => .extrusion (e.rename f)
  | .function c => .function c
  | .host h => .host (h.rename f)

/-- The same for data from outside. -/
def Host.rename (f : String → String) : Host → Host
  | .list items => .list (Host.renameAll f items)
  | .tuple items => .tuple (Host.renameAll f items)
  | .record entries => .record (Host.renameEntries f entries)
  | .value v => .value (v.rename f)
  | .sketch s => .sketch (s.rename f)
  | .extrusion e => .extrusion (e.rename f)
  | .null => .null
  | .bool b => .bool b
  | .number n => .number n
  | .text s => .text s
  | .segment s => .segment s
  | .wall w => .wall w
  | .opaqueItem => .opaqueItem

/-- The same for values in a row. -/
def Value.renameAll (f : String → String) : List Value → List Value
  | [] => []
  | v :: rest => v.rename f :: Value.renameAll f rest

/-- The same for host data in a row. -/
def Host.renameAll (f : String → String) : List Host → List Host
  | [] => []
  | h :: rest => h.rename f :: Host.renameAll f rest

/-- The same for the entries of a record. -/
def Host.renameEntries (f : String → String) : List (Key × Host) → List (Key × Host)
  | [] => []
  | (key, h) :: rest => (key, h.rename f) :: Host.renameEntries f rest

end

/-- The renaming takes every identifier to the one it corresponds to. -/
def Ids.Follows (ids : Ids) (f : String → String) : Prop := ∀ a b, ids a b → f a = b

section

variable {R : Ranges} {ids : Ids} {f : String → String}

theorem Sketch.toPlain_eq_bare (s : Sketch) :
    s.toPlain = ({ s.bare with id := s.id } : Sketch).toPlain := by
  simp only [Sketch.toPlain, Sketch.bare, List.map_map]
  rfl

theorem Sketch.Twin.toPlain (hf : ids.Follows f) {s t : Sketch} (h : s.Twin ids t) :
    (s.rename f).toPlain = t.toPlain := by
  calc (s.rename f).toPlain = ({ s.bare with id := f s.id } : Sketch).toPlain :=
        Sketch.toPlain_eq_bare _
    _ = ({ t.bare with id := t.id } : Sketch).toPlain := by rw [h.bare, hf _ _ h.id]
    _ = t.toPlain := (Sketch.toPlain_eq_bare t).symm

theorem Extrusion.toPlain_eq_bare (e : Extrusion) :
    e.toPlain = ({ e.bare with id := e.id, sketchId := e.sketchId } : Extrusion).toPlain := by
  simp only [Extrusion.toPlain, Extrusion.bare, List.map_map]
  rfl

theorem Extrusion.Twin.toPlain (hf : ids.Follows f) {e e' : Extrusion} (h : e.Twin ids e') :
    (e.rename f).toPlain = e'.toPlain := by
  calc (e.rename f).toPlain
      = ({ e.bare with id := f e.id, sketchId := f e.sketchId } : Extrusion).toPlain :=
        Extrusion.toPlain_eq_bare _
    _ = ({ e'.bare with id := e'.id, sketchId := e'.sketchId } : Extrusion).toPlain := by
        rw [h.bare, hf _ _ h.id, hf _ _ h.sketchId]
    _ = e'.toPlain := (Extrusion.toPlain_eq_bare e').symm

mutual

/-- From outside a twin looks like the value with its identifiers renamed. -/
theorem Value.Twin.toPlain (hf : ids.Follows f) {v w : Value} :
    Value.Twin R ids v w → (v.rename f).toPlain = w.toPlain
  | .mk h => h.toPlain hf

theorem Data.Twin.toPlain (hf : ids.Follows f) {d e : Data} :
    Data.Twin R ids d e → (d.rename f).toPlain = e.toPlain
  | .number | .text | .boolean => rfl
  | .array h => congrArg Plain.list (h.toPlain hf)
  | .sketch h => h.toPlain hf
  | .extrusion h => h.toPlain hf
  | .function h => by simp only [Data.rename, Data.toPlain, h.length_params]
  | .host h => h.toPlain hf

theorem Host.Twin.toPlain (hf : ids.Follows f) {g h : Host} :
    Host.Twin R ids g h → (g.rename f).toPlain = h.toPlain
  | .null | .bool | .number | .text | .sketch _ | .extrusion _ | .segment _ | .wall _
  | .opaqueItem => rfl
  | .list h => congrArg Plain.list (h.toPlain hf)
  | .tuple h => congrArg Plain.list (h.toPlain hf)
  | .record h => congrArg Plain.record (h.toPlain hf)
  | .value h => h.toPlain hf

theorem Value.TwinAll.toPlain (hf : ids.Follows f) {vs ws : List Value} :
    Value.TwinAll R ids vs ws → Value.toPlains (Value.renameAll f vs) = Value.toPlains ws
  | .nil => rfl
  | .cons h hrest => by simp only [Value.renameAll, Value.toPlains, h.toPlain hf, hrest.toPlain hf]

theorem Host.TwinAll.toPlain (hf : ids.Follows f) {gs hs : List Host} :
    Host.TwinAll R ids gs hs → Host.toPlains (Host.renameAll f gs) = Host.toPlains hs
  | .nil => rfl
  | .cons h hrest => by simp only [Host.renameAll, Host.toPlains, h.toPlain hf, hrest.toPlain hf]

theorem Host.TwinEntries.toPlain (hf : ids.Follows f) {es fs : List (Key × Host)} :
    Host.TwinEntries R ids es fs →
      Host.toPlainEntries (Host.renameEntries f es) = Host.toPlainEntries fs
  | .nil => rfl
  | .cons h hrest => by
      simp only [Host.renameEntries, Host.toPlainEntries, h.toPlain hf, hrest.toPlain hf]

end

end

/-! ### Values without shapes and functions -/

mutual

/-- Is there no sketch, extrusion or function in the value? -/
def Value.isSimple : Value → Bool
  | .mk data _ => data.isSimple

/-- The same for what a value is. -/
def Data.isSimple : Data → Bool
  | .number _ | .text _ | .boolean _ => true
  | .array items => Value.areSimple items
  | .host h => h.isSimple
  | .sketch _ | .extrusion _ | .function _ => false

/-- The same for data from outside. -/
def Host.isSimple : Host → Bool
  | .null | .bool _ | .number _ | .text _ | .segment _ | .wall _ | .opaqueItem => true
  | .list items | .tuple items => Host.areSimple items
  | .record entries => Host.entriesAreSimple entries
  | .value v => v.isSimple
  | .sketch _ | .extrusion _ => false

/-- The same for values in a row. -/
def Value.areSimple : List Value → Bool
  | [] => true
  | v :: rest => v.isSimple && Value.areSimple rest

/-- The same for host data in a row. -/
def Host.areSimple : List Host → Bool
  | [] => true
  | h :: rest => h.isSimple && Host.areSimple rest

/-- The same for the entries of a record. -/
def Host.entriesAreSimple : List (Key × Host) → Bool
  | [] => true
  | (_, h) :: rest => h.isSimple && Host.entriesAreSimple rest

end

mutual

/-- A value without shapes and functions is its own twin. -/
theorem Value.twin_of_isSimple (R : Ranges) (ids : Ids) :
    (v : Value) → v.isSimple = true → Value.Twin R ids v v
  | .mk data _, h => .mk (Data.twin_of_isSimple R ids data h)

theorem Data.twin_of_isSimple (R : Ranges) (ids : Ids) :
    (d : Data) → d.isSimple = true → Data.Twin R ids d d
  | .number _, _ => .number
  | .text _, _ => .text
  | .boolean _, _ => .boolean
  | .array items, h => .array (Value.twinAll_of_areSimple R ids items h)
  | .host g, h => .host (Host.twin_of_isSimple R ids g h)
  | .sketch _, h | .extrusion _, h | .function _, h => nomatch h

theorem Host.twin_of_isSimple (R : Ranges) (ids : Ids) :
    (g : Host) → g.isSimple = true → Host.Twin R ids g g
  | .null, _ => .null
  | .bool _, _ => .bool
  | .number _, _ => .number
  | .text _, _ => .text
  | .segment _, _ => .segment rfl
  | .wall _, _ => .wall rfl
  | .opaqueItem, _ => .opaqueItem
  | .list items, h => .list (Host.twinAll_of_areSimple R ids items h)
  | .tuple items, h => .tuple (Host.twinAll_of_areSimple R ids items h)
  | .record entries, h => .record (Host.twinEntries_of_entriesAreSimple R ids entries h)
  | .value v, h => .value (Value.twin_of_isSimple R ids v h)
  | .sketch _, h | .extrusion _, h => nomatch h

theorem Value.twinAll_of_areSimple (R : Ranges) (ids : Ids) :
    (vs : List Value) → Value.areSimple vs = true → Value.TwinAll R ids vs vs
  | [], _ => .nil
  | v :: rest, h => by
      obtain ⟨hv, hrest⟩ := (Bool.and_eq_true _ _).mp h
      exact .cons (Value.twin_of_isSimple R ids v hv) (Value.twinAll_of_areSimple R ids rest hrest)

theorem Host.twinAll_of_areSimple (R : Ranges) (ids : Ids) :
    (hs : List Host) → Host.areSimple hs = true → Host.TwinAll R ids hs hs
  | [], _ => .nil
  | g :: rest, h => by
      obtain ⟨hg, hrest⟩ := (Bool.and_eq_true _ _).mp h
      exact .cons (Host.twin_of_isSimple R ids g hg) (Host.twinAll_of_areSimple R ids rest hrest)

theorem Host.twinEntries_of_entriesAreSimple (R : Ranges) (ids : Ids) :
    (es : List (Key × Host)) → Host.entriesAreSimple es = true → Host.TwinEntries R ids es es
  | [], _ => .nil
  | (_, g) :: rest, h => by
      obtain ⟨hg, hrest⟩ := (Bool.and_eq_true _ _).mp h
      exact .cons (Host.twin_of_isSimple R ids g hg)
        (Host.twinEntries_of_entriesAreSimple R ids rest hrest)

end

end PartScript
