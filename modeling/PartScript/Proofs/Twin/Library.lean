import PartScript.Proofs.Library.Effects
import PartScript.Proofs.Twin.Command

/-!
The library cannot tell twins apart. A function of the library called at corresponding places with twin
arguments is refused for the same reason in both runs, or has twin effects: twin values, and a command
made of twin inputs.
-/

namespace PartScript

open List (Forall₂)

/-- The identifiers that correspond once one more pair does. -/
def Ids.add (ids : Ids) (a b : String) : Ids := fun x y => ids x y ∨ x = a ∧ y = b

theorem Ids.le_add (ids : Ids) (a b : String) : ids.Le (ids.add a b) := fun _ _ h => .inl h

theorem Ids.add_self (ids : Ids) (a b : String) : ids.add a b a b := .inr ⟨rfl, rfl⟩

/-- The effects are twins: either nothing is sent, or twin commands are, whose identifiers the values
may have. -/
inductive Effect.Twin (R : Ranges) (code code' : String) (ids : Ids) : Effect → Effect → Prop
  | quiet {v v' shown shown'} (hvalue : Value.Twin R ids v v')
      (hshown : Value.TwinAll R ids shown shown') :
      Effect.Twin R code code' ids ⟨v, none, shown⟩ ⟨v', none, shown'⟩
  | sending {v v' c c'} (hsent : Command.Twin R code code' ids c c')
      (hvalue : Value.Twin R (ids.add c.id c'.id) v v') :
      Effect.Twin R code code' ids ⟨v, some c, []⟩ ⟨v', some c', []⟩

theorem Ids.Le.add {ids ids' : Ids} (h : ids.Le ids') (a b : String) :
    (ids.add a b).Le (ids'.add a b) :=
  fun x y hxy => hxy.imp_left (h x y)

theorem Effect.Twin.mono {R : Ranges} {code code' : String} {ids ids' : Ids} (hle : ids.Le ids')
    {e e' : Effect} (h : e.Twin R code code' ids e') : e.Twin R code code' ids' e' := by
  cases h with
  | quiet hvalue hshown => exact .quiet (hvalue.mono hle) (hshown.mono hle)
  | sending hsent hvalue => exact .sending (hsent.mono hle) (hvalue.mono (hle.add _ _))

namespace Builtin

variable {R : Ranges} {ids : Ids} {code code' : String} {m m' : Mark}

/-! ### Arguments -/

theorem number_twin (what : String) {v w : Value} (h : Value.Twin R ids v w) :
    number what v = number what w := by
  simp only [number, h.number?, h.kind]

theorem float_twin (what : String) {v w : Value} (h : Value.Twin R ids v w) :
    float what v = float what w := by
  simp only [float, number_twin what h]

theorem mapM_number_twin (what : String) {vs ws : List Value} (h : Value.TwinAll R ids vs ws) :
    vs.mapM (number what) = ws.mapM (number what) := by
  replace h := h.forall₂
  induction h with
  | nil => rfl
  | cons hv _ ih => simp only [List.mapM_cons, number_twin what hv, ih]

theorem point_twin (what : String) {v w : Value} (h : Value.Twin R ids v w) :
    point what v = point what w := by
  have hdata := h.data
  simp only [point]
  generalize v.data = d at hdata
  generalize w.data = e at hdata
  cases hdata with
  | array hitems =>
      -- Two items are read, and any other number of them is refused.
      cases hitems with
      | nil => rfl
      | cons hx hrest =>
          cases hrest with
          | nil => rfl
          | cons hy hrest =>
              cases hrest with
              | nil => simp only [float_twin what hx, float_twin what hy]
              | cons => rfl
  | number | text | boolean | sketch | extrusion | function | host => rfl

theorem sketch_twin {v w : Value} (h : Value.Twin R ids v w) :
    Agree (Sketch.Twin ids) (sketch v) (sketch w) := by
  obtain ⟨hdata⟩ := h
  cases hdata with
  | sketch hs => exact .ok hs
  | number | text | boolean | array | extrusion | function | host => exact .error _

theorem extrusion_twin {v w : Value} (h : Value.Twin R ids v w) :
    Agree (Extrusion.Twin ids) (extrusion v) (extrusion w) := by
  obtain ⟨hdata⟩ := h
  cases hdata with
  | extrusion he => exact .ok he
  | number | text | boolean | array | sketch | function | host => exact .error _

theorem tag_twin {v w : Value} (h : Value.Twin R ids v w) : tag v = tag w := by
  obtain ⟨hdata⟩ := h
  cases hdata <;> rfl

/-- Both arguments are left out, or they are twins. -/
def LabelTwin (R : Ranges) (ids : Ids) : Option Value → Option Value → Prop
  | none, none => True
  | some v, some w => Value.Twin R ids v w
  | _, _ => False

theorem tag?_twin {v? w? : Option Value} (h : LabelTwin R ids v? w?) : tag? v? = tag? w? := by
  cases v? with
  | none =>
      cases w? with
      | none => rfl
      | some w => exact h.elim
  | some v =>
      cases w? with
      | none => exact h.elim
      | some w => simp only [tag?, tag_twin (show Value.Twin R ids v w from h)]

/-! ### Calculation -/

theorem calculated_twin (n : Number) :
    Effect.Twin R code code' ids (calculated ⟨code, m⟩ n) (calculated ⟨code', m'⟩ n) :=
  .quiet (.mk .number) .nil

theorem legs_twin {v v' w w' : Value} (hv : Value.Twin R ids v v') (hw : Value.Twin R ids w w') :
    legs v w = legs v' w' := by
  simp only [legs, number_twin _ hv, float_twin _ hv, float_twin _ hw]

/-! ### Drawing -/

theorem host_agree {f g : String × Host} (h : InputTwin ids f g) :
    Agree (fun _ _ => True) (Identity.host f.2) (Identity.host g.2) := by
  cases h with
  | same => exact agree_refl.mono fun _ _ _ => trivial
  | @sketch s t h =>
      change Agree _ (Identity.sketch s) (Identity.sketch t)
      rw [Identity.sketch_eq, Identity.sketch_eq, h.bare]
      exact agree_bind_same fun _ => .ok trivial

theorem inputFields_agree {fs gs : List (String × Host)} (h : Forall₂ (InputTwin ids) fs gs) :
    Agree (fun _ _ => True) (Identity.inputFields fs) (Identity.inputFields gs) := by
  induction h with
  | nil => exact .ok trivial
  | cons h _ ih => exact (host_agree h).bind fun _ _ _ => ih.bind fun _ _ _ => .ok trivial

/-- Twin inputs at corresponding places make twin commands. -/
theorem command_twin (hrange : R m.span.range m'.span.range) {fs gs : List (String × Host)}
    (hnames : fs.map (·.1) ∈ Identity.inputNames) (hinputs : Forall₂ (InputTwin ids) fs gs)
    {r r' : Request} (hrequest : r.Twin ids r') :
    Agree (Command.Twin R code code' ids) (command ⟨code, m⟩ fs r) (command ⟨code', m'⟩ gs r') := by
  have hdocument : Agree (fun _ _ => True)
      (Identity.commandDocument code m.span.range (inputs fs))
      (Identity.commandDocument code' m'.span.range (inputs gs)) := by
    rw [Identity.commandDocument_inputs, Identity.commandDocument_inputs]
    exact (inputFields_agree hinputs).bind fun _ _ _ => .ok trivial
  refine (hdocument.attach.mapError Refusal.fault).bind fun document document' h => .ok ?_
  exact ⟨hrange, hrequest, fs, gs, hnames, hinputs, h.1, h.2⟩

end Builtin

/-! ### Shapes -/

namespace Sketch

variable {ids : Ids} {s t : Sketch}

theorem bare_starting (a b : String) (p : Point) : (starting a p).bare = (starting b p).bare := rfl

theorem lastPoint_bare (s : Sketch) : s.bare.lastPoint = s.lastPoint := by
  simp only [lastPoint, bare, List.getLast?_map]
  cases s.segments.getLast? <;> rfl

theorem Twin.lastPoint_eq (h : s.Twin ids t) : s.lastPoint = t.lastPoint := by
  rw [← lastPoint_bare s, h.bare, lastPoint_bare]

theorem Twin.start_eq (h : s.Twin ids t) : s.start = t.start := by
  have hstart : s.bare.start = t.bare.start := by rw [h.bare]
  exact hstart

theorem Twin.position_eq (h : s.Twin ids t) : s.position = t.position := by
  have hposition : s.bare.position = t.bare.position := by rw [h.bare]
  exact hposition

theorem Twin.rotation_eq (h : s.Twin ids t) : s.rotation = t.rotation := by
  have hrotation : s.bare.rotation = t.bare.rotation := by rw [h.bare]
  exact hrotation

theorem Twin.segments_eq (h : s.Twin ids t) :
    s.segments.map Segment.bare = t.segments.map Segment.bare := by
  have hsegments : s.bare.segments = t.bare.segments := by rw [h.bare]
  exact hsegments

theorem Twin.points_eq (h : s.Twin ids t) : s.points = t.points := by
  have hstops (u : Sketch) : u.segments.map (·.stop) = (u.segments.map Segment.bare).map (·.stop) := by
    rw [List.map_map]
    rfl
  rw [points, points, h.start_eq, hstops s, hstops t, h.segments_eq]

/-- A twin segment makes a twin sketch. -/
theorem Twin.extend (h : s.Twin ids t) {a b : Segment} (hab : a.bare = b.bare) :
    (s.extend a).Twin ids (t.extend b) := by
  refine ⟨h.id, ?_⟩
  have hbare (u : Sketch) (c : Segment) : (u.extend c).bare = u.bare.extend c.bare := by
    simp only [Sketch.extend, Sketch.bare, List.map_append, List.map_cons, List.map_nil]
  rw [hbare, hbare, h.bare, hab]

theorem Twin.close (h : s.Twin ids t) :
    ({ s with closed := true } : Sketch).Twin ids { t with closed := true } := by
  refine ⟨h.id, ?_⟩
  have hbare (u : Sketch) : ({ u with closed := true } : Sketch).bare = { u.bare with closed := true } :=
    rfl
  rw [hbare, hbare, h.bare]

end Sketch

namespace Geometry

variable {ids : Ids} {sketch sketch' : Sketch}

theorem wall_agree (h : sketch.Twin ids sketch') (height : Float) (direction : Int)
    {s s' : Segment} (hs : s.bare = s'.bare) :
    Agree (fun w w' => w.bare = w'.bare) (wall sketch height direction s)
      (wall sketch' height direction s') := by
  obtain ⟨start, stop, name, range⟩ := s
  obtain ⟨start', stop', name', range'⟩ := s'
  obtain ⟨rfl, rfl, rfl⟩ : start = start' ∧ stop = stop' ∧ name = name' := by
    simpa only [Segment.bare, Segment.mk.injEq, and_true] using hs
  unfold wall
  rw [h.position_eq, h.rotation_eq]
  refine agree_bind_same fun p => agree_bind_same fun q => agree_bind_same fun offset => ?_
  refine agree_bind_same fun x => agree_bind_same fun y => agree_bind_same fun z => ?_
  exact agree_bind_same fun r => .ok rfl

theorem mapM_wall_agree (h : sketch.Twin ids sketch') (height : Float) (direction : Int)
    {ss ss' : List Segment} (hss : ss.map Segment.bare = ss'.map Segment.bare) :
    Agree (fun ws ws' => ws.map Wall.bare = ws'.map Wall.bare)
      (ss.mapM (wall sketch height direction)) (ss'.mapM (wall sketch' height direction)) := by
  induction ss generalizing ss' with
  | nil =>
      cases ss' with
      | nil => exact .ok rfl
      | cons => cases hss
  | cons s ss ih =>
      cases ss' with
      | nil => cases hss
      | cons s' ss' =>
          obtain ⟨hs, hss⟩ := List.cons.inj hss
          rw [List.mapM_cons, List.mapM_cons]
          refine (wall_agree h height direction hs).bind fun w w' hw => ?_
          refine (ih hss).bind fun ws ws' hws => .ok ?_
          rw [List.map_cons, List.map_cons, hw, hws]

theorem tagged_bare (ss : List Segment) :
    (ss.filter (!·.name.isEmpty)).map Segment.bare =
      (ss.map Segment.bare).filter (!·.name.isEmpty) := by
  rw [List.filter_map]
  rfl

/-- Twin sketches have walls that differ in ranges only. -/
theorem walls_agree (h : sketch.Twin ids sketch') (height : Number) :
    Agree (fun ws ws' => ws.map Wall.bare = ws'.map Wall.bare) (walls sketch height)
      (walls sketch' height) := by
  have htagged : (sketch.segments.filter (!·.name.isEmpty)).map Segment.bare =
      (sketch'.segments.filter (!·.name.isEmpty)).map Segment.bare := by
    rw [tagged_bare, tagged_bare, h.segments_eq]
  unfold walls
  rw [h.points_eq]
  generalize sketch.segments.filter (!·.name.isEmpty) = ss at htagged
  generalize sketch'.segments.filter (!·.name.isEmpty) = ss' at htagged
  refine agree_bind_same fun direction => ?_
  cases ss with
  | nil =>
      cases ss' with
      | nil => exact .ok rfl
      | cons => cases htagged
  | cons s ss =>
      cases ss' with
      | nil => cases htagged
      | cons s' ss' => exact agree_bind_same fun height => mapM_wall_agree h height direction htagged

end Geometry

namespace Builtin

variable {R : Ranges} {ids : Ids} {code code' : String} {m m' : Mark}

/-! ### Functions that draw -/

theorem runStart_twin (hrange : R m.span.range m'.span.range) {v v' : Value}
    (hv : Value.Twin R ids v v') :
    Agree (Effect.Twin R code code' ids) (runStart ⟨code, m⟩ v) (runStart ⟨code', m'⟩ v') := by
  simp only [runStart, point_twin _ hv]
  refine agree_bind_same fun p => ?_
  have hinputs : Forall₂ (InputTwin ids) [("at", pointInput p)] [("at", pointInput p)] :=
    .cons (.same (by decide)) .nil
  refine (command_twin hrange (by simp [Identity.inputNames]) hinputs .startPath).bind ?_
  intro c c' hc
  exact .ok (.sending hc (.mk (.sketch ⟨ids.add_self _ _, Sketch.bare_starting _ _ p⟩)))

/-- A segment to the same point makes twin sketches of twin sketches. -/
theorem extended_twin (hrange : R m.span.range m'.span.range) (target target' extra extra' : Value)
    {s s' : Sketch} (hs : s.Twin ids s') (stop : Point) (tag : Option String)
    {fs gs : List (String × Host)} (hnames : fs.map (·.1) ∈ Identity.inputNames)
    (hinputs : Forall₂ (InputTwin ids) fs gs) :
    Agree (Effect.Twin R code code' ids) (extended ⟨code, m⟩ target s stop tag fs extra)
      (extended ⟨code', m'⟩ target' s' stop tag gs extra') := by
  refine (command_twin hrange hnames hinputs (.extendPath hs.id)).bind fun c c' hc => ?_
  refine .ok (.sending hc (.mk (.sketch ?_)))
  refine (hs.mono (ids.le_add _ _)).extend ?_
  simp only [Segment.bare, hs.lastPoint_eq]

theorem runLineTo_twin (hrange : R m.span.range m'.span.range) {v v' w w' : Value}
    {x x' : Option Value} (hv : Value.Twin R ids v v') (hw : Value.Twin R ids w w')
    (hx : LabelTwin R ids x x') :
    Agree (Effect.Twin R code code' ids) (runLineTo ⟨code, m⟩ v w x)
      (runLineTo ⟨code', m'⟩ v' w' x') := by
  simp only [runLineTo, point_twin _ hv, tag?_twin hx]
  refine agree_bind_same fun p => (sketch_twin hw).bind fun s s' hs => agree_bind_same fun t => ?_
  refine extended_twin hrange _ _ _ _ hs p t (by simp [Identity.inputNames]) ?_
  exact .cons (.same (by decide)) (.cons (.sketch hs) (.cons (.same (by decide)) .nil))

theorem runLine_twin (hrange : R m.span.range m'.span.range) {v v' w w' : Value}
    {x x' : Option Value} (hv : Value.Twin R ids v v') (hw : Value.Twin R ids w w')
    (hx : LabelTwin R ids x x') :
    Agree (Effect.Twin R code code' ids) (runLine ⟨code, m⟩ v w x)
      (runLine ⟨code', m'⟩ v' w' x') := by
  simp only [runLine, point_twin _ hv, tag?_twin hx]
  refine agree_bind_same fun d => (sketch_twin hw).bind fun s s' hs => agree_bind_same fun t => ?_
  rw [hs.lastPoint_eq]
  refine agree_bind_same fun x => agree_bind_same fun y => ?_
  refine extended_twin hrange _ _ _ _ hs _ t (by simp [Identity.inputNames]) ?_
  exact .cons (.same (by decide)) (.cons (.sketch hs) (.cons (.same (by decide)) .nil))

theorem runClose_twin (hrange : R m.span.range m'.span.range) {w w' : Value} {x x' : Option Value}
    (hw : Value.Twin R ids w w') (hx : LabelTwin R ids x x') :
    Agree (Effect.Twin R code code' ids) (runClose ⟨code, m⟩ w x)
      (runClose ⟨code', m'⟩ w' x') := by
  simp only [runClose, tag?_twin hx]
  refine (sketch_twin hw).bind fun s s' hs => agree_bind_same fun t => ?_
  have hinputs : Forall₂ (InputTwin ids) [("sketch", .sketch s), ("tag", tagInput t)]
      [("sketch", .sketch s'), ("tag", tagInput t)] :=
    .cons (.sketch hs) (.cons (.same (by decide)) .nil)
  refine (command_twin hrange (by simp [Identity.inputNames]) hinputs (.closePath hs.id)).bind ?_
  intro c c' hc
  refine .ok (.sending hc (.mk (.sketch ?_)))
  refine ((hs.mono (ids.le_add _ _)).extend ?_).close
  simp only [Segment.bare, hs.lastPoint_eq, hs.start_eq]

theorem runExtrude_twin (hrange : R m.span.range m'.span.range) {v v' w w' : Value}
    (hv : Value.Twin R ids v v') (hw : Value.Twin R ids w w') :
    Agree (Effect.Twin R code code' ids) (runExtrude ⟨code, m⟩ v w)
      (runExtrude ⟨code', m'⟩ v' w') := by
  simp only [runExtrude, number_twin _ hv]
  refine agree_bind_same fun distance => (sketch_twin hw).bind fun s s' hs => ?_
  have hinputs : Forall₂ (InputTwin ids) [("length", .number distance), ("sketch", .sketch s)]
      [("length", .number distance), ("sketch", .sketch s')] :=
    .cons (.same (by decide)) (.cons (.sketch hs) .nil)
  refine (command_twin hrange (by simp [Identity.inputNames]) hinputs (.extrude hs.id)).bind ?_
  intro c c' hc
  refine ((Geometry.walls_agree hs distance).mapError Refusal.fault).bind fun ws ws' hws => ?_
  refine .ok (.sending hc (.mk (.extrusion ⟨ids.add_self _ _, ids.le_add _ _ _ _ hs.id, ?_⟩)))
  simp only [Extrusion.bare, hws, hs.position_eq, hs.rotation_eq]

theorem wall?_agree {e e' : Extrusion} (h : e.Twin ids e') (name : String) :
    (e.wall? name).map Wall.bare = (e'.wall? name).map Wall.bare := by
  have hbare (u : Extrusion) : (u.wall? name).map Wall.bare =
      (u.bare.walls).find? (·.name == name) := by
    simp only [Extrusion.wall?, Extrusion.bare, List.find?_map]
    rfl
  rw [hbare, hbare, h.bare]

theorem numbers_twin (ns : List Number) :
    Host.Twin R ids (.list (ns.map .number)) (.list (ns.map .number)) := by
  refine .list ?_
  induction ns with
  | nil => exact .nil
  | cons n ns ih => exact .cons .number ih

theorem runWall_twin {v v' w w' : Value} (hv : Value.Twin R ids v v')
    (hw : Value.Twin R ids w w') :
    Agree (Effect.Twin R code code' ids) (runWall ⟨code, m⟩ v w) (runWall ⟨code', m'⟩ v' w') := by
  simp only [runWall, tag_twin hv]
  refine agree_bind_same fun name => (extrusion_twin hw).bind fun e e' he => ?_
  have hwall := wall?_agree he name
  generalize e.wall? name = x at hwall
  generalize e'.wall? name = y at hwall
  cases x with
  | none =>
      cases y with
      | none => exact .error _
      | some => cases hwall
  | some wall =>
      cases y with
      | none => cases hwall
      | some wall' =>
          obtain ⟨hposition, hrotation⟩ : wall.position = wall'.position ∧
              wall.rotation = wall'.rotation := by
            have hbare := Option.some.inj hwall
            simp only [Wall.bare, Wall.mk.injEq, and_true] at hbare
            exact ⟨hbare.2.1, hbare.2.2⟩
          simp only [hposition, hrotation]
          refine .ok (.quiet (.mk (.host (.record ?_))) .nil)
          exact .cons (numbers_twin _) (.cons (numbers_twin _) .nil)

/-! ### All functions -/

/-- A function of the library called at corresponding places with twin arguments has twin effects. -/
theorem run_twin (hrange : R m.span.range m'.span.range) (b : Builtin) {vs ws : List Value}
    (h : Value.TwinAll R ids vs ws) :
    Agree (Effect.Twin R code code' ids) (b.run ⟨code, m⟩ vs) (b.run ⟨code', m'⟩ ws) := by
  cases b with
  | sin | cos | tan =>
      refine run_one_related (by simp) h.forall₂ (.error _) fun v w hv => ?_
      simp only [run, float_twin _ hv]
      exact agree_bind_same fun x => agree_bind_same fun n => .ok (calculated_twin n)
  | sqrt =>
      refine run_one_related (by simp) h.forall₂ (.error _) fun v w hv => ?_
      simp only [run, number_twin _ hv, float_twin _ hv]
      refine agree_bind_same fun n => ?_
      split
      · exact .error _
      · exact agree_bind_same fun x => agree_bind_same fun n => .ok (calculated_twin n)
  | abs =>
      refine run_one_related (by simp) h.forall₂ (.error _) fun v w hv => ?_
      simp only [run, number_twin _ hv]
      exact agree_bind_same fun n => .ok (calculated_twin _)
  | startSketchAt =>
      exact run_one_related (by simp) h.forall₂ (.error _) fun v w hv => runStart_twin hrange hv
  | min | max =>
      simp only [run, mapM_number_twin _ h]
      exact agree_bind_same fun ns => agree_bind_same fun n => .ok (calculated_twin n)
  | pi =>
      cases h with
      | nil => exact .ok (calculated_twin _)
      | cons => exact .error _
  | showValues =>
      cases h with
      | nil => exact .error _
      | cons hv hrest => exact .ok (.quiet hv (.cons hv hrest))
  | pow =>
      refine run_two_related (by simp) h.forall₂ (.error _) fun v w hv v' w' hv' => ?_
      simp only [run, float_twin _ hv, float_twin _ hv']
      exact agree_bind_same fun x => agree_bind_same fun y => agree_bind_same fun n =>
        .ok (calculated_twin n)
  | legLength =>
      refine run_two_related (by simp) h.forall₂ (.error _) fun v w hv v' w' hv' => ?_
      simp only [run, legs_twin hv hv']
      exact agree_bind_same fun sides => agree_bind_same fun n => .ok (calculated_twin n)
  | legAngleX | legAngleY =>
      refine run_two_related (by simp) h.forall₂ (.error _) fun v w hv v' w' hv' => ?_
      simp only [run, legs_twin hv hv']
      exact agree_bind_same fun sides => .ok (calculated_twin _)
  | extrude =>
      exact run_two_related (by simp) h.forall₂ (.error _) fun v w hv v' w' hv' => runExtrude_twin hrange hv hv'
  | wallTransform =>
      exact run_two_related (by simp) h.forall₂ (.error _) fun v w hv v' w' hv' => runWall_twin hv hv'
  -- Legs and closing may have a tag as a last argument.
  | lineTo =>
      rcases h with _ | ⟨hv, _ | ⟨hw, _ | ⟨hx, _ | _⟩⟩⟩
      · exact .error _
      · exact .error _
      · exact runLineTo_twin hrange hv hw trivial
      · exact runLineTo_twin hrange hv hw hx
      · exact .error _
  | line =>
      rcases h with _ | ⟨hv, _ | ⟨hw, _ | ⟨hx, _ | _⟩⟩⟩
      · exact .error _
      · exact .error _
      · exact runLine_twin hrange hv hw trivial
      · exact runLine_twin hrange hv hw hx
      · exact .error _
  | close =>
      rcases h with _ | ⟨hw, _ | ⟨hx, _ | _⟩⟩
      · exact .error _
      · exact runClose_twin hrange hw trivial
      · exact runClose_twin hrange hw hx
      · exact .error _

end Builtin

end PartScript
