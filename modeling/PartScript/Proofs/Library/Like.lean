import PartScript.Proofs.Twin.Library
import PartScript.Proofs.Value.Like

/-!
The library calls no function of the script. Called from one range of a text with arguments that differ
in functions only, it is refused for the same reason, or it sends the same command and shows and gives
values that differ in functions only.
-/

namespace PartScript

/-- The effects differ in functions only. -/
structure Effect.Like (C : Closures) (e e' : Effect) : Prop where
  value : Value.Like C e.value e'.value
  sent : e.sent = e'.sent
  shown : Value.LikeAll C e.shown e'.shown

/-- The calls stand at the same range of the same text. -/
structure CallSite.Like (site site' : CallSite) : Prop where
  code : site.code = site'.code
  range : site.mark.span.range = site'.mark.span.range

theorem CallSite.Like.refl (site : CallSite) : site.Like site := ⟨rfl, rfl⟩

namespace Builtin

variable {C : Closures} {site site' : CallSite}

/-! ### Arguments -/

theorem number_like (what : String) {v w : Value} (h : Value.Like C v w) :
    number what v = number what w := by
  simp only [number, h.number?, h.kind]

theorem float_like (what : String) {v w : Value} (h : Value.Like C v w) :
    float what v = float what w := by
  simp only [float, number_like what h]

theorem mapM_number_like (what : String) {vs ws : List Value} (h : Value.LikeAll C vs ws) :
    vs.mapM (number what) = ws.mapM (number what) := by
  replace h := h.forall₂
  induction h with
  | nil => rfl
  | cons hv _ ih => simp only [List.mapM_cons, number_like what hv, ih]

theorem point_like (what : String) {v w : Value} (h : Value.Like C v w) :
    point what v = point what w := by
  have hdata := h.data
  simp only [point]
  generalize v.data = d at hdata
  generalize w.data = e at hdata
  cases hdata with
  | array hitems =>
      -- Two items are read, and any other number of them is refused.
      cases hitems with
      | nil => rfl
      | cons hx hrest =>
          cases hrest with
          | nil => rfl
          | cons hy hrest =>
              cases hrest with
              | nil => simp only [float_like what hx, float_like what hy]
              | cons => rfl
  | number | text | boolean | sketch | extrusion | function | host => rfl

theorem sketch_like {v w : Value} (h : Value.Like C v w) : sketch v = sketch w := by
  obtain ⟨hdata⟩ := h
  cases hdata <;> rfl

theorem extrusion_like {v w : Value} (h : Value.Like C v w) : extrusion v = extrusion w := by
  obtain ⟨hdata⟩ := h
  cases hdata <;> rfl

theorem tag_like {v w : Value} (h : Value.Like C v w) : tag v = tag w := by
  obtain ⟨hdata⟩ := h
  cases hdata <;> rfl

theorem tag?_like {v w : Option Value} (h : Option.Rel (Value.Like C) v w) : tag? v = tag? w := by
  cases h with
  | none => rfl
  | some h => simp only [tag?, tag_like h]

theorem legs_like {v v' w w' : Value} (hv : Value.Like C v v') (hw : Value.Like C w w') :
    legs v w = legs v' w' := by
  simp only [legs, number_like _ hv, float_like _ hv, float_like _ hw]

/-! ### Single functions -/

theorem calculated_like (n : Number) : (calculated site n).Like C (calculated site' n) :=
  ⟨.mk .number, rfl, .nil⟩

theorem command_like (hsite : site.Like site') (fields : List (String × Host)) (request : Request) :
    command site fields request = command site' fields request := by
  simp only [command, hsite.code, hsite.range]

theorem runStart_like (hsite : site.Like site') {v v' : Value} (hv : Value.Like C v v') :
    Agree (Effect.Like C) (runStart site v) (runStart site' v') := by
  simp only [runStart, point_like _ hv, command_like hsite]
  exact agree_bind_same fun p => agree_bind_same fun sent => .ok ⟨.mk .sketch, rfl, .nil⟩

theorem extended_like (hsite : site.Like site') (target target' extra extra' : Value) (s : Sketch)
    (stop : Point) (tag : Option String) (fields : List (String × Host)) :
    Agree (Effect.Like C) (extended site target s stop tag fields extra)
      (extended site' target' s stop tag fields extra') := by
  simp only [extended, command_like hsite, hsite.range]
  exact agree_bind_same fun _ => .ok ⟨.mk .sketch, rfl, .nil⟩

theorem runLineTo_like (hsite : site.Like site') {v v' w w' : Value} {x x' : Option Value}
    (hv : Value.Like C v v') (hw : Value.Like C w w') (hx : Option.Rel (Value.Like C) x x') :
    Agree (Effect.Like C) (runLineTo site v w x) (runLineTo site' v' w' x') := by
  simp only [runLineTo, point_like _ hv, sketch_like hw, tag?_like hx]
  refine agree_bind_same fun p => agree_bind_same fun s => agree_bind_same fun t => ?_
  exact extended_like hsite _ _ _ _ s p t _

theorem runLine_like (hsite : site.Like site') {v v' w w' : Value} {x x' : Option Value}
    (hv : Value.Like C v v') (hw : Value.Like C w w') (hx : Option.Rel (Value.Like C) x x') :
    Agree (Effect.Like C) (runLine site v w x) (runLine site' v' w' x') := by
  simp only [runLine, point_like _ hv, sketch_like hw, tag?_like hx]
  refine agree_bind_same fun d => agree_bind_same fun s => agree_bind_same fun t => ?_
  exact agree_bind_same fun x => agree_bind_same fun y => extended_like hsite _ _ _ _ s _ t _

theorem runClose_like (hsite : site.Like site') {w w' : Value} {x x' : Option Value}
    (hw : Value.Like C w w') (hx : Option.Rel (Value.Like C) x x') :
    Agree (Effect.Like C) (runClose site w x) (runClose site' w' x') := by
  simp only [runClose, sketch_like hw, tag?_like hx, command_like hsite, hsite.range]
  refine agree_bind_same fun s => agree_bind_same fun t => agree_bind_same fun sent => ?_
  exact .ok ⟨.mk .sketch, rfl, .nil⟩

theorem runExtrude_like (hsite : site.Like site') {v v' w w' : Value} (hv : Value.Like C v v')
    (hw : Value.Like C w w') :
    Agree (Effect.Like C) (runExtrude site v w) (runExtrude site' v' w') := by
  simp only [runExtrude, number_like _ hv, sketch_like hw, command_like hsite]
  refine agree_bind_same fun distance => agree_bind_same fun s => agree_bind_same fun sent => ?_
  exact agree_bind_same fun walls => .ok ⟨.mk .extrusion, rfl, .nil⟩

theorem numbers_like (ns : List Number) :
    Host.Like C (.list (ns.map .number)) (.list (ns.map .number)) := by
  refine .list ?_
  induction ns with
  | nil => exact .nil
  | cons n ns ih => exact .cons .number ih

theorem runWall_like {v v' w w' : Value} (hv : Value.Like C v v') (hw : Value.Like C w w') :
    Agree (Effect.Like C) (runWall site v w) (runWall site' v' w') := by
  simp only [runWall, tag_like hv, extrusion_like hw]
  refine agree_bind_same fun name => agree_bind_same fun e => ?_
  cases e.wall? name with
  | none => exact .error _
  | some wall =>
      refine .ok ⟨.mk (.host (.record ?_)), rfl, .nil⟩
      exact .cons (numbers_like _) (.cons (numbers_like _) .nil)

/-! ### All functions -/

/-- A function of the library cannot tell arguments apart that differ in functions only. -/
theorem run_like (hsite : site.Like site') (b : Builtin) {vs ws : List Value}
    (h : Value.LikeAll C vs ws) : Agree (Effect.Like C) (b.run site vs) (b.run site' ws) := by
  cases b with
  | sin | cos | tan =>
      refine run_one_related (by simp) h.forall₂ (.error _) fun v w hv => ?_
      simp only [run, float_like _ hv]
      exact agree_bind_same fun x => agree_bind_same fun n => .ok (calculated_like n)
  | sqrt =>
      refine run_one_related (by simp) h.forall₂ (.error _) fun v w hv => ?_
      simp only [run, number_like _ hv, float_like _ hv]
      refine agree_bind_same fun n => ?_
      split
      · exact .error _
      · exact agree_bind_same fun x => agree_bind_same fun n => .ok (calculated_like n)
  | abs =>
      refine run_one_related (by simp) h.forall₂ (.error _) fun v w hv => ?_
      simp only [run, number_like _ hv]
      exact agree_bind_same fun n => .ok (calculated_like _)
  | startSketchAt => exact run_one_related (by simp) h.forall₂ (.error _) fun v w hv => runStart_like hsite hv
  | min | max =>
      simp only [run, mapM_number_like _ h]
      exact agree_bind_same fun ns => agree_bind_same fun n => .ok (calculated_like n)
  | pi =>
      cases h with
      | nil => exact .ok (calculated_like _)
      | cons => exact .error _
  | showValues =>
      cases h with
      | nil => exact .error _
      | cons hv hrest => exact .ok ⟨hv, rfl, .cons hv hrest⟩
  | pow =>
      refine run_two_related (by simp) h.forall₂ (.error _) fun v w hv v' w' hv' => ?_
      simp only [run, float_like _ hv, float_like _ hv']
      exact agree_bind_same fun x => agree_bind_same fun y => agree_bind_same fun n =>
        .ok (calculated_like n)
  | legLength =>
      refine run_two_related (by simp) h.forall₂ (.error _) fun v w hv v' w' hv' => ?_
      simp only [run, legs_like hv hv']
      exact agree_bind_same fun sides => agree_bind_same fun n => .ok (calculated_like n)
  | legAngleX | legAngleY =>
      refine run_two_related (by simp) h.forall₂ (.error _) fun v w hv v' w' hv' => ?_
      simp only [run, legs_like hv hv']
      exact agree_bind_same fun sides => .ok (calculated_like _)
  | extrude =>
      exact run_two_related (by simp) h.forall₂ (.error _) fun v w hv v' w' hv' => runExtrude_like hsite hv hv'
  | wallTransform =>
      exact run_two_related (by simp) h.forall₂ (.error _) fun v w hv v' w' hv' => runWall_like hv hv'
  -- Legs and closing may have a tag at the end.
  | lineTo =>
      rcases h with _ | ⟨hv, _ | ⟨hw, _ | ⟨hx, _ | _⟩⟩⟩
      · exact .error _
      · exact .error _
      · exact runLineTo_like hsite hv hw .none
      · exact runLineTo_like hsite hv hw (.some hx)
      · exact .error _
  | line =>
      rcases h with _ | ⟨hv, _ | ⟨hw, _ | ⟨hx, _ | _⟩⟩⟩
      · exact .error _
      · exact .error _
      · exact runLine_like hsite hv hw .none
      · exact runLine_like hsite hv hw (.some hx)
      · exact .error _
  | close =>
      rcases h with _ | ⟨hw, _ | ⟨hx, _ | _⟩⟩
      · exact .error _
      · exact runClose_like hsite hw .none
      · exact runClose_like hsite hw (.some hx)
      · exact .error _

end Builtin

end PartScript
