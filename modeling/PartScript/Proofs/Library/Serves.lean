import PartScript.Proofs.Library.Like
import PartScript.Proofs.Value.Serves

/-!
The library takes a value that serves in the place of another one. A call that has an effect has one as
well from the same range of a text, with arguments that serve in the place of its own: it sends the same
command, and the values it gives and shows serve.
-/

namespace PartScript

open List (Forall₂)

/-- The second effect has the same command, and its values serve in the place of the first one's. -/
structure Effect.Serves (C : Closures) (e e' : Effect) : Prop where
  value : Value.Serves C e.value e'.value
  sent : e.sent = e'.sent
  shown : Forall₂ (Value.Serves C) e.shown e'.shown

namespace Builtin

variable {C : Closures} {site site' : CallSite}

/-! ### Arguments -/

theorem number_serves (what : String) {v w : Value} (h : Value.Serves C v w) :
    Carries (fun n m => n = m) (number what v) (number what w) := by
  simp only [number, h.number?]
  cases w.number? with
  | none => exact carries_error _ _
  | some n => exact carries_refl _

theorem float_serves (what : String) {v w : Value} (h : Value.Serves C v w) :
    Carries (fun x y => x = y) (float what v) (float what w) :=
  (number_serves what h).bind_eq fun _ => carries_refl _

theorem mapM_number_serves (what : String) {vs ws : List Value} (h : Forall₂ (Value.Serves C) vs ws) :
    Carries (fun ns ms => ns = ms) (vs.mapM (number what)) (ws.mapM (number what)) := by
  induction h with
  | nil => exact carries_ok rfl
  | cons hv _ ih =>
      rw [List.mapM_cons, List.mapM_cons]
      exact (number_serves what hv).bind_eq fun n => ih.bind_eq fun ns => carries_ok rfl

theorem point_serves (what : String) {v w : Value} (h : Value.Serves C v w) :
    Carries (fun p q => p = q) (point what v) (point what w) := by
  obtain ⟨hdata⟩ := h
  cases hdata with
  | array hitems =>
      -- Two items are read, and any other number of them is refused.
      cases hitems with
      | nil => exact carries_error _ _
      | cons hx hrest =>
          cases hrest with
          | nil => exact carries_error _ _
          | cons hy hrest =>
              cases hrest with
              | nil =>
                  exact (float_serves what hx).bind_eq fun x =>
                    (float_serves what hy).bind_eq fun y => carries_ok rfl
              | cons => exact carries_error _ _
  | number | text | boolean | sketch | extrusion | function | host => exact carries_error _ _

theorem sketch_serves {v w : Value} (h : Value.Serves C v w) :
    Carries (fun s t => s = t) (sketch v) (sketch w) := by
  obtain ⟨hdata⟩ := h
  cases hdata with
  | sketch => exact carries_refl _
  | number | text | boolean | array | extrusion | function | host => exact carries_error _ _

theorem extrusion_serves {v w : Value} (h : Value.Serves C v w) :
    Carries (fun e f => e = f) (extrusion v) (extrusion w) := by
  obtain ⟨hdata⟩ := h
  cases hdata with
  | extrusion => exact carries_refl _
  | number | text | boolean | array | sketch | function | host => exact carries_error _ _

theorem tag_serves {v w : Value} (h : Value.Serves C v w) :
    Carries (fun s t => s = t) (tag v) (tag w) := by
  obtain ⟨hdata⟩ := h
  cases hdata with
  | text => exact carries_refl _
  | number | boolean | array | sketch | extrusion | function | host => exact carries_error _ _

theorem tag?_serves {v w : Option Value} (h : Option.Rel (Value.Serves C) v w) :
    Carries (fun s t => s = t) (tag? v) (tag? w) := by
  cases h with
  | none => exact carries_refl _
  | some h => exact (tag_serves h).bind_eq fun s => carries_ok rfl

theorem legs_serves {v v' w w' : Value} (hv : Value.Serves C v v') (hw : Value.Serves C w w') :
    Carries (fun x y => x = y) (legs v w) (legs v' w') := by
  refine (number_serves _ hv).bind_eq fun n => ?_
  split
  · exact carries_error _ _
  · exact (float_serves _ hv).bind_eq fun x => (float_serves _ hw).bind_eq fun y => carries_ok rfl

/-! ### Single functions -/

theorem calculated_serves (n : Number) : (calculated site n).Serves C (calculated site' n) :=
  ⟨.mk (.number rfl), rfl, .nil⟩

theorem runStart_serves (hsite : site.Like site') {v v' : Value} (hv : Value.Serves C v v') :
    Carries (Effect.Serves C) (runStart site v) (runStart site' v') := by
  refine (point_serves _ hv).bind_eq fun p => ?_
  rw [command_like hsite]
  exact (carries_refl _).bind_eq fun sent => carries_ok ⟨.mk .sketch, rfl, .nil⟩

theorem extended_serves (hsite : site.Like site') (target target' extra extra' : Value) (s : Sketch)
    (stop : Point) (tag : Option String) (fields : List (String × Host)) :
    Carries (Effect.Serves C) (extended site target s stop tag fields extra)
      (extended site' target' s stop tag fields extra') := by
  simp only [extended, command_like hsite, hsite.range]
  exact (carries_refl _).bind_eq fun sent => carries_ok ⟨.mk .sketch, rfl, .nil⟩

theorem runLineTo_serves (hsite : site.Like site') {v v' w w' : Value} {x x' : Option Value}
    (hv : Value.Serves C v v') (hw : Value.Serves C w w') (hx : Option.Rel (Value.Serves C) x x') :
    Carries (Effect.Serves C) (runLineTo site v w x) (runLineTo site' v' w' x') := by
  refine (point_serves _ hv).bind_eq fun p => (sketch_serves hw).bind_eq fun s => ?_
  exact (tag?_serves hx).bind_eq fun t => extended_serves hsite _ _ _ _ s p t _

theorem runLine_serves (hsite : site.Like site') {v v' w w' : Value} {x x' : Option Value}
    (hv : Value.Serves C v v') (hw : Value.Serves C w w') (hx : Option.Rel (Value.Serves C) x x') :
    Carries (Effect.Serves C) (runLine site v w x) (runLine site' v' w' x') := by
  refine (point_serves _ hv).bind_eq fun d => (sketch_serves hw).bind_eq fun s => ?_
  refine (tag?_serves hx).bind_eq fun t => ?_
  exact (carries_refl _).bind_eq fun x => (carries_refl _).bind_eq fun y =>
    extended_serves hsite _ _ _ _ s _ t _

theorem runClose_serves (hsite : site.Like site') {w w' : Value} {x x' : Option Value}
    (hw : Value.Serves C w w') (hx : Option.Rel (Value.Serves C) x x') :
    Carries (Effect.Serves C) (runClose site w x) (runClose site' w' x') := by
  refine (sketch_serves hw).bind_eq fun s => (tag?_serves hx).bind_eq fun t => ?_
  rw [command_like hsite, hsite.range]
  exact (carries_refl _).bind_eq fun sent => carries_ok ⟨.mk .sketch, rfl, .nil⟩

theorem runExtrude_serves (hsite : site.Like site') {v v' w w' : Value} (hv : Value.Serves C v v')
    (hw : Value.Serves C w w') :
    Carries (Effect.Serves C) (runExtrude site v w) (runExtrude site' v' w') := by
  refine (number_serves _ hv).bind_eq fun distance => (sketch_serves hw).bind_eq fun s => ?_
  rw [command_like hsite]
  exact (carries_refl _).bind_eq fun sent => (carries_refl _).bind_eq fun walls =>
    carries_ok ⟨.mk .extrusion, rfl, .nil⟩

theorem numbers_serves (ns : List Number) :
    Host.Serves C (.list (ns.map .number)) (.list (ns.map .number)) := by
  refine .list (List.forall₂_same.2 fun h hh => ?_)
  obtain ⟨n, -, rfl⟩ := List.mem_map.1 hh
  exact .number

theorem runWall_serves {v v' w w' : Value} (hv : Value.Serves C v v') (hw : Value.Serves C w w') :
    Carries (Effect.Serves C) (runWall site v w) (runWall site' v' w') := by
  refine (tag_serves hv).bind_eq fun name => (extrusion_serves hw).bind_eq fun e => ?_
  cases e.wall? name with
  | none => exact carries_error _ _
  | some wall =>
      refine carries_ok ⟨.mk (.host (.record ?_)), rfl, .nil⟩
      exact .cons (.mk (numbers_serves _)) (.cons (.mk (numbers_serves _)) .nil)

/-! ### All functions -/

/-- A function of the library that has an effect has the same one with values that serve in the place of
its arguments. -/
theorem run_serves (hsite : site.Like site') (b : Builtin) {vs ws : List Value}
    (h : Forall₂ (Value.Serves C) vs ws) :
    Carries (Effect.Serves C) (b.run site vs) (b.run site' ws) := by
  have hcalculated (x : Except Refusal Number) :
      Carries (Effect.Serves C) (x >>= fun n => .ok (calculated site n))
        (x >>= fun n => .ok (calculated site' n)) :=
    (carries_refl x).bind_eq fun n => carries_ok (calculated_serves n)
  cases b with
  | sin | cos | tan =>
      refine run_one_related (by simp) h (carries_error _ _) fun v w hv => ?_
      exact (float_serves _ hv).bind_eq fun x => hcalculated _
  | sqrt =>
      refine run_one_related (by simp) h (carries_error _ _) fun v w hv => ?_
      refine (number_serves _ hv).bind_eq fun n => ?_
      split
      · exact carries_error _ _
      · exact (float_serves _ hv).bind_eq fun x => hcalculated _
  | abs =>
      refine run_one_related (by simp) h (carries_error _ _) fun v w hv => ?_
      exact (number_serves _ hv).bind_eq fun n => carries_ok (calculated_serves _)
  | startSketchAt =>
      exact run_one_related (by simp) h (carries_error _ _) fun v w hv => runStart_serves hsite hv
  | min | max => exact (mapM_number_serves _ h).bind_eq fun ns => hcalculated _
  | pi =>
      cases h with
      | nil => exact carries_ok (calculated_serves _)
      | cons => exact carries_error _ _
  | showValues =>
      cases h with
      | nil => exact carries_error _ _
      | cons hv hrest => exact carries_ok ⟨hv, rfl, .cons hv hrest⟩
  | pow =>
      refine run_two_related (by simp) h (carries_error _ _) fun v w hv v' w' hv' => ?_
      exact (float_serves _ hv).bind_eq fun x => (float_serves _ hv').bind_eq fun y => hcalculated _
  | legLength =>
      refine run_two_related (by simp) h (carries_error _ _) fun v w hv v' w' hv' => ?_
      exact (legs_serves hv hv').bind_eq fun sides => hcalculated _
  | legAngleX | legAngleY =>
      refine run_two_related (by simp) h (carries_error _ _) fun v w hv v' w' hv' => ?_
      exact (legs_serves hv hv').bind_eq fun sides => carries_ok (calculated_serves _)
  | extrude =>
      exact run_two_related (by simp) h (carries_error _ _) fun v w hv v' w' hv' => runExtrude_serves hsite hv hv'
  | wallTransform =>
      exact run_two_related (by simp) h (carries_error _ _) fun v w hv v' w' hv' => runWall_serves hv hv'
  -- Legs and closing may have a tag at the end.
  | lineTo =>
      rcases h with _ | ⟨hv, _ | ⟨hw, _ | ⟨hx, _ | _⟩⟩⟩
      · exact carries_error _ _
      · exact carries_error _ _
      · exact runLineTo_serves hsite hv hw .none
      · exact runLineTo_serves hsite hv hw (.some hx)
      · exact carries_error _ _
  | line =>
      rcases h with _ | ⟨hv, _ | ⟨hw, _ | ⟨hx, _ | _⟩⟩⟩
      · exact carries_error _ _
      · exact carries_error _ _
      · exact runLine_serves hsite hv hw .none
      · exact runLine_serves hsite hv hw (.some hx)
      · exact carries_error _ _
  | close =>
      rcases h with _ | ⟨hw, _ | ⟨hx, _ | _⟩⟩
      · exact carries_error _ _
      · exact runClose_serves hsite hw .none
      · exact runClose_serves hsite hw (.some hx)
      · exact carries_error _ _

end Builtin

end PartScript
