import Mathlib.Data.List.Forall2
import PartScript.Proofs.Results
import PartScript.Proofs.Value.Numbers

/-!
What the library can do. A call that succeeds has one of seven effects, and those that send a command
say which inputs the command is identified by. Everything else about the library, such as what its
commands refer to or what they are known from, follows from this list.
-/

namespace PartScript.Builtin

/-- The number is an angle of a right triangle in degrees, the arc cosine or the arc sine of a ratio of
its sides. -/
inductive Angle : Number → Prop
  | cosine {hypotenuse leg : Value} {long side : Float}
      (h : legs hypotenuse leg = .ok (long, side)) : Angle (.float (degrees (side / long).acos))
  | sine {hypotenuse leg : Value} {long side : Float}
      (h : legs hypotenuse leg = .ok (long, side)) : Angle (.float (degrees (side / long).asin))

/-- How the next corner of a sketch is given, as a point or as an offset from the last corner, with the
inputs by which the command is identified. -/
inductive Leg (s : Sketch) (tag : Option String) : Point → List (String × Host) → Prop
  | point {x y : Float} (hx : x.isFinite = true) (hy : y.isFinite = true) :
      Leg s tag ⟨.float x, .float y⟩
        [("to", pointInput ⟨.float x, .float y⟩), ("sketch", .sketch s), ("tag", tagInput tag)]
  | offset {dx dy : Float} {stop : Point} (hdx : dx.isFinite = true) (hdy : dy.isFinite = true)
      (hx : s.lastPoint.x.add? (.float dx) = some stop.x)
      (hy : s.lastPoint.y.add? (.float dy) = some stop.y) :
      Leg s tag stop
        [("delta", pointInput ⟨.float dx, .float dy⟩), ("sketch", .sketch s), ("tag", tagInput tag)]

/-- What a call with some arguments can do: compute a number, show its arguments, start a sketch, draw
or close one, extrude one, or find a wall. -/
inductive Does (site : CallSite) (args : List Value) : Effect → Prop
  | calculates {n : Number} (hn : n.isFinite = true ∨ Angle n) : Does site args (calculated site n)
  | shows {v : Value} {rest : List Value} (hargs : args = v :: rest) : Does site args ⟨v, none, args⟩
  | starts {x y : Float} {c : Command} {trail : List Origin} (hx : x.isFinite = true)
      (hy : y.isFinite = true)
      (hsent : command site [("at", pointInput ⟨.float x, .float y⟩)]
        (.startPath ⟨.float x, .float y⟩) = .ok c) :
      Does site args
        ⟨.mk (.sketch (.starting c.id ⟨.float x, .float y⟩)) trail, some c, []⟩
  | draws {s : Sketch} {tag : Option String} {stop : Point} {fields : List (String × Host)}
      {c : Command} {trail : List Origin} (hs : .sketch s ∈ Value.partsOf args)
      (hleg : Leg s tag stop fields) (hsent : command site fields (.extendPath s.id stop) = .ok c) :
      Does site args
        ⟨.mk (.sketch (s.extend ⟨s.lastPoint, stop, tag.getD "", site.mark.span.range⟩)) trail,
          some c, []⟩
  | closes {s : Sketch} {tag : Option String} {c : Command} {trail : List Origin}
      (hs : .sketch s ∈ Value.partsOf args)
      (hsent : command site [("sketch", .sketch s), ("tag", tagInput tag)] (.closePath s.id) = .ok c) :
      Does site args
        ⟨.mk (.sketch { s.extend ⟨s.lastPoint, s.start, tag.getD "", site.mark.span.range⟩ with
          closed := true }) trail, some c, []⟩
  | extrudes {s : Sketch} {distance : Number} {walls : List Wall} {c : Command}
      {trail : List Origin} (hs : .sketch s ∈ Value.partsOf args) (hfinite : distance.isFinite = true)
      (hsent : command site [("length", .number distance), ("sketch", .sketch s)]
        (.extrude s.id distance) = .ok c)
      (hwalls : Geometry.walls s distance = .ok walls) :
      Does site args
        ⟨.mk (.extrusion ⟨c.id, s.id, distance, s.position, s.rotation, walls⟩) trail, some c, []⟩
  | finds {e : Extrusion} {name : String} {w : Wall} {trail : List Origin}
      (he : .extrusion e ∈ Value.partsOf args) (hw : e.wall? name = some w) :
      Does site args
        ⟨.mk (.host (.record [
          (.text "position", .list (w.position.coordinates.map .number)),
          (.text "quaternion", .list (w.rotation.coordinates.map .number))])) trail, none, []⟩

/-- The place of a wall is made of its numbers. -/
theorem number_of_mem_place {w : Wall} {part : Part}
    (h : part ∈ (Host.record [(.text "position", .list (w.position.coordinates.map .number)),
      (.text "quaternion", .list (w.rotation.coordinates.map .number))]).parts) :
    ∃ n ∈ w.numbers, part = .number n := by
  have hparts : part ∈ (w.position.coordinates ++ w.rotation.coordinates).map Part.number := h
  obtain ⟨n, hn, rfl⟩ := List.mem_map.1 hparts
  exact ⟨n, hn, rfl⟩

/-! ### Arguments -/

theorem isFinite_of_number {what : String} {v : Value} {n : Number} (h : number what v = .ok n) :
    n.isFinite = true := by
  unfold number at h
  split at h
  · cases h
  · split at h
    · rename_i hfinite
      cases h
      exact hfinite
    · cases h

theorem isFinite_of_float {what : String} {v : Value} {x : Float} (h : float what v = .ok x) :
    x.isFinite = true := by
  obtain ⟨n, hn, h⟩ := bind_eq_ok h
  obtain ⟨y, hy, hfinite⟩ := Number.exists_toFloat? (isFinite_of_number hn)
  rw [hy] at h
  cases h
  exact hfinite

theorem point_eq_ok {what : String} {v : Value} {p : Point} (h : point what v = .ok p) :
    ∃ x y, p = ⟨.float x, .float y⟩ ∧ x.isFinite = true ∧ y.isFinite = true := by
  unfold point at h
  split at h
  · obtain ⟨x, hx, h⟩ := bind_eq_ok h
    obtain ⟨y, hy, h⟩ := bind_eq_ok h
    cases h
    exact ⟨x, y, rfl, isFinite_of_float hx, isFinite_of_float hy⟩
  · cases h

theorem mem_parts_of_sketch {v : Value} {s : Sketch} (h : sketch v = .ok s) :
    .sketch s ∈ v.parts := by
  obtain ⟨data, trail⟩ := v
  unfold sketch at h
  split at h
  · rename_i hdata
    cases h
    cases (show data = _ from hdata)
    exact .head _
  · cases h

theorem mem_parts_of_extrusion {v : Value} {e : Extrusion} (h : extrusion v = .ok e) :
    .extrusion e ∈ v.parts := by
  obtain ⟨data, trail⟩ := v
  unfold extrusion at h
  split at h
  · rename_i hdata
    cases h
    cases (show data = _ from hdata)
    exact .head _
  · cases h

theorem computed_eq_ok {n : Option Number} {m : Number}
    (h : orFault (Geometry.computed n) = .ok m) : n = some m := by
  cases n with
  | none => cases h
  | some k => exact congrArg some (Except.ok.inj h)

/-! ### Functions that draw -/

section

variable {site : CallSite} {args : List Value} {e : Effect}

theorem does_of_runStart {start : Value} (h : runStart site start = .ok e) : Does site args e := by
  obtain ⟨p, hp, h⟩ := bind_eq_ok h
  obtain ⟨x, y, rfl, hx, hy⟩ := point_eq_ok hp
  obtain ⟨c, hc, h⟩ := bind_eq_ok h
  cases h
  exact .starts hx hy hc

theorem does_of_extended {target extra : Value} {s : Sketch} {stop : Point} {tag : Option String}
    {fields : List (String × Host)} (hs : .sketch s ∈ Value.partsOf args)
    (hleg : Leg s tag stop fields) (h : extended site target s stop tag fields extra = .ok e) :
    Does site args e := by
  obtain ⟨c, hc, h⟩ := bind_eq_ok h
  cases h
  exact .draws hs hleg hc

theorem does_of_runLineTo {stop target : Value} {label : Option Value} (htarget : target ∈ args)
    (h : runLineTo site stop target label = .ok e) : Does site args e := by
  obtain ⟨p, hp, h⟩ := bind_eq_ok h
  obtain ⟨x, y, rfl, hx, hy⟩ := point_eq_ok hp
  obtain ⟨s, hs, h⟩ := bind_eq_ok h
  obtain ⟨t, -, h⟩ := bind_eq_ok h
  exact does_of_extended (Value.mem_partsOf.2 ⟨target, htarget, mem_parts_of_sketch hs⟩)
    (.point hx hy) h

theorem does_of_runLine {offset target : Value} {label : Option Value} (htarget : target ∈ args)
    (h : runLine site offset target label = .ok e) : Does site args e := by
  obtain ⟨d, hd, h⟩ := bind_eq_ok h
  obtain ⟨dx, dy, rfl, hdx, hdy⟩ := point_eq_ok hd
  obtain ⟨s, hs, h⟩ := bind_eq_ok h
  obtain ⟨t, -, h⟩ := bind_eq_ok h
  obtain ⟨x, hx, h⟩ := bind_eq_ok h
  obtain ⟨y, hy, h⟩ := bind_eq_ok h
  exact does_of_extended (Value.mem_partsOf.2 ⟨target, htarget, mem_parts_of_sketch hs⟩)
    (.offset hdx hdy (computed_eq_ok hx) (computed_eq_ok hy)) h

theorem does_of_runClose {target : Value} {label : Option Value} (htarget : target ∈ args)
    (h : runClose site target label = .ok e) : Does site args e := by
  obtain ⟨s, hs, h⟩ := bind_eq_ok h
  obtain ⟨t, -, h⟩ := bind_eq_ok h
  obtain ⟨c, hc, h⟩ := bind_eq_ok h
  cases h
  exact .closes (Value.mem_partsOf.2 ⟨target, htarget, mem_parts_of_sketch hs⟩) hc

theorem does_of_runExtrude {length target : Value} (htarget : target ∈ args)
    (h : runExtrude site length target = .ok e) : Does site args e := by
  obtain ⟨distance, hdistance, h⟩ := bind_eq_ok h
  obtain ⟨s, hs, h⟩ := bind_eq_ok h
  obtain ⟨c, hc, h⟩ := bind_eq_ok h
  obtain ⟨walls, hwalls, h⟩ := bind_eq_ok h
  cases h
  exact .extrudes (Value.mem_partsOf.2 ⟨target, htarget, mem_parts_of_sketch hs⟩)
    (isFinite_of_number hdistance) hc (mapError_eq_ok.1 hwalls)

theorem does_of_runWall {label target : Value} (htarget : target ∈ args)
    (h : runWall site label target = .ok e) : Does site args e := by
  obtain ⟨name, -, h⟩ := bind_eq_ok h
  obtain ⟨extruded, hextruded, h⟩ := bind_eq_ok h
  cases hw : extruded.wall? name with
  | none =>
      rw [hw] at h
      cases h
  | some w =>
      rw [hw] at h
      cases h
      exact .finds (Value.mem_partsOf.2 ⟨target, htarget, mem_parts_of_extrusion hextruded⟩) hw

/-! ### All functions -/

theorem isFinite_of_inRange {name : String} {x : Float} {n : Number} (h : inRange name x = .ok n) :
    n.isFinite = true := by
  unfold inRange at h
  split at h
  · rename_i hfinite
    cases h
    exact hfinite
  · cases h

/-- The best of some numbers is one of them. -/
theorem mem_of_best {wins : Number → Number → Bool} {name : String} {ns : List Number} {n : Number}
    (h : best wins name ns = .ok n) : n ∈ ns := by
  cases ns with
  | nil => cases h
  | cons first rest =>
      obtain rfl := Except.ok.inj h
      induction rest generalizing first with
      | nil => exact List.mem_singleton_self _
      | cons m rest ih =>
          rw [List.foldl_cons]
          rcases List.mem_cons.1 (ih (if wins m first then m else first) rfl) with heq | hmem
          · rw [heq]
            split
            · exact List.mem_cons_of_mem _ List.mem_cons_self
            · exact List.mem_cons_self
          · exact List.mem_cons_of_mem _ (List.mem_cons_of_mem _ hmem)

theorem isFinite_of_mapM_number {what : String} {vs : List Value} {ns : List Number}
    (h : vs.mapM (number what) = .ok ns) : ∀ n ∈ ns, n.isFinite = true := by
  induction vs generalizing ns with
  | nil =>
      rw [List.mapM_nil] at h
      cases h
      exact fun n hn => absurd hn List.not_mem_nil
  | cons v vs ih =>
      rw [List.mapM_cons] at h
      obtain ⟨n, hn, h⟩ := bind_eq_ok h
      obtain ⟨rest, hrest, h⟩ := bind_eq_ok h
      cases h
      exact List.forall_mem_cons.2 ⟨isFinite_of_number hn, ih hrest⟩

/-- A calculation that succeeds has a finite number as its value. -/
theorem does_of_calculated {x : Except Refusal Number} (hx : ∀ n, x = .ok n → n.isFinite = true)
    (h : (do return calculated site (← x)) = Except.ok e) : Does site args e := by
  obtain ⟨n, hn, h⟩ := bind_eq_ok h
  cases h
  exact .calculates (.inl (hx n hn))

/-- A function of one argument takes nothing else. -/
theorem run_wrong_one {b : Builtin} (hb : b ∈ [sin, cos, tan, sqrt, abs, startSketchAt])
    (site : CallSite) (us : List Value) (h : us.length ≠ 1) :
    b.run site us = .error (.fault .wrongArguments) := by
  simp only [List.mem_cons, List.not_mem_nil, or_false] at hb
  match us with
  | [] => rcases hb with rfl | rfl | rfl | rfl | rfl | rfl <;> rfl
  | [_] => exact absurd rfl h
  | _ :: _ :: _ => rcases hb with rfl | rfl | rfl | rfl | rfl | rfl <;> rfl

/-- A function of two arguments takes nothing else. -/
theorem run_wrong_two {b : Builtin}
    (hb : b ∈ [pow, legLength, legAngleX, legAngleY, extrude, wallTransform])
    (site : CallSite) (us : List Value) (h : us.length ≠ 2) :
    b.run site us = .error (.fault .wrongArguments) := by
  simp only [List.mem_cons, List.not_mem_nil, or_false] at hb
  match us with
  | [] => rcases hb with rfl | rfl | rfl | rfl | rfl | rfl <;> rfl
  | [_] => rcases hb with rfl | rfl | rfl | rfl | rfl | rfl <;> rfl
  | [_, _] => exact absurd rfl h
  | _ :: _ :: _ :: _ => rcases hb with rfl | rfl | rfl | rfl | rfl | rfl <;> rfl

section

variable {V : Value → Value → Prop} {P : Except Refusal Effect → Except Refusal Effect → Prop}
  {b : Builtin} {site' : CallSite} {vs ws : List Value}

/-- Two calls of a function of one argument, with arguments that are related: what is so of calls with one
argument each, and of calls that are refused, is so of them. -/
theorem run_one_related (hb : b ∈ [sin, cos, tan, sqrt, abs, startSketchAt]) (h : List.Forall₂ V vs ws)
    (hwrong : P (.error (.fault .wrongArguments)) (.error (.fault .wrongArguments)))
    (hone : ∀ v w, V v w → P (b.run site [v]) (b.run site' [w])) : P (b.run site vs) (b.run site' ws) := by
  by_cases hlength : vs.length = 1
  · match vs, ws, h with
    | [v], [w], .cons hv .nil => exact hone v w hv
  · rw [run_wrong_one hb _ vs hlength, run_wrong_one hb _ ws (h.length_eq ▸ hlength)]
    exact hwrong

/-- The same for a function of two arguments. -/
theorem run_two_related (hb : b ∈ [pow, legLength, legAngleX, legAngleY, extrude, wallTransform])
    (h : List.Forall₂ V vs ws)
    (hwrong : P (.error (.fault .wrongArguments)) (.error (.fault .wrongArguments)))
    (htwo : ∀ v w, V v w → ∀ v' w', V v' w' → P (b.run site [v, v']) (b.run site' [w, w'])) :
    P (b.run site vs) (b.run site' ws) := by
  by_cases hlength : vs.length = 2
  · match vs, ws, h with
    | [v, v'], [w, w'], .cons hv (.cons hv' .nil) => exact htwo v w hv v' w' hv'
  · rw [run_wrong_two hb _ vs hlength, run_wrong_two hb _ ws (h.length_eq ▸ hlength)]
    exact hwrong

end

/-- A call of the library that succeeds has one of the effects. -/
theorem does_of_run {b : Builtin} (h : b.run site args = .ok e) : Does site args e := by
  unfold run at h
  split at h
  · obtain ⟨x, -, h⟩ := bind_eq_ok h
    exact does_of_calculated (fun _ => isFinite_of_inRange) h
  · obtain ⟨x, -, h⟩ := bind_eq_ok h
    exact does_of_calculated (fun _ => isFinite_of_inRange) h
  · obtain ⟨x, -, h⟩ := bind_eq_ok h
    exact does_of_calculated (fun _ => isFinite_of_inRange) h
  · -- A root is taken only of a number that is not negative.
    obtain ⟨n, -, h⟩ := bind_eq_ok h
    split at h
    · cases h
    · obtain ⟨x, -, h⟩ := bind_eq_ok h
      exact does_of_calculated (fun _ => isFinite_of_inRange) h
  · obtain ⟨n, hn, h⟩ := bind_eq_ok h
    cases h
    exact .calculates (.inl (Number.isFinite_abs (isFinite_of_number hn)))
  · obtain ⟨ns, hns, h⟩ := bind_eq_ok h
    exact does_of_calculated (fun n hn => isFinite_of_mapM_number hns n (mem_of_best hn)) h
  · obtain ⟨ns, hns, h⟩ := bind_eq_ok h
    exact does_of_calculated (fun n hn => isFinite_of_mapM_number hns n (mem_of_best hn)) h
  · obtain ⟨b, -, h⟩ := bind_eq_ok h
    obtain ⟨e, -, h⟩ := bind_eq_ok h
    exact does_of_calculated (fun _ => isFinite_of_inRange) h
  · cases h
    exact .calculates (.inl (by decide))
  · obtain ⟨sides, -, h⟩ := bind_eq_ok h
    exact does_of_calculated (fun _ => isFinite_of_inRange) h
  · obtain ⟨sides, hsides, h⟩ := bind_eq_ok h
    cases h
    exact .calculates (.inr (.cosine hsides))
  · obtain ⟨sides, hsides, h⟩ := bind_eq_ok h
    cases h
    exact .calculates (.inr (.sine hsides))
  · cases h
    exact .shows rfl
  · cases h
  · exact does_of_runStart h
  · exact does_of_runLineTo (by simp) h
  · exact does_of_runLineTo (by simp) h
  · exact does_of_runLine (by simp) h
  · exact does_of_runLine (by simp) h
  · exact does_of_runClose (by simp) h
  · exact does_of_runClose (by simp) h
  · exact does_of_runExtrude (by simp) h
  · exact does_of_runWall (by simp) h
  · cases h

end

/-! ### Commands -/

/-- The command that a call sends has the range of the call, and is known from the document of its
inputs. -/
theorem command_eq_ok {site : CallSite} {fields : List (String × Host)} {request : Request}
    {c : Command} (h : command site fields request = .ok c) :
    c.range = site.mark.span.range ∧ c.request = request ∧
      Identity.commandDocument site.code c.range (inputs fields) = .ok c.content := by
  obtain ⟨document, hdocument, h⟩ := bind_eq_ok h
  cases h
  exact ⟨rfl, rfl, mapError_eq_ok.1 hdocument⟩

/-- What a command asks for, next to the inputs by which it is identified. -/
inductive Asks : Request → List (String × Host) → Prop
  | start (x y : Float) :
      Asks (.startPath ⟨.float x, .float y⟩) [("at", pointInput ⟨.float x, .float y⟩)]
  | extend {s : Sketch} {tag : Option String} {stop : Point} {fields : List (String × Host)}
      (hleg : Leg s tag stop fields) : Asks (.extendPath s.id stop) fields
  | close (s : Sketch) (tag : Option String) :
      Asks (.closePath s.id) [("sketch", .sketch s), ("tag", tagInput tag)]
  | extrude (s : Sketch) (distance : Number) :
      Asks (.extrude s.id distance) [("length", .number distance), ("sketch", .sketch s)]

/-- The command was made by the library for a call in a script text. -/
def Makes (code : String) (c : Command) : Prop :=
  ∃ fields, Asks c.request fields ∧
    Identity.commandDocument code c.range (inputs fields) = .ok c.content

theorem makes_of_command {site : CallSite} {fields : List (String × Host)} {request : Request}
    {c : Command} (hrequest : Asks request fields) (h : command site fields request = .ok c) :
    Makes site.code c := by
  obtain ⟨-, rfl, hcontent⟩ := command_eq_ok h
  exact ⟨fields, hrequest, hcontent⟩

/-- The command that a call sends comes from the range of the call and is made by the library. -/
theorem Does.sent {site : CallSite} {args : List Value} {e : Effect} (h : Does site args e)
    {c : Command} (hc : e.sent = some c) : c.range = site.mark.span.range ∧ Makes site.code c := by
  cases h with
  | calculates | shows | finds => cases hc
  | starts _ _ hsent =>
      cases hc
      exact ⟨(command_eq_ok hsent).1, makes_of_command (.start _ _) hsent⟩
  | draws _ hleg hsent =>
      cases hc
      exact ⟨(command_eq_ok hsent).1, makes_of_command (.extend hleg) hsent⟩
  | closes _ hsent =>
      cases hc
      exact ⟨(command_eq_ok hsent).1, makes_of_command (.close _ _) hsent⟩
  | extrudes _ _ hsent =>
      cases hc
      exact ⟨(command_eq_ok hsent).1, makes_of_command (.extrude _ _) hsent⟩

end PartScript.Builtin
