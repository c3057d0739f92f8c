import PartScript.Proofs.Library.Effects

/-!
When the library is at fault. A call that fails says what does not fit, as long as the numbers of its
arguments can be used and there are as many arguments as the function takes. Commands can then be
identified and walls placed, and what the library makes has numbers that can be used again.
-/

namespace PartScript

/-- All of some numbers round to floats. -/
def AllRound (ns : List Number) : Prop := ∀ n ∈ ns, n.Rounds

/-- All of some numbers are floats. -/
def AllFloats (ns : List Number) : Prop := ∀ n ∈ ns, ∃ x, n = .float x

theorem AllFloats.round {ns : List Number} (h : AllFloats ns) : AllRound ns := by
  intro n hn
  obtain ⟨x, rfl⟩ := h n hn
  exact Number.rounds_float x

/-! ### Identification -/

namespace Identity

theorem number_succeeds {n : Number} (h : n.Rounds) : Succeeds (fun _ => True) (number n) := by
  obtain ⟨x, hx⟩ := h
  rw [number, hx]
  trivial

theorem numbers_succeeds {ns : List Number} (h : AllRound ns) :
    Succeeds (fun _ => True) (numbers ns) :=
  (settles_mapM fun n hn => number_succeeds (h n hn)).bind fun _ _ => trivial

theorem segment_succeeds {s : Segment} (h : AllRound s.numbers) :
    Succeeds (fun _ => True) (segment s) := by
  refine (numbers_succeeds fun n hn => h n (List.mem_append_left _ hn)).bind fun _ _ => ?_
  exact (numbers_succeeds fun n hn => h n (List.mem_append_right _ hn)).bind fun _ _ => trivial

theorem sketch_succeeds {s : Sketch} (h : AllRound s.numbers) :
    Succeeds (fun _ => True) (sketch s) := by
  refine (numbers_succeeds fun n hn => h n (Sketch.mem_numbers.2 (.inl (.inl hn)))).bind fun _ _ => ?_
  refine (settles_mapM fun a ha => segment_succeeds fun n hn => ?_).bind fun _ _ => ?_
  · exact h n (Sketch.mem_numbers.2 (.inl (.inr ⟨a, ha, hn⟩)))
  refine (numbers_succeeds fun n hn => h n (Sketch.mem_numbers.2 (.inr (.inl hn)))).bind fun _ _ => ?_
  exact (numbers_succeeds fun n hn => h n (Sketch.mem_numbers.2 (.inr (.inr hn)))).bind fun _ _ =>
    trivial

theorem hosts_succeeds {ns : List Number} (h : AllRound ns) :
    Succeeds (fun _ => True) (hosts (ns.map .number)) := by
  induction ns with
  | nil => trivial
  | cons n ns ih =>
      refine (number_succeeds (h n List.mem_cons_self)).bind fun _ _ => ?_
      exact (ih fun n hn => h n (List.mem_cons_of_mem _ hn)).bind fun _ _ => trivial

theorem pointInput_succeeds {p : Point} (h : AllRound p.coordinates) :
    Succeeds (fun _ => True) (host (Builtin.pointInput p)) :=
  (hosts_succeeds h).bind fun _ _ => trivial

theorem tagInput_succeeds (tag : Option String) :
    Succeeds (fun _ => True) (host (Builtin.tagInput tag)) := by
  cases tag <;> trivial

/-- The inputs are identified if each is. -/
theorem hostEntries_succeeds {fields : List (String × Host)}
    (h : ∀ f ∈ fields, Succeeds (fun _ => True) (host f.2)) :
    Succeeds (fun _ => True) (hostEntries (fields.map fun f => (.text f.1, f.2))) := by
  induction fields with
  | nil => trivial
  | cons f fields ih =>
      refine (h f List.mem_cons_self).bind fun _ _ => ?_
      exact (ih fun f hf => h f (List.mem_cons_of_mem _ hf)).bind fun _ _ => trivial

theorem commandDocument_succeeds (code : String) (range : Range) {fields : List (String × Host)}
    (h : ∀ f ∈ fields, Succeeds (fun _ => True) (host f.2)) :
    Succeeds (fun _ => True) (commandDocument code range (Builtin.inputs fields)) := by
  have hinputs : Succeeds (fun _ => True) (host (Builtin.inputs fields)) :=
    (hostEntries_succeeds h).bind fun _ _ => trivial
  exact hinputs.bind fun _ _ => trivial

end Identity

/-! ### Walls -/

namespace Geometry

theorem float_succeeds {n : Number} (h : n.Rounds) : Succeeds (fun _ => True) (float n) := by
  obtain ⟨x, hx⟩ := h
  rw [float, hx]
  trivial

theorem planar_succeeds {p : Point} (h : AllRound p.coordinates) :
    Succeeds (fun _ => True) (planar p) := by
  refine (float_succeeds (h p.x List.mem_cons_self)).bind fun _ _ => ?_
  exact (float_succeeds (h p.y (List.mem_cons_of_mem _ List.mem_cons_self))).bind fun _ _ => trivial

theorem turn_succeeds {points : List Point} (h : ∀ p ∈ points, AllRound p.coordinates) :
    Succeeds (fun _ => True) (turn points) := by
  unfold turn
  split
  · trivial
  · exact (settles_mapM fun p hp => planar_succeeds (h p hp)).bind fun _ _ => trivial

/-- A rotation after one whose coordinates are floats has floats as its coordinates. -/
theorem compose_succeeds {r : Rotation} (h : AllRound r.coordinates) (x y z w : Float) :
    Succeeds (fun r' => AllFloats r'.coordinates)
      (compose r ⟨.float x, .float y, .float z, .float w⟩) := by
  obtain ⟨n₁, n₂, n₃, n₄⟩ := r
  simp only [AllRound, Rotation.coordinates, List.forall_mem_cons] at h
  obtain ⟨⟨a, ha⟩, ⟨b, hb⟩, ⟨c, hc⟩, ⟨d, hd⟩, -⟩ := h
  simp only [compose, Number.mul?, Number.add?, Number.sub?, Number.combine?_float ha,
    Number.combine?_float hb, Number.combine?_float hc, Number.combine?_float hd, computed, ok_bind,
    Number.combine?_float (n := .float _) rfl]
  intro n hn
  simp only [Rotation.coordinates, List.mem_cons, List.not_mem_nil, or_false] at hn
  rcases hn with rfl | rfl | rfl | rfl <;> exact ⟨_, rfl⟩

theorem rotate_succeeds {r : Rotation} {v : Vector3} (hr : AllRound r.coordinates)
    (hv : AllRound v.coordinates) : Succeeds (fun _ => True) (rotate r v) := by
  simp only [AllRound, Rotation.coordinates, Vector3.coordinates, List.forall_mem_cons] at hr hv
  obtain ⟨hrx, hry, hrz, hrw, -⟩ := hr
  obtain ⟨hvx, hvy, hvz, -⟩ := hv
  refine (float_succeeds hrx).bind fun _ _ => (float_succeeds hry).bind fun _ _ => ?_
  refine (float_succeeds hrz).bind fun _ _ => (float_succeeds hrw).bind fun _ _ => ?_
  refine (float_succeeds hvx).bind fun _ _ => (float_succeeds hvy).bind fun _ _ => ?_
  exact (float_succeeds hvz).bind fun _ _ => trivial

section

variable {s : Sketch}

/-- A wall stands at floats. -/
theorem wall_succeeds (h : AllRound s.numbers) (height : Float) (direction : Int)
    {segment : Segment} (hsegment : segment ∈ s.segments) :
    Succeeds (fun w => AllFloats w.numbers) (wall s height direction segment) := by
  have hcorner : AllRound segment.numbers := fun n hn =>
    h n (Sketch.mem_numbers.2 (.inl (.inr ⟨segment, hsegment, hn⟩)))
  have hrotation : AllRound s.rotation.coordinates := fun n hn =>
    h n (Sketch.mem_numbers.2 (.inr (.inr hn)))
  have hposition : AllRound s.position.coordinates := fun n hn =>
    h n (Sketch.mem_numbers.2 (.inr (.inl hn)))
  simp only [AllRound, Vector3.coordinates, List.forall_mem_cons] at hposition
  obtain ⟨hx, hy, hz, -⟩ := hposition
  refine (planar_succeeds fun n hn => hcorner n (List.mem_append_left _ hn)).bind fun _ _ => ?_
  refine (planar_succeeds fun n hn => hcorner n (List.mem_append_right _ hn)).bind fun _ _ => ?_
  refine (rotate_succeeds hrotation ?_).bind fun _ _ => ?_
  · refine AllFloats.round fun n hn => ?_
    simp only [Vector3.coordinates, List.mem_cons, List.not_mem_nil, or_false] at hn
    rcases hn with rfl | rfl | rfl <;> exact ⟨_, rfl⟩
  refine (float_succeeds hx).bind fun _ _ => (float_succeeds hy).bind fun _ _ => ?_
  refine (float_succeeds hz).bind fun _ _ => (compose_succeeds hrotation _ _ _ _).bind fun r hr => ?_
  intro n hn
  rcases List.mem_append.1 hn with hn | hn
  · simp only [Vector3.coordinates, List.mem_cons, List.not_mem_nil, or_false] at hn
    rcases hn with rfl | rfl | rfl <;> exact ⟨_, rfl⟩
  · exact hr n hn

/-- Walls can be placed if all numbers can be used, and they stand at floats. -/
theorem walls_succeeds (h : AllRound s.numbers) {height : Number} (hheight : height.Rounds) :
    Succeeds (fun ws => ∀ w ∈ ws, AllFloats w.numbers) (walls s height) := by
  unfold walls
  have hpoints : ∀ p ∈ s.points, AllRound p.coordinates := fun p hp n hn =>
    h n (Sketch.mem_numbers_of_point hp hn)
  refine (turn_succeeds hpoints).bind fun direction _ => ?_
  dsimp only
  split
  · exact fun w hw => absurd hw List.not_mem_nil
  · refine (float_succeeds hheight).bind fun x _ => settles_mapM fun segment hsegment => ?_
    exact wall_succeeds h x direction (List.mem_filter.1 hsegment).1

end

end Geometry

/-! ### Calls -/

/-- The part is no shape, or its coordinates round to floats. -/
def Part.Usable : Part → Prop
  | .number _ | .function _ => True
  | .sketch s => AllRound s.numbers
  | .extrusion e => AllRound e.numbers
  | .segment s => AllRound s.numbers
  | .wall w => AllRound w.numbers

theorem Part.usable_of_round {part : Part} (h : AllRound part.numbers) : part.Usable := by
  cases part with
  | number | function => trivial
  | sketch | extrusion | segment | wall => exact h

namespace Builtin

/-- What a function is at fault for if it gets a number of arguments that it does not take. -/
inductive Misfit : Fault → Prop
  | wrongArguments : Misfit .wrongArguments
  | emptyRow (name : String) : Misfit (.emptyRow name)
  | showedNothing : Misfit .showedNothing

/-- Why a function with some number of arguments may have no effect: something does not fit, or that
number is wrong. -/
def Fair (b : Builtin) (count : Nat) : Refusal → Prop
  | .mismatch _ => True
  | .fault f => Misfit f ∧ b.arity.accepts count = false

section

variable {b : Builtin} {count : Nat}

theorem number_settles (what : String) (v : Value) :
    Settles (b.Fair count) (fun n => n.isFinite = true) (number what v) := by
  unfold number
  split
  · trivial
  · split
    · assumption
    · trivial

theorem float_settles (what : String) (v : Value) :
    Settles (b.Fair count) (fun _ => True) (float what v) := by
  refine (number_settles what v).bind fun n hn => ?_
  obtain ⟨x, hx, -⟩ := Number.exists_toFloat? hn
  rw [hx]
  trivial

theorem point_settles (what : String) (v : Value) :
    Settles (b.Fair count) (fun p => AllFloats p.coordinates) (point what v) := by
  unfold point
  split
  · refine (float_settles what _).bind fun x _ => (float_settles what _).bind fun y _ => ?_
    intro n hn
    simp only [Point.coordinates, List.mem_cons, List.not_mem_nil, or_false] at hn
    rcases hn with rfl | rfl <;> exact ⟨_, rfl⟩
  · trivial

theorem sketch_settles {v : Value} (hv : ∀ part ∈ v.parts, part.Usable) :
    Settles (b.Fair count) (fun s => AllRound s.numbers) (sketch v) := by
  cases hs : sketch v with
  | ok s => exact hv _ (mem_parts_of_sketch hs)
  | error r =>
      unfold sketch at hs
      split at hs <;> cases hs
      trivial

theorem extrusion_settles (v : Value) : Settles (b.Fair count) (fun _ => True) (extrusion v) := by
  unfold extrusion
  split <;> trivial

theorem tag_settles (v : Value) : Settles (b.Fair count) (fun _ => True) (tag v) := by
  unfold tag
  split <;> trivial

theorem tag?_settles (v : Option Value) : Settles (b.Fair count) (fun _ => True) (tag? v) := by
  cases v with
  | none => trivial
  | some v => exact (tag_settles v).bind fun _ _ => trivial

theorem inRange_settles (name : String) (x : Float) :
    Settles (b.Fair count) (fun _ => True) (inRange name x) := by
  unfold inRange
  split <;> trivial

theorem legs_settles (hypotenuse leg : Value) :
    Settles (b.Fair count) (fun _ => True) (legs hypotenuse leg) := by
  refine (number_settles _ _).bind fun n _ => ?_
  split
  · trivial
  · exact (float_settles _ _).bind fun _ _ => (float_settles _ _).bind fun _ _ => trivial

theorem mapM_number_settles (what : String) (vs : List Value) :
    Settles (b.Fair count) (fun ns => ns.length = vs.length) (vs.mapM (number what)) := by
  induction vs with
  | nil => rfl
  | cons v vs ih =>
      rw [List.mapM_cons]
      refine (number_settles what v).bind fun _ _ => ih.bind fun ns hns => ?_
      exact congrArg (· + 1) hns

theorem best_settles (wins : Number → Number → Bool) (name : String) {ns : List Number}
    (h : ns = [] → b.arity.accepts count = false) :
    Settles (b.Fair count) (fun _ => True) (best wins name ns) := by
  cases ns with
  | nil => exact ⟨.emptyRow name, h rfl⟩
  | cons n rest => trivial

theorem orFault_settles {α : Type} {good : α → Prop} {x : Except Fault α} (h : Succeeds good x) :
    Settles (b.Fair count) good (orFault x) :=
  h.mapError _

variable {site : CallSite} {v target : Value} {label : Option Value}

theorem command_settles {fields : List (String × Host)}
    (h : ∀ f ∈ fields, Succeeds (fun _ => True) (Identity.host f.2)) (request : Request) :
    Settles (b.Fair count) (fun _ => True) (command site fields request) :=
  (orFault_settles (Identity.commandDocument_succeeds _ _ h)).bind fun _ _ => trivial

theorem runStart_settles : Settles (b.Fair count) (fun _ => True) (runStart site v) := by
  refine (point_settles _ v).bind fun p hp => (command_settles ?_ _).bind fun _ _ => trivial
  exact List.forall_mem_singleton.2 (Identity.pointInput_succeeds hp.round)

theorem extended_settles {s : Sketch} (hs : AllRound s.numbers) {p : Point}
    (hp : AllRound p.coordinates) (name : String) (stop : Point) (tag : Option String)
    (extra : Value) :
    Settles (b.Fair count) (fun _ => True) (extended site target s stop tag
      [(name, pointInput p), ("sketch", .sketch s), ("tag", tagInput tag)] extra) := by
  refine (command_settles ?_ _).bind fun _ _ => trivial
  simp only [List.forall_mem_cons]
  exact ⟨Identity.pointInput_succeeds hp, Identity.sketch_succeeds hs, Identity.tagInput_succeeds tag,
    fun _ h => absurd h List.not_mem_nil⟩

variable (htarget : ∀ part ∈ target.parts, part.Usable)
include htarget

theorem runLineTo_settles : Settles (b.Fair count) (fun _ => True) (runLineTo site v target label) := by
  refine (point_settles _ v).bind fun p hp => (sketch_settles htarget).bind fun s hs => ?_
  exact (tag?_settles label).bind fun tag _ => extended_settles hs hp.round _ _ tag v

theorem runLine_settles : Settles (b.Fair count) (fun _ => True) (runLine site v target label) := by
  refine (point_settles _ v).bind fun p hp => (sketch_settles htarget).bind fun s hs => ?_
  refine (tag?_settles label).bind fun tag _ => ?_
  -- The last corner rounds to floats, and what is added to them are floats.
  have hlast : AllRound s.lastPoint.coordinates := fun n hn => hs n (Sketch.mem_numbers_of_lastPoint hn)
  obtain ⟨x, hx⟩ := hp p.x List.mem_cons_self
  obtain ⟨y, hy⟩ := hp p.y (List.mem_cons_of_mem _ List.mem_cons_self)
  obtain ⟨a, ha⟩ := hlast _ List.mem_cons_self
  obtain ⟨c, hc⟩ := hlast _ (List.mem_cons_of_mem _ List.mem_cons_self)
  dsimp only
  rw [hx, hy, Number.add?, Number.combine?_float ha, Number.combine?_float hc]
  exact extended_settles hs hp.round _ _ tag v

theorem runClose_settles : Settles (b.Fair count) (fun _ => True) (runClose site target label) := by
  refine (sketch_settles htarget).bind fun s hs => (tag?_settles label).bind fun tag _ => ?_
  refine (command_settles ?_ _).bind fun _ _ => trivial
  simp only [List.forall_mem_cons]
  exact ⟨Identity.sketch_succeeds hs, Identity.tagInput_succeeds tag,
    fun _ h => absurd h List.not_mem_nil⟩

theorem runExtrude_settles : Settles (b.Fair count) (fun _ => True) (runExtrude site v target) := by
  refine (number_settles _ v).bind fun distance hfinite => (sketch_settles htarget).bind fun s hs => ?_
  have hdistance := Number.rounds_of_isFinite hfinite
  refine (command_settles ?_ _).bind fun _ _ => ?_
  · simp only [List.forall_mem_cons]
    exact ⟨Identity.number_succeeds hdistance, Identity.sketch_succeeds hs,
      fun _ h => absurd h List.not_mem_nil⟩
  · exact (orFault_settles (Geometry.walls_succeeds hs hdistance)).bind fun _ _ => trivial

omit htarget in
theorem runWall_settles : Settles (b.Fair count) (fun _ => True) (runWall site v target) := by
  refine (tag_settles v).bind fun name _ => (extrusion_settles target).bind fun e _ => ?_
  split <;> trivial

end

/-- What a function of one argument ends with if it gets one. -/
theorem run_one_settles {b : Builtin} {site : CallSite} {args : List Value} (hb : b.arity = ⟨1, some 1⟩)
    (hone : ∀ v, args = [v] → Settles (b.Fair args.length) (fun _ => True) (b.run site [v]))
    (hother : ∀ site us, us.length ≠ 1 → b.run site us = .error (.fault .wrongArguments)) :
    Settles (b.Fair args.length) (fun _ => True) (b.run site args) := by
  by_cases hlength : args.length = 1
  · obtain ⟨v, rfl⟩ := List.length_eq_one_iff.1 hlength
    exact hone v rfl
  · rw [hother site args hlength]
    refine ⟨.wrongArguments, ?_⟩
    simp only [hb, Arity.accepts, Bool.and_eq_false_iff, decide_eq_false_iff_not]
    omega

/-- The same for a function of two arguments. -/
theorem run_two_settles {b : Builtin} {site : CallSite} {args : List Value} (hb : b.arity = ⟨2, some 2⟩)
    (htwo : ∀ v w, args = [v, w] → Settles (b.Fair args.length) (fun _ => True) (b.run site [v, w]))
    (hother : ∀ site us, us.length ≠ 2 → b.run site us = .error (.fault .wrongArguments)) :
    Settles (b.Fair args.length) (fun _ => True) (b.run site args) := by
  by_cases hlength : args.length = 2
  · obtain ⟨v, w, rfl⟩ := List.length_eq_two.1 hlength
    exact htwo v w rfl
  · rw [hother site args hlength]
    refine ⟨.wrongArguments, ?_⟩
    simp only [hb, Arity.accepts, Bool.and_eq_false_iff, decide_eq_false_iff_not]
    omega

/-- No function with an upper limit takes more arguments. -/
theorem fair_of_lt {b : Builtin} {most count : Nat} (hmost : b.arity.most = some most)
    (h : most < count) : b.Fair count (.fault .wrongArguments) := by
  refine ⟨.wrongArguments, ?_⟩
  simp only [Arity.accepts, hmost, Bool.and_eq_false_iff, decide_eq_false_iff_not]
  omega

/-- A call has an effect, or something does not fit, or the number of arguments is wrong. -/
theorem run_settles (site : CallSite) (b : Builtin) {args : List Value}
    (h : ∀ part ∈ Value.partsOf args, part.Usable) :
    Settles (b.Fair args.length) (fun _ => True) (b.run site args) := by
  have harg : ∀ v ∈ args, ∀ part ∈ v.parts, part.Usable := fun v hv part hpart =>
    h part (Value.mem_partsOf.2 ⟨v, hv, hpart⟩)
  clear h
  cases b with
  | sin | cos | tan =>
      refine run_one_settles rfl (fun v _ => ?_) (run_wrong_one (by simp))
      exact (float_settles _ v).bind fun _ _ => (inRange_settles _ _).bind fun _ _ => trivial
  | sqrt =>
      refine run_one_settles rfl (fun v _ => (number_settles _ v).bind fun n _ => ?_) (run_wrong_one (by simp))
      split
      · trivial
      · exact (float_settles _ v).bind fun _ _ => (inRange_settles _ _).bind fun _ _ => trivial
  | abs =>
      refine run_one_settles rfl (fun v _ => ?_) (run_wrong_one (by simp))
      exact (number_settles _ v).bind fun _ _ => trivial
  | startSketchAt => exact run_one_settles rfl (fun v _ => runStart_settles) (run_wrong_one (by simp))
  | min | max =>
      refine (mapM_number_settles _ args).bind fun ns hns => (best_settles _ _ ?_).bind fun _ _ => trivial
      rintro rfl
      rw [← hns]
      rfl
  | pi =>
      cases args with
      | nil => trivial
      | cons => exact fair_of_lt rfl (Nat.succ_pos _)
  | showValues =>
      cases args with
      | nil => exact ⟨.showedNothing, rfl⟩
      | cons => trivial
  | pow =>
      refine run_two_settles rfl (fun v w _ => ?_) (run_wrong_two (by simp))
      refine (float_settles _ v).bind fun _ _ => (float_settles _ w).bind fun _ _ => ?_
      exact (inRange_settles _ _).bind fun _ _ => trivial
  | legLength =>
      refine run_two_settles rfl (fun v w _ => ?_) (run_wrong_two (by simp))
      exact (legs_settles v w).bind fun _ _ => (inRange_settles _ _).bind fun _ _ => trivial
  | legAngleX | legAngleY =>
      refine run_two_settles rfl (fun v w _ => ?_) (run_wrong_two (by simp))
      exact (legs_settles v w).bind fun _ _ => trivial
  | extrude =>
      refine run_two_settles rfl (fun v w heq => ?_) (run_wrong_two (by simp))
      exact runExtrude_settles (harg w (heq ▸ by simp))
  | wallTransform => exact run_two_settles rfl (fun v w _ => runWall_settles) (run_wrong_two (by simp))
  -- Lines and closing may have a tag at the end.
  | lineTo =>
      match args with
      | [] | [_] => exact ⟨.wrongArguments, rfl⟩
      | [_, w] | [_, w, _] => exact runLineTo_settles (harg w (by simp))
      | _ :: _ :: _ :: _ :: _ => exact fair_of_lt rfl (by simp)
  | line =>
      match args with
      | [] | [_] => exact ⟨.wrongArguments, rfl⟩
      | [_, w] | [_, w, _] => exact runLine_settles (harg w (by simp))
      | _ :: _ :: _ :: _ :: _ => exact fair_of_lt rfl (by simp)
  | close =>
      match args with
      | [] => exact ⟨.wrongArguments, rfl⟩
      | [w] | [w, _] => exact runClose_settles (harg w (by simp))
      | _ :: _ :: _ :: _ => exact fair_of_lt rfl (by simp)

/-! ### Effects -/

theorem Angle.rounds {n : Number} (h : Angle n) : n.Rounds := by
  cases h <;> exact Number.rounds_float _

/-- The next corner of a usable sketch is given by floats. -/
theorem Leg.floats {s : Sketch} {tag : Option String} {stop : Point} {fields : List (String × Host)}
    (h : Leg s tag stop fields) (hs : AllRound s.numbers) : AllFloats stop.coordinates := by
  have hlast : AllRound s.lastPoint.coordinates := fun n hn => hs n (Sketch.mem_numbers_of_lastPoint hn)
  have hpoint : ∀ {p : Point}, (∃ x, p.x = .float x) → (∃ y, p.y = .float y) →
      AllFloats p.coordinates := by
    intro p hx hy n hn
    simp only [Point.coordinates, List.mem_cons, List.not_mem_nil, or_false] at hn
    rcases hn with rfl | rfl
    · exact hx
    · exact hy
  cases h with
  | point => exact hpoint ⟨_, rfl⟩ ⟨_, rfl⟩
  | offset _ _ hx hy =>
      obtain ⟨a, ha⟩ := hlast _ List.mem_cons_self
      obtain ⟨b, hb⟩ := hlast _ (List.mem_cons_of_mem _ List.mem_cons_self)
      rw [Number.add?, Number.combine?_float ha] at hx
      rw [Number.add?, Number.combine?_float hb] at hy
      exact hpoint ⟨_, (Option.some.inj hx).symm⟩ ⟨_, (Option.some.inj hy).symm⟩

/-- What an effect brings has been an argument, or it is no function and its numbers round to
floats. -/
theorem Does.brings {site : CallSite} {args : List Value} {e : Effect} (h : Does site args e)
    (hargs : ∀ part ∈ Value.partsOf args, part.Usable) {part : Part}
    (hpart : part ∈ e.value.parts ++ Value.partsOf e.shown) :
    part ∈ Value.partsOf args ∨ (AllRound part.numbers ∧ ∀ c, part ≠ .function c) := by
  cases h with
  | shows hshown =>
      subst hshown
      refine .inl ((List.mem_append.1 hpart).elim (fun hpart => ?_) id)
      exact List.mem_append_left _ hpart
  | calculates hn =>
      obtain rfl := List.mem_singleton.1 hpart
      refine .inr ⟨Part.forall_number.2 ?_, fun c hc => by cases hc⟩
      exact hn.elim Number.rounds_of_isFinite Angle.rounds
  | starts hx hy =>
      obtain rfl := List.mem_singleton.1 hpart
      refine .inr ⟨fun n hn => ?_, fun c hc => by cases hc⟩
      rcases Sketch.mem_numbers_starting hn with hn | rfl | rfl
      · simp only [Point.coordinates, List.mem_cons, List.not_mem_nil, or_false] at hn
        rcases hn with rfl | rfl <;> exact Number.rounds_float _
      · exact Number.rounds_float _
      · exact Number.rounds_float _
  | draws hs hleg =>
      have hround := hargs _ hs
      obtain rfl := List.mem_singleton.1 hpart
      refine .inr ⟨fun n hn => ?_, fun c hc => by cases hc⟩
      exact (Sketch.mem_numbers_extend hn).elim (hround n) ((hleg.floats hround).round n)
  | closes hs =>
      obtain rfl := List.mem_singleton.1 hpart
      exact .inr ⟨fun n hn => hargs _ hs n (Sketch.mem_numbers_close hn), fun c hc => by cases hc⟩
  | extrudes hs hfinite _ hwalls =>
      have hround := hargs _ hs
      have hdistance := Number.rounds_of_isFinite hfinite
      have hfloats := Geometry.walls_succeeds hround hdistance
      rw [hwalls] at hfloats
      obtain rfl := List.mem_singleton.1 hpart
      refine .inr ⟨fun n hn => ?_, fun c hc => by cases hc⟩
      rcases Extrusion.mem_numbers.1 hn with rfl | (hn | hn) | ⟨w, hw, hn⟩
      · exact hdistance
      · exact hround n (Sketch.mem_numbers.2 (.inr (.inl hn)))
      · exact hround n (Sketch.mem_numbers.2 (.inr (.inr hn)))
      · exact (hfloats w hw).round n hn
  | @finds extruded name w trail he hw =>
      refine .inr ((List.mem_append.1 hpart).elim (fun hpart => ?_) fun hpart => by cases hpart)
      obtain ⟨n, hn, rfl⟩ := number_of_mem_place hpart
      refine ⟨Part.forall_number.2 ?_, fun c hc => by cases hc⟩
      exact hargs _ he n (Extrusion.mem_numbers.2 (.inr (.inr ⟨w, Extrusion.mem_of_wall? hw, hn⟩)))

end Builtin

end PartScript
