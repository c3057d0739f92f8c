import PartScript.Proofs.Pass.Guard

/-!
Numbers beyond the range of floats. Operators and functions of the library check that their results are
finite, and a result that is not is reported as not fitting. Two computations are not checked: the end of a
line that is given by an offset, and the place of a wall. So all numbers stay finite until one of these two
leaves the range, and the command sent for it says so. No run fails because a number is too large.
-/

namespace PartScript

/-- All numbers of the part are finite, or the part is an angle of a right triangle. -/
def Part.Tame (part : Part) : Prop :=
  ∀ n ∈ part.numbers, n.isFinite = true ∨ part = .number n ∧ Builtin.Angle n

/-- The command was sent for a computation that leaves the range of floats: the end of a line by an offset
from a sketch with finite coordinates, or the walls over such a sketch. -/
inductive Overflows (code : String) (c : Command) : Prop
  | line {mark : Mark} {s : Sketch} {tag : Option String} {dx dy : Float} {stop : Point}
      (hs : ∀ n ∈ s.numbers, n.isFinite = true) (hdx : dx.isFinite = true) (hdy : dy.isFinite = true)
      (hx : s.lastPoint.x.add? (.float dx) = some stop.x)
      (hy : s.lastPoint.y.add? (.float dy) = some stop.y)
      (hsent : Builtin.command ⟨code, mark⟩ [("delta", Builtin.pointInput ⟨.float dx, .float dy⟩),
        ("sketch", .sketch s), ("tag", Builtin.tagInput tag)] (.extendPath s.id stop) = .ok c)
      (hstop : ∃ n ∈ stop.coordinates, n.isFinite = false)
  | wall {mark : Mark} {s : Sketch} {distance : Number} {walls : List Wall}
      (hs : ∀ n ∈ s.numbers, n.isFinite = true) (hdistance : distance.isFinite = true)
      (hwalls : Geometry.walls s distance = .ok walls)
      (hsent : Builtin.command ⟨code, mark⟩ [("length", .number distance), ("sketch", .sketch s)]
        (.extrude s.id distance) = .ok c)
      (hwall : ∃ w ∈ walls, ∃ n ∈ w.numbers, n.isFinite = false)

/-- Starting a path overflows nothing. -/
theorem Overflows.ne_startPath {code : String} {c : Command} (h : Overflows code c) (start : Point) :
    c.request ≠ .startPath start := by
  intro heq
  cases h with
  | line _ _ _ _ _ hsent =>
      have hrequest := (Builtin.command_eq_ok hsent).2.1
      rw [heq] at hrequest
      cases hrequest
  | wall _ _ _ hsent =>
      have hrequest := (Builtin.command_eq_ok hsent).2.1
      rw [heq] at hrequest
      cases hrequest

namespace Part.Tame

theorem of_isFinite {part : Part} (h : ∀ n ∈ part.numbers, n.isFinite = true) : part.Tame :=
  fun n hn => .inl (h n hn)

theorem number {n : Number} (h : n.isFinite = true ∨ Builtin.Angle n) : (Part.number n).Tame :=
  Part.forall_number.2 (h.imp_right fun hangle => ⟨rfl, hangle⟩)

/-- Only a number can be an angle. -/
theorem isFinite {part : Part} (h : part.Tame) (hpart : ∀ n, part ≠ .number n) :
    ∀ n ∈ part.numbers, n.isFinite = true :=
  fun n hn => (h n hn).resolve_right fun hangle => hpart n hangle.1

end Part.Tame

/-! ### What is kept -/

/-- Numbers stay finite unless a command says that a computation has left the range. -/
def staysFinite (code : String) : Upkeep where
  log sent := (∀ c ∈ sent, ∀ n ∈ c.request.numbers, n.isFinite = true) ∨ ∃ c ∈ sent, Overflows code c
  part sent part := part.Tame ∨ ∃ c ∈ sent, Overflows code c
  inner _ := true

/-- An effect on tame arguments brings tame parts and a command with finite numbers, or the command it
sends overflows. -/
theorem Builtin.Does.tame {site : CallSite} {args : List Value} {e : Effect} (h : Does site args e)
    (hargs : ∀ part ∈ Value.partsOf args, part.Tame) :
    ((∀ c ∈ e.sent, ∀ n ∈ c.request.numbers, n.isFinite = true) ∧
      ∀ part ∈ e.value.parts ++ Value.partsOf e.shown, part.Tame) ∨
      ∃ c ∈ e.sent, Overflows site.code c := by
  have hquiet : ∀ c ∈ (none : Option Command), ∀ n ∈ c.request.numbers, n.isFinite = true :=
    fun c hc => by cases hc
  have hsent : ∀ {c : Command}, (∀ n ∈ c.request.numbers, n.isFinite = true) →
      ∀ c' ∈ some c, ∀ n ∈ c'.request.numbers, n.isFinite = true := by
    intro c hc c' hc'
    cases hc'
    exact hc
  have hone : ∀ {part : Part}, (∀ n ∈ part.numbers, n.isFinite = true) →
      ∀ part' ∈ [part] ++ Value.partsOf [], part'.Tame :=
    fun hpart => List.forall_mem_singleton.2 (.of_isFinite hpart)
  have hsketch : ∀ {s : Sketch}, .sketch s ∈ Value.partsOf args →
      ∀ n ∈ s.numbers, n.isFinite = true :=
    fun hs => (hargs _ hs).isFinite fun n hn => by cases hn
  cases h with
  | calculates hn => exact .inl ⟨hquiet, List.forall_mem_singleton.2 (.number hn)⟩
  | shows hshown =>
      subst hshown
      refine .inl ⟨hquiet, fun part hpart => hargs part ?_⟩
      exact (List.mem_append.1 hpart).elim (List.mem_append_left _) id
  | @starts x y c trail hx hy hc =>
      have hstart : ∀ n ∈ (⟨.float x, .float y⟩ : Point).coordinates, n.isFinite = true := by
        simp only [Point.coordinates, List.forall_mem_cons]
        exact ⟨hx, hy, fun n hn => absurd hn List.not_mem_nil⟩
      refine .inl ⟨hsent ?_, hone fun n hn => ?_⟩
      · rw [(command_eq_ok hc).2.1]
        exact hstart
      · rcases Sketch.mem_numbers_starting hn with hn | rfl | rfl
        · exact hstart n hn
        · decide
        · decide
  | @draws s tag stop fields c trail hs hleg hc =>
      -- Behind a line the sketch has one more corner, which is checked unless it is given by an offset.
      have hcorner : (∀ n ∈ stop.coordinates, n.isFinite = true) ∨ Overflows site.code c := by
        by_cases hstop : ∀ n ∈ stop.coordinates, n.isFinite = true
        · exact .inl hstop
        · cases hleg with
          | @point x y hx hy =>
              refine absurd ?_ hstop
              simp only [Point.coordinates, List.forall_mem_cons]
              exact ⟨hx, hy, fun n hn => absurd hn List.not_mem_nil⟩
          | offset hdx hdy hx hy =>
              simp only [not_forall, Bool.not_eq_true] at hstop
              obtain ⟨n, hn, hfinite⟩ := hstop
              exact .inr (.line (hsketch hs) hdx hdy hx hy hc ⟨n, hn, hfinite⟩)
      rcases hcorner with hstop | hover
      · refine .inl ⟨hsent ?_, hone fun n hn => ?_⟩
        · rw [(command_eq_ok hc).2.1]
          exact hstop
        · exact (Sketch.mem_numbers_extend hn).elim (hsketch hs n) (hstop n)
      · exact .inr ⟨c, rfl, hover⟩
  | closes hs hc =>
      refine .inl ⟨hsent ?_, hone fun n hn => hsketch hs n (Sketch.mem_numbers_close hn)⟩
      rw [(command_eq_ok hc).2.1]
      exact fun n hn => absurd hn List.not_mem_nil
  | @extrudes s distance walls c trail hs hdistance hc hwalls =>
      by_cases hfinite : ∀ w ∈ walls, ∀ n ∈ w.numbers, n.isFinite = true
      · refine .inl ⟨hsent ?_, hone fun n hn => ?_⟩
        · rw [(command_eq_ok hc).2.1]
          exact List.forall_mem_singleton.2 hdistance
        · rcases Extrusion.mem_numbers.1 hn with rfl | (hn | hn) | ⟨w, hw, hn⟩
          · exact hdistance
          · exact hsketch hs n (Sketch.mem_numbers.2 (.inr (.inl hn)))
          · exact hsketch hs n (Sketch.mem_numbers.2 (.inr (.inr hn)))
          · exact hfinite w hw n hn
      · simp only [not_forall, Bool.not_eq_true] at hfinite
        obtain ⟨w, hw, n, hn, hover⟩ := hfinite
        exact .inr ⟨c, rfl, .wall (hsketch hs) hdistance hwalls hc ⟨w, hw, n, hn, hover⟩⟩
  | @finds extruded name w trail he hw =>
      refine .inl ⟨hquiet, fun part hpart => ?_⟩
      obtain ⟨n, hn, rfl⟩ := number_of_mem_place ((List.mem_append.1 hpart).resolve_right List.not_mem_nil)
      refine .number (.inl ((hargs _ he).isFinite (fun m hm => by cases hm) n ?_))
      exact Extrusion.mem_numbers.2 (.inr (.inr ⟨w, Extrusion.mem_of_wall? hw, hn⟩))

theorem staysFinite_lawful (code : String) : (staysFinite code).Lawful code where
  later h more := h.imp_right fun ⟨c, hc, hover⟩ => ⟨c, List.mem_append_left _ hc, hover⟩
  number h _ := ⟨.inl (.number (.inl h)), .inl (.number (.inl (Number.isFinite_neg h)))⟩
  function := ⟨fun _ _ _ => rfl, fun _ => .inl fun n hn => absurd hn List.not_mem_nil⟩
  run := by
    intro mark log args e hlog hargs h
    by_cases hover : ∃ c ∈ log ++ e.sent.toList, Overflows code c
    · exact ⟨.inr hover, fun part _ => .inr hover⟩
    · -- Without an overflow everything was tame before and is so afterwards.
      have hbefore : ¬ ∃ c ∈ log, Overflows code c :=
        fun ⟨c, hc, hcover⟩ => hover ⟨c, List.mem_append_left _ hc, hcover⟩
      have htame : ∀ part ∈ Value.partsOf args, part.Tame :=
        fun part hpart => (hargs part hpart).resolve_right hbefore
      rcases h.tame htame with ⟨hsent, hparts⟩ | ⟨c, hc, hcover⟩
      · refine ⟨.inl fun c hc => ?_, fun part hpart => .inl (hparts part hpart)⟩
        rcases List.mem_append.1 hc with hc | hc
        · exact hlog.resolve_right hbefore c hc
        · exact hsent c (Option.mem_toList.1 hc)
      · exact absurd ⟨c, List.mem_append_right _ (Option.mem_toList.2 hc), hcover⟩ hover

/-! ### What is no fault -/

/-- Everything may occur, and every fault but that of a number that is too large. -/
def noOverflow : Guard where
  number _ := True
  node _ := True
  fault f := f ≠ .tooLarge

theorem noOverflow_lawful (library : Library) : noOverflow.Lawful library where
  rounds _ := trivial
  shown {n f} _ h := by
    rintro rfl
    unfold Pass.shownNumber at h
    split at h
    · split at h <;> cases h
    · cases h
  literal _ := trivial
  pipe _ h := by cases h
  object _ _ _ := .inr fun h => by cases h
  library := by
    rintro entry - count - - f hf rfl
    cases hf

/-- A part whose numbers are finite may occur. -/
theorem noOverflow_allows {part : Part} (h : ∀ n ∈ part.numbers, n.isFinite = true) :
    noOverflow.Allows part where
  usable := Part.usable_of_round fun n hn => Number.rounds_of_isFinite (h n hn)
  number _ _ := trivial
  function _ _ _ _ _ _ := trivial

namespace Pass

/-- No run from finite numbers fails because a number is too large. Everything it binds, shows and gives as
the value of the last statement has finite numbers, apart from angles of right triangles, and so has
everything it sends, unless one of the commands it sends overflows. -/
theorem run_finite (p : Pass) {store : Store}
    (hstore : ∀ part ∈ store.parts, ∀ n ∈ part.numbers, n.isFinite = true) (scope : Nat)
    (script : Node) :
    (p.run store scope script).result ≠ .error (.fault .tooLarge) ∧
      (((∀ c ∈ (p.run store scope script).sent, ∀ n ∈ c.request.numbers, n.isFinite = true) ∧
          ∀ part ∈ (p.run store scope script).store.parts ++
            Value.partsOf ((p.run store scope script).shown ++
              (p.run store scope script).last?.toList), part.Tame) ∨
        ∃ c ∈ (p.run store scope script).sent, Overflows p.code c) := by
  constructor
  · intro hfault
    cases script with
    | program mark body =>
        have hfits : noOverflow.Fits store.parts := fun part hpart => noOverflow_allows (hstore part hpart)
        exact fault_of_run (noOverflow_lawful p.library) hfits (fun _ _ _ _ => trivial) hfault rfl
    | _ => cases hfault
  · have hfits : (staysFinite p.code).Fits [] store.parts :=
      fun part hpart => .inl (.of_isFinite (hstore part hpart))
    obtain ⟨hlog, hparts, -⟩ := p.kept_run (staysFinite_lawful p.code)
      (.inl fun c hc => absurd hc List.not_mem_nil) hfits scope
      (show Confined (staysFinite p.code) script.innerCalls from fun _ _ => rfl)
    by_cases hover : ∃ c ∈ (p.run store scope script).sent, Overflows p.code c
    · exact .inr hover
    · exact .inl ⟨hlog.resolve_right hover, fun part hpart => (hparts part hpart).resolve_right hover⟩

/-- Arithmetic on a number that is bound before, with a sketch that is started from the result. -/
theorem run_finite_start :
    ∃ code script store, code = "const a = w * 1.5\nstartSketchAt([a, -min(a, 1)])" ∧
      store = (⟨#[⟨none, "root", [("w", .ofNumber (.int 5) [])]⟩]⟩ : Store) ∧
      parse code none = .ok script ∧
      (∀ part ∈ store.parts, ∀ n ∈ part.numbers, n.isFinite = true) ∧
      ((Pass.under .standard .standard code).run store 0 script).sent ≠ [] ∧
      (∀ c ∈ ((Pass.under .standard .standard code).run store 0 script).sent,
        ∀ n ∈ c.request.numbers, n.isFinite = true) ∧
      ∀ part ∈ ((Pass.under .standard .standard code).run store 0 script).store.parts,
        part.Tame := by
  obtain ⟨code, hcode⟩ : ∃ code, code = "const a = w * 1.5\nstartSketchAt([a, -min(a, 1)])" := ⟨_, rfl⟩
  obtain ⟨store, hstore⟩ :
      ∃ store, store = (⟨#[⟨none, "root", [("w", .ofNumber (.int 5) [])]⟩]⟩ : Store) := ⟨_, rfl⟩
  have hchecked : ((parse code none).toOption.any fun script => decide
      (((Pass.under .standard .standard code).run store 0 script).sent.map (·.request) =
        [.startPath ⟨.float 7.5, .float (-1)⟩])) = true := by
    rw [hcode, hstore]
    decide +kernel
  obtain ⟨script, hscript, hchecked⟩ := exists_of_any_toOption hchecked
  have hsent := of_decide_eq_true hchecked
  have hfinite : ∀ part ∈ store.parts, ∀ n ∈ part.numbers, n.isFinite = true := by
    rw [hstore]
    intro part hpart
    obtain rfl := List.mem_singleton.1 hpart
    exact Part.forall_number.2 (by decide +kernel)
  refine ⟨code, script, store, hcode, hstore, hscript, hfinite, fun hnil => ?_, ?_⟩
  · rw [hnil] at hsent
    cases hsent
  · obtain ⟨-, hkept | ⟨c, hc, hover⟩⟩ := run_finite (Pass.under .standard .standard code) hfinite 0 script
    · exact ⟨hkept.1, fun part hpart => hkept.2 part (List.mem_append_left _ hpart)⟩
    · have hrequest := List.mem_map_of_mem (f := (·.request)) hc
      rw [hsent] at hrequest
      exact absurd (List.mem_singleton.1 hrequest) (hover.ne_startPath _)

/-- A line from a corner near the end of the range by an offset as large again. -/
theorem run_line_overflows :
    ∃ code script, code = "line([1e308, 0], startSketchAt([1e308, 0]))" ∧
      parse code none = .ok script ∧
      ∃ c ∈ ((Pass.under .standard .standard code).run ⟨#[⟨none, "root", []⟩]⟩ 0 script).sent,
        ∃ n ∈ c.request.numbers, n.isFinite = false := by
  obtain ⟨code, hcode⟩ : ∃ code, code = "line([1e308, 0], startSketchAt([1e308, 0]))" := ⟨_, rfl⟩
  have hchecked : ((parse code none).toOption.any fun script =>
      ((Pass.under .standard .standard code).run ⟨#[⟨none, "root", []⟩]⟩ 0 script).sent.any fun c =>
        c.request.numbers.any fun n => !n.isFinite) = true := by
    rw [hcode]
    decide +kernel
  obtain ⟨script, hscript, hchecked⟩ := exists_of_any_toOption hchecked
  obtain ⟨c, hc, hchecked⟩ := List.any_eq_true.1 hchecked
  obtain ⟨n, hn, hfinite⟩ := List.any_eq_true.1 hchecked
  exact ⟨code, script, hcode, hscript, c, hc, n, hn, Bool.not_eq_true' _ ▸ hfinite⟩

end Pass

end PartScript
