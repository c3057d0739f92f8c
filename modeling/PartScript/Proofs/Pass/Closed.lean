import PartScript.Proofs.Pass.Drawing

/-!
What the mark of a closed sketch says. Closing a sketch draws a segment back to its start and marks
it. A line that is drawn on from a marked sketch leads away from the start, but the mark is copied with
the rest of the sketch. So a marked sketch has been closed at some time, and ends where it starts unless
it was continued behind that.
-/

namespace PartScript

/-! ### Sketches -/

/-- The segment was drawn by a command that continues the path of the sketch. -/
def Sketch.Lined (s : Sketch) (log : List Command) (segment : Segment) : Prop :=
  ∃ c ∈ log, c.request = .extendPath s.id segment.stop ∧ c.range = segment.range

/-- The sketch was closed by a segment back to its start, and the lines behind that segment were drawn
afterwards. -/
def Sketch.Shut (s : Sketch) (log : List Command) (closing : Segment) (lines : List Segment) : Prop :=
  (∃ front, s.segments = front ++ closing :: lines) ∧ closing.stop = s.start ∧
    ∃ sent c later, log = sent ++ c :: later ∧ c.request = .closePath s.id ∧
      c.range = closing.range ∧ ∀ line ∈ lines, s.Lined later line

/-- The mark is right about the past of a sketch. -/
structure Sketch.Marked (s : Sketch) (log : List Command) : Prop where
  lined : s.closed = false → ∀ segment ∈ s.segments, s.Lined log segment
  shut : s.closed = true → ∃ closing lines, s.Shut log closing lines

/-- No line of the path was drawn after the path was closed. -/
def Settled (log : List Command) (path : String) : Prop :=
  ∀ sent c later, log = sent ++ c :: later → c.request = .closePath path →
    ∀ d ∈ later, ∀ stop, d.request ≠ .extendPath path stop

section

variable {s : Sketch} {log : List Command} {segment : Segment}

theorem Sketch.Lined.mono {log' : List Command} (h : s.Lined log segment) (hlog : log ⊆ log') :
    s.Lined log' segment := by
  obtain ⟨c, hc, hsent⟩ := h
  exact ⟨c, hlog hc, hsent⟩

theorem Sketch.Shut.later {closing : Segment} {lines : List Segment} (h : s.Shut log closing lines)
    (more : List Command) : s.Shut (log ++ more) closing lines := by
  obtain ⟨hsegments, hstop, sent, c, later, rfl, hrequest, hrange, hlines⟩ := h
  refine ⟨hsegments, hstop, sent, c, later ++ more, ?_, hrequest, hrange, fun line hline => ?_⟩
  · rw [List.append_assoc, List.cons_append]
  · exact (hlines line hline).mono (List.subset_append_left _ _)

theorem Sketch.Marked.later (h : s.Marked log) (more : List Command) : s.Marked (log ++ more) where
  lined hopen segment hsegment :=
    (h.lined hopen segment hsegment).mono (List.subset_append_left _ _)
  shut hclosed := by
    obtain ⟨closing, lines, hshut⟩ := h.shut hclosed
    exact ⟨closing, lines, hshut.later more⟩

theorem Sketch.marked_starting (id : String) (start : Point) (log : List Command) :
    (Sketch.starting id start).Marked log where
  lined _ _ hsegment := absurd hsegment List.not_mem_nil
  shut := nofun

/-- A line keeps the mark, whatever it is. -/
theorem Sketch.Marked.extend (h : s.Marked log) {c : Command}
    (hrequest : c.request = .extendPath s.id segment.stop) (hrange : c.range = segment.range) :
    (s.extend segment).Marked (log ++ [c]) := by
  have hlined : s.Lined [c] segment := ⟨c, .head _, hrequest, hrange⟩
  constructor
  · intro hopen other hother
    rcases List.mem_append.1 hother with hother | hother
    · exact (h.lined hopen other hother).mono (List.subset_append_left _ _)
    · rw [List.mem_singleton.1 hother]
      exact hlined.mono (List.subset_append_right _ _)
  · intro hclosed
    obtain ⟨closing, lines, ⟨front, hsegments⟩, hstop, sent, d, later, rfl, hpath, hplace, hlines⟩ :=
      h.shut hclosed
    refine ⟨closing, lines ++ [segment], ⟨front, ?_⟩, hstop, sent, d, later ++ [c], ?_, hpath, hplace,
      fun line hline => ?_⟩
    · change s.segments ++ [segment] = _
      rw [hsegments, List.append_assoc, List.cons_append]
    · rw [List.append_assoc, List.cons_append]
    · rcases List.mem_append.1 hline with hline | hline
      · exact (hlines line hline).mono (List.subset_append_left _ _)
      · rw [List.mem_singleton.1 hline]
        exact hlined.mono (List.subset_append_right _ _)

/-- A sketch is marked when it is closed, whether it was marked before or not. -/
theorem Sketch.marked_closed {c : Command} (hstop : segment.stop = s.start)
    (hrequest : c.request = .closePath s.id) (hrange : c.range = segment.range) :
    ({ s.extend segment with closed := true } : Sketch).Marked (log ++ [c]) where
  lined := nofun
  shut _ := ⟨segment, [], ⟨s.segments, rfl⟩, hstop, log, c, [], rfl, hrequest, hrange,
    fun _ hline => absurd hline List.not_mem_nil⟩

/-- A sketch that was closed ends where it starts exactly if no line was drawn afterwards, or the last
such line leads there as well. -/
theorem Sketch.Shut.lastPoint_eq_start_iff {closing : Segment} {lines : List Segment}
    (h : s.Shut log closing lines) :
    s.lastPoint = s.start ↔ ∀ line ∈ lines.getLast?, line.stop = s.start := by
  obtain ⟨⟨front, hsegments⟩, hstop, -⟩ := h
  rw [s.lastPoint_eq, hsegments, List.getLast?_append, List.getLast?_cons]
  cases lines.getLast? with
  | none => simpa using hstop
  | some line => simp

/-- Where a path is not continued after it was closed, no line was drawn. -/
theorem Sketch.Shut.eq_nil_of_settled {closing : Segment} {lines : List Segment}
    (h : s.Shut log closing lines) (hsettled : Settled log s.id) : lines = [] := by
  obtain ⟨-, -, sent, c, later, hlog, hrequest, -, hlines⟩ := h
  refine List.eq_nil_iff_forall_not_mem.2 fun line hline => ?_
  obtain ⟨d, hd, hextends, -⟩ := hlines line hline
  exact hsettled sent c later hlog hrequest d hd line.stop hextends

/-- What a mark tells about the shape of a sketch: if it is marked, it has a segment, and it ends where
it starts unless it was continued by a line that leads elsewhere; if it is not, it consists of lines. -/
structure Sketch.Told (s : Sketch) (log : List Command) : Prop where
  drawn : s.closed = true → s.segments ≠ []
  ends : s.closed = true → ∃ closing lines, s.Shut log closing lines ∧
    (s.lastPoint = s.start ↔ ∀ line ∈ lines.getLast?, line.stop = s.start)
  settled : s.closed = true → Settled log s.id → s.lastPoint = s.start
  lined : s.closed = false → ∀ segment ∈ s.segments, s.Lined log segment

theorem Sketch.Marked.told (h : s.Marked log) : s.Told log := by
  refine ⟨fun hclosed => ?_, fun hclosed => ?_, fun hclosed hsettled => ?_, h.lined⟩ <;>
    obtain ⟨closing, lines, hshut⟩ := h.shut hclosed
  · obtain ⟨⟨front, hsegments⟩, -⟩ := hshut
    rw [hsegments]
    exact List.append_ne_nil_of_right_ne_nil _ (List.cons_ne_nil _ _)
  · exact ⟨closing, lines, hshut, hshut.lastPoint_eq_start_iff⟩
  · rw [hshut.lastPoint_eq_start_iff, hshut.eq_nil_of_settled hsettled]
    nofun

end

/-! ### The whole pass -/

/-- The part is no sketch, or the mark of it is right about its past. -/
def Part.Marked (log : List Command) : Part → Prop
  | .sketch s => s.Marked log
  | .number _ | .function _ | .segment _ | .extrusion _ | .wall _ => True

/-- That marks are right is to be kept up. -/
def marking : Upkeep := ⟨fun _ => True, Part.Marked, fun _ => true⟩

theorem marked_of_isShape {log : List Command} {part : Part} (h : part.isShape = false) :
    part.Marked log := by
  cases part with
  | sketch => cases h
  | number | function | segment | extrusion | wall => trivial

/-- The only effects of the library that make sketches are starting, drawing and closing one. -/
theorem marked_of_does {site : CallSite} {args : List Value} {log : List Command} {e : Effect}
    (hargs : ∀ part ∈ Value.partsOf args, part.Marked log) (h : Builtin.Does site args e) :
    ∀ part ∈ e.value.parts ++ Value.partsOf e.shown, part.Marked (log ++ e.sent.toList) := by
  intro part hpart
  cases h with
  | calculates n =>
      rw [List.mem_singleton.1 hpart]
      trivial
  | shows hshown =>
      subst hshown
      rw [Option.toList_none, List.append_nil]
      refine hargs part ?_
      rcases List.mem_append.1 hpart with hpart | hpart
      · exact List.mem_append_left _ hpart
      · exact hpart
  | starts =>
      rw [List.mem_singleton.1 hpart]
      exact Sketch.marked_starting _ _ _
  | draws hs hleg hsent =>
      obtain ⟨hrange, hrequest, -⟩ := Builtin.command_eq_ok hsent
      have hmarked : Sketch.Marked _ log := hargs _ hs
      rw [List.mem_singleton.1 hpart]
      exact hmarked.extend hrequest hrange
  | closes hs hsent =>
      obtain ⟨hrange, hrequest, -⟩ := Builtin.command_eq_ok hsent
      rw [List.mem_singleton.1 hpart]
      exact Sketch.marked_closed rfl hrequest hrange
  | extrudes =>
      rw [List.mem_singleton.1 hpart]
      trivial
  | finds he hw =>
      rcases List.mem_append.1 hpart with hpart | hpart
      · obtain ⟨n, -, rfl⟩ := Builtin.number_of_mem_place hpart
        trivial
      · cases hpart

theorem marking_lawful (code : String) : marking.Lawful code where
  later {_ part} h more := by
    cases part with
    | sketch s => exact Sketch.Marked.later h more
    | number | function | segment | extrusion | wall => trivial
  number _ _ := ⟨trivial, trivial⟩
  function := ⟨fun _ _ _ => rfl, fun _ => trivial⟩
  run _ hargs h := ⟨trivial, marked_of_does hargs h⟩

theorem told_of_fits {log : List Command} {parts : List Part} (h : marking.Fits log parts)
    (s : Sketch) (hs : .sketch s ∈ parts) : s.Told log :=
  Sketch.Marked.told (h _ hs)

/-- From scopes without shapes, whatever the limits at which a pass stops, every sketch that is bound,
shown or returned has the shape its mark tells. The same goes for the arguments of any call on the way:
where marks are right, evaluating expressions gives sketches that have the shape their marks tell, and
leads to a world in which marks are right. -/
theorem Pass.run_closed (p : Pass) {store : Store}
    (hstore : ∀ part ∈ store.parts, part.isShape = false) (scope : Nat) (script : Node) :
    (∀ s, .sketch s ∈ (p.run store scope script).store.parts ++
        Value.partsOf ((p.run store scope script).shown ++ (p.run store scope script).last?.toList) →
      s.Told (p.run store scope script).sent) ∧
    marking.Holds ⟨0, [], [], store⟩ ∧
    ∀ (w : World) (left : Nat) (f : Frame) (ns : List Node), marking.Holds w →
      (∀ part ∈ Value.partsOf f.hole.toList, part.Marked w.sent) →
      marking.Holds ((evaluateAll p (p.call left) f ns).run w).2 ∧
        ∀ args, ((evaluateAll p (p.call left) f ns).run w).1 = .ok args →
          ∀ s, .sketch s ∈ Value.partsOf args →
            s.Told ((evaluateAll p (p.call left) f ns).run w).2.sent := by
  have hlawful := marking_lawful p.code
  have hparts : marking.Fits [] store.parts := fun part hpart => marked_of_isShape (hstore part hpart)
  refine ⟨?_, ⟨trivial, hparts, Upkeep.fits_nil⟩, fun w left f ns hw hhole => ?_⟩
  · obtain ⟨-, hend, -⟩ := p.kept_run hlawful trivial hparts scope
      (show Confined marking script.innerCalls from fun _ _ => rfl)
    exact told_of_fits hend
  · obtain ⟨hholds, -, hgood⟩ := kept_evaluateAll hlawful (entersKept_call hlawful left) hhole ns
      (fun _ _ => rfl) w (List.prefix_refl _) hw
    exact ⟨hholds, fun args hargs => told_of_fits (hgood args hargs)⟩

/-- A sketch that was closed and continued is still marked, and does not end where it starts. -/
theorem Pass.run_closed_continued :
    ∃ code script store,
      code = "lineTo([2, 3], close(lineTo([1, 0], startSketchAt([0, 0]))))" ∧
      parse code none = .ok script ∧ (∀ part ∈ store.parts, part.isShape = false) ∧
      ∃ s : Sketch, .sketch s ∈
          Value.partsOf ((Pass.under .standard .standard code).run store 0 script).last?.toList ∧
        s.closed = true ∧ s.lastPoint ≠ s.start ∧
        s.Told ((Pass.under .standard .standard code).run store 0 script).sent := by
  obtain ⟨code, hcode⟩ : ∃ code,
      code = "lineTo([2, 3], close(lineTo([1, 0], startSketchAt([0, 0]))))" := ⟨_, rfl⟩
  obtain ⟨store, hstore⟩ : ∃ store : Store, store = ⟨#[⟨none, "root", []⟩]⟩ := ⟨_, rfl⟩
  have hfree : ∀ part ∈ store.parts, part.isShape = false := by
    rw [hstore]
    decide
  have hchecked : ((parse code none).toOption.any fun script =>
      (Value.partsOf ((Pass.under .standard .standard code).run store 0 script).last?.toList).any
        fun
          | .sketch s => s.closed && decide (s.lastPoint ≠ s.start)
          | _ => false) = true := by
    rw [hcode, hstore]
    decide +kernel
  obtain ⟨script, hscript, hchecked⟩ := exists_of_any_toOption hchecked
  obtain ⟨part, hpart, hmarked⟩ := List.any_eq_true.1 hchecked
  cases part with
  | sketch s =>
      obtain ⟨hclosed, hends⟩ := Bool.and_eq_true_iff.1 hmarked
      refine ⟨code, script, store, hcode, hscript, hfree, s, hpart, hclosed,
        of_decide_eq_true hends, ?_⟩
      refine (Pass.run_closed (.under .standard .standard code) hfree 0 script).1 s ?_
      rw [Value.partsOf_append, ← List.append_assoc]
      exact List.mem_append_right _ hpart
  | number | function | segment | extrusion | wall => cases hmarked

end PartScript
