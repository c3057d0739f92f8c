import PartScript.Proofs.Pass.Upkeep

/-!
What a pass draws. The values of a script and the commands it sends tell the same story: a sketch
holds the corners that were sent for its path, an extrusion has a wall for each tagged segment of the
sketch it was made from, and no command refers to a path that was not started before. Sketches are
values, so one of them may be continued in several ways; therefore the story is told of every sketch
that is still around, and not of one current path.
-/

namespace PartScript

/-! ### Commands -/

/-- The path that a request refers to. -/
def Request.path? : Request → Option String
  | .startPath _ => none
  | .extendPath path _ | .closePath path => some path
  | .extrude target _ => some target

/-- One of the commands starts the path. -/
def Started (log : List Command) (path : String) : Prop :=
  ∃ c ∈ log, c.id = path ∧ ∃ start, c.request = .startPath start

/-- Every command that refers to a path was sent after one that starts the path. -/
def Traced (log : List Command) : Prop :=
  ∀ before c after, log = before ++ c :: after → ∀ path ∈ c.request.path?, Started before path

theorem Traced.snoc {log : List Command} {c : Command} (h : Traced log)
    (hc : ∀ path ∈ c.request.path?, Started log path) : Traced (log ++ [c]) := by
  intro before d after heq
  rcases List.eq_nil_or_concat after with rfl | ⟨after, last, rfl⟩
  · obtain ⟨rfl, hlast⟩ := List.append_inj' heq rfl
    cases hlast
    exact hc
  · rw [List.concat_eq_append, ← List.cons_append, ← List.append_assoc] at heq
    exact h before d after (List.append_inj' heq rfl).1

/-! ### Sketches -/

/-- Every segment starts where the one before it ends, and the first one at a point. -/
def Linked : Point → List Segment → Prop
  | _, [] => True
  | p, s :: rest => s.start = p ∧ Linked s.stop rest

/-- The sketch was drawn by commands that have been sent. -/
structure Sketch.Drawn (log : List Command) (s : Sketch) : Prop where
  started : ∃ c ∈ log, c.id = s.id ∧ c.request = .startPath s.start
  linked : Linked s.start s.segments
  sent : ∀ segment ∈ s.segments,
    (∃ c ∈ log, c.request = .extendPath s.id segment.stop) ∨
      (segment.stop = s.start ∧ ∃ c ∈ log, c.request = .closePath s.id)

/-- The segments that can be found by a tag. -/
def Sketch.tagged (s : Sketch) : List Segment := s.segments.filter (!·.name.isEmpty)

theorem Linked.snoc {segments : List Segment} {p : Point} {segment : Segment}
    (h : Linked p segments) (hstart : segment.start = ((segments.getLast?).map (·.stop)).getD p) :
    Linked p (segments ++ [segment]) := by
  induction segments generalizing p with
  | nil => exact ⟨hstart, trivial⟩
  | cons first rest ih =>
      refine ⟨h.1, ih h.2 ?_⟩
      rw [hstart]
      cases rest with
      | nil => rfl
      | cons second rest => rw [List.getLast?_cons_cons, List.getLast?_cons]; rfl

theorem Sketch.lastPoint_eq (s : Sketch) :
    s.lastPoint = ((s.segments.getLast?).map (·.stop)).getD s.start := by
  unfold lastPoint
  cases s.segments.getLast? <;> rfl

section

variable {log log' : List Command} {s : Sketch}

theorem Sketch.Drawn.mono (h : s.Drawn log) (hlog : log ⊆ log') : s.Drawn log' := by
  obtain ⟨c, hc, hstart⟩ := h.started
  refine ⟨⟨c, hlog hc, hstart⟩, h.linked, fun segment hsegment => ?_⟩
  rcases h.sent segment hsegment with ⟨c, hc, hrequest⟩ | ⟨hstop, c, hc, hrequest⟩
  · exact .inl ⟨c, hlog hc, hrequest⟩
  · exact .inr ⟨hstop, c, hlog hc, hrequest⟩

/-- A sketch with one more segment is drawn if the sketch was and the end of the segment was sent. -/
theorem Sketch.Drawn.extend (h : s.Drawn log) {segment : Segment}
    (hstart : segment.start = s.lastPoint)
    (hsent : (∃ c ∈ log, c.request = .extendPath s.id segment.stop) ∨
      (segment.stop = s.start ∧ ∃ c ∈ log, c.request = .closePath s.id)) :
    (s.extend segment).Drawn log := by
  refine ⟨h.started, h.linked.snoc (hstart.trans s.lastPoint_eq), fun other hother => ?_⟩
  rcases List.mem_append.1 hother with hother | hother
  · exact h.sent other hother
  · rw [List.mem_singleton.1 hother]
    exact hsent

/-- Whether a sketch is closed does not matter. -/
theorem Sketch.Drawn.closed (h : s.Drawn log) (closed : Bool) :
    ({ s with closed := closed } : Sketch).Drawn log :=
  ⟨h.started, h.linked, h.sent⟩

end

/-! ### Extrusions -/

/-- The extrusion was made from the sketch: it has one wall for each tagged segment, in order, with the
tag and the range of the segment. -/
structure Extrusion.RaisedFrom (e : Extrusion) (s : Sketch) : Prop where
  sketchId : e.sketchId = s.id
  walls : e.walls.map (fun w => (w.name, w.range)) = s.tagged.map fun seg => (seg.name, seg.range)

/-- The extrusion was made by a command that has been sent, from a sketch that was drawn. -/
def Extrusion.Raised (log : List Command) (e : Extrusion) : Prop :=
  ∃ s : Sketch, s.Drawn log ∧ e.RaisedFrom s ∧
    ∃ c ∈ log, c.id = e.id ∧ c.request = .extrude s.id e.height

theorem map_eq_of_mapM {α β γ : Type} {f : α → Except Fault β} {g : β → γ} {h : α → γ}
    (hf : ∀ a b, f a = .ok b → g b = h a) {as : List α} {bs : List β} (hbs : as.mapM f = .ok bs) :
    bs.map g = as.map h := by
  induction as generalizing bs with
  | nil =>
      cases hbs
      rfl
  | cons a as ih =>
      rw [List.mapM_cons] at hbs
      obtain ⟨b, hb, hbs⟩ := bind_eq_ok hbs
      obtain ⟨rest, hrest, hbs⟩ := bind_eq_ok hbs
      cases hbs
      rw [List.map_cons, List.map_cons, hf a b hb, ih hrest]

theorem Geometry.wall_eq_ok {s : Sketch} {height : Float} {direction : Int} {segment : Segment}
    {w : Wall} (h : wall s height direction segment = .ok w) :
    (w.name, w.range) = (segment.name, segment.range) := by
  obtain ⟨⟨x, y⟩, -, h⟩ := bind_eq_ok h
  obtain ⟨⟨x', y'⟩, -, h⟩ := bind_eq_ok h
  obtain ⟨offset, -, h⟩ := bind_eq_ok h
  obtain ⟨px, -, h⟩ := bind_eq_ok h
  obtain ⟨py, -, h⟩ := bind_eq_ok h
  obtain ⟨pz, -, h⟩ := bind_eq_ok h
  obtain ⟨r, -, h⟩ := bind_eq_ok h
  cases h
  rfl

/-- There is one wall for each tagged segment. -/
theorem Geometry.walls_eq_ok {s : Sketch} {height : Number} {ws : List Wall}
    (h : walls s height = .ok ws) :
    ws.map (fun w => (w.name, w.range)) = s.tagged.map fun seg => (seg.name, seg.range) := by
  obtain ⟨direction, -, h⟩ := bind_eq_ok h
  dsimp only at h
  split at h
  · rename_i hnone
    have htagged : s.tagged = [] := List.isEmpty_iff.1 hnone
    cases h
    rw [htagged]
    rfl
  · obtain ⟨x, -, h⟩ := bind_eq_ok h
    exact map_eq_of_mapM (fun _ _ => wall_eq_ok) h

theorem Extrusion.Raised.mono {log log' : List Command} {e : Extrusion} (h : e.Raised log)
    (hlog : log ⊆ log') : e.Raised log' := by
  obtain ⟨s, hs, hfrom, c, hc, hsent⟩ := h
  exact ⟨s, hs.mono hlog, hfrom, c, hlog hc, hsent⟩

/-- The shape was made by the commands that have been sent. Other parts have nothing to do with
commands. -/
def Part.Consistent (log : List Command) : Part → Prop
  | .sketch s => s.Drawn log
  | .extrusion e => e.Raised log
  | .number _ | .function _ | .segment _ | .wall _ => True

/-- Is the part a sketch or an extrusion? -/
def Part.isShape : Part → Bool
  | .sketch _ | .extrusion _ => true
  | .number _ | .function _ | .segment _ | .wall _ => false

theorem Part.Consistent.mono {log log' : List Command} {part : Part} (h : part.Consistent log)
    (hlog : log ⊆ log') : part.Consistent log' := by
  cases part with
  | sketch s => exact Sketch.Drawn.mono h hlog
  | extrusion e => exact Extrusion.Raised.mono h hlog
  | number | function | segment | wall => trivial

end PartScript
