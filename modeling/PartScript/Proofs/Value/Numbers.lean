import PartScript.Number.Reading
import PartScript.Proofs.Number.Finite
import PartScript.Proofs.Value.Parts

/-!
The numbers in values. A part of a value holds numbers: itself, or the coordinates of a shape. Shapes from
outside may have whole numbers as coordinates, and those can be used if they round to floats. A shape that is
made from another one has its coordinates and a few new ones.
-/

namespace PartScript

/-! ### Numbers that round to floats -/

namespace Number

/-- There is a float next to the number. -/
def Rounds (n : Number) : Prop := ∃ x, n.toFloat? = some x

theorem rounds_float (x : Float) : Rounds (.float x) := ⟨x, rfl⟩

theorem rounds_of_isFinite {n : Number} (h : n.isFinite = true) : n.Rounds := by
  obtain ⟨x, hx, -⟩ := exists_toFloat? h
  exact ⟨x, hx⟩

/-- A whole number that rounds to a float is far from having too many digits to be written. -/
theorem natAbs_lt_of_rounds {i : Int} (h : (int i).Rounds) : i.natAbs < powTen maxDigits := by
  have hlt : i.natAbs < powTwo 1024 := by
    obtain ⟨x, hx⟩ := h
    by_contra hge
    rw [toFloat?, ofInt?_eq_none (Nat.le_of_not_lt hge)] at hx
    cases hx
  exact Nat.lt_of_lt_of_le hlt (by decide +kernel)

/-- Arithmetic with a float on the right has a float as its result. -/
theorem combine?_float {n : Number} {y : Float} (h : n.toFloat? = some y) (exact : Int → Int → Int)
    (rounded : Float → Float → Float) (x : Float) :
    combine? exact rounded n (.float x) = some (.float (rounded y x)) := by
  cases n with
  | int i =>
      show ((int i).toFloat? >>= fun a => some (float (rounded a x))) = _
      rw [h]
      rfl
  | float z =>
      cases h
      rfl

end Number

/-! ### Numbers of parts -/

/-- The coordinates of a segment. -/
def Segment.numbers (s : Segment) : List Number := s.start.coordinates ++ s.stop.coordinates

/-- The coordinates of a sketch. -/
def Sketch.numbers (s : Sketch) : List Number :=
  s.start.coordinates ++ s.segments.flatMap Segment.numbers ++
    (s.position.coordinates ++ s.rotation.coordinates)

/-- The coordinates of a wall. -/
def Wall.numbers (w : Wall) : List Number := w.position.coordinates ++ w.rotation.coordinates

/-- The height of an extrusion and its coordinates. -/
def Extrusion.numbers (e : Extrusion) : List Number :=
  e.height :: (e.position.coordinates ++ e.rotation.coordinates ++ e.walls.flatMap Wall.numbers)

/-- The numbers in a part of a value. -/
def Part.numbers : Part → List Number
  | .number n => [n]
  | .sketch s => s.numbers
  | .extrusion e => e.numbers
  | .function _ => []
  | .segment s => s.numbers
  | .wall w => w.numbers

/-- The numbers that the engine is told. -/
def Request.numbers : Request → List Number
  | .startPath start => start.coordinates
  | .extendPath _ stop => stop.coordinates
  | .closePath _ => []
  | .extrude _ distance => [distance]

theorem Part.forall_number {n : Number} {P : Number → Prop} :
    (∀ m ∈ (Part.number n).numbers, P m) ↔ P n := List.forall_mem_singleton

mutual

/-- The number that a value is or stands for is a part of it. -/
theorem Value.mem_parts_of_number? {n : Number} :
    {v : Value} → v.number? = some n → .number n ∈ v.parts
  | .mk (.number _) _, h => by
      cases h
      exact List.mem_singleton_self _
  | .mk (.host h) _, hn => Host.mem_parts_of_number? (h := h) hn
  | .mk (.text _) _, h | .mk (.boolean _) _, h | .mk (.array _) _, h | .mk (.sketch _) _, h
  | .mk (.extrusion _) _, h | .mk (.function _) _, h => by cases h

theorem Host.mem_parts_of_number? {n : Number} :
    {h : Host} → h.number? = some n → .number n ∈ h.parts
  | .number _, h => by
      cases h
      exact List.mem_singleton_self _
  | .value v, h => Value.mem_parts_of_number? (v := v) h
  | .null, h | .bool _, h | .text _, h | .list _, h | .tuple _, h | .record _, h | .sketch _, h
  | .extrusion _, h | .segment _, h | .wall _, h | .opaqueItem, h => by cases h

end

/-! ### Shapes made from others -/

namespace Sketch

variable {s : Sketch} {stop : Point} {n : Number}

theorem mem_numbers : n ∈ s.numbers ↔
    (n ∈ s.start.coordinates ∨ ∃ segment ∈ s.segments, n ∈ segment.numbers) ∨
      n ∈ s.position.coordinates ∨ n ∈ s.rotation.coordinates := by
  simp only [numbers, List.mem_append, List.mem_flatMap]

theorem mem_numbers_of_lastPoint (h : n ∈ s.lastPoint.coordinates) : n ∈ s.numbers := by
  refine mem_numbers.2 (.inl ?_)
  unfold lastPoint at h
  split at h
  · rename_i segment hsegment
    exact .inr ⟨segment, List.mem_of_getLast? hsegment, List.mem_append_right _ h⟩
  · exact .inl h

theorem mem_numbers_of_point {p : Point} (hp : p ∈ s.points) (h : n ∈ p.coordinates) :
    n ∈ s.numbers := by
  refine mem_numbers.2 (.inl ?_)
  rcases List.mem_cons.1 hp with rfl | hp
  · exact .inl h
  · obtain ⟨segment, hsegment, rfl⟩ := List.mem_map.1 hp
    exact .inr ⟨segment, hsegment, List.mem_append_right _ h⟩

/-- A sketch that is started has the coordinates of its start; its place is the usual one. -/
theorem mem_numbers_starting {id : String} (h : n ∈ (starting id stop).numbers) :
    n ∈ stop.coordinates ∨ n = .float 0 ∨ n = .float 1 := by
  rcases mem_numbers.1 h with (h | ⟨segment, hsegment, -⟩) | h | h
  · exact .inl h
  · exact absurd hsegment List.not_mem_nil
  · exact .inr (.inl (by simpa [starting, Vector3.origin, Vector3.coordinates] using h))
  · exact .inr (by simpa [starting, Rotation.none, Rotation.coordinates] using h)

/-- The only new coordinates of a longer sketch are those of its end. -/
theorem mem_numbers_extend {name : String} {range : Range}
    (h : n ∈ (s.extend ⟨s.lastPoint, stop, name, range⟩).numbers) :
    n ∈ s.numbers ∨ n ∈ stop.coordinates := by
  rcases mem_numbers.1 h with (h | ⟨segment, hsegment, h⟩) | h
  · exact .inl (mem_numbers.2 (.inl (.inl h)))
  · rcases List.mem_append.1 hsegment with hsegment | hsegment
    · exact .inl (mem_numbers.2 (.inl (.inr ⟨segment, hsegment, h⟩)))
    · obtain rfl := List.mem_singleton.1 hsegment
      rcases List.mem_append.1 h with h | h
      · exact .inl (mem_numbers_of_lastPoint h)
      · exact .inr h
  · exact .inl (mem_numbers.2 (.inr h))

/-- A sketch that is closed has no new coordinates. -/
theorem mem_numbers_close {name : String} {range : Range}
    (h : n ∈ ({ s.extend ⟨s.lastPoint, s.start, name, range⟩ with closed := true } : Sketch).numbers) :
    n ∈ s.numbers := by
  rcases mem_numbers_extend (show n ∈ (s.extend ⟨s.lastPoint, s.start, name, range⟩).numbers from h)
    with h | h
  · exact h
  · exact mem_numbers.2 (.inl (.inl h))

end Sketch

/-- An extrusion has its height, the coordinates of its place and those of its walls. -/
theorem Extrusion.mem_numbers {e : Extrusion} {n : Number} : n ∈ e.numbers ↔
    n = e.height ∨ (n ∈ e.position.coordinates ∨ n ∈ e.rotation.coordinates) ∨
      ∃ w ∈ e.walls, n ∈ w.numbers := by
  simp only [numbers, List.mem_cons, List.mem_append, List.mem_flatMap]

/-- A wall that is found is one of the extrusion. -/
theorem Extrusion.mem_of_wall? {e : Extrusion} {name : String} {w : Wall} (h : e.wall? name = some w) :
    w ∈ e.walls :=
  List.mem_of_find?_eq_some h

end PartScript
