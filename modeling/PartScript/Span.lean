/-!
Places in a source text. A position counts lines and columns from one and characters from zero; only
a line feed starts a new line. A span runs from one position to another, and its range keeps just the
two character offsets.
-/

namespace PartScript

/-- A place between two characters of a text. -/
structure Position where
  line : Nat
  column : Nat
  offset : Nat
  deriving DecidableEq, Repr, Inhabited

/-- Character offsets of a piece of text: from `start` up to, not including, `stop`. -/
structure Range where
  start : Int
  stop : Int
  deriving DecidableEq, Repr, Inhabited

/-- A piece of text of a named or unnamed file. -/
structure Span where
  start : Position
  stop : Position
  file : Option String
  deriving DecidableEq, Repr, Inhabited

namespace Position

/-- The position before the first character. -/
def first : Position := ⟨1, 1, 0⟩

/-- The position behind one more character. -/
def step (p : Position) (c : Char) : Position :=
  if c == '\n' then ⟨p.line + 1, 1, p.offset + 1⟩ else ⟨p.line, p.column + 1, p.offset + 1⟩

/-- The position behind some more characters. -/
def after (p : Position) (cs : List Char) : Position := cs.foldl step p

/-- The position as text. -/
def text (p : Position) : String := toString p.line ++ ":" ++ toString p.column

@[simp] theorem after_nil (p : Position) : p.after [] = p := rfl

@[simp] theorem after_cons (p : Position) (c : Char) (cs : List Char) :
    p.after (c :: cs) = (p.step c).after cs := rfl

theorem after_append (p : Position) (cs ds : List Char) :
    p.after (cs ++ ds) = (p.after cs).after ds := by
  simp [after]

@[simp] theorem offset_step (p : Position) (c : Char) : (p.step c).offset = p.offset + 1 := by
  unfold step; split <;> rfl

/-- Offsets count characters. -/
theorem offset_after (p : Position) (cs : List Char) :
    (p.after cs).offset = p.offset + cs.length := by
  induction cs generalizing p with
  | nil => rfl
  | cons c cs ih => simp [ih]; omega

theorem offset_le_after (p : Position) (cs : List Char) : p.offset ≤ (p.after cs).offset := by
  rw [offset_after]
  exact Nat.le_add_right _ _

theorem offset_after_first (cs : List Char) : (first.after cs).offset = cs.length :=
  (offset_after first cs).trans (Nat.zero_add _)

end Position

namespace Range

/-- Does a range include an offset, the two ends counted? -/
def contains (r : Range) (offset : Int) : Bool := r.start ≤ offset && offset ≤ r.stop

/-- The piece of a text in a range. -/
def slice (r : Range) (cs : List Char) : List Char :=
  (cs.take r.stop.toNat).drop r.start.toNat

theorem slice_append (front cs rest : List Char) :
    slice ⟨front.length, (front ++ cs).length⟩ (front ++ (cs ++ rest)) = cs := by
  rw [slice, Int.toNat_natCast, Int.toNat_natCast, ← List.append_assoc, List.take_left, List.drop_left]

/-- A range as text. -/
def text (r : Range) : String := "[" ++ toString r.start ++ ", " ++ toString r.stop ++ "]"

end Range

namespace Span

/-- The span of what was made by a tool and stands in no text. -/
def absent : Span := ⟨⟨0, 0, 0⟩, ⟨0, 0, 0⟩, none⟩

/-- The offsets of a span. -/
def range (s : Span) : Range := ⟨s.start.offset, s.stop.offset⟩

/-- The span from the start of one span to the end of another. -/
def upTo (s t : Span) : Span := ⟨s.start, t.stop, s.file⟩

/-- The file name in front of a place, if there is one. -/
def filePrefix (s : Span) : String :=
  match s.file with
  | some name => if name.isEmpty then "" else name ++ ":"
  | none => ""

/-- Where the span starts, as text. -/
def location (s : Span) : String := s.filePrefix ++ s.start.text

/-- Where the span starts and ends, as text. -/
def text (s : Span) : String := s.location ++ "-" ++ s.stop.text

@[simp] theorem start_upTo (s t : Span) : (s.upTo t).start = s.start := rfl

@[simp] theorem stop_upTo (s t : Span) : (s.upTo t).stop = t.stop := rfl

end Span

end PartScript
