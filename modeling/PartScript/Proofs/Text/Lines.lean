import PartScript.Span
import PartScript.Text.Lines

/-!
Where the lines of a text stand. A position counts line feeds alone, in its line those before the place and in
its column what comes behind the last of them, and a text is cut into lines at other characters too. Up to a
place before which only line feeds end lines, with or without carriage returns in front of them, the two agree:
the line with the number of the position is the one that the place is in, and the column says how far into the
line it is.
-/

namespace PartScript.Position

/-! ### Counting from the start of a text -/

theorem line_after (p : Position) (cs : List Char) :
    (p.after cs).line = p.line + cs.count '\n' := by
  induction cs generalizing p with
  | nil => rfl
  | cons c cs ih =>
      rw [after_cons, ih, List.count_cons, step]
      split
      · simp
        omega
      · simp

/-- Whether a line ends between two places depends on the text between them. -/
theorem line_eq_line_after_iff (p q : Position) (cs : List Char) :
    p.line = (p.after cs).line ↔ q.line = (q.after cs).line := by
  rw [line_after, line_after]
  omega

/-- The column counts what stands behind the last line feed. -/
theorem column_after_reverse (cs : List Char) :
    (first.after cs.reverse).column = 1 + (cs.takeWhile (· != '\n')).length := by
  induction cs with
  | nil => rfl
  | cons c cs ih =>
      rw [List.reverse_cons, after_append, after_cons, after_nil, step]
      split
      · rename_i hc
        rw [List.takeWhile_cons_of_neg (by simpa using hc)]
        rfl
      · rename_i hc
        rw [List.takeWhile_cons_of_pos (by simpa using hc), List.length_cons, ih, Nat.add_assoc]

/-- The position is that of a place in a text. The line counts the line feeds before the place, and the column
counts what stands between the last of these, or the start of the text, and the place. Both start with one. -/
structure IsIn (text : List Char) (p : Position) : Prop where
  offset_le : p.offset ≤ text.length
  line : p.line = 1 + (text.take p.offset).count '\n'
  column : p.column = 1 + ((text.take p.offset).reverse.takeWhile (· != '\n')).length

/-- The position behind the front of a text is the position of a place in it. -/
theorem isIn_after_first (front rest : List Char) : (first.after front).IsIn (front ++ rest) := by
  have htake : (front ++ rest).take (first.after front).offset = front := by
    rw [offset_after_first, List.take_left]
  refine ⟨?_, ?_, ?_⟩
  · rw [offset_after_first, List.length_append]
    exact Nat.le_add_right _ _
  · rw [htake, line_after]
    rfl
  · rw [htake, ← column_after_reverse, List.reverse_reverse]

end PartScript.Position

namespace PartScript.Text

/-- Every line that ends in the text ends with a line feed, which a carriage return may stand before. -/
def feedsOnly : List Char → Bool
  | [] => true
  | [c] => c == '\n' || !isLineBreak c
  | c :: d :: rest =>
    if c == '\r' && d == '\n' then feedsOnly rest
    else (c == '\n' || !isLineBreak c) && feedsOnly (d :: rest)

/-- No line ends in the text. -/
def Unbroken (text : List Char) : Prop := ∀ c ∈ text, isLineBreak c = false

theorem Unbroken.cons {c : Char} {text : List Char} (hc : isLineBreak c = false) (h : Unbroken text) :
    Unbroken (c :: text) :=
  List.forall_mem_cons.2 ⟨hc, h⟩

theorem ne_lineFeed {c : Char} (h : isLineBreak c = false) : c ≠ '\n' := by
  rintro rfl
  exact absurd h (by decide)

/-! ### Cutting into lines -/

theorem lines_lineFeed (text : List Char) : lines ('\n' :: text) = [] :: lines text := by
  cases text with
  | nil => rfl
  | cons d rest => rw [lines]; rfl

theorem lines_cons {c : Char} (h : isLineBreak c = false) (text : List Char) :
    lines (c :: text) = consLine c (lines text) := by
  have hreturn : (c == '\r') = false := by
    rw [beq_eq_false_iff_ne]
    rintro rfl
    exact absurd h (by decide)
  cases text with
  | nil => simp [lines, h, consLine]
  | cons d rest => simp [lines, h, hreturn]

theorem head?_consLine (c : Char) (ls : List (List Char)) :
    (consLine c ls).head? = some (c :: ls.head?.getD []) := by
  cases ls <;> rfl

/-- The first line goes up to the first character that ends a line. -/
theorem head?_lines (c : Char) (text : List Char) :
    (lines (c :: text)).head? = some ((c :: text).takeWhile (!isLineBreak ·)) := by
  induction text generalizing c with
  | nil =>
      by_cases hc : isLineBreak c = true
      · simp [lines, hc]
      · simp [lines, hc]
  | cons d rest ih =>
      by_cases hc : isLineBreak c = true
      · rw [List.takeWhile_cons_of_neg (by simpa using hc), lines]
        split <;> rfl
      · rw [List.takeWhile_cons_of_pos (by simpa using hc), lines_cons (by simpa using hc),
          head?_consLine, ih, Option.getD_some]

/-- If no line ends at the front of a text then the first line has all of the front, and it goes up to the
first character behind it that ends a line. -/
theorem exists_of_head?_lines {front text line : List Char} (hfront : Unbroken front)
    (h : (lines (front ++ text)).head? = some line) :
    ∃ back after, line = front ++ back ∧ text = back ++ after ∧ Unbroken line ∧
      ∀ c ∈ after.head?, isLineBreak c = true := by
  cases hwhole : front ++ text with
  | nil =>
      rw [hwhole] at h
      cases h
  | cons c rest =>
      rw [hwhole, head?_lines, ← hwhole] at h
      have hquiet : ∀ c ∈ front, (!isLineBreak c) = true := fun c hc => by simp [hfront c hc]
      have hline : line = front ++ text.takeWhile (!isLineBreak ·) :=
        (Option.some.inj h).symm.trans (List.takeWhile_append_of_pos hquiet)
      refine ⟨_, text.dropWhile (!isLineBreak ·), hline, List.takeWhile_append_dropWhile.symm, ?_, ?_⟩
      · intro d hd
        rw [← Option.some.inj h] at hd
        simpa using List.all_eq_true.1 List.all_takeWhile d hd
      · intro d hd
        have hhead := List.head?_dropWhile_not (!isLineBreak ·) text
        rw [hd] at hhead
        simpa using hhead

/-- What ends a line that is counted: a line feed, which a carriage return may stand before. -/
inductive Feed : List Char → Prop
  | plain : Feed ['\n']
  | pair : Feed ['\r', '\n']

theorem Feed.last {feed : List Char} (h : Feed feed) : feed.getLast? = some '\n' := by
  cases h <;> rfl

/-- A line and what ends it are cut off. -/
theorem lines_feed {line feed : List Char} (hline : Unbroken line) (hfeed : Feed feed)
    (text : List Char) : lines (line ++ (feed ++ text)) = line :: lines text := by
  induction line with
  | nil =>
      cases hfeed with
      | plain => exact lines_lineFeed text
      | pair => rfl
  | cons c line ih =>
      obtain ⟨hc, hline⟩ := List.forall_mem_cons.1 hline
      rw [List.cons_append, lines_cons hc, ih hline, consLine]

/-! ### Counting lines -/

/-- Some characters of one line go by. -/
theorem after_of_unbroken {line : List Char} (h : Unbroken line) (p : Position) :
    p.after line = ⟨p.line, p.column + line.length, p.offset + line.length⟩ := by
  induction line generalizing p with
  | nil => rfl
  | cons c line ih =>
      obtain ⟨hc, hline⟩ := List.forall_mem_cons.1 h
      have hstep : p.step c = ⟨p.line, p.column + 1, p.offset + 1⟩ := by
        simp [Position.step, ne_lineFeed hc]
      rw [Position.after_cons, ih hline, hstep, List.length_cons, Nat.add_right_comm p.column,
        Nat.add_right_comm p.offset]
      rfl

/-- The end of a line goes by. -/
theorem after_feed {feed : List Char} (h : Feed feed) (p : Position) :
    p.after feed = ⟨p.line + 1, 1, p.offset + feed.length⟩ := by
  cases h <;> rfl

/-- A text made of whole lines with their ends, and of the front of one more line. -/
inductive Ruled : List Char → List (List Char) → List Char → Prop
  | front {front} (h : Unbroken front) : Ruled front [] front
  | line {line feed text ls front} (hline : Unbroken line) (hfeed : Feed feed)
      (h : Ruled text ls front) : Ruled (line ++ (feed ++ text)) (line :: ls) front

theorem Ruled.cons {c : Char} {text front : List Char} {ls : List (List Char)}
    (hc : isLineBreak c = false) (h : Ruled text ls front) :
    ∃ ls' front', Ruled (c :: text) ls' front' := by
  cases h with
  | front h => exact ⟨_, _, .front (h.cons hc)⟩
  | line hline hfeed h => exact ⟨_, _, .line (hline.cons hc) hfeed h⟩

theorem exists_ruled {text : List Char} (h : feedsOnly text = true) :
    ∃ ls front, Ruled text ls front := by
  -- At a line feed a line ends that has nothing in it yet.
  have hnil : Unbroken [] := nofun
  fun_induction feedsOnly text with
  | case1 => exact ⟨[], [], .front hnil⟩
  | case2 c =>
      rw [Bool.or_eq_true, beq_iff_eq, Bool.not_eq_true'] at h
      rcases h with rfl | hc
      · exact ⟨[[]], [], .line hnil .plain (.front hnil)⟩
      · exact ⟨[], [c], .front (hnil.cons hc)⟩
  | case3 c d rest hpair ih =>
      rw [Bool.and_eq_true, beq_iff_eq, beq_iff_eq] at hpair
      obtain ⟨rfl, rfl⟩ := hpair
      obtain ⟨ls, front, hrest⟩ := ih h
      exact ⟨[] :: ls, front, .line hnil .pair hrest⟩
  | case4 c d rest _ ih =>
      rw [Bool.and_eq_true, Bool.or_eq_true, beq_iff_eq, Bool.not_eq_true'] at h
      obtain ⟨hc, hrest⟩ := h
      obtain ⟨ls, front, hrest⟩ := ih hrest
      rcases hc with rfl | hc
      · exact ⟨[] :: ls, front, .line hnil .plain hrest⟩
      · exact hrest.cons hc

section

variable {text front : List Char} {ls : List (List Char)}

theorem Ruled.unbroken (h : Ruled text ls front) : Unbroken front := by
  induction h with
  | front h => exact h
  | line _ _ _ ih => exact ih

/-- The front of the last line is at the end of the text, and what is before it ends with a line feed. -/
theorem Ruled.exists_before (h : Ruled text ls front) :
    ∃ before, text = before ++ front ∧ ∀ c ∈ before.getLast?, c = '\n' := by
  induction h with
  | front h => exact ⟨[], rfl, nofun⟩
  | @line line feed _ _ _ _ hfeed _ ih =>
      obtain ⟨before, rfl, hlast⟩ := ih
      refine ⟨line ++ (feed ++ before), by simp only [List.append_assoc], fun c hc => ?_⟩
      rw [List.getLast?_append, List.getLast?_append, hfeed.last] at hc
      cases hbefore : before.getLast? with
      | none =>
          rw [hbefore] at hc
          exact (Option.some.inj hc).symm
      | some d =>
          rw [hbefore] at hc
          exact hlast c (hbefore.trans hc)

/-- The whole lines are cut off. -/
theorem Ruled.lines_append (h : Ruled text ls front) (after : List Char) :
    lines (text ++ after) = ls ++ lines (front ++ after) := by
  induction h with
  | front h => rfl
  | line hline hfeed _ ih =>
      rw [List.append_assoc, List.append_assoc, lines_feed hline hfeed, ih, List.cons_append]

/-- The whole lines are counted, and the column is counted in the front of the last line. -/
theorem Ruled.after_first (h : Ruled text ls front) {p : Position} (hp : p.column = 1) :
    p.after text = ⟨p.line + ls.length, 1 + front.length, p.offset + text.length⟩ := by
  induction h generalizing p with
  | front h => rw [after_of_unbroken h, hp]; rfl
  | line hline hfeed _ ih =>
      rw [Position.after_append, after_of_unbroken hline, Position.after_append, after_feed hfeed, ih rfl]
      simp only [List.length_append, List.length_cons, Position.mk.injEq, true_and]
      omega

end

/-! ### The line of a place -/

/-- The line is the one of a text that a place is in. It starts the text or stands behind a line feed, it
goes up to the end of the text or to a character that ends a line, and the column counts from its start and
is in it or right behind it. -/
def IsLineOf (text : List Char) (p : Position) (line : List Char) : Prop :=
  ∃ before after, text = before ++ line ++ after ∧ before.length + (p.column - 1) = p.offset ∧
    p.column - 1 ≤ line.length ∧ (∀ c ∈ before.getLast?, c = '\n') ∧ Unbroken line ∧
    ∀ c ∈ after.head?, isLineBreak c = true

theorem lines_eq_nil {text : List Char} (h : lines text = []) : text = [] := by
  cases text with
  | nil => rfl
  | cons c text =>
      have hhead := head?_lines c text
      rw [h] at hhead
      cases hhead

/-- The line with the number of a place is the line in which the front of the place is. -/
theorem Ruled.lineAt_line {text front : List Char} {ls : List (List Char)} (h : Ruled text ls front)
    {source : String} {after : List Char} (hsource : source.toList = text ++ after) :
    lineAt (linesOf source) (Position.first.after text).line =
      (lines (front ++ after)).head?.map String.ofList := by
  have hnumber : (Position.first.after text).line = ls.length + 1 := by
    rw [h.after_first rfl]
    exact Nat.add_comm 1 ls.length
  rw [hnumber, lineAt_succ, linesOf, hsource, h.lines_append, List.getElem?_map,
    List.getElem?_append_right (Nat.le_refl _), Nat.sub_self, List.head?_eq_getElem?]

/-- If only line feeds end lines before a place then the line with its number is the line of the place. -/
theorem isLineOf_of_lineAt {source : String} {before after : List Char}
    (hsource : source.toList = before ++ after) (hfeeds : feedsOnly before = true) {line : String}
    (h : lineAt (linesOf source) (Position.first.after before).line = some line) :
    IsLineOf source.toList (Position.first.after before) line.toList := by
  obtain ⟨ls, front, hruled⟩ := exists_ruled hfeeds
  rw [hruled.lineAt_line hsource] at h
  obtain ⟨line, hline, rfl⟩ := Option.map_eq_some_iff.1 h
  obtain ⟨back, rest, rfl, rfl, hunbroken, hrest⟩ := exists_of_head?_lines hruled.unbroken hline
  obtain ⟨above, habove, hlast⟩ := hruled.exists_before
  have hplace : Position.first.after before = ⟨1 + ls.length, 1 + front.length, 0 + before.length⟩ :=
    hruled.after_first rfl
  rw [hplace, String.toList_ofList]
  refine ⟨above, rest, ?_, ?_, ?_, hlast, hunbroken, hrest⟩
  · rw [hsource, habove]
    simp only [List.append_assoc]
  · show above.length + (1 + front.length - 1) = 0 + before.length
    rw [habove, List.length_append]
    omega
  · show 1 + front.length - 1 ≤ (front ++ back).length
    rw [List.length_append]
    omega

/-- There is a line with its number unless the text ends there. -/
theorem eq_nil_of_lineAt {source : String} {before after : List Char}
    (hsource : source.toList = before ++ after) (hfeeds : feedsOnly before = true)
    (h : lineAt (linesOf source) (Position.first.after before).line = none) : after = [] := by
  obtain ⟨ls, front, hruled⟩ := exists_ruled hfeeds
  rw [hruled.lineAt_line hsource, Option.map_eq_none_iff, List.head?_eq_none_iff] at h
  exact (List.append_eq_nil_iff.1 (lines_eq_nil h)).2

end PartScript.Text
