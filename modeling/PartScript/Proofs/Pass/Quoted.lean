import PartScript.Proofs.Node.Places
import PartScript.Proofs.Pass.Provenance
import PartScript.Proofs.Text.Lines

/-!
Quoted lines. A diagnostic about a source text, whether it comes from reading the text or from running it
among nothing, starts at a place of the text. If only line feeds end lines before that place, then the line it
quotes is the line of the text that the place is in, and its column says where in that line. Other characters
that end lines are not counted by positions, and behind one of them the wrong line is quoted.
-/

namespace PartScript

namespace Pass

/-- What stops a script that is read from a text and run among nothing stands at a place of the text. -/
theorem pointsInto_of_runSource (p : Pass) (file : Option String) {failure : Failure}
    (h : (p.runSource .emptyRoot 0 file).result = .error failure) :
    failure.PointsInto p.code.toList (Text.linesOf p.code) := by
  have hplaces := parse_places p.code file
  rw [runSource] at h
  cases hscript : parse p.code file with
  | error reason =>
      rw [hscript] at h hplaces
      cases h
      exact hplaces
  | ok script =>
      rw [hscript] at h hplaces
      obtain ⟨m, body, rfl, -⟩ := exists_program (writable_of_parse hscript)
      obtain ⟨-, hsettles⟩ := grounded_of_runScript p hscript
      dsimp only at h
      rw [run_program, outcome] at h
      obtain ⟨stop, hstop, rfl⟩ := mapError_eq_error h
      rw [hstop] at hsettles
      cases stop with
      | wrong cause span =>
          obtain ⟨n, hn, rfl⟩ := hsettles.1
          exact ⟨hplaces n hn, .inl rfl⟩
      | tooDeep | fault => trivial

end Pass

/-- What is wrong with a source text when it is cut into tokens, read, or run among nothing. -/
inductive Raised (config : Config) (library : Library) (source : String) (file : Option String) :
    Diagnostic → Prop
  | tokenize {d} (h : PartScript.tokenize source file = .error (.diagnostic d)) :
      Raised config library source file d
  | parse {d} (h : PartScript.parse source file = .error (.diagnostic d)) :
      Raised config library source file d
  | run {d} (h : ((Pass.under config library source).runSource .emptyRoot 0 file).result =
        .error (.diagnostic d)) :
      Raised config library source file d

theorem Raised.pointsInto {config : Config} {library : Library} {source : String} {file : Option String}
    {d : Diagnostic} (h : Raised config library source file d) :
    d.PointsInto source.toList (Text.linesOf source) := by
  cases h with
  | tokenize h =>
      have hplaces := tokenize_places source file
      rw [h] at hplaces
      exact hplaces
  | parse h =>
      have hplaces := parse_places source file
      rw [h] at hplaces
      exact hplaces
  | run h => exact (Pass.under config library source).pointsInto_of_runSource file h

/-- If only line feeds end lines before the place of a diagnostic, then the line that it quotes is the one
that the place is in, and its column counts from the start of that line. It quotes a line unless something is
missing at the end of the text. -/
theorem quoted_line_of_feedsOnly {config : Config} {library : Library} {source : String}
    {file : Option String} {d : Diagnostic} (h : Raised config library source file d)
    (hfeeds : Text.feedsOnly (source.toList.take d.span.start.offset) = true) :
    (∀ line, d.sourceLine = some line → Text.IsLineOf source.toList d.span.start line.toList) ∧
      (d.sourceLine = none →
        (∃ expected, d.cause = .unexpectedEnd expected) ∨ d.span.start.offset = source.length) := by
  obtain ⟨⟨before, ⟨after, hsource⟩, hstart⟩, hquoted⟩ := h.pointsInto
  have hoffset : d.span.start.offset = before.length := by
    rw [hstart, Position.offset_after]
    exact Nat.zero_add _
  rw [hoffset, ← hsource, List.take_left] at hfeeds
  constructor
  · intro line hline
    rcases hquoted with hquoted | ⟨hnone, -⟩
    · rw [hline, hstart] at hquoted
      rw [hstart]
      exact Text.isLineOf_of_lineAt hsource.symm hfeeds hquoted.symm
    · cases hline.symm.trans hnone
  · intro hline
    rcases hquoted with hquoted | ⟨-, hend⟩
    · rw [hline, hstart] at hquoted
      have hnil := Text.eq_nil_of_lineAt hsource.symm hfeeds hquoted.symm
      right
      rw [hoffset, ← String.length_toList, ← hsource, hnil, List.append_nil]
    · exact .inl hend

/-- Does something fail with a diagnostic that passes a check? -/
def failsWith {α : Type} (check : Diagnostic → Bool) : Except Failure α → Bool
  | .error (.diagnostic d) => check d
  | _ => false

theorem exists_of_failsWith {α : Type} {check : Diagnostic → Bool} {x : Except Failure α}
    (h : failsWith check x = true) : ∃ d, x = .error (.diagnostic d) ∧ check d = true := by
  match x with
  | .error (.diagnostic d) => exact ⟨d, rfl, h⟩
  | .error (.fault f) => cases h
  | .ok a => cases h

/-- A name is missing on the third line, and the lines before it end with carriage returns and line feeds. A
carriage return alone is not counted: behind it the first line is quoted for a place on the second one. -/
theorem quoted_line_of_feedsOnly_return :
    (∃ source d, source = "const a = 1\r\n\r\n  b + a" ∧ Raised .standard .standard source none d ∧
      d.span.start = ⟨3, 3, 17⟩ ∧ Text.IsLineOf source.toList d.span.start "  b + a".toList) ∧
    ∃ source d, source = "a\rb $" ∧ Raised .standard .standard source none d ∧
      d.sourceLine = some "a" ∧ ¬ Text.IsLineOf source.toList d.span.start "a".toList := by
  constructor
  · obtain ⟨source, hsource⟩ : ∃ source, source = "const a = 1\r\n\r\n  b + a" := ⟨_, rfl⟩
    have hchecked : failsWith (fun d => decide (d.sourceLine = some "  b + a" ∧ d.span.start = ⟨3, 3, 17⟩))
        ((Pass.under .standard .standard source).runSource .emptyRoot 0 none).result = true := by
      rw [hsource]
      decide +kernel
    obtain ⟨d, hd, hchecked⟩ := exists_of_failsWith hchecked
    obtain ⟨hline, hstart⟩ := of_decide_eq_true hchecked
    refine ⟨source, d, hsource, .run hd, hstart, (quoted_line_of_feedsOnly (.run hd) ?_).1 _ hline⟩
    rw [hsource, hstart]
    decide
  · have hchecked : failsWith (fun d => decide (d.sourceLine = some "a" ∧ d.span.start = ⟨1, 5, 4⟩))
        (tokenize "a\rb $" none) = true := by
      decide +kernel
    obtain ⟨d, hd, hchecked⟩ := exists_of_failsWith hchecked
    obtain ⟨hline, hstart⟩ := of_decide_eq_true hchecked
    refine ⟨_, d, rfl, .tokenize hd, hline, ?_⟩
    rintro ⟨before, after, -, -, hcolumn, -⟩
    rw [hstart] at hcolumn
    exact absurd hcolumn (by decide)

end PartScript
