import PartScript.Proofs.Edit.Edited
import PartScript.Proofs.Node.Alike
import PartScript.Proofs.Node.Differences

/-!
Printing and parsing. A script that was read from a text and edited is printed without fail, and its
text is read back as the same script up to marks, or refused as nested too deep, exactly if no statement
that is printed behind another one starts with a minus. Where one does, the statement before it goes on
with the minus, and what is read back has one difference more and one statement less.
-/

namespace PartScript

open PartScript.Parser (Setting)

namespace Printer

open Lexer
open Node (Writable WritableAll Parted)

/-! ### Scripts -/

/-- The pieces of a script: its statements on lines of their own, and a line ending behind the last one
if there is one and the style asks for it. -/
def scriptPieces (style : Style) (body : List Node) : List Piece :=
  (lines style 0 body).tail ++
    if body.isEmpty || !style.finalNewline then [] else [.blank ['\n']]

theorem indent_zero (style : Style) : style.indent 0 = "" := by
  unfold Style.indent
  split
  · rfl
  · simp

theorem toList_joined (style : Style) (x : Node) (rest : List Node) :
    (String.intercalate "\n" ((x :: rest).map fun n => style.indent 0 ++
      textOf (pieces style 0 n))).toList = chars (lines style 0 (x :: rest)).tail := by
  have hjoin := congrArg String.toList (join_lines style 0 x rest)
  rw [indent_zero] at hjoin ⊢
  rw [String.toList_append, toList_textOf, lines, chars_cons, newLine, Piece.chars_blank,
    indent_zero] at hjoin
  exact (List.cons.inj hjoin).2

theorem chars_pieces_ne_nil {style : Style} {level : Nat} {s : Setting} {n : Node}
    (h : Writable .statement s n) : chars (pieces style level n) ≠ [] := by
  obtain ⟨kind, text, ps, hled, -⟩ := led_pieces style level s n .statement (.inr rfl) h
  have hlegible := legible_pieces style level .statement s n h [] (.inl (clear_nil _))
  rw [hled] at hlegible ⊢
  simp [hlegible.1.ne_nil]

theorem script_eq {style : Style} {s : Setting} {body : List Node}
    (h : WritableAll .statement s body) :
    script style body = .ok (textOf (scriptPieces style body)) := by
  rw [script, statements_eq style 0 s body h, ok_bind]
  cases body with
  | nil => rfl
  | cons x rest =>
      have hlist := toList_joined style x rest
      have hempty : (String.intercalate "\n" ((x :: rest).map fun n => style.indent 0 ++
          textOf (pieces style 0 n))).isEmpty = false := by
        rw [Bool.eq_false_iff]
        intro hempty
        rw [String.isEmpty_iff.1 hempty] at hlist
        simp [lines, chars_pieces_ne_nil h.1] at hlist
      simp only [hempty, Bool.false_or]
      refine congrArg Except.ok (textOf_eq_iff.2 ?_)
      cases hfinal : style.finalNewline with
      | false => simpa [scriptPieces, hfinal] using hlist
      | true =>
          simp only [scriptPieces, hfinal, Bool.not_true, Bool.false_eq_true, if_false,
            List.isEmpty_cons, Bool.or_self, String.toList_append, hlist, chars_append]
          rfl

/-- The text of a script that can be written. -/
theorem print_eq {style : Style} {s : Setting} {m : Mark} {body : List Node}
    (h : Writable .script s (.program m body)) :
    (Node.program m body).print style = .ok (textOf (scriptPieces style body)) :=
  script_eq (by simpa only [Writable] using h)

theorem legible_script {style : Style} {s : Setting} {body : List Node}
    (h : WritableAll .statement s body) :
    Legible (some Number.maxDigits) [] (scriptPieces style body) := by
  rw [scriptPieces, legible_append]
  constructor
  · have hlines := legible_lines style 0 s body h
      (chars (if body.isEmpty || !style.finalNewline then [] else [.blank ['\n']]) ++ [])
      (by split <;> first | exact clear_nil _ | exact clear_cons _ rfl)
    cases body with
    | nil => trivial
    | cons x rest =>
        rw [lines, legible_newLine] at hlines
        exact hlines
  · split
    · trivial
    · simp [Legible, isSpace]

theorem kinds_scriptPieces (style : Style) (body : List Node) :
    kinds (scriptPieces style body) = kinds (lines style 0 body) := by
  have hlast : kinds (if body.isEmpty || !style.finalNewline then [] else [.blank ['\n']]) = [] := by
    split <;> rfl
  rw [scriptPieces, kinds_append, hlast, List.append_nil]
  cases body <;> rfl

theorem placed_scriptPieces (file : Option String) (p : Position) (style : Style)
    (body : List Node) : placed file p (scriptPieces style body) =
      placed file p (lines style 0 body).tail := by
  rw [scriptPieces, placed_append]
  split <;> simp [placed]

theorem scriptPieces_bare_eq (style : Style) {body body' : List Node}
    (h : Node.bareAll body' = Node.bareAll body) :
    scriptPieces style body' = scriptPieces style body := by
  have hempty : body'.isEmpty = body.isEmpty := by
    cases body <;> cases body' <;> first | rfl | cases h
  rw [scriptPieces, scriptPieces, ← lines_bare style 0 body', h, lines_bare, hempty]

/-- The tokens of a printed script. -/
theorem tokenize_script (style : Style) {s : Setting} {body : List Node}
    (h : WritableAll .statement s body) (file : Option String) :
    ∃ finish, tokenize (textOf (scriptPieces style body)) file =
      .ok (placed file .first (scriptPieces style body) ++ [⟨.finish, "", finish⟩]) :=
  tokenizeWith_legible (legible_script h) file

/-- The statements of a script in which they are kept apart are read back, nested as deep as the script is
with all parentheses that are printed. -/
theorem statements_script {body : List Node} {m : Mark}
    (h : WritableAll .statement .outside body) (hparted : Parted (Node.program m body).walk)
    (style : Style) (file : Option String) :
    ∃ body', Grammar.Statements (nestingAll true 1 body)
        (placed file .first (scriptPieces style body)) body' ∧
      Node.bareAll body' = Node.bareAll body := by
  rw [placed_scriptPieces]
  cases body with
  | nil => exact ⟨[], .nil, rfl⟩
  | cons x more =>
      have hminus := hparted (.program m (x :: more)) (by simp [Node.walk])
      have hbody : Parted (Node.walkAll (x :: more)) :=
        hparted.mono fun n hn => by simp [Node.walk, hn]
      have hx := readsBack_statements style 0 file .outside x h.1
        (hbody.mono fun n hn => by simp [Node.walkAll, hn])
      have hmore := yieldsLines style 0 file .outside more h.2 rfl
        (hbody.mono fun n hn => by simp [Node.walkAll, hn])
        fun y hy => hminus y (List.mem_of_mem_tail hy)
      obtain ⟨body', hrun, hbares⟩ :=
        run_cons hx hmore h.2 rfl hminus (closed_nil 0) 0 .first
      rw [List.append_nil] at hrun
      exact ⟨body', hrun.statements rfl, hbares⟩

end Printer

/-! ### Parsing -/

/-- The text is refused because it is nested too deep. -/
def NestedTooDeep (result : Except Failure Node) : Prop :=
  ∃ d, result = .error (.diagnostic d) ∧ d.cause.code = "E105"

theorem code_diagnostic {limit : Nat} {place : Option Span} (lines : List String) (finish : Span) :
    ((Parser.Wrong.mk (.nestedTooDeep limit) place).diagnostic lines finish).cause.code = "E105" :=
  rfl

theorem parseTokens_append_finish (lines : List String) (ts : List Token) (lexeme : String)
    (finish : Span) : parseTokens lines (ts ++ [⟨.finish, lexeme, finish⟩]) =
      (Parser.script finish ts).mapError fun w => .diagnostic (w.diagnostic lines finish) := by
  simp [parseTokens]

/-- Statements that are nested deeper than the bound are refused. -/
theorem nestedTooDeep_of_lt {n : Nat} {ts : List Token} {body : List Node}
    (h : Grammar.Statements n ts body) (hn : Parser.maxNesting < n) (lines : List String)
    (lexeme : String) (finish : Span) :
    NestedTooDeep (parseTokens lines (ts ++ [⟨.finish, lexeme, finish⟩])) := by
  obtain ⟨place, herror⟩ := (h.reads (Nat.le_succ ts.length)).2 (by omega)
  rw [parseTokens_append_finish]
  simp only [Parser.script, herror]
  exact ⟨_, rfl, code_diagnostic lines finish⟩

/-- Tokens that are statements of the grammar are parsed to them or nested too deep. -/
theorem parseTokens_statements {n : Nat} {ts : List Token} {body : List Node}
    (h : Grammar.Statements n ts body) (lines : List String) (lexeme : String) (finish : Span) :
    NestedTooDeep (parseTokens lines (ts ++ [⟨.finish, lexeme, finish⟩])) ∨
      parseTokens lines (ts ++ [⟨.finish, lexeme, finish⟩]) =
        .ok (Parser.joinStatements finish body).withPaths := by
  by_cases hn : n ≤ Parser.maxNesting
  · have hreads := (h.reads (Nat.le_succ ts.length)).1 hn
    rw [parseTokens_append_finish]
    cases hdepth : (Parser.joinStatements finish body).deeperThan? Parser.maxDepth with
    | none =>
        right
        simp only [Parser.script, hreads, ok_bind, hdepth]
        rfl
    | some deep =>
        left
        simp only [Parser.script, hreads, ok_bind, hdepth]
        exact ⟨_, rfl, code_diagnostic lines finish⟩
  · exact .inl (nestedTooDeep_of_lt h (by omega) lines lexeme finish)

theorem bare_joinStatements (finish : Span) (body : List Node) :
    (Parser.joinStatements finish body).bare = .program .blank (Node.bareAll body) := by
  unfold Parser.joinStatements
  split <;> rfl

/-- A script of which a text was read has the differences of its tokens. -/
theorem minuses_of_parse {source : String} {file : Option String} {q : Node} {ts : List Token}
    {finish : Span} (htokens : tokenize source file = .ok (ts ++ [⟨.finish, "", finish⟩]))
    (h : parse source file = .ok q) :
    Lexer.minuses false (ts.map Token.kind) = Node.differences q.walk := by
  obtain ⟨tokens, htokens', hparse⟩ := bind_eq_ok h
  rw [htokens] at htokens'
  cases htokens'
  obtain ⟨n, bare, hscript, -, -, rfl⟩ :=
    Grammar.script_eq_ok_iff.1 (parseTokens_eq_ok_iff.1 hparse)
  obtain ⟨body, hstatements, rfl⟩ := Grammar.script_iff.1 hscript
  rw [hstatements.minuses, ← Node.differences_bare, Node.bare_withPaths, bare_joinStatements,
    Node.walk, Node.differences_cons, Node.differences_bareAll]
  rfl

/-! ### Round trips -/

/-- The text of a script that can be written and in which statements are kept apart is one of the grammar,
nested as deep as the script is with all parentheses that are printed. -/
theorem exists_statements_of_print {p : Node} (h : p.Writable .script .outside)
    (hparted : Node.Parted p.walk) {style : Style} {text : String} (htext : p.print style = .ok text)
    (file : Option String) :
    ∃ ts finish body, tokenize text file = .ok (ts ++ [⟨.finish, "", finish⟩]) ∧
      Grammar.Statements (Printer.nesting true p) ts body ∧
      .program .blank (Node.bareAll body) = p.bare := by
  obtain ⟨m, body, rfl, hbody⟩ := exists_program h
  rw [Printer.print_eq h] at htext
  cases htext
  obtain ⟨finish, htokens⟩ := Printer.tokenize_script style hbody file
  obtain ⟨body', hstatements, hbares⟩ :=
    Printer.statements_script hbody hparted style file
  refine ⟨_, finish, body', htokens, ?_, by rw [hbares]; rfl⟩
  rw [Printer.nesting]
  exact hstatements

/-- A script that can be written and in which statements are kept apart is read back from its text. -/
theorem parse_print_of_parted {p : Node} (h : p.Writable .script .outside)
    (hparted : Node.Parted p.walk) {style : Style} {text : String} (htext : p.print style = .ok text)
    (file : Option String) :
    NestedTooDeep (parse text file) ∨ ∃ q, parse text file = .ok q ∧ q.bare = p.bare := by
  obtain ⟨ts, finish, body, htokens, hstatements, hbare⟩ :=
    exists_statements_of_print h hparted htext file
  simp only [parse, htokens, ok_bind]
  refine (parseTokens_statements hstatements _ "" finish).imp id fun hparse => ⟨_, hparse, ?_⟩
  rw [Node.bare_withPaths, bare_joinStatements, hbare]

/-- What is read back from the text of a script has as many differences as the script has, and one for
every statement behind another one that starts with a minus. -/
theorem differences_of_parse_print {p : Node} (h : p.Writable .script .outside) {style : Style}
    {text : String} (htext : p.print style = .ok text) {file : Option String} {q : Node}
    (hq : parse text file = .ok q) :
    Node.differences q.walk = Node.differences p.walk + Node.swallowed p.walk := by
  obtain ⟨m, body, rfl, hbody⟩ := exists_program h
  rw [Printer.print_eq h] at htext
  cases htext
  obtain ⟨finish, htokens⟩ := Printer.tokenize_script style hbody file
  obtain ⟨hcount, -⟩ := Printer.counts_lines style 0 .outside rfl body hbody false
  rw [← minuses_of_parse htokens hq, Lexer.map_kind_placed, Printer.kinds_scriptPieces, hcount]
  simp [Node.walk, Printer.printed, Node.differences_cons, Node.swallowed_cons, Node.isDifference,
    Node.statements]
  omega

/-- If a statement behind another one is printed with a minus in front, no script that is read back is alike:
it has one difference more for every such statement. -/
theorem alike_eq_false_of_not_parted {p q : Node} (hp : p.Writable .script .outside)
    (hparted : ¬ Node.Parted p.walk) {style : Style} {text : String} (htext : p.print style = .ok text)
    {file : Option String} (hq : parse text file = .ok q) : p.alike q = false := by
  rw [Bool.eq_false_iff]
  intro halike
  have hbare := (Node.alike_iff hp (writable_of_parse hq)).1 halike
  have hcount := differences_of_parse_print hp htext hq
  have hequal : Node.differences q.walk = Node.differences p.walk := by
    rw [← Node.differences_bare, ← hbare, Node.differences_bare]
  exact hparted (Node.swallowed_eq_zero_iff.1 (by omega))

/-- A script that was read from a text and edited in any way is printed in every style. If no statement
behind another one is printed with a minus in front, its text is refused as nested too deep or read back
as a script that is alike and is printed as the same text. If one is, no script that is alike is read
back. -/
theorem parse_print_iff_parted {source : String} {file : Option String} {script p : Node}
    (hscript : parse source file = .ok script) (hedited : Edited script p) (style : Style)
    (file' : Option String) :
    ∃ text, p.print style = .ok text ∧
      (Node.Parted p.walk → NestedTooDeep (parse text file') ∨
        ∃ q, parse text file' = .ok q ∧ p.alike q = true ∧ q.print style = .ok text) ∧
      (¬ Node.Parted p.walk → ∀ q, parse text file' = .ok q → p.alike q = false) := by
  have hp : p.Writable .script .outside := hedited.writable (writable_of_parse hscript)
  obtain ⟨m, body, rfl, hbody⟩ := exists_program hp
  refine ⟨_, Printer.print_eq hp, fun hparted => ?_, fun hparted q hq => ?_⟩
  · refine (parse_print_of_parted hp hparted (Printer.print_eq hp) file').imp id ?_
    rintro ⟨q, hq, hbare⟩
    have hwritable : q.Writable .script .outside := hp.of_bare_eq hbare
    refine ⟨q, hq, (Node.alike_iff hp hwritable).2 hbare.symm, ?_⟩
    obtain ⟨m', body', rfl, -⟩ := exists_program hwritable
    have hbodies : Node.bareAll body' = Node.bareAll body := (Node.program.inj hbare).2
    rw [Printer.print_eq hwritable, Printer.scriptPieces_bare_eq style hbodies]
  · exact alike_eq_false_of_not_parted hp hparted (Printer.print_eq hp) hq

/-- A function with a pipe in it is read back; a negated name in parentheses behind another statement
is printed without them and is not. -/
theorem parse_print_iff_parted_negated_name :
    (∃ script, parse "fn k = (x) => \x7breturn x |> h(%, -1)\x7d k([2])" none = .ok script ∧
      Edited script script ∧ Node.Parted script.walk ∧
      ∃ text, script.print .standard = .ok text ∧ (NestedTooDeep (parse text none) ∨
        ∃ q, parse text none = .ok q ∧ script.alike q = true ∧ q.print .standard = .ok text)) ∧
    (∃ script, parse "a\n(-b)" none = .ok script ∧ Edited script script ∧
      ¬ Node.Parted script.walk ∧ script.print .standard = .ok "a\n-b\n" ∧
      ∀ q, parse "a\n-b\n" none = .ok q → script.alike q = false) := by
  constructor
  · have hparted : (parse "fn k = (x) => \x7breturn x |> h(%, -1)\x7d k([2])" none).toOption.any
        (fun script => decide (Node.Parted script.walk)) = true := by decide +kernel
    obtain ⟨script, hscript, hparted⟩ := exists_of_any_toOption hparted
    have hparted : Node.Parted script.walk := of_decide_eq_true hparted
    obtain ⟨text, htext, hback, -⟩ := parse_print_iff_parted hscript .refl .standard none
    exact ⟨script, hscript, .refl, hparted, text, htext, hback hparted⟩
  · have hparted : (parse "a\n(-b)" none).toOption.any
        (fun script => decide (¬ Node.Parted script.walk ∧
          (script.print .standard).toOption = some "a\n-b\n")) = true := by decide +kernel
    obtain ⟨script, hscript, hchecked⟩ := exists_of_any_toOption hparted
    obtain ⟨hparted, hprint⟩ := of_decide_eq_true hchecked
    obtain ⟨text, htext, -, hbad⟩ := parse_print_iff_parted hscript .refl .standard none
    rw [htext] at hprint
    obtain rfl := Option.some.inj hprint
    exact ⟨script, hscript, .refl, hparted, htext, hbad hparted⟩

end PartScript
