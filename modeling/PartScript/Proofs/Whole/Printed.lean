import PartScript.Proofs.Edit.Numeral
import PartScript.Proofs.Node.Accepted
import PartScript.Proofs.Whole.Amounts

/-!
Whole numbers from a tree to a value. An expression of whole numbers is printed, its text is read and the
script is run. The text of a number below zero is a minus and a number, so what is read may have signs where
the printed tree had numbers; apart from that it is the same tree, and what it amounts to is the same.
-/

namespace PartScript

open Lexer (NumberText)

/-! ### Texts of whole numbers -/

/-- The text is that of a whole number, or a minus and the text of its opposite. -/
def Denotes (n : Int) (text : String) : Prop :=
  WrittenLiteral (.number (.int n)) text ∨
    ∃ digits, text = "-" ++ digits ∧ WrittenLiteral (.number (.int (-n))) digits

theorem Number.isNegative_int (n : Int) : (Number.int n).isNegative = decide (n < 0) := by
  by_cases h : n < 0
  · simp [isNegative, lt, compare?, compare, compareOfLessAndEq, h]
  · simp [isNegative, lt, compare?, compare, compareOfLessAndEq, h]

theorem writtenLiteral_int {n : Int} (hn : n.natAbs ≤ Dyadic.greatest) (hnonneg : 0 ≤ n) :
    WrittenLiteral (.number (.int n)) (Number.int n).text := by
  refine writtenLiteral_number (Number.numberText_of_not_negative ((Number.isFinite_int n).2 hn) ?_ nofun)
  rw [Number.isNegative_int, decide_eq_false (by omega)]

/-- The text that a whole number has by itself denotes it. -/
theorem denotes_text {n : Int} (hn : n.natAbs ≤ Dyadic.greatest) : Denotes n (Number.int n).text := by
  cases n with
  | ofNat k => exact .inl (writtenLiteral_int hn (Int.natCast_nonneg k))
  | negSucc k =>
      exact .inr ⟨(Number.int (k + 1 : Nat)).text, rfl, writtenLiteral_int hn (Int.natCast_nonneg _)⟩

/-- The text of a literal does not start with a minus. -/
theorem startsWith_minus_of_written {value : Plain} {raw : String} (h : WrittenLiteral value raw) :
    raw.startsWith "-" = false := by
  have hstrength := Printer.strength_eq (e := .literal .blank value raw) (s := .outside) h
  rw [Bool.eq_false_iff]
  intro hstart
  simp only [Printer.strength, Printer.literalText_eq h, ok_bind, hstart] at hstrength
  cases hstrength

theorem startsWith_minus_append (digits : String) : ("-" ++ digits).startsWith "-" = true := by
  rw [String.startsWith_string_iff, String.toList_append]
  exact List.prefix_append _ _

namespace Node

/-! ### Trees that are printed alike -/

/-- The text that the literal of a whole number is printed as. -/
def wording (n : Int) (raw : String) : String := if raw.isEmpty then (Number.int n).text else raw

/-- The texts that the whole numbers in an expression came with denote them. -/
def Worded (e : Node) : Prop :=
  ∀ m n raw, .literal m (.number (.int n)) raw ∈ e.walk → raw = "" ∨ Denotes n raw

/-- The expression as its text will be read, with every whole number as a literal of its text and with a minus
in front of a number whose text starts with one. -/
def spelled : Node → Node
  | literal m (.number (.int n)) raw =>
    if (wording n raw).startsWith "-" then
      unary m .minus (literal m (.number (.int (-n))) (String.ofList (wording n raw).toList.tail))
    else literal m (.number (.int n)) (wording n raw)
  | unary m op e => unary m op (spelled e)
  | binary m op l r => binary m op (spelled l) (spelled r)
  | n => n

theorem denotes_wording {n : Int} {raw : String} (hn : n.natAbs ≤ Dyadic.greatest)
    (h : raw = "" ∨ Denotes n raw) : Denotes n (wording n raw) := by
  rcases h with rfl | h
  · exact denotes_text hn
  · have hne : raw.isEmpty = false := by
      rcases h with h | ⟨digits, rfl, -⟩
      · exact Printer.raw_ne_nil h
      · rw [Bool.eq_false_iff]
        intro hempty
        have hstart := startsWith_minus_append digits
        rw [String.isEmpty_iff.1 hempty] at hstart
        revert hstart
        decide
    rwa [wording, hne, if_neg Bool.false_ne_true]

theorem spelled_of_written {m : Mark} {n : Int} {raw : String}
    (h : WrittenLiteral (.number (.int n)) (wording n raw)) :
    (literal m (.number (.int n)) raw).spelled = literal m (.number (.int n)) (wording n raw) := by
  rw [spelled, startsWith_minus_of_written h, if_neg Bool.false_ne_true]

theorem spelled_of_minus {m : Mark} {n : Int} {raw digits : String} (h : wording n raw = "-" ++ digits) :
    (literal m (.number (.int n)) raw).spelled =
      unary m .minus (literal m (.number (.int (-n))) digits) := by
  have htail : String.ofList ("-" ++ digits).toList.tail = digits := by
    rw [String.toList_append]
    exact String.ofList_toList
  rw [spelled, h, startsWith_minus_append, if_pos rfl, htail]

theorem literalText_int (n : Int) (raw : String) :
    Printer.literalText (.number (.int n)) raw = .ok (wording n raw) := by
  unfold Printer.literalText wording
  split <;> rfl

theorem Worded.of_children {e c : Node} (h : e.Worded) (hc : c ∈ e.children) : c.Worded :=
  fun m n raw hmem => h m n raw (walk_subset_of_mem_children hc hmem)

/-- There is one way to lay out an expression of whole numbers. -/
theorem Whole.expression_eq {e : Node} (he : e.Whole) (style style' : Style) (level level' : Nat) :
    Printer.expression style level e = Printer.expression style' level' e := by
  induction he with
  | literal => rfl
  | minus _ ih => simp only [Printer.expression, ih]
  | binary _ _ _ ihl ihr => simp only [Printer.expression, ihl, ihr]

/-- The spelled expression can be written and is printed as the expression is, in every style. -/
theorem Whole.spelled_writable {e : Node} (he : e.Whole) (hworded : e.Worded) :
    e.spelled.Writable .expression .outside ∧ Printer.strength e = Printer.strength e.spelled ∧
      ∀ style level, Printer.expression style level e = Printer.expression style level e.spelled := by
  induction he with
  | @literal m n raw hn =>
      have htext := literalText_int n raw
      rcases denotes_wording hn (hworded m n raw (mem_walk _)) with h | ⟨digits, heq, h⟩
      · rw [spelled_of_written h]
        refine ⟨h, ?_, fun style level => ?_⟩
        · rw [Printer.strength, Printer.strength, htext, Printer.literalText_eq h]
        · rw [Printer.expression, Printer.expression, htext, Printer.literalText_eq h]
      · rw [spelled_of_minus heq]
        have hliteral : (Node.literal m (.number (.int (-n))) digits).Writable .expression .outside := h
        have hstrength : Printer.strength (.literal m (.number (.int n)) raw) = .ok Printer.signStrength := by
          rw [Printer.strength, htext, heq, ok_bind, startsWith_minus_append, if_pos rfl]
          rfl
        refine ⟨⟨⟨_, .minus⟩, hliteral⟩, hstrength, fun style level => ?_⟩
        · rw [Printer.expression, Printer.expression, htext, heq, Printer.strength_eq hliteral,
            Printer.expression, Printer.literalText_eq h]
          rfl
  | @minus m e he ih =>
      obtain ⟨hwritable, hstrength, htext⟩ := ih (hworded.of_children List.mem_cons_self)
      refine ⟨⟨⟨_, .minus⟩, hwritable⟩, rfl, fun style level => ?_⟩
      simp only [spelled, Printer.expression, hstrength, htext]
  | @binary m op l r hop hl hr ihl ihr =>
      obtain ⟨hwritablel, hstrengthl, htextl⟩ := ihl (hworded.of_children List.mem_cons_self)
      obtain ⟨hwritabler, hstrengthr, htextr⟩ :=
        ihr (hworded.of_children (List.mem_cons_of_mem _ List.mem_cons_self))
      refine ⟨⟨?_, hwritablel, hwritabler⟩, rfl, fun style level => ?_⟩
      · cases op with
        | div | other => cases hop
        | add => exact ⟨_, .inl .plus⟩
        | sub => exact ⟨_, .inl .minus⟩
        | mul => exact ⟨_, .inr .star⟩
        | rem => exact ⟨_, .inr .percent⟩
      · simp only [spelled, Printer.expression, hstrengthl, hstrengthr, htextl, htextr]

/-! ### What is read -/

/-- The second expression is the first up to marks and texts, where a number may have become a minus and its
opposite. -/
inductive ReadAs : Node → Node → Prop
  | literal {m m' : Mark} {n : Int} {raw raw' : String} :
      ReadAs (.literal m (.number (.int n)) raw) (.literal m' (.number (.int n)) raw')
  | opposite {m m' m'' : Mark} {n : Int} {raw raw' : String} :
      ReadAs (.literal m (.number (.int n)) raw)
        (.unary m' .minus (.literal m'' (.number (.int (-n))) raw'))
  | minus {m m' : Mark} {e x : Node} (h : ReadAs e x) :
      ReadAs (.unary m .minus e) (.unary m' .minus x)
  | binary {m m' : Mark} {op : BinaryOp} {l l' r r' : Node} (hl : ReadAs l l') (hr : ReadAs r r') :
      ReadAs (.binary m op l r) (.binary m' op l' r')

theorem exists_of_bare_literal {x : Node} {v : Plain} {raw : String} (h : x.bare = .literal .blank v raw) :
    ∃ m, x = .literal m v raw := by
  cases x <;> cases h
  exact ⟨_, rfl⟩

theorem exists_of_bare_unary {x e : Node} {op : UnaryOp} (h : x.bare = .unary .blank op e) :
    ∃ m y, x = .unary m op y ∧ y.bare = e := by
  cases x <;> cases h
  exact ⟨_, _, rfl, rfl⟩

theorem exists_of_bare_binary {x l r : Node} {op : BinaryOp} (h : x.bare = .binary .blank op l r) :
    ∃ m y z, x = .binary m op y z ∧ y.bare = l ∧ z.bare = r := by
  cases x <;> cases h
  exact ⟨_, _, _, rfl, rfl, rfl⟩

theorem readAs_of_bare_eq {e x : Node} (he : e.Whole) (h : x.bare = e.spelled.bare) :
    ReadAs e x := by
  induction he generalizing x with
  | @literal m n raw hn =>
      rw [spelled] at h
      split at h
      · obtain ⟨m', y, rfl, hy⟩ := exists_of_bare_unary h
        obtain ⟨m'', rfl⟩ := exists_of_bare_literal hy
        exact .opposite
      · obtain ⟨m', rfl⟩ := exists_of_bare_literal h
        exact .literal
  | @minus m e he ih =>
      obtain ⟨m', y, rfl, hy⟩ := exists_of_bare_unary h
      exact .minus (ih hy)
  | @binary m op l r hop hl hr ihl ihr =>
      obtain ⟨m', y, z, rfl, hy, hz⟩ := exists_of_bare_binary h
      exact .binary (ihl hy) (ihr hz)

namespace ReadAs

variable {e x : Node}

theorem whole (h : ReadAs e x) (he : e.Whole) : x.Whole := by
  induction h with
  | literal =>
      cases he with
      | literal hn => exact .literal hn
  | opposite =>
      cases he with
      | literal hn => exact .minus (.literal (by rwa [Int.natAbs_neg]))
  | minus h ih =>
      cases he with
      | minus he => exact .minus (ih he)
  | binary hl hr ihl ihr =>
      cases he with
      | binary hop hel her => exact .binary hop (ihl hel) (ihr her)

/-- Both amount to the same. -/
theorem amounts_iff (h : ReadAs e x) {v : Int} : e.Amounts v ↔ x.Amounts v := by
  induction h generalizing v with
  | literal =>
      constructor <;> rintro ⟨⟩ <;> exact .literal
  | @opposite m m' m'' n raw raw' =>
      constructor
      · rintro ⟨⟩
        have hopposite : (unary m' .minus (.literal m'' (.number (.int (-n))) raw')).Amounts (- -n) :=
          .minus .literal
        rwa [Int.neg_neg] at hopposite
      · rintro (_ | ⟨⟨⟩⟩)
        rw [Int.neg_neg]
        exact .literal
  | minus h ih =>
      constructor <;> rintro (_ | ⟨he⟩)
      · exact .minus (ih.1 he)
      · exact .minus (ih.2 he)
  | binary hl hr ihl ihr =>
      constructor
      · rintro (_ | _ | ⟨hel, her, hop⟩)
        exact .binary (ihl.1 hel) (ihr.1 her) hop
      · rintro (_ | _ | ⟨hel, her, hop⟩)
        exact .binary (ihl.2 hel) (ihr.2 her) hop

/-- The same is wrong with both. -/
theorem breaks_iff (h : ReadAs e x) (he : e.Whole) {what : Mismatch} :
    e.Breaks what ↔ x.Breaks what := by
  have hamounts := fun v => h.amounts_iff (v := v)
  cases h with
  | literal => constructor <;> rintro ⟨⟩
  | opposite =>
      cases he with
      | literal hn =>
          refine ⟨nofun, fun hbreaks => ?_⟩
          cases hbreaks with
          | minus h hlarge =>
              cases (hamounts _).2 h
              omega
  | minus h =>
      constructor <;> rintro (_ | ⟨h, hlarge⟩)
      · exact .minus ((hamounts _).1 h) hlarge
      · exact .minus ((hamounts _).2 h) hlarge
  | binary hl hr =>
      constructor
      · rintro (hzero | _ | ⟨h, hlarge⟩)
        · exact .modulus (hr.amounts_iff.1 hzero)
        · exact .binary ((hamounts _).1 h) hlarge
      · rintro (hzero | _ | ⟨h, hlarge⟩)
        · exact .modulus (hr.amounts_iff.2 hzero)
        · exact .binary ((hamounts _).2 h) hlarge

/-- Something is wrong in one if something is wrong in the other. -/
theorem sound_iff (h : ReadAs e x) (he : e.Whole) : e.Sound ↔ x.Sound := by
  have hself : ∀ what, e.Breaks what ↔ x.Breaks what := fun _ => h.breaks_iff he
  induction h with
  | literal => exact iff_of_true sound_literal sound_literal
  | opposite =>
      refine iff_of_true sound_literal ((sound_iff_of_append rfl).2 ⟨sound_literal, fun what h => ?_⟩)
      cases (hself what).2 h
  | minus h ih =>
      cases he with
      | minus he =>
          rw [sound_iff_of_append rfl, sound_iff_of_append rfl]
          exact and_congr (ih he fun what => h.breaks_iff he)
            (forall_congr' fun what => not_congr (hself what))
  | binary hl hr ihl ihr =>
      cases he with
      | binary hop hel her =>
          rw [sound_iff_of_append rfl, sound_iff_of_append rfl, List.forall_mem_append,
            List.forall_mem_append]
          exact and_congr (and_congr (ihl hel fun what => hl.breaks_iff hel)
            (ihr her fun what => hr.breaks_iff her)) (forall_congr' fun what => not_congr (hself what))

end ReadAs

/-- No expression of whole numbers has statements in it. -/
theorem Whole.statements_eq_nil {e : Node} (he : e.Whole) : ∀ n ∈ e.walk, n.statements = [] := by
  induction he with
  | literal => exact List.forall_mem_singleton.2 rfl
  | minus _ ih => exact List.forall_mem_cons.2 ⟨rfl, ih⟩
  | binary _ _ _ ihl ihr => exact List.forall_mem_cons.2 ⟨rfl, List.forall_mem_append.2 ⟨ihl, ihr⟩⟩

/-- The text of the expression keeps to the bounds of the parser, nesting and depth. -/
def KeepsBounds (e : Node) : Prop :=
  Printer.nesting true (.program .blank [.statement .blank e.spelled]) ≤ Parser.maxNesting ∧
    (Node.program .blank [.statement .blank e.spelled]).DepthWithin Parser.maxDepth

end Node

/-! ### Reading -/

/-- A script that can be written and in which statements are kept apart is read back from its text exactly if
it keeps to the bounds of the parser. -/
theorem parse_print_of_bounds {p : Node} (h : p.Writable .script .outside) (hparted : Node.Parted p.walk)
    {style : Style} {text : String} (htext : p.print style = .ok text) (file : Option String) :
    (Printer.nesting true p ≤ Parser.maxNesting ∧ p.DepthWithin Parser.maxDepth →
      ∃ q, parse text file = .ok q ∧ q.bare = p.bare) ∧
    (¬ (Printer.nesting true p ≤ Parser.maxNesting ∧ p.DepthWithin Parser.maxDepth) →
      NestedTooDeep (parse text file)) := by
  obtain ⟨ts, finish, body, htokens, hstatements, hbare⟩ :=
    exists_statements_of_print h hparted htext file
  have hsame : (Parser.joinStatements finish body).bare = p.bare := by
    rw [bare_joinStatements, hbare]
  refine ⟨fun ⟨hnesting, hdepth⟩ => ?_, fun hbounds => ?_⟩
  · refine ⟨(Parser.joinStatements finish body).withPaths, ?_, by rw [Node.bare_withPaths, hsame]⟩
    simp only [parse, htokens, ok_bind]
    rw [parseTokens_eq_ok_iff, Grammar.script_eq_ok_iff]
    exact ⟨_, _, Grammar.script_iff.2 ⟨body, hstatements, rfl⟩, hnesting, hdepth.of_bare_eq hsame, rfl⟩
  · by_cases hnesting : Printer.nesting true p ≤ Parser.maxNesting
    · rcases parse_print_of_parted h hparted htext file with hdeep | ⟨q, hq, hqbare⟩
      · exact hdeep
      · exact absurd ⟨hnesting, (bounds_of_parse hq).1.of_bare_eq hqbare.symm⟩ hbounds
    · simp only [parse, htokens, ok_bind]
      exact nestedTooDeep_of_lt hstatements (Nat.lt_of_not_le hnesting) _ "" finish

namespace Node

theorem Whole.print_eq {e : Node} (he : e.Whole) (style : Style) :
    e.print style = Printer.expression style 0 e := by
  cases he <;> rfl

/-- Without a line ending at the end, the text of a script of one expression is that of the expression. -/
theorem print_single {style : Style} {m m' : Mark} {e : Node} {text : String}
    (h : Printer.expression { style with finalNewline := false } 0 e = .ok text) :
    (Node.program m [.statement m' e]).print { style with finalNewline := false } = .ok text := by
  change Printer.script _ _ = _
  simp only [Printer.script, Printer.statements, Printer.statement, h, ok_bind, Printer.indent_zero,
    String.empty_append, Bool.not_false, Bool.or_true, if_true]
  rfl

theorem exists_of_bare_single {q e : Node} (h : q.bare = (program .blank [.statement .blank e]).bare) :
    ∃ m m' x, q = .program m [.statement m' x] ∧ x.bare = e.bare := by
  obtain ⟨m, body, rfl, hbody⟩ : ∃ m body, q = .program m body ∧
      bareAll body = [.statement .blank e.bare] := by
    cases q <;> simp only [bare, bareAll, program.injEq, reduceCtorEq] at h
    exact ⟨_, _, rfl, h.2⟩
  rw [bareAll_eq_map, List.map_eq_singleton_iff] at hbody
  obtain ⟨s, rfl, hs⟩ := hbody
  cases s <;> simp only [bare, statement.injEq, reduceCtorEq] at hs
  exact ⟨_, _, _, rfl, hs.2⟩

/-- A script of one expression of whole numbers, or the expression alone, is printed as a text that is read
as an expression spelled with signs, if it keeps to the bounds. -/
theorem Whole.parse_print {e : Node} (he : e.Whole) (hworded : e.Worded) {tree : Node}
    (htree : tree = e ∨ ∃ m m', tree = .program m [.statement m' e]) (style : Style) (file : Option String) :
    ∃ text, tree.print style = .ok text ∧
      (¬ e.KeepsBounds → NestedTooDeep (parse text file)) ∧
      (e.KeepsBounds → ∃ m m' x, parse text file = .ok (.program m [.statement m' x]) ∧
        ReadAs e x) := by
  obtain ⟨hwritable, -, hexpression⟩ := he.spelled_writable hworded
  have hscript : (Node.program .blank [.statement .blank e.spelled]).Writable .script .outside :=
    ⟨hwritable, trivial⟩
  have hparted : Node.Parted (Node.program .blank [.statement .blank e.spelled]).walk := by
    have hspelled := (readAs_of_bare_eq he rfl).whole he
    refine List.forall_mem_cons.2 ⟨nofun, List.forall_mem_cons.2 ⟨nofun, fun n hn => ?_⟩⟩
    have hn : n ∈ e.spelled.walk ++ [] := hn
    rw [List.append_nil] at hn
    rw [hspelled.statements_eq_nil n hn]
    nofun
  obtain ⟨text, style', htext, hprint⟩ : ∃ text style', tree.print style = .ok text ∧
      (Node.program .blank [.statement .blank e.spelled]).print style' = .ok text := by
    rcases htree with rfl | ⟨m, m', rfl⟩
    · obtain ⟨text, htext⟩ : ∃ text, Printer.expression style 0 tree = .ok text :=
        ⟨_, (hexpression style 0).trans (Printer.expression_eq style 0 _ _ hwritable)⟩
      refine ⟨text, { style with finalNewline := false }, ?_, ?_⟩
      · rw [he.print_eq, htext]
      · rw [he.expression_eq style { style with finalNewline := false } 0 0, hexpression] at htext
        exact print_single htext
    · refine ⟨_, style, ?_, Printer.print_eq hscript⟩
      rw [← Printer.print_eq hscript]
      change Printer.script style _ = Printer.script style _
      simp only [Printer.script, Printer.statements, Printer.statement, hexpression]
  obtain ⟨hback, hdeep⟩ := parse_print_of_bounds hscript hparted hprint file
  refine ⟨text, htext, hdeep, fun hbounds => ?_⟩
  obtain ⟨q, hq, hbare⟩ := hback hbounds
  obtain ⟨m, m', x, rfl, hx⟩ := exists_of_bare_single hbare
  exact ⟨m, m', x, hq, readAs_of_bare_eq he hx⟩

end Node

/-! ### Running -/

namespace Pass

/-- The run of a script of one expression ends as the evaluation of the expression does. -/
theorem run_single (p : Pass) (store : Store) (scope : Nat) {m m' : Mark} {x : Node}
    (hsteps : 1 ≤ p.limits.steps) {result : Except Stop Value} {w : World}
    (h : (evaluate p (p.call p.limits.calls) ⟨scope, none, p.limits.nesting⟩ x).run ⟨1, [], [], store⟩ =
      (result, w)) (hdeep : result ≠ .error .tooDeep) :
    (p.run store scope (.program m [.statement m' x])).result =
      (result.map some).mapError (Stop.failure (Text.linesOf p.code)) := by
  have hstep : (p.step m'.span).run ⟨0, [], [], store⟩ = (.ok (), ⟨1, [], [], store⟩) := by
    rw [run_step, if_neg (Nat.not_lt.2 hsteps)]
  have hexecute : (execute p (p.call p.limits.calls) ⟨scope, none, p.limits.nesting⟩
      (.statement m' x)).run ⟨0, [], [], store⟩ = (result.map some, w) := by
    unfold execute
    rw [Node.span, Node.mark, run_bind_ok _ hstep]
    cases result with
    | ok v => exact (run_bind_ok _ h).trans rfl
    | error stop => exact (run_bind_error _ h).trans rfl
  rw [run_program, runScript, outcome]
  cases result with
  | ok v =>
      rw [run_bind_ok _ (run_tryCatch_ok hexecute)]
      rfl
  | error stop =>
      cases stop with
      | tooDeep => exact absurd rfl hdeep
      | wrong cause span =>
          rw [run_bind_error _ ((run_tryCatch_error hexecute).trans rfl)]
          rfl
      | fault fault =>
          rw [run_bind_error _ ((run_tryCatch_error hexecute).trans rfl)]
          rfl

/-- Arithmetic on whole numbers is exact. An expression of whole numbers that a float can hold, of minuses,
sums, differences, products and remainders is printed, and if its text keeps to the bounds of the parser it is
read and run as follows, provided that there is a step for each of its nodes. If nothing is wrong with any
operation in it, the result is the whole number that it amounts to. Otherwise the run stops at the first
operation with which something is wrong, a remainder by zero or an amount that no float can hold. -/
theorem run_print_whole {e : Node} (he : e.Whole) (hworded : e.Worded) {tree : Node}
    (htree : tree = e ∨ ∃ m m', tree = .program m [.statement m' e]) (style : Style) (file : Option String) :
    ∃ text, tree.print style = .ok text ∧
      (¬ e.KeepsBounds → NestedTooDeep (parse text file)) ∧
      (e.KeepsBounds → ∃ m m' x, parse text file = .ok (.program m [.statement m' x]) ∧
        Node.ReadAs e x ∧
        ∀ (config : Config) (library : Library) (code : String) (store : Store) (scope : Nat),
          x.walk.length < config.maxSteps →
          (e.Sound → ∃ v, e.Amounts v ∧ v.natAbs ≤ Dyadic.greatest ∧
            ((under config library code).run store scope (.program m [.statement m' x])).result =
              .ok (some ⟨.number (.int v), [x.mark.origin]⟩)) ∧
          (¬ e.Sound → ∃ n what d, x.BreaksFirst n what ∧
            ((under config library code).run store scope (.program m [.statement m' x])).result =
              .error (.diagnostic d) ∧ d.cause = .mismatch what ∧ d.span = n.span)) := by
  obtain ⟨text, htext, hdeep, hback⟩ := he.parse_print hworded htree style file
  refine ⟨text, htext, hdeep, fun hbounds => ?_⟩
  obtain ⟨m, m', x, hparse, hx⟩ := hback hbounds
  refine ⟨m, m', x, hparse, hx, fun config library code store scope hsteps => ?_⟩
  have hdepth : x.overdeep Config.nestingLimit = none := by
    have hdepth := (bounds_of_parse hparse).1.of_mem_walk
      (List.mem_cons_of_mem _ (List.mem_cons_of_mem _ (List.mem_append_left _ (Node.mem_walk x))))
    exact Node.overdeep_eq_none_iff.2 (hdepth.mono (by decide))
  have hroom : HasRoom ⟨scope, none, (under config library code).limits.nesting⟩ x := by
    rintro k ⟨⟩
    exact hdepth
  have hcomes := evaluate_whole (under config library code)
    ((under config library code).call (under config library code).limits.calls) (hx.whole he)
    (f := ⟨scope, none, (under config library code).limits.nesting⟩) (w := ⟨1, [], [], store⟩) hroom
    (by rw [Nat.add_comm]; exact hsteps)
  have hone : 1 ≤ (under config library code).limits.steps := Nat.one_le_of_lt hsteps
  rcases hcomes with ⟨v, hv, hrange, hsound, hrun⟩ | ⟨n, what, w', hfirst, hrun⟩
  · refine ⟨fun _ => ⟨v, hx.amounts_iff.2 hv, hrange, ?_⟩, fun hbroken => ?_⟩
    · rw [run_single _ store scope hone hrun nofun]
      rfl
    · exact absurd ((hx.sound_iff he).2 hsound) hbroken
  · refine ⟨fun hsound => ?_, fun _ => ⟨n, what, .quoting (Text.linesOf code) (.mismatch what) n.span,
      hfirst, ?_, rfl, rfl⟩⟩
    · obtain ⟨hbreaks, before, after, heq, -⟩ := hfirst
      exact absurd hbreaks ((hx.sound_iff he).1 hsound n (by simp [heq]) what)
    · rw [run_single _ store scope hone hrun nofun]
      rfl

/-- Beyond the integers that floats tell apart, the remainder of a number below zero is below zero. A remainder
by a difference that is zero is refused. -/
theorem run_print_whole_remainder :
    (∃ (e script : Node) (text : String) (config : Config) (store : Store) (trail : List Origin),
      e = .binary .blank .rem (.literal .blank (.number (.int (-9007199254740993))) "")
        (.literal .blank (.number (.int 2)) "") ∧
      e.Whole ∧ e.Worded ∧ e.KeepsBounds ∧ e.Sound ∧ e.print .standard = .ok text ∧
      parse text none = .ok script ∧
      ((under config .standard text).run store 0 script).result = .ok (some ⟨.number (.int (-1)), trail⟩)) ∧
    ∃ (e script : Node) (text : String) (config : Config) (store : Store) (d : Diagnostic),
      e = .binary .blank .rem (.literal .blank (.number (.int 1)) "") (.binary .blank .sub
        (.literal .blank (.number (.int 2)) "") (.literal .blank (.number (.int 2)) "")) ∧
      e.Whole ∧ e.Worded ∧ e.KeepsBounds ∧ ¬ e.Sound ∧ e.print .standard = .ok text ∧
      parse text none = .ok script ∧
      ((under config .standard text).run store 0 script).result = .error (.diagnostic d) ∧
      d.cause.code = "E304" := by
  have hrange (n : Int) (hn : n.natAbs ≤ 9007199254740993) : n.natAbs ≤ Dyadic.greatest :=
    Nat.le_trans hn (by decide +kernel)
  have hliteral (n : Int) (hn : n.natAbs ≤ 9007199254740993) :
      (Node.literal .blank (.number (.int n)) "").Whole := .literal (hrange n hn)
  constructor
  · obtain ⟨e, heq⟩ : ∃ e : Node, e = .binary .blank .rem
        (.literal .blank (.number (.int (-9007199254740993))) "")
        (.literal .blank (.number (.int 2)) "") := ⟨_, rfl⟩
    have hwhole : e.Whole := by
      rw [heq]
      exact .binary rfl (hliteral _ (by decide)) (hliteral 2 (by decide))
    have hworded : e.Worded := by
      rw [heq]
      intro m n raw hmem
      simp only [Node.walk, List.cons_append, List.nil_append, List.mem_cons, Node.literal.injEq,
        reduceCtorEq, List.not_mem_nil, false_or, or_false] at hmem
      rcases hmem with ⟨-, -, rfl⟩ | ⟨-, -, rfl⟩ <;> exact .inl rfl
    have hbounds : e.KeepsBounds := by
      rw [heq]
      exact ⟨by decide +kernel, Node.overdeep_eq_none_iff.1 (by decide +kernel)⟩
    have hremainder : IsRemainder (-9007199254740993) 2 (-1) :=
      ⟨⟨-4503599627370496, by decide⟩, by decide, .inr (by decide)⟩
    have hamounts : e.Amounts (-1) := by
      rw [heq]
      exact .binary .literal .literal (.rem hremainder)
    have hsound : e.Sound := by
      rw [heq]
      refine (Node.sound_iff_of_append rfl).2 ⟨?_, not_breaks_binary .literal .literal (.rem hremainder)
        (hrange _ (by decide))⟩
      exact List.forall_mem_append.2 ⟨Node.sound_literal, Node.sound_literal⟩
    obtain ⟨text, htext, -, hback⟩ := run_print_whole hwhole hworded (.inl rfl) .standard none
    obtain ⟨m, m', x, hparse, -, hrun⟩ := hback hbounds
    obtain ⟨v, hv, -, hresult⟩ := (hrun { Config.standard with maxSteps := x.walk.length + 1 } .standard
      text ⟨#[⟨none, "root", []⟩]⟩ 0 (Nat.lt_succ_self _)).1 hsound
    obtain rfl := hv.unique hamounts
    exact ⟨e, _, text, _, _, _, heq, hwhole, hworded, hbounds, hsound, htext, hparse, hresult⟩
  · obtain ⟨e, heq⟩ : ∃ e : Node, e = .binary .blank .rem (.literal .blank (.number (.int 1)) "")
        (.binary .blank .sub (.literal .blank (.number (.int 2)) "")
          (.literal .blank (.number (.int 2)) "")) := ⟨_, rfl⟩
    have hwhole : e.Whole := by
      rw [heq]
      exact .binary rfl (hliteral 1 (by decide))
        (.binary rfl (hliteral 2 (by decide)) (hliteral 2 (by decide)))
    have hworded : e.Worded := by
      rw [heq]
      intro m n raw hmem
      simp only [Node.walk, List.cons_append, List.nil_append, List.mem_cons, Node.literal.injEq,
        reduceCtorEq, List.not_mem_nil, false_or, or_false] at hmem
      rcases hmem with ⟨-, -, rfl⟩ | ⟨-, -, rfl⟩ | ⟨-, -, rfl⟩ <;> exact .inl rfl
    have hbounds : e.KeepsBounds := by
      rw [heq]
      exact ⟨by decide +kernel, Node.overdeep_eq_none_iff.1 (by decide +kernel)⟩
    have hbroken : ¬ e.Sound := by
      intro hsound
      have hzero : (Node.binary .blank .sub (.literal .blank (.number (.int 2)) "")
          (.literal .blank (.number (.int 2)) "")).Amounts (2 - 2) := .binary .literal .literal .sub
      rw [heq] at hsound
      exact hsound _ (List.mem_append_right _ (.head _)) .zeroModulus (.modulus hzero)
    obtain ⟨text, htext, -, hback⟩ := run_print_whole hwhole hworded (.inl rfl) .standard none
    obtain ⟨m, m', x, hparse, -, hrun⟩ := hback hbounds
    obtain ⟨n, what, d, -, hresult, hcause, -⟩ := (hrun
      { Config.standard with maxSteps := x.walk.length + 1 } .standard text ⟨#[⟨none, "root", []⟩]⟩ 0
      (Nat.lt_succ_self _)).2 hbroken
    exact ⟨e, _, text, _, _, d, heq, hwhole, hworded, hbounds, hbroken, htext, hparse, hresult,
      hcause ▸ rfl⟩

end Pass

end PartScript
