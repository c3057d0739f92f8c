import PartScript.Proofs.Grammar.Excerpt
import PartScript.Proofs.Grammar.Lineation
import PartScript.Proofs.Text.Lines
import PartScript.Proofs.Token.Excerpt
import PartScript.Proofs.Token.Piece

/-!
The range of an expression is its text. The piece of a script in the range of any expression, read as a script
of its own, is that expression, as long as the expression does not use the value of a pipe around it.

The tokens of the piece are the tokens of the expression, as far apart as they were, so that every parenthesis
and bracket is on the same line as before or on another one. They are a whole expression of the grammar, which
is not nested deeper by itself than it was in the script, and the tree has fewer levels.
-/

namespace PartScript

namespace Lexer

open PartScript.Parser (InStep)

/-! ### Tokens of a piece -/

/-- The first of several tokens, and how it was scanned. -/
theorem Reading.exists_of_tokens_cons {r : Reading} {fuel : Nat} {p : Position} {text : List Char}
    {t : Token} {more : List Token} (h : r.tokens fuel p text = .ok (t :: more)) (hmore : more ≠ []) :
    ∃ n gap word rest kind, fuel = n + 1 ∧ FirstToken r.limit text gap word rest kind ∧
      t = ⟨kind, String.ofList word, ⟨p.after gap, (p.after gap).after word, r.file⟩⟩ ∧
      r.tokens n ((p.after gap).after word) rest = .ok more := by
  cases fuel with
  | zero =>
      cases h
      exact absurd rfl hmore
  | succ n =>
      rcases tokens_succ_cases h with ⟨-, hall⟩ | ⟨gap, word, rest, kind, others, hfirst, hall, hothers⟩
      · exact absurd (List.cons.inj hall).2 hmore
      · obtain ⟨rfl, rfl⟩ := List.cons.inj hall
        exact ⟨n, gap, word, rest, kind, rfl, hfirst, rfl, hothers⟩

/-- Tokens behind the first ones are those of a text that starts where these end. -/
theorem Reading.exists_of_tokens_append {r : Reading} {fuel : Nat} {p : Position} {text : List Char}
    {front more : List Token} (h : r.tokens fuel p text = .ok (front ++ more)) (hmore : more ≠ []) :
    ∃ n before rest, text = before ++ rest ∧ r.tokens n (p.after before) rest = .ok more := by
  induction front generalizing fuel p text with
  | nil => exact ⟨fuel, [], text, rfl, h⟩
  | cons t front ih =>
      obtain ⟨n, gap, word, rest, kind, -, hfirst, -, hrest⟩ :=
        exists_of_tokens_cons h (List.append_ne_nil_of_right_ne_nil front hmore)
      obtain rfl := hfirst.text_eq
      rw [← Position.after_append] at hrest
      obtain ⟨n, before, left, rfl, hleft⟩ := ih hrest
      refine ⟨n, gap ++ word ++ before, left, by simp, ?_⟩
      rw [Position.after_append]
      exact hleft

/-- The first token of a text may be taken for the start of the text. -/
theorem Reading.exists_of_tokens_start {r : Reading} {fuel : Nat} {p : Position} {text : List Char}
    {t : Token} {more : List Token} (h : r.tokens fuel p text = .ok (t :: more)) (hmore : more ≠ []) :
    ∃ gap here, text = gap ++ here ∧ t.span.start = p.after gap ∧
      r.tokens fuel t.span.start here = .ok (t :: more) := by
  obtain ⟨n, gap, word, rest, kind, rfl, hfirst, rfl, hrest⟩ := exists_of_tokens_cons h hmore
  exact ⟨gap, word ++ rest, hfirst.text_eq, rfl,
    tokens_step [] (skip_skip hfirst.skip) hfirst.lexeme.ne_nil hfirst.scan hrest⟩

/-- Where tokens end that stand behind a position. -/
def behind (p : Position) : List Token → Position
  | [] => p
  | t :: ts => behind t.span.stop ts

theorem behind_concat (p : Position) (ts : List Token) (t : Token) :
    behind p (ts ++ [t]) = t.span.stop := by
  induction ts generalizing p with
  | nil => rfl
  | cons u ts ih => exact ih u.span.stop

/-- A text can be cut where some of its first tokens end, and the front has these tokens, wherever it is
read. -/
theorem Reading.exists_excerpt {r : Reading} {fuel : Nat} {p : Position} {text : List Char}
    {ts more : List Token} (h : r.tokens fuel p text = .ok (ts ++ more)) (hmore : more ≠ []) :
    ∃ cs after, text = cs ++ after ∧ (behind p ts).offset = p.offset + cs.length ∧
      ∀ (r' : Reading) q fuel', r'.limit = r.limit → cs.length < fuel' →
        ∃ us finish, r'.tokens fuel' q cs = .ok (us ++ [⟨.finish, "", finish⟩]) ∧ InStep p q ts us := by
  induction ts generalizing fuel p text with
  | nil =>
      refine ⟨[], text, rfl, rfl, fun r' q fuel' _ hfuel => ?_⟩
      obtain ⟨n, rfl⟩ := Nat.exists_eq_add_of_lt hfuel
      exact ⟨[], _, rfl, .nil⟩
  | cons t ts ih =>
      obtain ⟨n, gap, word, rest, kind, -, hfirst, rfl, hrest⟩ :=
        exists_of_tokens_cons h (List.append_ne_nil_of_right_ne_nil ts hmore)
      obtain rfl := hfirst.text_eq
      have hword := hfirst.lexeme.ne_nil
      obtain ⟨cs, after, rfl, hoffset, hcs⟩ := ih hrest
      refine ⟨gap ++ (word ++ cs), after, by simp, ?_, fun r' q fuel' hlimit hfuel => ?_⟩
      · rw [behind, hoffset, Position.offset_after, Position.offset_after]
        simp only [List.length_append]
        omega
      · have hpos := List.length_pos_iff.2 hword
        simp only [List.length_append] at hfuel
        obtain ⟨n', rfl⟩ := Nat.exists_eq_succ_of_ne_zero (show fuel' ≠ 0 by omega)
        have hskip' : skip .between (gap ++ (word ++ cs)) = .ok (word ++ cs) :=
          skip_cut hfirst.skip .between (show _ = gap ++ (word ++ cs) ++ after by simp)
            (List.append_assoc word cs after).symm (by simp [hword])
        have hscan' : scanToken r'.limit (word ++ cs) = .ok (kind, cs) := by
          have hscan := hfirst.scan
          rw [← List.append_assoc] at hscan
          rw [hlimit]
          exact scanToken_cut (by simp [hword]) hscan
        obtain ⟨us, finish, hus, hstep⟩ :=
          hcs r' ((q.after gap).after word) n' hlimit (by omega)
        refine ⟨_ :: us, finish, tokens_step gap hskip' hword hscan' hus, .cons (fun _ => ?_) hstep⟩
        exact Position.line_eq_line_after_iff p q gap

end Lexer

open PartScript.Parser (InStep)

/-- The text of some tokens of a script, read by itself, has the tokens that they are. -/
theorem exists_tokenize_slice {source : String} {file : Option String} {front ts more : List Token}
    {t : Token} (h : tokenize source file = .ok (front ++ (t :: ts ++ more))) (hmore : more ≠ [])
    (file' : Option String) :
    ∃ us finish p q,
      tokenize (String.ofList (Range.slice ⟨t.span.start.offset, (Lexer.behind t.span.stop ts).offset⟩
        source.toList)) file' = .ok (us ++ [⟨.finish, "", finish⟩]) ∧ InStep p q (t :: ts) us := by
  obtain ⟨n, before, rest, htext, hrest⟩ := Lexer.Reading.exists_of_tokens_append h (by simp)
  obtain ⟨gap, here, rfl, hstart, hhere⟩ :=
    Lexer.Reading.exists_of_tokens_start hrest (List.append_ne_nil_of_right_ne_nil ts hmore)
  obtain ⟨cs, after, rfl, hstop, hcs⟩ :=
    Lexer.Reading.exists_excerpt (show _ = Except.ok ((t :: ts) ++ more) from hhere) hmore
  have hslice : Range.slice ⟨t.span.start.offset, (Lexer.behind t.span.stop ts).offset⟩
      source.toList = cs := by
    have hfirst : t.span.start.offset = (before ++ gap).length := by
      rw [hstart, ← Position.after_append, Position.offset_after_first]
    have hlast : (Lexer.behind t.span.stop ts).offset = (before ++ gap ++ cs).length := by
      rw [List.length_append, ← hfirst]
      exact hstop
    rw [hfirst, hlast, htext, ← List.append_assoc, Range.slice_append]
  rw [hslice]
  obtain ⟨us, finish, hus, hstep⟩ := hcs ⟨file', Text.linesOf (String.ofList cs), some Number.maxDigits⟩
    .first (cs.length + 1) rfl (Nat.lt_succ_self _)
  refine ⟨us, finish, _, _, ?_, hstep⟩
  rw [tokenize, tokenizeWith, String.toList_ofList]
  exact hus

/-! ### Trees -/

namespace Node

theorem depthWithin_succ_iff {limit : Nat} {n : Node} :
    n.DepthWithin (limit + 1) ↔ ∀ c ∈ n.children, c.DepthWithin limit := by
  rw [← overdeep_eq_none_iff, overdeep_succ_eq_none]
  simp only [overdeep_eq_none_iff]

theorem DepthWithin.mono {limit limit' : Nat} {n : Node} (h : n.DepthWithin limit)
    (hle : limit ≤ limit') : n.DepthWithin limit' :=
  fun path m hm => Nat.le_trans (h path m hm) hle

theorem DepthWithin.of_mem_walk {limit : Nat} {n m : Node} (h : n.DepthWithin limit)
    (hm : m ∈ n.walk) : m.DepthWithin limit := by
  rw [walk_eq_cons] at hm
  rcases List.mem_cons.1 hm with rfl | hm
  · exact h
  · obtain ⟨c, hc, hm⟩ := List.mem_flatMap.1 hm
    have hlt := length_walk_lt hc
    cases limit with
    | zero =>
        obtain ⟨k, hk⟩ := exists_child?_of_mem hc
        exact absurd (h [k] c (descend?_cons.2 ⟨c, hk, rfl⟩)) (by simp)
    | succ limit => exact ((depthWithin_succ_iff.1 h c hc).of_mem_walk hm).mono (Nat.le_succ limit)
termination_by n.walk.length

/-- Every node of a tree that is given paths is a node of the tree with a path. -/
theorem exists_of_mem_walk_place {n m : Node} {path : List Nat} (h : m ∈ (n.place path).walk) :
    ∃ k ∈ n.walk, ∃ below, m = k.place below := by
  rw [walk_eq_cons] at h
  rcases List.mem_cons.1 h with rfl | h
  · exact ⟨n, mem_walk n, path, rfl⟩
  · obtain ⟨c, hc, hm⟩ := List.mem_flatMap.1 h
    obtain ⟨child, hchild, below, rfl⟩ := exists_of_mem_children_place hc
    have hlt := length_walk_lt hchild
    obtain ⟨k, hk, hplaced⟩ := exists_of_mem_walk_place hm
    exact ⟨k, walk_subset_of_mem_children hchild hk, hplaced⟩
termination_by n.walk.length

/-- Without marks a script of one expression is known from any other script. -/
theorem exists_of_bare_program_eq {m m' : Mark} {e n : Node}
    (h : (program m [statement m' e]).bare = n.bare) :
    ∃ k k' e', n = program k [statement k' e'] ∧ e.bare = e'.bare := by
  cases n with
  | program k body =>
      have hbody := (program.inj h).2
      rw [bareAll_eq_map body] at hbody
      obtain ⟨x, rfl, hx⟩ := List.map_eq_singleton_iff.1 hbody.symm
      cases x with
      | statement k' e' => exact ⟨k, k', e', rfl, (statement.inj hx).2.symm⟩
      | _ => cases hx
  | _ => cases h

end Node

/-! ### Expressions of a script -/

open Grammar (Expression)

/-- What tells nodes that are expressions apart from their children of other sorts. -/
theorem Grammar.Statement.isExpression {s : Parser.Setting} {n : Nat} {ts rest : List Token} {e : Node}
    (h : Grammar.Statement s n ts e rest) : e.isExpression = false := by
  cases h <;> rfl

theorem Grammar.Statements.isExpression {n : Nat} {ts : List Token} {es : List Node}
    (h : Grammar.Statements n ts es) : ∀ e ∈ es, e.isExpression = false := by
  induction h with
  | nil => exact nofun
  | cons h _ ih => exact List.forall_mem_cons.2 ⟨h.isExpression, ih⟩

/-- An expression is at least two levels below a script. -/
theorem Grammar.Script.depthWithin {finish : Span} {n limit : Nat} {ts : List Token} {tree e : Node}
    (h : Grammar.Script finish n ts tree) (hdepth : tree.DepthWithin (limit + 2)) (he : e ∈ tree.walk)
    (hexpression : e.isExpression = true) : e.DepthWithin limit := by
  have hnot : ∀ m ∈ tree :: tree.children, m.isExpression = false := by
    cases h with
    | empty => exact List.forall_mem_cons.2 ⟨rfl, nofun⟩
    | body h => exact List.forall_mem_cons.2 ⟨rfl, h.isExpression⟩
  obtain ⟨htree, hchildren⟩ := List.forall_mem_cons.1 hnot
  -- The expression is neither the script nor a statement of it, so it is below a statement.
  rw [Node.walk_eq_cons] at he
  rcases List.mem_cons.1 he with rfl | he
  · rw [htree] at hexpression
    cases hexpression
  obtain ⟨c, hc, he⟩ := List.mem_flatMap.1 he
  rw [Node.walk_eq_cons] at he
  rcases List.mem_cons.1 he with rfl | he
  · rw [hchildren e hc] at hexpression
    cases hexpression
  obtain ⟨d, hd, he⟩ := List.mem_flatMap.1 he
  have hc := Node.depthWithin_succ_iff.1 hdepth c hc
  exact (Node.depthWithin_succ_iff.1 hc d hd).of_mem_walk he

/-- A piece of the tokens that is an expression by itself is read as a script of one statement, whatever
surrounded it. -/
theorem parse_of_expression {source : String} {file : Option String} {us ts : List Token} {finish : Span}
    {p q : Position} {n : Nat} {e : Node} (h : Expression ⟨false, false⟩ n us e [])
    (hn : n ≤ Parser.maxNesting) (hdepth : e.DepthWithin 198)
    (htokens : tokenize source file = .ok (ts ++ [⟨.finish, "", finish⟩]))
    (hstep : InStep p q us ts) :
    ∃ m m' e', parse source file = .ok (.program m [.statement m' e']) ∧ e.bare = e'.bare := by
  have hscript : Grammar.Script finish (max n 0) us
      (.program (.at (e.span.upTo e.span)) [.statement (.at e.span) e]) :=
    .body (.cons (.expression h) .nil)
  have hdeep : (Node.program (.at (e.span.upTo e.span)) [.statement (.at e.span) e]).DepthWithin
      Parser.maxDepth :=
    Node.depthWithin_succ_iff.2 (List.forall_mem_singleton.2
      (Node.depthWithin_succ_iff.2 (List.forall_mem_singleton.2 hdepth)))
  have hread := Grammar.script_eq_ok_iff.2 ⟨_, _, hscript, by omega, hdeep, rfl⟩
  have hmatches := Parser.script_matches finish finish hstep
  rw [hread] at hmatches
  generalize hscan : Parser.script finish ts = result at hmatches
  cases hmatches with
  | ok hbare =>
      obtain ⟨m, m', e', rfl, he⟩ := Node.exists_of_bare_program_eq
        ((Node.bare_withPaths _).symm.trans hbare.1)
      refine ⟨m, m', e', ?_, he⟩
      rw [parse_eq_mapError htokens, hscan, mapError_ok]

/-- The text in the range of an expression of a script is read as one statement, which is an expression that
is alike. This is so for every expression, names included, that uses the value of a stage only in a pipe
of its own. -/
theorem parse_slice_range {source : String} {file : Option String} {script e : Node}
    (h : parse source file = .ok script) (he : e ∈ script.walk) (hexpression : e.isExpression = true)
    (henclosed : e.enclosed false = true) (file' : Option String) :
    ∃ m m' e', parse (String.ofList (e.range.slice source.toList)) file' =
        .ok (.program m [.statement m' e']) ∧ e.alike e' = true := by
  obtain ⟨tokens, htokens, htree⟩ := bind_eq_ok h
  obtain ⟨ts, finish, rfl⟩ := tokenize_eq_ok htokens
  obtain ⟨n, bare, hscript, hn, hdepth, rfl⟩ :=
    Grammar.script_eq_ok_iff.1 (parseTokens_eq_ok_iff.1 htree)
  obtain ⟨e, hmem, path, rfl⟩ := Node.exists_of_mem_walk_place he
  rw [Node.isExpression_place] at hexpression
  rw [Node.enclosed_place] at henclosed
  rw [Node.range_place]
  -- The expression has tokens of its own.
  obtain ⟨s, k, us, ⟨front, back, rfl⟩, hk, hphrase⟩ := hscript.allStand e hmem hexpression
  obtain ⟨t, us, rfl, hstart⟩ := hphrase.begins
  have hstop : Lexer.behind t.span.stop us = e.span.stop := by
    obtain ⟨front, p, heq, hp⟩ := hphrase.ends
    rw [hp, ← Lexer.behind_concat t.span.start front p, ← heq]
    rfl
  -- They are the tokens of the text in its range.
  have hrange : e.range = ⟨t.span.start.offset, (Lexer.behind t.span.stop us).offset⟩ := by
    rw [hstop, ← hstart]
    rfl
  have hthere : front ++ (t :: us) ++ back ++ [(⟨.finish, "", finish⟩ : Token)] =
      front ++ (t :: us ++ (back ++ [⟨.finish, "", finish⟩])) := by simp
  rw [hthere] at htokens
  obtain ⟨vs, finish', p, q, hvs, hstep⟩ := exists_tokenize_slice htokens (by simp) file'
  rw [← hrange] at hvs
  obtain ⟨m, m', e', hparse, hbare⟩ :=
    parse_of_expression (hphrase.elsewhere ⟨false, false⟩ henclosed) (Nat.le_trans hk hn)
      (hscript.depthWithin hdepth hmem hexpression) hvs hstep
  have hwritable : e'.Writable .expression .outside := by
    have hprogram := writable_of_parse hparse
    simp only [Node.Writable, Node.WritableAll] at hprogram
    exact hprogram.1
  have hsame : (e.place path).bare = e'.bare := by rw [Node.bare_place, hbare]
  exact ⟨m, m', e', hparse, (Node.alike_iff (hwritable.of_bare_eq hsame) hwritable).2 hsame⟩

/-- A sum is read back from the text of its range, which includes the parentheses around it and a comment, and
stands in a stage of a pipe. -/
theorem parse_slice_range_parens :
    ∃ source script e m m' e', source = "f(1) |> g(%, (a // one\n  + 2) * b)" ∧
      parse source none = .ok script ∧ e ∈ script.walk ∧ e.isExpression = true ∧
      e.enclosed false = true ∧
      String.ofList (e.range.slice source.toList) = "(a // one\n  + 2)" ∧
      parse "(a // one\n  + 2)" none = .ok (.program m [.statement m' e']) ∧ e.alike e' = true := by
  obtain ⟨source, hsource⟩ : ∃ source, source = "f(1) |> g(%, (a // one\n  + 2) * b)" := ⟨_, rfl⟩
  have hchecked : ((parse source none).toOption.any fun script => script.walk.any fun e =>
      e.isExpression && e.enclosed false &&
        decide (String.ofList (e.range.slice source.toList) = "(a // one\n  + 2)")) = true := by
    rw [hsource]
    decide +kernel
  obtain ⟨script, hscript, hchecked⟩ := exists_of_any_toOption hchecked
  obtain ⟨e, he, hchecked⟩ := List.any_eq_true.1 hchecked
  simp only [Bool.and_eq_true, decide_eq_true_eq] at hchecked
  obtain ⟨⟨hexpression, henclosed⟩, htext⟩ := hchecked
  obtain ⟨m, m', e', hparse, halike⟩ := parse_slice_range hscript he hexpression henclosed none
  rw [htext] at hparse
  exact ⟨source, script, e, m, m', e', hsource, hscript, he, hexpression, henclosed, htext, hparse, halike⟩

end PartScript
