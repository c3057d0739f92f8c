import PartScript.Proofs.Node.RoundTrip

/-!
Printed scripts are read again as long as they are not nested too deep. The depth of a tree does not depend on
its text, but the nesting does: parentheses that are printed and could be left out may take a script over the
bound that its own text kept to. They stand around functions and around numbers with a member, and a script
without such parts is always read again, provided that its statements are kept apart.
-/

namespace PartScript

/-! ### Depth -/

namespace Node

theorem children_bare (n : Node) : n.bare.children = n.children.map bare := by
  cases n <;> simp [bare, children, bareAll_eq_map, Function.comp_def]

theorem overdeep_bare {room : Nat} {n : Node} : overdeep room n.bare = none ↔ overdeep room n = none := by
  induction room generalizing n with
  | zero => simp [overdeep]
  | succ room ih =>
      rw [overdeep_succ_eq_none, overdeep_succ_eq_none, children_bare]
      simp only [List.forall_mem_map, ih]

/-- The depth of a tree does not depend on marks. -/
theorem DepthWithin.of_bare_eq {limit : Nat} {n m : Node} (h : n.DepthWithin limit)
    (heq : m.bare = n.bare) : m.DepthWithin limit := by
  rw [← overdeep_eq_none_iff, ← overdeep_bare] at h ⊢
  rw [heq]
  exact h

end Node

/-! ### Nesting -/

/-- A script that was read keeps to both bounds: its tree is not too deep, and with the parentheses that no
text can do without it is not nested too deep. -/
theorem bounds_of_parse {source : String} {file : Option String} {script : Node}
    (h : parse source file = .ok script) :
    script.DepthWithin Parser.maxDepth ∧ Printer.nesting false script ≤ Parser.maxNesting := by
  obtain ⟨tokens, htokens, htree⟩ := bind_eq_ok h
  obtain ⟨ts, finish, rfl⟩ := tokenize_eq_ok htokens
  obtain ⟨n, tree, hscript, hn, hdepth, rfl⟩ :=
    Grammar.script_eq_ok_iff.1 (parseTokens_eq_ok_iff.1 htree)
  refine ⟨hdepth.of_bare_eq (Node.bare_withPaths tree), ?_⟩
  obtain ⟨body, hstatements, rfl⟩ := Grammar.script_iff.1 hscript
  have hbare : (Parser.joinStatements finish body).withPaths.bare =
      (Node.program .blank body).bare := by
    rw [Node.bare_withPaths, bare_joinStatements]
    rfl
  rw [Printer.nesting_of_bare_eq hbare, Printer.nesting]
  exact Nat.le_trans hstatements.nesting_le hn

/-- A script that was read, and whose statements are kept apart when it is printed, is read back from its
text, in every style, exactly if it is not nested too deep with all parentheses that are printed; otherwise
the text is refused for that reason. No script is too deep by this in which no function is an operand, the
target of a member or the start of a pipe and no number has a member. -/
theorem parse_print_iff_nesting {source : String} {file : Option String} {script : Node}
    (hscript : parse source file = .ok script) (hparted : Node.Parted script.walk) (style : Style)
    (file' : Option String) :
    ∃ text, script.print style = .ok text ∧
      (Printer.nesting true script ≤ Parser.maxNesting →
        ∃ q, parse text file' = .ok q ∧ script.alike q = true) ∧
      (Parser.maxNesting < Printer.nesting true script → NestedTooDeep (parse text file')) ∧
      ((∀ n ∈ script.walk, Printer.overwraps n = false) →
        Printer.nesting true script ≤ Parser.maxNesting) := by
  have hwritable := writable_of_parse hscript
  obtain ⟨hdepth, hnesting⟩ := bounds_of_parse hscript
  obtain ⟨text, htext⟩ : ∃ text, script.print style = .ok text := by
    obtain ⟨m, body, rfl, -⟩ := exists_program hwritable
    exact ⟨_, Printer.print_eq hwritable⟩
  obtain ⟨ts, finish, body, htokens, hstatements, hbare⟩ :=
    exists_statements_of_print hwritable hparted htext file'
  have hparse : parse text file' =
      parseTokens (Text.linesOf text) (ts ++ [⟨.finish, "", finish⟩]) := by
    simp only [parse, htokens, ok_bind]
  refine ⟨text, htext, fun hle => ?_, fun hlt => ?_, fun hplain => ?_⟩
  · have hsame : (Parser.joinStatements finish body).bare = script.bare := by
      rw [bare_joinStatements, hbare]
    have hq : parse text file' = .ok (Parser.joinStatements finish body).withPaths := by
      rw [hparse, parseTokens_eq_ok_iff, Grammar.script_eq_ok_iff]
      exact ⟨_, _, Grammar.script_iff.2 ⟨body, hstatements, rfl⟩, hle, hdepth.of_bare_eq hsame, rfl⟩
    refine ⟨_, hq, (Node.alike_iff hwritable (writable_of_parse hq)).2 ?_⟩
    rw [Node.bare_withPaths, hsame]
  · rw [hparse]
    exact nestedTooDeep_of_lt hstatements hlt _ "" finish
  · rw [Printer.nesting_eq script hplain]
    exact hnesting

/-- A member of a number in brackets that are as deep as they can be. -/
def bracketed : String :=
  String.ofList (List.replicate 63 '[' ++ "5.x".toList ++ List.replicate 63 ']')

/-- A script with parentheses that have to be printed is read back; the member of a number, which is printed
in parentheses that it could do without, is not if it stands in as many brackets as there can be. -/
theorem parse_print_iff_nesting_bracketed :
    (∃ script, parse "(a - (b |> f(%)))[-2]" none = .ok script ∧ Node.Parted script.walk ∧
      ∃ text, script.print .standard = .ok text ∧
        ∃ q, parse text none = .ok q ∧ script.alike q = true) ∧
    ∃ script, parse bracketed none = .ok script ∧ Node.Parted script.walk ∧
      ∃ text, script.print .standard = .ok text ∧ NestedTooDeep (parse text none) := by
  constructor
  · have hchecked : (parse "(a - (b |> f(%)))[-2]" none).toOption.any (fun script =>
        decide (Node.Parted script.walk ∧ ∀ n ∈ script.walk, Printer.overwraps n = false)) = true := by
      decide +kernel
    obtain ⟨script, hscript, hchecked⟩ := exists_of_any_toOption hchecked
    obtain ⟨hparted, hplain⟩ := of_decide_eq_true hchecked
    obtain ⟨text, htext, hback, -, hle⟩ := parse_print_iff_nesting hscript hparted .standard none
    exact ⟨script, hscript, hparted, text, htext, hback (hle hplain)⟩
  · have hchecked : (parse bracketed none).toOption.any (fun script =>
        decide (Node.Parted script.walk ∧ Parser.maxNesting < Printer.nesting true script)) = true := by
      decide +kernel
    obtain ⟨script, hscript, hchecked⟩ := exists_of_any_toOption hchecked
    obtain ⟨hparted, hlt⟩ := of_decide_eq_true hchecked
    obtain ⟨text, htext, -, hdeep, -⟩ := parse_print_iff_nesting hscript hparted .standard none
    exact ⟨script, hscript, hparted, text, htext, hdeep hlt⟩

end PartScript
