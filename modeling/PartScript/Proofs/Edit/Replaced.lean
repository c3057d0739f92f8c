import PartScript.Edit.Replace
import PartScript.Proofs.Edit.Quotation
import PartScript.Proofs.Node.RoundTrip
import PartScript.Proofs.Number.Spelling

/-!
Scripts in which a value is put in the place of an expression. A value is written as a literal that is read as
the value, behind a minus if it is a negative number, and may stand wherever an expression may stand. So the
script is read back from its text as after any other edit: unless a minus comes to stand at the front of a
statement behind another one.
-/

namespace PartScript

open PartScript.Parser (Setting)

/-! ### Literals of values -/

theorem writtenLiteral_bool (b : Bool) : WrittenLiteral (.bool b) (if b then "true" else "false") := by
  refine ⟨_, rfl, ?_, by simp, by simp⟩
  cases b with
  | true => exact Printer.lexeme_keyword _ .trueWord
  | false => exact Printer.lexeme_keyword _ .falseWord

theorem writtenLiteral_number {n : Number} (h : Lexer.NumberText (some Number.maxDigits) n n.text.toList) :
    WrittenLiteral (.number n) n.text := by
  refine ⟨_, rfl, Lexer.lexeme_number h, by simp, ?_⟩
  rintro m heq
  cases heq
  exact h

theorem Number.Positive.writtenLiteral {n : Number} (h : n.Positive) :
    WrittenLiteral (.number n) n.text :=
  writtenLiteral_number h.numberText

/-- The data is a truth value, a text, or a number other than zero that a float can hold. -/
def Plain.IsScalar : Plain → Prop
  | .bool _ | .text _ => True
  | .number n => n.isFinite = true ∧ n.isZero = false
  | _ => False

namespace Edit

open Node (Writable WritableAll)

theorem literal_positive (span : Span) {n : Number} (h : n.Positive) :
    literal span (.number n) = .ok (.literal (.at span) (.number n) n.text) := by
  simp [literal, h.finite, h.not_negative]

/-- There is an expression for a scalar, and it may stand anywhere. -/
theorem writable_valueExpression {v : Plain} (hv : v.IsScalar) (span : Span) (s : Setting) :
    Succeeds (Writable .expression s) (valueExpression span v) := by
  cases v with
  | bool b => exact writtenLiteral_bool b
  | text t => exact writtenLiteral_text t
  | number n =>
      obtain ⟨hfinite, hzero⟩ := hv
      cases hnegative : n.isNegative with
      | false =>
          have hpositive : n.Positive := ⟨hfinite, hnegative, hzero⟩
          simp only [valueExpression, hnegative, Bool.false_eq_true, if_false,
            literal_positive span hpositive]
          exact hpositive.writtenLiteral
      | true =>
          have hpositive := Number.positive_neg hfinite hnegative
          simp only [valueExpression, hnegative, if_true, literal_positive span hpositive]
          show Writable .expression s (.unary (.at span) .minus _)
          simp only [Writable]
          exact ⟨⟨_, .minus⟩, hpositive.writtenLiteral⟩
  | null | opaqueItem | list _ | tuple _ | record _ => exact hv.elim

/-- The stages of a pipe behind the first. -/
def laterStages : Node → List Node
  | .pipe _ stages => stages.tail
  | _ => []

/-- No stage of a pipe behind the first stands at the range. -/
def Spares (range : Range) (ns : List Node) : Prop :=
  ∀ n ∈ ns, ∀ e ∈ laterStages n, e.range ≠ range

instance (range : Range) (ns : List Node) : Decidable (Spares range ns) :=
  inferInstanceAs (Decidable (∀ n ∈ ns, ∀ e ∈ laterStages n, e.range ≠ range))

theorem Spares.mono {range : Range} {ns ms : List Node} (h : Spares range ns)
    (hms : ∀ n ∈ ms, n ∈ ns) : Spares range ms :=
  fun n hn => h n (hms n hn)

namespace Replacement

/-! ### What is left -/

/-- What goes through leaves something good. -/
def Leaves {α : Type} (good : α → Prop) (x : Pass α) : Prop :=
  ∀ made, Settles (fun _ => True) (fun result => good result.1) (x.run made)

section

variable {α β : Type} {good : α → Prop} {good' : β → Prop}

theorem leaves_pure {a : α} (h : good a) : Leaves good (pure a) := fun _ => h

theorem Leaves.bind {x : Pass α} {f : α → Pass β} (h : Leaves good x)
    (hf : ∀ a, good a → Leaves good' (f a)) : Leaves good' (x >>= f) :=
  fun made => (h made).bind fun result hgood => hf result.1 hgood result.2

end

/-- What an expression leaves is the substitute or what its parts leave. -/
theorem leaves_choice {r : Replacement} {good : Node → Prop} {n : Node} {x : Except Fault Node}
    {y : Pass Node} (hx : n.range = r.range → Settles (fun _ => True) good x) (hy : Leaves good y) :
    Leaves good (do
      if !(← get) && n.range == r.range then
        set true
        x
      else y) := by
  intro made
  show Settles _ _ (StateT.run (if !made && n.range == r.range then _ else y) made)
  split
  · rename_i hhere
    have hrange : n.range = r.range := by
      simp only [Bool.and_eq_true, beq_iff_eq] at hhere
      exact hhere.2
    show Settles _ _ (x >>= fun e => .ok (e, true))
    exact (hx hrange).bind fun e he => he
  · exact hy made

/-! ### Trees with a substitute -/

/-- The substitute may stand wherever an expression may stand. -/
def Fits (r : Replacement) : Prop :=
  ∀ span s, Settles (fun _ => True) (Writable .expression s) (r.substitute.expression span)

section

variable {r : Replacement}

mutual

/-- What an expression leaves can be written where the expression can. -/
theorem leaves_expression (hput : r.Fits) (s : Setting) : (n : Node) → Writable .expression s n →
    Spares r.range n.walk → Leaves (Writable .expression s) (r.expression n)
  | .literal _ _ _, h, _ | .identifier _, h, _ | .hole _, h, _ => by
      rw [expression.eq_def]
      exact leaves_choice (fun _ => hput _ s) (leaves_pure h)
  | .binary _ _ l e, h, hr => by
      simp only [Writable] at h
      rw [expression.eq_def]
      refine leaves_choice (fun _ => hput _ s) ?_
      apply (leaves_expression hput s l h.2.1 (hr.mono fun n hn => by simp [Node.walk, hn])).bind
      intro l' hl
      apply (leaves_expression hput s e h.2.2 (hr.mono fun n hn => by simp [Node.walk, hn])).bind
      intro e' he
      exact leaves_pure (by simpa only [Writable] using ⟨h.1, hl, he⟩)
  | .unary _ _ e, h, hr => by
      simp only [Writable] at h
      rw [expression.eq_def]
      refine leaves_choice (fun _ => hput _ s) ?_
      apply (leaves_expression hput s e h.2 (hr.mono fun n hn => by simp [Node.walk, hn])).bind
      intro e' he
      exact leaves_pure (by simpa only [Writable] using ⟨h.1, he⟩)
  | .call _ _ args, h, hr => by
      simp only [Writable] at h
      rw [expression.eq_def]
      refine leaves_choice (fun _ => hput _ s) ?_
      apply (leaves_expressions hput s args h.2 (hr.mono fun n hn => by simp [Node.walk, hn])).bind
      intro args' hargs
      exact leaves_pure (by simpa only [Writable] using ⟨h.1, hargs⟩)
  | .array _ es, h, hr => by
      simp only [Writable] at h
      rw [expression.eq_def]
      refine leaves_choice (fun _ => hput _ s) ?_
      apply (leaves_expressions hput s es h (hr.mono fun n hn => by simp [Node.walk, hn])).bind
      intro es' hes
      exact leaves_pure (by simpa only [Writable] using hes)
  | .object _ ps, h, hr => by
      simp only [Writable] at h
      rw [expression.eq_def]
      refine leaves_choice (fun _ => hput _ s) ?_
      apply (leaves_properties hput s ps h (hr.mono fun n hn => by simp [Node.walk, hn])).bind
      intro ps' hps
      exact leaves_pure (by simpa only [Writable] using hps)
  | .member _ e _, h, hr => by
      simp only [Writable] at h
      rw [expression.eq_def]
      refine leaves_choice (fun _ => hput _ s) ?_
      apply (leaves_expression hput s e h.1 (hr.mono fun n hn => by simp [Node.walk, hn])).bind
      intro e' he
      exact leaves_pure (by simpa only [Writable] using ⟨he, h.2⟩)
  | .index _ e key, h, hr => by
      simp only [Writable] at h
      rw [expression.eq_def]
      refine leaves_choice (fun _ => hput _ s) ?_
      apply (leaves_expression hput s key h.2 (hr.mono fun n hn => by simp [Node.walk, hn])).bind
      intro key' hkey
      apply (leaves_expression hput s e h.1 (hr.mono fun n hn => by simp [Node.walk, hn])).bind
      intro e' he
      exact leaves_pure (by simpa only [Writable] using ⟨he, hkey⟩)
  | .pipe m (first :: more), h, hr => by
      simp only [Writable] at h
      have hlater : ∀ e ∈ more, e.range ≠ r.range :=
        hr (.pipe m (first :: more)) (by simp [Node.walk])
      rw [expression.eq_def]
      refine leaves_choice (fun _ => hput _ s) ?_
      simp only [expressions, bind_assoc, pure_bind]
      apply (leaves_expression hput s first h.1
        (hr.mono fun n hn => by simp [Node.walk, Node.walkAll, hn])).bind
      intro first' hfirst
      apply (leaves_stages hput _ more h.2.2
        (hr.mono fun n hn => by simp [Node.walk, Node.walkAll, hn]) hlater).bind
      rintro more' ⟨hmore, hlength⟩
      have hne : more' ≠ [] := by
        rintro rfl
        exact h.2.1 (List.eq_nil_of_length_eq_zero hlength.symm)
      exact leaves_pure (by simpa only [Writable] using ⟨hfirst, hne, hmore⟩)
  | .function _ _ body, h, hr => by
      simp only [Writable] at h
      rw [expression.eq_def]
      refine leaves_choice (fun _ => hput _ s) ?_
      apply (leaves_statements hput _ body h.2 (hr.mono fun n hn => by simp [Node.walk, hn])).bind
      intro body' hbody
      exact leaves_pure (by simpa only [Writable] using ⟨h.1, hbody⟩)
  | .pipe _ [], h, _ | .program _ _, h, _ | .declaration _ _ _ _, h, _ | .statement _ _, h, _
  | .giveBack _ _, h, _ | .property _ _ _, h, _ => by simp only [Writable] at h

theorem leaves_expressions (hput : r.Fits) (s : Setting) : (ns : List Node) → WritableAll .expression s ns →
    Spares r.range (Node.walkAll ns) → Leaves (WritableAll .expression s) (r.expressions ns)
  | [], _, _ => leaves_pure trivial
  | n :: rest, h, hr => by
      rw [expressions]
      apply (leaves_expression hput s n h.1 (hr.mono fun m hm => by simp [Node.walkAll, hm])).bind
      intro n' hn
      apply (leaves_expressions hput s rest h.2 (hr.mono fun m hm => by simp [Node.walkAll, hm])).bind
      intro rest' hrest
      exact leaves_pure ⟨hn, hrest⟩

/-- Later stages stay calls, as many as they are. -/
theorem leaves_stages (hput : r.Fits) (s : Setting) : (ns : List Node) → WritableAll .stage s ns →
    Spares r.range (Node.walkAll ns) → (∀ e ∈ ns, e.range ≠ r.range) →
    Leaves (fun ns' => WritableAll .stage s ns' ∧ ns'.length = ns.length) (r.expressions ns)
  | [], _, _, _ => leaves_pure ⟨trivial, rfl⟩
  | .call m callee args :: rest, h, hr, hlater => by
      -- Nothing takes the place of the stage itself, so it stays a call.
      have hcall : Leaves (Writable .stage s) (r.expression (.call m callee args)) := by
        have hstage := h.1
        simp only [Writable] at hstage
        rw [expression.eq_def]
        refine leaves_choice (fun hrange => absurd hrange (hlater _ List.mem_cons_self)) ?_
        apply (leaves_expressions hput s args hstage.2
          (hr.mono fun n hn => by simp [Node.walkAll, Node.walk, hn])).bind
        intro args' hargs
        exact leaves_pure (by simpa only [Writable] using ⟨hstage.1, hargs⟩)
      rw [expressions]
      apply hcall.bind
      intro n' hn
      apply (leaves_stages hput s rest h.2 (hr.mono fun m hm => by simp [Node.walkAll, hm])
        fun e he => hlater e (List.mem_cons_of_mem _ he)).bind
      rintro rest' ⟨hrest, hlength⟩
      exact leaves_pure ⟨⟨hn, hrest⟩, by rw [List.length_cons, List.length_cons, hlength]⟩
  | .literal _ _ _ :: _, h, _, _ | .identifier _ :: _, h, _, _ | .hole _ :: _, h, _, _
  | .binary _ _ _ _ :: _, h, _, _ | .unary _ _ _ :: _, h, _, _ | .array _ _ :: _, h, _, _
  | .object _ _ :: _, h, _, _ | .member _ _ _ :: _, h, _, _ | .index _ _ _ :: _, h, _, _
  | .pipe _ _ :: _, h, _, _ | .function _ _ _ :: _, h, _, _ | .program _ _ :: _, h, _, _
  | .declaration _ _ _ _ :: _, h, _, _ | .statement _ _ :: _, h, _, _
  | .giveBack _ _ :: _, h, _, _ | .property _ _ _ :: _, h, _, _ => by
      simp only [WritableAll, Writable, false_and] at h

theorem leaves_properties (hput : r.Fits) (s : Setting) : (ns : List Node) → WritableAll .entry s ns →
    Spares r.range (Node.walkAll ns) → Leaves (WritableAll .entry s) (r.properties ns)
  | [], _, _ => leaves_pure trivial
  | .property m key e :: rest, h, hr => by
      have hentry := h.1
      simp only [Writable] at hentry
      rw [properties]
      apply (leaves_expression hput s e hentry.2
        (hr.mono fun n hn => by simp [Node.walkAll, Node.walk, hn])).bind
      intro e' he
      apply (leaves_properties hput s rest h.2 (hr.mono fun m hm => by simp [Node.walkAll, hm])).bind
      intro rest' hrest
      refine leaves_pure ⟨?_, hrest⟩
      simpa only [Writable] using ⟨hentry.1, he⟩
  | .literal _ _ _ :: _, h, _ | .identifier _ :: _, h, _ | .hole _ :: _, h, _
  | .binary _ _ _ _ :: _, h, _ | .unary _ _ _ :: _, h, _ | .array _ _ :: _, h, _
  | .object _ _ :: _, h, _ | .member _ _ _ :: _, h, _ | .index _ _ _ :: _, h, _
  | .pipe _ _ :: _, h, _ | .function _ _ _ :: _, h, _ | .program _ _ :: _, h, _
  | .declaration _ _ _ _ :: _, h, _ | .statement _ _ :: _, h, _ | .giveBack _ _ :: _, h, _
  | .call _ _ _ :: _, h, _ => by simp only [WritableAll, Writable, false_and] at h

theorem leaves_statement (hput : r.Fits) (s : Setting) : (n : Node) → Writable .statement s n →
    Spares r.range n.walk → Leaves (Writable .statement s) (r.statement n)
  | .declaration _ _ _ e, h, hr => by
      simp only [Writable] at h
      rw [statement]
      apply (leaves_expression hput s e h.2.2 (hr.mono fun n hn => by simp [Node.walk, hn])).bind
      intro e' he
      exact leaves_pure (by simpa only [Writable] using ⟨h.1, h.2.1, he⟩)
  | .statement _ e, h, hr => by
      simp only [Writable] at h
      rw [statement]
      apply (leaves_expression hput s e h (hr.mono fun n hn => by simp [Node.walk, hn])).bind
      intro e' he
      exact leaves_pure (by simpa only [Writable] using he)
  | .giveBack _ e, h, hr => by
      simp only [Writable] at h
      rw [statement]
      apply (leaves_expression hput s e h.2 (hr.mono fun n hn => by simp [Node.walk, hn])).bind
      intro e' he
      exact leaves_pure (by simpa only [Writable] using ⟨h.1, he⟩)
  | .literal _ _ _, h, _ | .identifier _, h, _ | .hole _, h, _ | .binary _ _ _ _, h, _
  | .unary _ _ _, h, _ | .array _ _, h, _ | .object _ _, h, _ | .member _ _ _, h, _
  | .index _ _ _, h, _ | .pipe _ _, h, _ | .function _ _ _, h, _ | .program _ _, h, _
  | .property _ _ _, h, _ | .call _ _ _, h, _ => by simp only [Writable] at h

theorem leaves_statements (hput : r.Fits) (s : Setting) : (ns : List Node) → WritableAll .statement s ns →
    Spares r.range (Node.walkAll ns) → Leaves (WritableAll .statement s) (r.statements ns)
  | [], _, _ => leaves_pure trivial
  | n :: rest, h, hr => by
      rw [statements]
      apply (leaves_statement hput s n h.1 (hr.mono fun m hm => by simp [Node.walkAll, hm])).bind
      intro n' hn
      apply (leaves_statements hput s rest h.2 (hr.mono fun m hm => by simp [Node.walkAll, hm])).bind
      intro rest' hrest
      exact leaves_pure ⟨hn, hrest⟩

end

end

end Replacement

/-- A script in which a scalar is put in the place of an expression can be written if it could be written
before and the expression is no stage of a pipe behind the first. -/
theorem writable_replace {range : Range} {v : Plain} (hv : v.IsScalar) {script p : Node} {s : Setting}
    (hscript : script.Writable .script s) (hspares : Spares range script.walk)
    (h : replace ⟨range, .data v⟩ script = .ok p) : p.Writable .script s := by
  obtain ⟨m, body, rfl, hbody⟩ := exists_program hscript
  have hfits : Replacement.Fits ⟨range, .data v⟩ := fun span s =>
    (writable_valueExpression hv span s).mono (fun _ _ => trivial) fun _ he => he
  have hleaves := Replacement.leaves_statements hfits s body hbody
    (hspares.mono fun n hn => by simp [Node.walk, hn]) false
  obtain ⟨⟨body', made⟩, hrun, h⟩ := bind_eq_ok h
  rw [hrun] at hleaves
  cases made with
  | false => cases h
  | true =>
      cases h
      have hbody' : WritableAll .statement s body' := hleaves
      have hprogram : Writable .script s (.program m body') := by simpa only [Writable] using hbody'
      exact hprogram.of_bare_eq (Node.bare_withPaths _)

end Edit

/-! ### Round trips -/

/-- A truth value, a text or a number put in the place of an expression of a script, no stage of a pipe behind
the first, is printed in every style. If no statement behind another one is printed with a minus in front then,
the text is refused as nested too deep or read back as a script that is alike. If one is, no script that is
alike is read back. -/
theorem parse_print_replace_iff_parted {source : String} {file : Option String} {script p : Node}
    (hscript : parse source file = .ok script) {range : Range} {v : Plain} (hv : v.IsScalar)
    (hspares : Edit.Spares range script.walk)
    (hreplace : Edit.replace ⟨range, .data v⟩ script = .ok p) (style : Style) (file' : Option String) :
    ∃ text, p.print style = .ok text ∧
      (Node.Parted p.walk → NestedTooDeep (parse text file') ∨
        ∃ q, parse text file' = .ok q ∧ p.alike q = true) ∧
      (¬ Node.Parted p.walk → ∀ q, parse text file' = .ok q → p.alike q = false) := by
  have hp : p.Writable .script .outside :=
    Edit.writable_replace hv (writable_of_parse hscript) hspares hreplace
  obtain ⟨m, body, rfl, hbody⟩ := exists_program hp
  refine ⟨_, Printer.print_eq hp, fun hparted => ?_, fun hparted q hq => ?_⟩
  · refine (parse_print_of_parted hp hparted (Printer.print_eq hp) file').imp id ?_
    rintro ⟨q, hq, hbare⟩
    exact ⟨q, hq, (Node.alike_iff hp (hp.of_bare_eq hbare)).2 hbare.symm⟩
  · exact alike_eq_false_of_not_parted hp hparted (Printer.print_eq hp) hq

/-- A negative number that comes behind a plus is read back; behind another statement it is not. -/
theorem parse_print_replace_iff_parted_negative :
    (∃ script p, parse "const a = 3\nconst b = a + 1" none = .ok script ∧
      (Plain.number (.int (-2))).IsScalar ∧ Edit.Spares ⟨26, 27⟩ script.walk ∧
      Edit.replace ⟨⟨26, 27⟩, .data (.number (.int (-2)))⟩ script = .ok p ∧ Node.Parted p.walk ∧
      ∃ text, p.print .standard = .ok text ∧ (NestedTooDeep (parse text none) ∨
        ∃ q, parse text none = .ok q ∧ p.alike q = true)) ∧
    (∃ script p, parse "a\n3" none = .ok script ∧ (Plain.number (.int (-1))).IsScalar ∧
      Edit.Spares ⟨2, 3⟩ script.walk ∧
      Edit.replace ⟨⟨2, 3⟩, .data (.number (.int (-1)))⟩ script = .ok p ∧ ¬ Node.Parted p.walk ∧
      p.print .standard = .ok "a\n-1\n" ∧
      ∀ q, parse "a\n-1\n" none = .ok q → p.alike q = false) := by
  constructor
  · have hchecked : (parse "const a = 3\nconst b = a + 1" none).toOption.any (fun script =>
        decide (Edit.Spares ⟨26, 27⟩ script.walk) &&
        (Edit.replace ⟨⟨26, 27⟩, .data (.number (.int (-2)))⟩ script).toOption.any fun p =>
          decide (Node.Parted p.walk)) = true := by decide +kernel
    obtain ⟨script, hscript, hchecked⟩ := exists_of_any_toOption hchecked
    obtain ⟨hspares, hchecked⟩ := Bool.and_eq_true_iff.1 hchecked
    have hspares := of_decide_eq_true hspares
    obtain ⟨p, hreplace, hparted⟩ := exists_of_any_toOption hchecked
    have hparted : Node.Parted p.walk := of_decide_eq_true hparted
    have hscalar : (Plain.number (.int (-2))).IsScalar := ⟨by decide +kernel, by decide⟩
    obtain ⟨text, htext, hback, -⟩ :=
      parse_print_replace_iff_parted hscript hscalar hspares hreplace .standard none
    exact ⟨script, p, hscript, hscalar, hspares, hreplace, hparted, text, htext, hback hparted⟩
  · have hchecked : (parse "a\n3" none).toOption.any (fun script =>
        decide (Edit.Spares ⟨2, 3⟩ script.walk) &&
        (Edit.replace ⟨⟨2, 3⟩, .data (.number (.int (-1)))⟩ script).toOption.any fun p =>
          decide (¬ Node.Parted p.walk ∧ (p.print .standard).toOption = some "a\n-1\n")) = true := by
      decide +kernel
    obtain ⟨script, hscript, hchecked⟩ := exists_of_any_toOption hchecked
    obtain ⟨hspares, hchecked⟩ := Bool.and_eq_true_iff.1 hchecked
    have hspares := of_decide_eq_true hspares
    obtain ⟨p, hreplace, hchecked⟩ := exists_of_any_toOption hchecked
    obtain ⟨hparted, hprint⟩ := of_decide_eq_true hchecked
    have hscalar : (Plain.number (.int (-1))).IsScalar := ⟨by decide +kernel, by decide⟩
    obtain ⟨text, htext, -, hbad⟩ :=
      parse_print_replace_iff_parted hscript hscalar hspares hreplace .standard none
    rw [htext] at hprint
    obtain rfl := Option.some.inj hprint
    exact ⟨script, p, hscript, hscalar, hspares, hreplace, hparted, htext, hbad hparted⟩

end PartScript
