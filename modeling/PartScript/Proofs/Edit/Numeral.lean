import PartScript.Proofs.Edit.Replaced

/-!
Numbers as literals. The text of a number that is not below zero is one token that has the number as its
value, and a number below zero is written as a minus and the text of its opposite. There is one exception: the
zero with a sign counts as not below zero, but its text starts with a minus and is two tokens.
-/

namespace PartScript

open Lexer (NumberText)

/-! ### Zeros -/

/-- A float that counts as zero is one of the two zeros. -/
theorem eq_zero_of_isZero {x : Float} (hfinite : x.isFinite = true) (hzero : (Number.float x).isZero = true) :
    x = 0.0 ∨ x = -0.0 := by
  obtain ⟨d, hd, -⟩ := exists_ofFloat?_of_isFinite hfinite
  have hmantissa : d.mantissa = 0 := by
    have hsigned := (isZero_float hd).1 hzero
    have hpos : 0 < powTwo d.exponent.toNat := powTwo_pos _
    have hnumerator : d.numerator = 0 := by
      unfold Dyadic.signedNumerator at hsigned
      split at hsigned <;> omega
    exact (Nat.mul_eq_zero.1 hnumerator).resolve_right (by omega)
  have hexponent : d.exponent = Dyadic.leastExponent :=
    (Dyadic.normal_of_ofFloat? hd).exponent_eq (by rw [hmantissa]; exact powTwo_pos 52)
  obtain ⟨negative, mantissa, exponent⟩ := d
  obtain rfl : mantissa = 0 := hmantissa
  obtain rfl : exponent = Dyadic.leastExponent := hexponent
  cases negative with
  | false => exact .inl (Dyadic.ofFloat?_inj hd (by decide +kernel))
  | true => exact .inr (Dyadic.ofFloat?_inj hd (by decide +kernel))

theorem numberText_zero (limit : Option Nat) : NumberText limit (.float 0.0) "0.0".toList := by
  have hspells : Layout.Spells "0.0".toList ['0'] ['0'] [] :=
    ⟨rfl, by simp, by simp, by simp, .inl rfl, .inl (by simp)⟩
  have hvalue : Lexer.floatValue "0.0".toList = 0.0 := by decide +kernel
  have htext := hspells.numberText limit (hvalue ▸ by decide +kernel)
  rwa [hvalue] at htext

theorem text_zero : (Number.float 0.0).text = "0.0" := by decide +kernel

theorem text_negative_zero : (Number.float (-0.0)).text = "-" ++ (Number.float 0.0).text := by
  decide +kernel

/-- A number that is not below zero is written as a literal of itself, but for the zero with a sign. -/
theorem Number.numberText_of_not_negative {n : Number} (hfinite : n.isFinite = true)
    (hnegative : n.isNegative = false) (hsigned : n ≠ .float (-0.0)) :
    NumberText (some Number.maxDigits) n n.text.toList := by
  cases hzero : n.isZero with
  | false => exact (Number.Positive.mk hfinite hnegative hzero).numberText
  | true =>
      cases n with
      | int i =>
          obtain rfl := (isZero_int i).1 hzero
          exact numberText_repr (n := 0) (Nat.zero_le _)
      | float x =>
          rcases eq_zero_of_isZero hfinite hzero with rfl | rfl
          · exact text_zero ▸ numberText_zero _
          · exact absurd rfl hsigned

/-! ### Tokens -/

section

variable {n : Number} (h : NumberText (some Number.maxDigits) n n.text.toList)

include h

/-- The text of a number is one token. -/
theorem tokenize_number (file : Option String) :
    ∃ place finish, tokenize n.text file = .ok [⟨.number n, n.text, place⟩, ⟨.finish, "", finish⟩] := by
  obtain ⟨finish, htokens⟩ := Lexer.tokenize_lexeme (Lexer.lexeme_number h) file
  exact ⟨_, finish, htokens⟩

/-- Behind a minus it is one token as well. -/
theorem tokenize_minus_number (file : Option String) :
    ∃ sign place finish, tokenize ("-" ++ n.text) file =
      .ok [⟨.symbol .minus, "-", sign⟩, ⟨.number n, n.text, place⟩, ⟨.finish, "", finish⟩] := by
  have hlegible : Lexer.Legible (some Number.maxDigits) []
      [.symbol .minus, .word (.number n) n.text.toList] :=
    Lexer.legible_symbol.2 ⟨trivial, Lexer.lexeme_number h, Lexer.stops_nil _, trivial⟩
  obtain ⟨finish, htokens⟩ := Lexer.tokenizeWith_legible hlegible file
  have htext : String.ofList (Lexer.chars [.symbol .minus, .word (.number n) n.text.toList]) =
      "-" ++ n.text := by
    rw [← String.toList_inj]
    simp [Symbol.text]
  rw [htext, Printer.placed_symbol] at htokens
  exact ⟨_, _, finish, htokens.trans (by rw [Lexer.placed, String.ofList_toList]; rfl)⟩

/-! ### Expressions -/

/-- The text of a number is read as a literal. -/
theorem parse_number (file : Option String) :
    ∃ m m' k, parse n.text file = .ok (.program m [.statement m' (.literal k (.number n) n.text)]) := by
  obtain ⟨place, finish, htokens⟩ := tokenize_number h file
  rw [parse, htokens]
  exact ⟨_, _, _, rfl⟩

/-- Behind a minus it is read as a literal under a minus. -/
theorem parse_minus_number (file : Option String) :
    ∃ m m' k k', parse ("-" ++ n.text) file =
      .ok (.program m [.statement m' (.unary k .minus (.literal k' (.number n) n.text))]) := by
  obtain ⟨sign, place, finish, htokens⟩ := tokenize_minus_number h file
  rw [parse, htokens]
  exact ⟨_, _, _, _, rfl⟩

theorem print_number (m : Mark) (style : Style) :
    (Node.literal m (.number n) n.text).print style = .ok n.text := by
  simp only [Node.print, Node.isStatement, Bool.false_eq_true, if_false, Printer.expression,
    Printer.literalText_eq (writtenLiteral_number h)]

theorem print_minus_number (m m' : Mark) (style : Style) :
    (Node.unary m .minus (.literal m' (.number n) n.text)).print style = .ok ("-" ++ n.text) := by
  have hliteral : (Node.literal m' (.number n) n.text).Writable .expression .outside :=
    writtenLiteral_number h
  simp only [Node.print, Node.isStatement, Bool.false_eq_true, if_false, Printer.expression,
    Printer.strength_eq hliteral, Printer.literalText_eq (writtenLiteral_number h)]
  rfl

end

namespace Edit

theorem literal_eq_ok_iff {span : Span} {n : Number} {e : Node} :
    literal span (.number n) = .ok e ↔
      n.isFinite = true ∧ n.isNegative = false ∧ e = .literal (.at span) (.number n) n.text := by
  rw [literal]
  cases n.isFinite <;> cases n.isNegative <;> simp [eq_comm]

/-- A number is read back from its text. If there is a literal for a number, then its text is one token that
has exactly this number as its value, whole or a float, and the end behind it. For every finite number there
is an expression, and its text is read as a script of one expression that is alike. The zero with a sign is an
exception to both, and the only one. -/
theorem number_text_read_back (n : Number) (span : Span) (style : Style) (file : Option String) :
    (∀ e, literal span (.number n) = .ok e → e = .literal (.at span) (.number n) n.text ∧
      ((∃ place finish, tokenize n.text file =
        .ok [⟨.number n, n.text, place⟩, ⟨.finish, "", finish⟩]) ↔ n ≠ .float (-0.0))) ∧
    (n.isFinite = true → ∃ e text, valueExpression span (.number n) = .ok e ∧ e.print style = .ok text ∧
      ∃ m m' e', parse text file = .ok (.program m [.statement m' e']) ∧
        (e.alike e' = true ↔ n ≠ .float (-0.0))) := by
  have hzero := numberText_zero (some Number.maxDigits)
  rw [← text_zero] at hzero
  refine ⟨fun e he => ?_, fun hfinite => ?_⟩
  · obtain ⟨hfinite, hnegative, rfl⟩ := literal_eq_ok_iff.1 he
    refine ⟨rfl, fun ⟨place, finish, htokens⟩ => ?_, fun hsigned => ?_⟩
    · rintro rfl
      obtain ⟨sign, place', finish', htokens'⟩ := tokenize_minus_number hzero file
      rw [text_negative_zero, htokens'] at htokens
      cases htokens
    · exact tokenize_number (Number.numberText_of_not_negative hfinite hnegative hsigned) file
  · by_cases hsigned : n = .float (-0.0)
    · -- The text of the literal is that of a negated zero.
      subst hsigned
      obtain ⟨m, m', k, k', hparse⟩ := parse_minus_number hzero file
      refine ⟨.literal (.at span) (.number (.float (-0.0))) (Number.float (-0.0)).text, _, ?_, ?_,
        m, m', _, text_negative_zero ▸ hparse, ?_⟩
      · rw [valueExpression, if_neg (by decide +kernel)]
        exact literal_eq_ok_iff.2 ⟨hfinite, by decide +kernel, rfl⟩
      · rw [text_negative_zero]
        simp only [Node.print, Node.isStatement, Bool.false_eq_true, if_false, Printer.expression,
          Printer.literalText]
        simp
      · exact iff_of_false (fun halike => by cases halike) fun hne => hne rfl
    · cases hnegative : n.isNegative with
      | false =>
          have htext := Number.numberText_of_not_negative hfinite hnegative hsigned
          obtain ⟨m, m', k, hparse⟩ := parse_number htext file
          refine ⟨.literal (.at span) (.number n) n.text, n.text, ?_, print_number htext _ style, m, m', _,
            hparse, ?_⟩
          · rw [valueExpression, hnegative, if_neg Bool.false_ne_true]
            exact literal_eq_ok_iff.2 ⟨hfinite, hnegative, rfl⟩
          · have hwritable (m : Mark) : (Node.literal m (.number n) n.text).Writable .expression .outside :=
              writtenLiteral_number htext
            exact iff_of_true ((Node.alike_iff (hwritable _) (hwritable _)).2 rfl) hsigned
      | true =>
          have hpositive := Number.positive_neg hfinite hnegative
          obtain ⟨m, m', k, k', hparse⟩ := parse_minus_number hpositive.numberText file
          refine ⟨.unary (.at span) .minus (.literal (.at span) (.number n.neg) n.neg.text), _, ?_,
            print_minus_number hpositive.numberText _ _ style, m, m', _, hparse, ?_⟩
          · simp only [valueExpression, hnegative, if_true, literal_positive span hpositive]
            rfl
          · have hwritable (m m' : Mark) : (Node.unary m .minus
                (.literal m' (.number n.neg) n.neg.text)).Writable .expression .outside := by
              simp only [Node.Writable]
              exact ⟨⟨_, .minus⟩, hpositive.writtenLiteral⟩
            exact iff_of_true ((Node.alike_iff (hwritable _ _) (hwritable _ _)).2 rfl) hsigned

/-- A large float is read back as one token, and a negative whole number as a negation. The zero with a sign has
a literal, but its text is not one token, and its expression is not read back. -/
theorem number_text_read_back_zero :
    (∃ e place finish, literal .absent (.number (.float 1e22)) = .ok e ∧
      tokenize (Number.float 1e22).text none =
        .ok [⟨.number (.float 1e22), (Number.float 1e22).text, place⟩, ⟨.finish, "", finish⟩]) ∧
    (∃ e m m' e', (Number.int (-5)).isFinite = true ∧
      valueExpression .absent (.number (.int (-5))) = .ok e ∧ e.print .standard = .ok "-5" ∧
      parse "-5" none = .ok (.program m [.statement m' e']) ∧ e.alike e' = true) ∧
    (∃ e, literal .absent (.number (.float (-0.0))) = .ok e ∧ ¬ ∃ place finish, tokenize "-0.0" none =
      .ok [⟨.number (.float (-0.0)), "-0.0", place⟩, ⟨.finish, "", finish⟩]) ∧
    ∃ e m m' e', (Number.float (-0.0)).isFinite = true ∧
      valueExpression .absent (.number (.float (-0.0))) = .ok e ∧ e.print .standard = .ok "-0.0" ∧
      parse "-0.0" none = .ok (.program m [.statement m' e']) ∧ e.alike e' = false := by
  have hzero : (Number.float (-0.0)).text = "-0.0" := by decide +kernel
  have hsigned {span : Span} : literal span (.number (.float (-0.0))) =
      .ok (.literal (.at span) (.number (.float (-0.0))) (Number.float (-0.0)).text) :=
    literal_eq_ok_iff.2 ⟨by decide +kernel, by decide +kernel, rfl⟩
  refine ⟨?_, ?_, ⟨_, hsigned, ?_⟩, ?_⟩
  · have hliteral : literal .absent (.number (.float 1e22)) =
        .ok (.literal (.at .absent) (.number (.float 1e22)) (Number.float 1e22).text) :=
      literal_eq_ok_iff.2 ⟨by decide +kernel, by decide +kernel, rfl⟩
    obtain ⟨-, htokens⟩ := (number_text_read_back (.float 1e22) .absent .standard none).1 _ hliteral
    obtain ⟨place, finish, htokens⟩ := htokens.2 (by decide +kernel)
    exact ⟨_, place, finish, hliteral, htokens⟩
  · have hfinite : (Number.int (-5)).isFinite = true := by decide +kernel
    have hpositive := Number.positive_neg hfinite (by decide +kernel)
    obtain ⟨e, text, he, htext, m, m', e', hparse, halike⟩ :=
      (number_text_read_back (.int (-5)) .absent .standard none).2 hfinite
    have hexpression : valueExpression .absent (.number (.int (-5))) =
        .ok (.unary (.at .absent) .minus (.literal (.at .absent) (.number (.int 5)) "5")) := by
      rw [valueExpression, if_pos (by decide +kernel), literal_positive .absent hpositive]
      rfl
    obtain rfl := Except.ok.inj (hexpression.symm.trans he)
    obtain rfl := Except.ok.inj ((print_minus_number hpositive.numberText _ _ .standard).symm.trans htext)
    exact ⟨_, m, m', e', hfinite, he, htext, hparse, halike.2 (by decide +kernel)⟩
  · obtain ⟨-, htokens⟩ := (number_text_read_back (.float (-0.0)) .absent .standard none).1 _ hsigned
    rw [hzero] at htokens
    exact fun h => htokens.1 h rfl
  · have hfinite : (Number.float (-0.0)).isFinite = true := by decide +kernel
    obtain ⟨e, text, he, htext, m, m', e', hparse, halike⟩ :=
      (number_text_read_back (.float (-0.0)) .absent .standard none).2 hfinite
    have hexpression : valueExpression .absent (.number (.float (-0.0))) =
        .ok (.literal (.at .absent) (.number (.float (-0.0))) "-0.0") := by
      rw [valueExpression, if_neg (by decide +kernel), hsigned, hzero]
    obtain rfl := Except.ok.inj (hexpression.symm.trans he)
    obtain rfl : "-0.0" = text := Except.ok.inj htext
    exact ⟨_, m, m', e', hfinite, he, htext, hparse, Bool.eq_false_iff.2 fun h => halike.1 h rfl⟩

end Edit

end PartScript
