import Mathlib.Tactic.SplitIfs
import PartScript.Edit.Literal
import PartScript.Proofs.Node.Layout

/-!
Texts as string literals. The escapes of the printer are those of the reader, so a text that is quoted is read
back, whatever characters it is made of: as one token, and by itself as a script of one literal.
-/

namespace PartScript

/-! ### Escapes -/

/-- A character is escaped with the letter that stands for it, or needs no escape. -/
theorem escape_cases (c : Char) :
    (∃ d, Printer.escape c = ['\\', d] ∧ Lexer.escaped? d = some c) ∨
      (Printer.escape c = [c] ∧ c ≠ '\\' ∧ c ≠ '"' ∧ c ≠ '\n') := by
  simp only [Printer.escape, beq_iff_eq]
  split_ifs <;> simp_all [Lexer.escaped?]

/-- A character is read from what it is escaped to. -/
theorem scanString_escape {opening cs content left : List Char} (c : Char)
    (h : Lexer.scanString opening '"' cs = .ok (content, left)) :
    Lexer.scanString opening '"' (Printer.escape c ++ cs) = .ok (c :: content, left) := by
  rcases escape_cases c with ⟨d, hescape, hd⟩ | ⟨hescape, hslash, hquote, hline⟩
  · rw [hescape, Lexer.scanString.eq_def]
    simp only [List.cons_append, List.nil_append, hd, h]
    rfl
  · rw [hescape, Lexer.scanString.eq_def]
    simp only [List.cons_append, List.nil_append, beq_iff_eq, if_neg hquote, if_neg hline, if_neg hslash, h]
    rfl

theorem scanString_escapes (opening : List Char) (cs left : List Char) :
    Lexer.scanString opening '"' (cs.flatMap Printer.escape ++ '"' :: left) = .ok (cs, left) := by
  induction cs with
  | nil => rw [List.flatMap_nil, List.nil_append, Lexer.scanString.eq_def]; rfl
  | cons c cs ih =>
      rw [List.flatMap_cons, List.append_assoc]
      exact scanString_escape c ih

/-! ### Literals of texts -/

theorem writtenLiteral_text (s : String) : WrittenLiteral (.text s) (Printer.quote s) := by
  have hscan := scanString_escapes ('"' :: (s.toList.flatMap Printer.escape ++ ['"'])) s.toList []
  obtain ⟨lexeme, hlexeme, hread⟩ := Lexer.lexeme_string (some Number.maxDigits) rfl hscan
  rw [List.append_nil] at hlexeme
  rw [String.ofList_toList, ← hlexeme] at hread
  refine ⟨_, rfl, ?_, by simp, by simp⟩
  rw [Printer.quote, Printer.enclose, String.toList_ofList]
  exact hread

/-- A text is quoted as one token that has it as its value. The literal that is made for it is printed as the
quoted text, and this is read as a literal with the same value and the same text. -/
theorem quoted_text_read_back (v : String) (file : Option String) (span : Span) (style : Style) :
    (∃ place finish, tokenize (Printer.quote v) file =
      .ok [⟨.string v, Printer.quote v, place⟩, ⟨.finish, "", finish⟩]) ∧
    ∃ text, Edit.literal span (.text v) = .ok (.literal (.at span) (.text v) text) ∧
      (Node.literal (.at span) (.text v) text).print style = .ok text ∧
      ∃ m m' m'', parse text file =
        .ok (.program m [.statement m' (.literal m'' (.text v) text)]) := by
  obtain ⟨kind, hkind, hspelled⟩ := writtenLiteral_text v
  cases hkind
  obtain ⟨finish, htokens⟩ := Lexer.tokenize_lexeme hspelled.lexeme file
  refine ⟨⟨_, finish, htokens⟩, Printer.quote v, rfl, ?_, ?_⟩
  · simp only [Node.print, Node.isStatement, Bool.false_eq_true, if_false, Printer.expression,
      Printer.literalText_eq (writtenLiteral_text v)]
  · rw [parse, htokens]
    exact ⟨_, _, _, rfl⟩

end PartScript
