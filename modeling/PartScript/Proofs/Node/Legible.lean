import PartScript.Proofs.Node.Layout

/-!
Printed texts can be taken apart again. Every lexeme stands in front of something that does not go on
with it, so that the text falls into the lexemes it was made of. How the text of a statement starts does
not depend on the layout.
-/

namespace PartScript.Printer

open Lexer Text
open PartScript.Parser (Setting)
open Node (Writable WritableAll)

/-! ### Lexemes of printed texts -/

/-- The text may stand behind an expression: it goes on neither with a name nor with a number. Behind
an atom that is no number there may be a point. -/
def Follows (role : Role) (e : Node) (after : List Char) : Prop :=
  Clear isNumberEnd after ∨ Clear isNameChar after ∧ role = .expression ∧ rank e = atomStrength ∧
    isBareNumber e = false

theorem clear_nameChar {after : List Char} (h : Clear isNumberEnd after) : Clear isNameChar after :=
  h.mono fun _ hc => (Bool.or_eq_false_iff.1 hc).1

theorem Follows.nameChar {role : Role} {e : Node} {after : List Char} (h : Follows role e after) :
    Clear isNameChar after := by
  rcases h with h | h
  · exact clear_nameChar h
  · exact h.1

/-- Only an atom in the place of an expression may have a point behind it. -/
theorem Follows.numberEnd {role : Role} {e : Node} {after : List Char} (h : Follows role e after)
    (hloose : role ≠ .expression ∨ rank e < atomStrength ∨ isBareNumber e = true) :
    Clear isNumberEnd after := by
  rcases h with h | ⟨-, hrole, hrank, hnumber⟩
  · exact h
  · rcases hloose with hloose | hloose | hloose
    · exact absurd hrole hloose
    · omega
    · rw [hnumber] at hloose
      cases hloose

theorem stops_space (kind : TokenKind) (cs : List Char) : Stops kind (' ' :: cs) :=
  stops_blank kind rfl cs

/-- A name does not start with a digit. -/
theorem clear_digit_of_writtenName {name : String} (h : WrittenName name) (cs : List Char) :
    Clear isDigit (name.toList ++ cs) := by
  obtain ⟨c, rest, hc⟩ := List.exists_cons_of_ne_nil h.ne_nil
  rw [hc]
  refine clear_cons _ ?_
  rw [Bool.eq_false_iff]
  intro hdigit
  have hscan := h.scan [' '] (stops_space _ _)
  obtain ⟨hspace, hquote, -⟩ := excludes hdigit (by decide)
  have hstart : startsNumber c (rest ++ [' ']) = true := by simp [startsNumber, hdigit]
  rw [hc, List.cons_append] at hscan
  rw [scanToken, if_neg (by simpa using hquote), if_pos hstart] at hscan
  obtain ⟨n, -, hkind, -⟩ := scanNumber_eq_ok hstart hscan
  cases hkind

theorem lexeme_keyword (limit : Option Nat) (w : Keyword) :
    Lexeme limit (.keyword w) w.text.toList := by
  have hkind : wordKind w.text = .keyword w := by cases w <;> decide
  obtain ⟨c, cs, htext, hc, hcs⟩ : ∃ c cs, w.text.toList = c :: cs ∧ isNameStart c = true ∧
      cs.all isNameChar = true := by
    cases w <;> exact ⟨_, _, rfl, rfl, rfl⟩
  have hword := lexeme_word limit hc (List.all_eq_true.1 hcs)
  rw [← htext, String.ofList_toList, hkind] at hword
  exact hword

theorem legible_word {limit : Option Nat} {after : List Char} {w : Keyword} {ps : List Piece} :
    Legible limit after (wordPiece w :: space :: ps) ↔ Legible limit after ps := by
  simp [wordPiece, space, Legible, lexeme_keyword, stops_space, isSpace]

theorem legible_space {limit : Option Nat} {after : List Char} {ps : List Piece} :
    Legible limit after (space :: ps) ↔ Legible limit after ps := by
  simp [space, Legible, isSpace]

theorem legible_name {after : List Char} {i : Ident} {ps : List Piece} (hi : WrittenName i.name) :
    Legible (some Number.maxDigits) after (namePiece i :: ps) ↔
      Clear isNameChar (chars ps ++ after) ∧ Legible (some Number.maxDigits) after ps := by
  have hlexeme : Lexeme (some Number.maxDigits) (.identifier i.name) i.name.toList := hi
  simp [namePiece, Legible, hlexeme, Stops]

theorem isSpace_of_mem_indent (style : Style) (level : Nat) :
    ∀ c ∈ (style.indent level).toList, isSpace c = true := by
  intro c hc
  unfold Style.indent at hc
  split at hc
  · rw [String.toList_ofList] at hc
    rw [List.eq_of_mem_replicate hc]
    rfl
  · rw [String.toList_ofList] at hc
    rw [List.eq_of_mem_replicate hc]
    rfl

theorem legible_newLine {limit : Option Nat} {after : List Char} {style : Style} {level : Nat}
    {ps : List Piece} :
    Legible limit after (newLine style level :: ps) ↔ Legible limit after ps := by
  have hspaces : ∀ c ∈ '\n' :: (style.indent level).toList, isSpace c = true := by
    intro c hc
    rcases List.mem_cons.1 hc with rfl | hc
    · rfl
    · exact isSpace_of_mem_indent style level c hc
  simp only [newLine, Legible]
  exact and_iff_right hspaces

/-- Parentheses need nothing of what follows. -/
theorem legible_enclosed {limit : Option Nat} {after : List Char} {ps : List Piece} {needed : Bool}
    (henclosed : needed = true → Legible limit (')' :: after) ps)
    (hplain : needed = false → Legible limit after ps) :
    Legible limit after (enclosed needed ps) := by
  cases needed with
  | false => exact hplain rfl
  | true =>
      simp only [enclosed, if_true, legible_symbol, legible_append]
      exact ⟨trivial, henclosed rfl, trivial, trivial⟩

/-- Behind what is in a row comes a comma or the end of the row. -/
theorem clear_comma {α : Type} {p : Char → Bool} (hcomma : p ',' = false) (rest : List α)
    {ps : List Piece} {after : List Char} (hps : rest = [] → ps = []) (h : Clear p after) :
    Clear p (chars (comma rest ++ ps) ++ after) := by
  cases rest with
  | nil => simpa [hps rfl, comma] using h
  | cons x rest => exact clear_cons _ hcomma

theorem legible_comma {α : Type} {limit : Option Nat} {after : List Char} (rest : List α)
    {ps : List Piece} (h : Legible limit after ps) : Legible limit after (comma rest ++ ps) := by
  cases rest with
  | nil => exact h
  | cons x rest =>
      simp only [comma, List.isEmpty_cons, Bool.false_eq_true, if_false, List.cons_append,
        List.nil_append, legible_symbol, legible_space]
      exact ⟨trivial, h⟩

theorem legible_params {params : List Ident} (h : ∀ i ∈ params, WrittenName i.name)
    (after : List Char) : Legible (some Number.maxDigits) (')' :: after) (paramPieces params) := by
  induction params with
  | nil => trivial
  | cons i rest ih =>
      rw [paramPieces, legible_name (h i List.mem_cons_self)]
      refine ⟨clear_comma rfl rest ?_ (clear_cons _ rfl), legible_comma rest ?_⟩
      · rintro rfl
        rfl
      · exact ih fun j hj => h j (List.mem_cons_of_mem _ hj)

theorem rank_le (e : Node) : rank e ≤ atomStrength := by
  cases e with
  | binary _ op _ _ => cases op <;> simp [rank, BinaryOp.strength?, atomStrength]
  | _ => simp [rank, looseStrength, signStrength, atomStrength]

theorem rank_binary_lt (m : Mark) (op : BinaryOp) (l r : Node) :
    rank (.binary m op l r) < atomStrength := by
  cases op <;> simp [rank, BinaryOp.strength?, atomStrength]

theorem legible_closing {limit : Option Nat} {after : List Char} {m : Symbol}
    (h : Stops (.symbol m) after) : Legible limit after [.symbol m] :=
  legible_symbol.2 ⟨h, trivial⟩

theorem legible_literal {s : Setting} {m : Mark} {value : Plain} {raw : String}
    {after : List Char} (h : Writable .expression s (.literal m value raw))
    (hafter : Follows .expression (.literal m value raw) after) :
    Legible (some Number.maxDigits) after
      [.word ((literalKind? value).getD .finish) raw.toList] := by
  simp only [Writable] at h
  obtain ⟨kind, hkind, hspelled⟩ := h
  have hstops : Stops kind after := by
    cases value with
    | number v =>
        cases hkind
        exact hafter.numberEnd (.inr (.inr rfl))
    | text v =>
        cases hkind
        trivial
    | bool b =>
        cases hkind
        exact hafter.nameChar
    | null | opaqueItem | list _ | tuple _ | record _ => cases hkind
  rw [hkind]
  exact ⟨hspelled.lexeme, hstops, trivial⟩

/-- What an operand is in front of or behind leaves it legible, in parentheses or not. -/
theorem legible_operand {style : Style} {level : Nat} {e : Node} {needed : Bool}
    (h : ∀ after, Follows .expression e after →
      Legible (some Number.maxDigits) after (pieces style level e))
    {after : List Char} (hafter : needed = false → Follows .expression e after) :
    Legible (some Number.maxDigits) after (enclosed needed (pieces style level e)) :=
  legible_enclosed (fun _ => h _ (.inl (clear_cons _ rfl))) fun hneeded => h _ (hafter hneeded)

theorem follows_target {e : Node} {after : List Char}
    (hneeded : (decide (rank e < atomStrength) || isBareNumber e) = false)
    (hafter : Clear isNameChar after) : Follows .expression e after := by
  simp only [Bool.or_eq_false_iff, decide_eq_false_iff_not] at hneeded
  have hle := rank_le e
  exact .inr ⟨hafter, rfl, by omega, hneeded.2⟩

mutual

theorem legible_pieces (style : Style) (level : Nat) (role : Role) (s : Setting) :
    (e : Node) → Writable role s e → ∀ after, Follows role e after →
      Legible (some Number.maxDigits) after (pieces style level e)
  | .literal m value raw, h, after, hafter => by
      cases role <;> try simp only [Writable] at h
      rw [pieces]
      exact legible_literal (s := s) (m := m) (by simpa only [Writable] using h) hafter
  | .identifier i, h, after, hafter => by
      cases role <;> simp only [Writable] at h
      rw [pieces, legible_name h]
      exact ⟨by simpa using hafter.nameChar, trivial⟩
  | .binary _ op l r, h, after, hafter => by
      cases role <;> simp only [Writable] at h
      have hend : Clear isNumberEnd after :=
        hafter.numberEnd (.inr (.inl (rank_binary_lt _ op l r)))
      rw [pieces, legible_append, legible_space, legible_symbol, legible_space]
      exact ⟨legible_operand (legible_pieces style level .expression s l h.2.1)
          fun _ => .inl (clear_cons _ rfl),
        stops_space _ _,
        legible_operand (legible_pieces style level .expression s r h.2.2)
          fun _ => .inl hend⟩
  | .unary _ op e, h, after, hafter => by
      cases role <;> simp only [Writable] at h
      have hend : Clear isNumberEnd after := hafter.numberEnd (.inr (.inl (Nat.lt_of_sub_ne_zero nofun)))
      rw [pieces, legible_symbol]
      refine ⟨?_, legible_operand (legible_pieces style level .expression s e h.2)
        fun _ => .inl hend⟩
      cases op <;> trivial
  | .call _ callee args, h, after, hafter => by
      have hargs : WrittenName callee.name ∧ WritableAll .expression s args := by
        cases role <;> simp only [Writable] at h
        · exact h
        · exact h
      rw [pieces, legible_name hargs.1, legible_symbol, legible_append]
      exact ⟨clear_cons _ rfl, trivial,
        legible_row style level .expression s args hargs.2 _ (clear_cons _ rfl),
        legible_closing trivial⟩
  | .array _ es, h, after, hafter => by
      cases role <;> simp only [Writable] at h
      rw [pieces, legible_symbol, legible_append]
      exact ⟨trivial, legible_row style level .expression s es h _ (clear_cons _ rfl),
        legible_closing trivial⟩
  | .object _ ps, h, after, hafter => by
      cases role <;> simp only [Writable] at h
      rw [pieces, legible_symbol, legible_append]
      exact ⟨trivial, legible_row style level .entry s ps h _ (clear_cons _ rfl),
        legible_closing trivial⟩
  | .property _ key e, h, after, hafter => by
      cases role <;> simp only [Writable] at h
      rw [pieces, legible_name h.1, legible_symbol, legible_space]
      exact ⟨clear_cons _ rfl, trivial, legible_pieces style level .expression s e h.2 after
        (.inl (hafter.numberEnd (.inl (by decide))))⟩
  | .member _ e label, h, after, hafter => by
      cases role <;> simp only [Writable] at h
      rw [pieces, legible_append, legible_symbol, legible_name h.2]
      refine ⟨legible_operand (legible_pieces style level .expression s e h.1)
        fun hneeded => follows_target hneeded (clear_cons _ rfl), ?_, ?_, trivial⟩
      · have hdigit := clear_digit_of_writtenName h.2 after
        simpa [namePiece, Stops] using hdigit
      · simpa using hafter.nameChar
  | .index _ e key, h, after, hafter => by
      cases role <;> simp only [Writable] at h
      rw [pieces, legible_append, legible_symbol, legible_append]
      exact ⟨legible_operand (legible_pieces style level .expression s e h.1)
          fun _ => .inl (clear_cons _ rfl), trivial,
        legible_pieces style level .expression s key h.2 _ (.inl (clear_cons _ rfl)),
        legible_closing trivial⟩
  | .hole _, h, after, hafter => by
      rw [pieces, legible_symbol]
      exact ⟨trivial, trivial⟩
  | .pipe _ [], h, after, hafter => by cases role <;> simp only [Writable] at h
  | .pipe _ (first :: more), h, after, hafter => by
      cases role <;> simp only [Writable] at h
      have hend : Clear isNumberEnd after := hafter.numberEnd (.inr (.inl (Nat.lt_of_sub_ne_zero nofun)))
      rw [pieces, legible_append]
      refine ⟨legible_operand (legible_pieces style level .expression s first h.1)
        fun _ => .inl ?_, legible_stages style (level + 1) _ more h.2.2 after hend⟩
      cases more with
      | nil => exact absurd rfl h.2.1
      | cons x more => exact clear_cons _ rfl
  | .function _ params body, h, after, hafter => by
      cases role <;> simp only [Writable] at h
      rw [pieces, legible_symbol, legible_append, legible_symbol, legible_space, legible_symbol,
        legible_space, legible_symbol, legible_append, legible_append]
      refine ⟨trivial, legible_params h.1 _, trivial, trivial, trivial, ?_, ?_,
        legible_closing trivial⟩
      · refine legible_lines style (level + 1) _ body h.2 _ ?_
        cases body <;> exact clear_cons _ rfl
      · cases body with
        | nil => trivial
        | cons x rest => simp [lastLine, legible_newLine, Legible]
  | .declaration _ word name init, h, after, hafter => by
      cases role <;> simp only [Writable] at h
      rw [pieces, legible_word, legible_name h.2.1, legible_space, legible_symbol, legible_space]
      exact ⟨clear_cons _ rfl, stops_space _ _,
        legible_pieces style level .expression s init h.2.2 after
          (.inl (hafter.numberEnd (.inl (by decide))))⟩
  | .statement _ e, h, after, hafter => by
      cases role <;> simp only [Writable] at h
      rw [pieces]
      exact legible_pieces style level .expression s e h after
        (.inl (hafter.numberEnd (.inl (by decide))))
  | .giveBack _ e, h, after, hafter => by
      cases role <;> simp only [Writable] at h
      rw [pieces, legible_word]
      exact legible_pieces style level .expression s e h.2 after
        (.inl (hafter.numberEnd (.inl (by decide))))
  | .program _ _, h, after, hafter => by
      rw [pieces]
      trivial

theorem legible_row (style : Style) (level : Nat) (role : Role) (s : Setting) :
    (es : List Node) → WritableAll role s es → ∀ after, Clear isNumberEnd after →
      Legible (some Number.maxDigits) after (row style level es)
  | [], _, _, _ => trivial
  | e :: rest, h, after, hafter => by
      rw [row, legible_append]
      refine ⟨legible_pieces style level role s e h.1 _ (.inl (clear_comma rfl rest ?_ hafter)),
        legible_comma rest (legible_row style level role s rest h.2 after hafter)⟩
      rintro rfl
      rfl

theorem legible_stages (style : Style) (level : Nat) (s : Setting) :
    (es : List Node) → WritableAll .stage s es → ∀ after, Clear isNumberEnd after →
      Legible (some Number.maxDigits) after (stagePieces style level es)
  | [], _, _, _ => trivial
  | e :: rest, h, after, hafter => by
      rw [stagePieces, legible_newLine, legible_symbol, legible_space, legible_append]
      refine ⟨trivial, legible_pieces style level .stage s e h.1 _ (.inl ?_),
        legible_stages style level s rest h.2 after hafter⟩
      cases rest with
      | nil => exact hafter
      | cons x rest => exact clear_cons _ rfl

theorem legible_lines (style : Style) (level : Nat) (s : Setting) :
    (body : List Node) → WritableAll .statement s body → ∀ after, Clear isNumberEnd after →
      Legible (some Number.maxDigits) after (lines style level body)
  | [], _, _, _ => trivial
  | n :: rest, h, after, hafter => by
      rw [lines, legible_newLine, legible_append]
      refine ⟨legible_pieces style level .statement s n h.1 _ (.inl ?_),
        legible_lines style level s rest h.2 after hafter⟩
      cases rest with
      | nil => exact hafter
      | cons x rest => exact clear_cons _ rfl

end

/-! ### First lexemes -/

/-- What is known of the first lexeme of something printed. -/
structure Leads (s : Setting) (kind : TokenKind) (text : List Char) : Prop where
  starts : Grammar.startsStatement kind = true
  percent : kind = .symbol .percent → s.inStage = true
  symbol : ∀ m, kind = .symbol m → text = m.text.toList

/-- Something printed starts with a lexeme. -/
def Led (s : Setting) (ps : List Piece) : Prop :=
  ∃ kind text rest, ps = .word kind text :: rest ∧ Leads s kind text

theorem led_symbol {s : Setting} {m : Symbol} (ps : List Piece)
    (hstarts : Grammar.startsStatement (.symbol m) = true) (hm : m ≠ .percent) :
    Led s (.symbol m :: ps) := by
  refine ⟨_, _, ps, rfl, hstarts, fun h => ?_, fun m' h => ?_⟩
  · cases h
    exact absurd rfl hm
  · cases h
    rfl

theorem led_word {s : Setting} {kind : TokenKind} {text : List Char} (ps : List Piece)
    (hstarts : Grammar.startsStatement kind = true) (hkind : ∀ m, kind ≠ .symbol m) :
    Led s (.word kind text :: ps) :=
  ⟨kind, text, ps, rfl, hstarts, fun h => absurd h (hkind _), fun m h => absurd h (hkind m)⟩

theorem Led.append {s : Setting} {ps : List Piece} (h : Led s ps) (qs : List Piece) :
    Led s (ps ++ qs) := by
  obtain ⟨kind, text, rest, rfl, hleads⟩ := h
  exact ⟨kind, text, rest ++ qs, rfl, hleads⟩

theorem Led.enclosed {s : Setting} {ps : List Piece} (h : Led s ps) (needed : Bool) :
    Led s (enclosed needed ps) := by
  cases needed with
  | false => exact h
  | true => exact led_symbol _ rfl (by decide)

theorem led_literal {s : Setting} {m : Mark} {value : Plain} {raw : String}
    (h : Writable .expression s (.literal m value raw)) :
    Led s [.word ((literalKind? value).getD .finish) raw.toList] := by
  simp only [Writable] at h
  obtain ⟨kind, hkind, -⟩ := h
  cases value with
  | number v => exact led_word _ rfl nofun
  | text v => exact led_word _ rfl nofun
  | bool b => exact led_word _ rfl nofun
  | null | opaqueItem | list _ | tuple _ | record _ => cases hkind

theorem led_pieces (style : Style) (level : Nat) (s : Setting) :
    (e : Node) → (role : Role) → role = .expression ∨ role = .statement → Writable role s e →
      Led s (pieces style level e)
  | .literal m value raw, role, hrole, h => by
      rw [pieces]
      cases role <;> simp only [Writable] at h
      exact led_literal (m := m) (by simpa only [Writable] using h)
  | .identifier i, _, _, _ => by
      rw [pieces]
      exact led_word _ rfl nofun
  | .binary _ op l r, role, _, h => by
      cases role <;> simp only [Writable] at h
      rw [pieces]
      exact ((led_pieces style level s l .expression (.inl rfl) h.2.1).enclosed _).append _
  | .unary _ op e, role, _, h => by
      rw [pieces]
      cases op <;> exact led_symbol _ rfl nofun
  | .call _ callee args, _, _, _ => by
      rw [pieces]
      exact led_word _ rfl nofun
  | .array _ es, _, _, _ | .object _ es, _, _, _ => by
      rw [pieces]
      exact led_symbol _ rfl (by decide)
  | .function _ params body, _, _, _ => by
      rw [pieces]
      exact led_symbol _ rfl (by decide)
  | .member _ e label, role, _, h => by
      cases role <;> simp only [Writable] at h
      rw [pieces]
      exact ((led_pieces style level s e .expression (.inl rfl) h.1).enclosed _).append _
  | .index _ e key, role, _, h => by
      cases role <;> simp only [Writable] at h
      rw [pieces]
      exact ((led_pieces style level s e .expression (.inl rfl) h.1).enclosed _).append _
  | .hole _, role, _, h => by
      cases role <;> simp only [Writable] at h
      rw [pieces]
      refine ⟨_, _, [], rfl, rfl, fun _ => h, fun m hm => ?_⟩
      cases hm
      rfl
  | .pipe _ [], role, _, h => by cases role <;> simp only [Writable] at h
  | .pipe _ (first :: more), role, _, h => by
      cases role <;> simp only [Writable] at h
      rw [pieces]
      exact ((led_pieces style level s first .expression (.inl rfl) h.1).enclosed _).append _
  | .declaration _ word name init, _, _, _ => by
      rw [pieces]
      exact led_word _ rfl nofun
  | .statement _ e, role, _, h => by
      cases role <;> simp only [Writable] at h
      rw [pieces]
      exact led_pieces style level s e .expression (.inl rfl) h
  | .giveBack _ e, _, _, _ => by
      rw [pieces]
      exact led_word _ rfl nofun
  | .program _ _, role, hrole, h => by
      rcases hrole with rfl | rfl <;> simp only [Writable] at h
  | .property _ _ _, role, hrole, h => by
      rcases hrole with rfl | rfl <;> simp only [Writable] at h

theorem head?_enclosed {needed : Bool} {ps qs : List Piece} (h : ps.head? = qs.head?) :
    (enclosed needed ps).head? = (enclosed needed qs).head? := by
  cases needed with
  | false => exact h
  | true => rfl

/-- How something printed starts does not depend on the layout. -/
theorem head?_pieces (style style' : Style) (level level' : Nat) (s : Setting) :
    (e : Node) → (role : Role) → role = .expression ∨ role = .statement → Writable role s e →
      (pieces style level e).head? = (pieces style' level' e).head?
  | .literal _ _ _, _, _, _ | .identifier _, _, _, _ | .unary _ _ _, _, _, _
  | .call _ _ _, _, _, _ | .array _ _, _, _, _ | .object _ _, _, _, _
  | .function _ _ _, _, _, _ | .hole _, _, _, _ | .declaration _ _ _ _, _, _, _
  | .giveBack _ _, _, _, _ | .property _ _ _, _, _, _ | .program _ _, _, _, _
  | .pipe _ [], _, _, _ => by simp [pieces]
  | .binary _ op l r, role, _, h => by
      cases role <;> simp only [Writable] at h
      have hhead := head?_pieces style style' level level' s l .expression (.inl rfl) h.2.1
      simp only [pieces, List.head?_append, head?_enclosed hhead]
      rfl
  | .member _ e label, role, _, h => by
      cases role <;> simp only [Writable] at h
      have hhead := head?_pieces style style' level level' s e .expression (.inl rfl) h.1
      simp only [pieces, List.head?_append, head?_enclosed hhead]
  | .index _ e key, role, _, h => by
      cases role <;> simp only [Writable] at h
      have hhead := head?_pieces style style' level level' s e .expression (.inl rfl) h.1
      simp only [pieces, List.head?_append, head?_enclosed hhead]
      rfl
  | .pipe _ (first :: more), role, _, h => by
      cases role <;> simp only [Writable] at h
      have hhead := head?_pieces style style' level level' s first .expression (.inl rfl) h.1
      obtain ⟨kind, text, rest, hled, -⟩ :=
        (led_pieces style' level' s first .expression (.inl rfl) h.1).enclosed
          (rank first ≤ looseStrength)
      simp only [pieces, List.head?_append, head?_enclosed hhead]
      simp only [hled]
      rfl
  | .statement _ e, role, _, h => by
      cases role <;> simp only [Writable] at h
      simp only [pieces]
      exact head?_pieces style style' level level' s e .expression (.inl rfl) h

end PartScript.Printer
