import PartScript.Proofs.Token.Skipped

/-!
Texts made of lexemes and blanks. If every lexeme of a text is one in front of what comes behind it,
the tokens of the text are the lexemes, each at the place where it stands. In the other direction, the
text of every token of any script is a lexeme behind blanks and comments, so that it can be put into a new
text.
-/

namespace PartScript.Lexer

/-- A piece of a text: blanks, or the text of a token. -/
inductive Piece where
  | blank (text : List Char)
  | word (kind : TokenKind) (text : List Char)

namespace Piece

/-- The characters of a piece. -/
def chars : Piece → List Char
  | blank text => text
  | word _ text => text

/-- The piece for a symbol. -/
def symbol (m : Symbol) : Piece := word (.symbol m) m.text.toList

end Piece

/-! ### Texts -/

/-- The characters of a row of pieces. -/
def chars : List Piece → List Char
  | [] => []
  | piece :: ps => piece.chars ++ chars ps

@[simp] theorem chars_nil : chars [] = [] := rfl

@[simp] theorem chars_cons (piece : Piece) (ps : List Piece) :
    chars (piece :: ps) = piece.chars ++ chars ps := rfl

@[simp] theorem chars_append (ps qs : List Piece) : chars (ps ++ qs) = chars ps ++ chars qs := by
  induction ps with
  | nil => rfl
  | cons piece ps ih => simp [ih]

@[simp] theorem Piece.chars_blank (text : List Char) : (blank text).chars = text := rfl

@[simp] theorem Piece.chars_word (kind : TokenKind) (text : List Char) :
    (word kind text).chars = text := rfl

@[simp] theorem Piece.chars_symbol (m : Symbol) : (symbol m).chars = m.text.toList := rfl

/-- The kinds of the lexemes in a row of pieces. -/
def kinds : List Piece → List TokenKind
  | [] => []
  | .blank _ :: ps => kinds ps
  | .word kind _ :: ps => kind :: kinds ps

@[simp] theorem kinds_nil : kinds [] = [] := rfl

@[simp] theorem kinds_blank (text : List Char) (ps : List Piece) :
    kinds (.blank text :: ps) = kinds ps := rfl

@[simp] theorem kinds_word (kind : TokenKind) (text : List Char) (ps : List Piece) :
    kinds (.word kind text :: ps) = kind :: kinds ps := rfl

@[simp] theorem kinds_symbol (m : Symbol) (ps : List Piece) :
    kinds (.symbol m :: ps) = .symbol m :: kinds ps := rfl

@[simp] theorem kinds_append (ps qs : List Piece) : kinds (ps ++ qs) = kinds ps ++ kinds qs := by
  induction ps with
  | nil => rfl
  | cons piece ps ih =>
      cases piece with
      | blank text => exact ih
      | word kind text => simp [ih]

/-- Pieces that can be told apart in front of some text: blanks are blanks, lexemes are lexemes, and
what follows a lexeme does not go on with it. -/
def Legible (limit : Option Nat) (after : List Char) : List Piece → Prop
  | [] => True
  | .blank text :: ps => (∀ c ∈ text, isSpace c = true) ∧ Legible limit after ps
  | .word kind text :: ps =>
    Lexeme limit kind text ∧ Stops kind (chars ps ++ after) ∧ Legible limit after ps

theorem legible_append {limit : Option Nat} {after : List Char} {ps qs : List Piece} :
    Legible limit after (ps ++ qs) ↔
      Legible limit (chars qs ++ after) ps ∧ Legible limit after qs := by
  induction ps with
  | nil => simp [Legible]
  | cons piece ps ih =>
      cases piece with
      | blank text => simp [Legible, ih, and_assoc]
      | word kind text => simp [Legible, ih, and_assoc, List.append_assoc]

theorem legible_symbol {limit : Option Nat} {after : List Char} {m : Symbol} {ps : List Piece} :
    Legible limit after (.symbol m :: ps) ↔
      Stops (.symbol m) (chars ps ++ after) ∧ Legible limit after ps := by
  simp [Piece.symbol, Legible, lexeme_symbol]

/-- The text is read as a token of a kind where it stands. -/
structure ScansAs (limit : Option Nat) (kind : TokenKind) (text after : List Char) : Prop where
  ne_nil : text ≠ []
  skip : skip .between (text ++ after) = .ok (text ++ after)
  scan : scanToken limit (text ++ after) = .ok (kind, after)

theorem Lexeme.scansAs {limit : Option Nat} {kind : TokenKind} {text after : List Char}
    (h : Lexeme limit kind text) (hafter : Stops kind after) : ScansAs limit kind text after :=
  ⟨h.ne_nil, h.skip after hafter, h.scan after hafter⟩

/-- Pieces that are told apart in front of some text, whether or not that could be seen from the first
character behind each of them. -/
def Readable (limit : Option Nat) (after : List Char) : List Piece → Prop
  | [] => True
  | .blank text :: ps => (∀ c ∈ text, isSpace c = true) ∧ Readable limit after ps
  | .word kind text :: ps => ScansAs limit kind text (chars ps ++ after) ∧ Readable limit after ps

theorem Legible.readable {limit : Option Nat} {after : List Char} {ps : List Piece}
    (h : Legible limit after ps) : Readable limit after ps := by
  induction ps with
  | nil => trivial
  | cons piece ps ih =>
      cases piece with
      | blank text => exact ⟨h.1, ih h.2⟩
      | word kind text => exact ⟨h.1.scansAs h.2.1, ih h.2.2⟩

theorem readable_append {limit : Option Nat} {after : List Char} {ps qs : List Piece} :
    Readable limit after (ps ++ qs) ↔
      Readable limit (chars qs ++ after) ps ∧ Readable limit after qs := by
  induction ps with
  | nil => simp [Readable]
  | cons piece ps ih =>
      cases piece with
      | blank text => simp [Readable, ih, and_assoc]
      | word kind text => simp [Readable, ih, and_assoc, List.append_assoc]

/-! ### Tokens of a text -/

/-- The tokens for pieces that start at a position. -/
def placed (file : Option String) : Position → List Piece → List Token
  | _, [] => []
  | p, .blank text :: ps => placed file (p.after text) ps
  | p, .word kind text :: ps =>
    ⟨kind, String.ofList text, ⟨p, p.after text, file⟩⟩ :: placed file (p.after text) ps

@[simp] theorem placed_nil (file : Option String) (p : Position) : placed file p [] = [] := rfl

theorem placed_append (file : Option String) (p : Position) (ps qs : List Piece) :
    placed file p (ps ++ qs) = placed file p ps ++ placed file (p.after (chars ps)) qs := by
  induction ps generalizing p with
  | nil => rfl
  | cons piece ps ih =>
      cases piece with
      | blank text => simp [placed, ih, Position.after_append]
      | word kind text => simp [placed, ih, Position.after_append]

theorem map_kind_placed (file : Option String) (p : Position) (ps : List Piece) :
    (placed file p ps).map Token.kind = kinds ps := by
  induction ps generalizing p with
  | nil => rfl
  | cons piece ps ih =>
      cases piece with
      | blank text => exact ih _
      | word kind text => simp [placed, ih]

theorem lexeme_append (cs rest : List Char) : lexeme (cs ++ rest) rest = String.ofList cs := by
  rw [lexeme, consumed_append]

/-- A token is scanned behind a gap, and then the tokens behind it. -/
theorem Reading.tokens_step {r : Reading} {fuel : Nat} {p : Position} (gap : List Char)
    {word rest : List Char} {kind : TokenKind} {more : List Token}
    (hskip : skip .between (gap ++ (word ++ rest)) = .ok (word ++ rest)) (hword : word ≠ [])
    (hscan : scanToken r.limit (word ++ rest) = .ok (kind, rest))
    (hmore : r.tokens fuel ((p.after gap).after word) rest = .ok more) :
    r.tokens (fuel + 1) p (gap ++ (word ++ rest)) =
      .ok (⟨kind, String.ofList word, ⟨p.after gap, (p.after gap).after word, r.file⟩⟩ :: more) := by
  have hgap : consumed (gap ++ (word ++ rest)) (word ++ rest) = gap := consumed_append _ _
  have htext : consumed (word ++ rest) rest = word := consumed_append _ _
  obtain ⟨c, cs, rfl⟩ := List.exists_cons_of_ne_nil hword
  simp only [Reading.tokens, hskip, mapError_ok, ok_bind, hgap]
  rw [List.cons_append] at hscan htext ⊢
  simp only [hscan, mapError_ok, ok_bind, lexeme, htext, hmore]
  rfl

/-- A text of which nothing is left when it is skipped has no token but the end. -/
theorem tokens_skipped {gap : List Char} (h : Skipped [] gap) (r : Reading) (fuel : Nat) (p : Position) :
    r.tokens (fuel + 1) p gap = .ok [⟨.finish, "", ⟨p.after gap, p.after gap, r.file⟩⟩] := by
  have hskip : skip .between (gap ++ []) = .ok [] := skip_skipped h
  have hgap : consumed (gap ++ []) [] = gap := consumed_append gap []
  rw [List.append_nil] at hskip hgap
  simp only [Reading.tokens, hskip, mapError_ok, ok_bind, hgap]
  rfl

/-- A text that starts with a lexeme behind something that is skipped gives its token and goes on behind it. -/
theorem tokens_lexeme {r : Reading} {kind : TokenKind} {text : List Char}
    (h : Lexeme r.limit kind text) {cs gap : List Char} (hstops : Stops kind cs)
    (hgap : Skipped (text ++ cs) gap) (fuel : Nat) (p : Position) {more : List Token}
    (hmore : r.tokens fuel ((p.after gap).after text) cs = .ok more) :
    r.tokens (fuel + 1) p (gap ++ (text ++ cs)) =
      .ok (⟨kind, String.ofList text, ⟨p.after gap, (p.after gap).after text, r.file⟩⟩ :: more) :=
  Reading.tokens_step gap ((skip_skipped hgap).trans (h.skip cs hstops)) h.ne_nil (h.scan cs hstops) hmore

/-- Readable pieces behind blanks are read as they are placed. -/
theorem tokens_readable {r : Reading} {ps : List Piece} (h : Readable r.limit [] ps)
    (bs : List Char) (hbs : ∀ b ∈ bs, isSpace b = true) {fuel : Nat}
    (hfuel : (bs ++ chars ps).length ≤ fuel) (p : Position) :
    ∃ finish, r.tokens (fuel + 1) p (bs ++ chars ps) =
      .ok (placed r.file (p.after bs) ps ++ [⟨.finish, "", finish⟩]) := by
  induction ps generalizing bs fuel p with
  | nil =>
      rw [chars_nil, List.append_nil]
      exact ⟨_, tokens_skipped (skipped_blanks hbs []) r fuel p⟩
  | cons piece ps ih =>
      cases piece with
      | blank text =>
          have hall : ∀ b ∈ bs ++ text, isSpace b = true := by
            intro b hb
            rcases List.mem_append.1 hb with hb | hb
            · exact hbs b hb
            · exact h.1 b hb
          obtain ⟨finish, hfinish⟩ := ih h.2 (bs ++ text) hall (by simpa using hfuel) p
          refine ⟨finish, ?_⟩
          rw [chars_cons, Piece.chars_blank, ← List.append_assoc, hfinish, Position.after_append]
          rfl
      | word kind text =>
          obtain ⟨hscans, hps⟩ := h
          rw [List.append_nil] at hscans
          have hpos : 0 < text.length := List.length_pos_iff.2 hscans.ne_nil
          simp only [chars_cons, Piece.chars_word, List.length_append] at hfuel
          obtain ⟨fuel, rfl⟩ := Nat.exists_eq_succ_of_ne_zero (show fuel ≠ 0 by omega)
          have hlength : ([] ++ chars ps).length ≤ fuel := by
            rw [List.nil_append]
            omega
          obtain ⟨finish, hfinish⟩ := ih hps [] (by simp) hlength ((p.after bs).after text)
          exact ⟨finish, Reading.tokens_step bs ((skip_blanks hbs _).trans hscans.skip) hscans.ne_nil
            hscans.scan hfinish⟩

theorem tokenizeWith_readable {limit : Option Nat} {ps : List Piece} (h : Readable limit [] ps)
    (file : Option String) :
    ∃ finish, tokenizeWith limit (String.ofList (chars ps)) file =
      .ok (placed file .first ps ++ [⟨.finish, "", finish⟩]) := by
  have htokens := tokens_readable
    (r := ⟨file, Text.linesOf (String.ofList (chars ps)), limit⟩) h [] (by simp)
    (Nat.le_refl _) .first
  simpa [PartScript.tokenizeWith] using htokens

/-- Legible pieces are read as they are placed. -/
theorem tokenizeWith_legible {limit : Option Nat} {ps : List Piece} (h : Legible limit [] ps)
    (file : Option String) :
    ∃ finish, tokenizeWith limit (String.ofList (chars ps)) file =
      .ok (placed file .first ps ++ [⟨.finish, "", finish⟩]) :=
  tokenizeWith_readable h.readable file

/-- A lexeme that is all of a source is read as its token. -/
theorem tokenize_lexeme {kind : TokenKind} {text : String}
    (h : Lexeme (some Number.maxDigits) kind text.toList) (file : Option String) :
    ∃ finish, tokenize text file = .ok [⟨kind, text, ⟨.first, Position.first.after text.toList, file⟩⟩,
      ⟨.finish, "", finish⟩] := by
  have hlegible : Legible (some Number.maxDigits) [] [.word kind text.toList] :=
    ⟨h, stops_nil kind, trivial⟩
  obtain ⟨finish, hfinish⟩ := tokenizeWith_legible hlegible file
  simp only [chars_cons, chars_nil, Piece.chars_word, List.append_nil, String.ofList_toList] at hfinish
  exact ⟨finish, hfinish.trans (by rw [placed, String.ofList_toList]; rfl)⟩

/-! ### Lexemes of a text -/

/-- A text starts with something that is skipped and the text of a token behind it. The token is a symbol, or it
is spelled as its kind says. -/
structure FirstToken (limit : Option Nat) (text gap word rest : List Char) (kind : TokenKind) : Prop where
  text_eq : text = gap ++ (word ++ rest)
  skip : skip .between text = .ok (word ++ rest)
  skipped : Skipped (word ++ rest) gap
  scan : scanToken limit (word ++ rest) = .ok (kind, rest)
  ne_finish : kind ≠ .finish
  spelled : (∃ m : Symbol, kind = .symbol m ∧ word = m.text.toList) ∨ Spelled limit kind word

theorem FirstToken.lexeme {limit : Option Nat} {text gap word rest : List Char} {kind : TokenKind}
    (h : FirstToken limit text gap word rest kind) : Lexeme limit kind word := by
  rcases h.spelled with ⟨m, rfl, rfl⟩ | hspelled
  · exact lexeme_symbol limit m
  · exact hspelled.lexeme

/-- Where there are tokens at all, either nothing but what is skipped is left, or a token comes first and others
behind it. -/
theorem Reading.tokens_succ_cases {r : Reading} {fuel : Nat} {p : Position} {text : List Char}
    {all : List Token} (h : r.tokens (fuel + 1) p text = .ok all) :
    (Skipped [] text ∧ all = [⟨.finish, "", ⟨p.after text, p.after text, r.file⟩⟩]) ∨
    ∃ gap word rest kind more, FirstToken r.limit text gap word rest kind ∧
      all = ⟨kind, String.ofList word, ⟨p.after gap, (p.after gap).after word, r.file⟩⟩ :: more ∧
      r.tokens fuel ((p.after gap).after word) rest = .ok more := by
  obtain ⟨here, hskip, h⟩ := bind_eq_ok h
  rw [mapError_eq_ok] at hskip
  obtain ⟨gap, rfl, hgap⟩ := exists_skipped_of_skip hskip
  rw [consumed_append] at h
  cases here with
  | nil =>
      cases h
      rw [List.append_nil]
      exact .inl ⟨hgap, rfl⟩
  | cons c cs =>
      obtain ⟨⟨kind, rest⟩, hscan, h⟩ := bind_eq_ok h
      obtain ⟨more, hmore, h⟩ := bind_eq_ok h
      rw [mapError_eq_ok] at hscan
      obtain ⟨hfinish, word, hword, hspelled⟩ := scanToken_eq_ok hscan
      rw [hword] at hskip hgap hscan h hmore ⊢
      rw [consumed_append] at hmore
      cases h
      rw [lexeme_append, consumed_append]
      exact .inr ⟨gap, word, rest, kind, more, ⟨rfl, hskip, hgap, hscan, hfinish, hspelled⟩, rfl, hmore⟩

/-- The token is the end of a text or a symbol, or its text is spelled as its kind says. -/
def Proper (limit : Option Nat) (t : Token) : Prop :=
  t.kind = .finish ∨ (∃ m, t.kind = .symbol m) ∨ Spelled limit t.kind t.lexeme.toList

theorem Reading.proper_of_mem {r : Reading} {fuel : Nat} {p : Position} {text : List Char}
    {all : List Token} (h : r.tokens fuel p text = .ok all) : ∀ t ∈ all, Proper r.limit t := by
  induction fuel generalizing p text all with
  | zero =>
      cases h
      simp [Proper]
  | succ fuel ih =>
      rcases tokens_succ_cases h with ⟨-, rfl⟩ | ⟨gap, word, rest, kind, more, hfirst, rfl, hmore⟩
      · simp [Proper]
      · refine List.forall_mem_cons.2 ⟨.inr ?_, ih hmore⟩
        rw [String.toList_ofList]
        exact hfirst.spelled.imp_left fun ⟨m, hkind, _⟩ => ⟨m, hkind⟩

/-- Every token of a script is proper. -/
theorem proper_of_tokenize {source : String} {file : Option String} {tokens : List Token}
    (h : tokenize source file = .ok tokens) :
    ∀ t ∈ tokens, Proper (some Number.maxDigits) t :=
  Reading.proper_of_mem h

end PartScript.Lexer
