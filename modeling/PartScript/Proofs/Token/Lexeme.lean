import PartScript.Proofs.Results
import PartScript.Token.Lexer

/-!
Lexemes. The text of a token stands for the same token wherever it is put, as long as what follows
does not go on with it. What may follow is a matter of the first character: no letter or digit behind
a word, no point either behind a number, and so on. Every token of a text was read from such a lexeme,
and the lexemes of words and symbols are known.
-/

namespace PartScript.Lexer

open Text

/-! ### What may follow -/

/-- The text does not start with a character of some class. -/
def Clear (p : Char → Bool) (cs : List Char) : Prop := ∀ c ∈ cs.head?, p c = false

theorem clear_nil (p : Char → Bool) : Clear p [] := by simp [Clear]

theorem clear_cons {p : Char → Bool} {c : Char} (cs : List Char) (h : p c = false) :
    Clear p (c :: cs) := by simpa [Clear] using h

theorem Clear.mono {p q : Char → Bool} {cs : List Char} (h : Clear p cs)
    (hqp : ∀ c, p c = false → q c = false) : Clear q cs :=
  fun c hc => hqp c (h c hc)

/-- The text may follow a token of some kind. -/
def Stops : TokenKind → List Char → Prop
  | .number _, cs => Clear (fun c => isNameChar c || c == '.') cs
  | .identifier _, cs | .keyword _, cs => Clear isNameChar cs
  | .symbol .assign, cs => Clear (· == '>') cs
  | .symbol .slash, cs => Clear (fun c => c == '/' || c == '*') cs
  | .symbol .dot, cs => Clear isDigit cs
  | _, _ => True

/-- The text is that of a token of some kind, wherever it stands. -/
structure Lexeme (limit : Option Nat) (kind : TokenKind) (text : List Char) : Prop where
  ne_nil : text ≠ []
  skip : ∀ cs, Stops kind cs → skip .between (text ++ cs) = .ok (text ++ cs)
  scan : ∀ cs, Stops kind cs → scanToken limit (text ++ cs) = .ok (kind, cs)

/-! ### Runs of characters -/

theorem dropWhile_of_clear {p : Char → Bool} {cs : List Char} (h : Clear p cs) :
    cs.dropWhile p = cs := by
  cases cs with
  | nil => rfl
  | cons c cs => rw [List.dropWhile_cons, h c rfl]; rfl

theorem takeWhile_of_clear {p : Char → Bool} {cs : List Char} (h : Clear p cs) :
    cs.takeWhile p = [] := by
  cases cs with
  | nil => rfl
  | cons c cs => rw [List.takeWhile_cons, h c rfl]; rfl

theorem dropWhile_run {p : Char → Bool} {ds cs : List Char} (hds : ∀ c ∈ ds, p c = true)
    (hcs : Clear p cs) : (ds ++ cs).dropWhile p = cs := by
  rw [List.dropWhile_append_of_pos hds, dropWhile_of_clear hcs]

theorem takeWhile_run {p : Char → Bool} {ds cs : List Char} (hds : ∀ c ∈ ds, p c = true)
    (hcs : Clear p cs) : (ds ++ cs).takeWhile p = ds := by
  rw [List.takeWhile_append_of_pos hds, takeWhile_of_clear hcs, List.append_nil]

/-- A text is a run of characters of a class and a text that does not start with one. -/
theorem exists_run (p : Char → Bool) (cs : List Char) :
    ∃ ds, cs = ds ++ cs.dropWhile p ∧ (∀ c ∈ ds, p c = true) ∧ Clear p (cs.dropWhile p) := by
  refine ⟨cs.takeWhile p, List.takeWhile_append_dropWhile.symm,
    fun c hc => List.all_eq_true.1 List.all_takeWhile c hc, fun c hc => ?_⟩
  have hhead := List.head?_dropWhile_not p cs
  rw [Option.mem_def.1 hc] at hhead
  simpa using hhead

/-! ### Blanks -/

theorem skip_cons {c : Char} {cs : List Char} (hspace : isSpace c = false)
    (hslash : c = '/' → Clear (fun d => d == '/' || d == '*') cs) :
    skip .between (c :: cs) = .ok (c :: cs) := by
  have hclear (d : Char) (hd : d = '/' ∨ d = '*') (rest : List Char) (hc : c = '/') :
      cs ≠ d :: rest := by
    rintro rfl
    have hfalse := hslash hc d rfl
    rcases hd with rfl | rfl <;> simp at hfalse
  rw [skip, hspace]
  · rfl
  · exact fun rest hc heq => hclear '/' (.inl rfl) rest hc heq
  · exact fun rest hc heq => hclear '*' (.inr rfl) rest hc heq

theorem isSpace_ne_slash {c : Char} (h : isSpace c = true) : c ≠ '/' := by
  rintro rfl
  simp [isSpace] at h

theorem stops_nil (kind : TokenKind) : Stops kind [] := by
  unfold Stops
  split <;> first | exact clear_nil _ | trivial

/-- No token goes on with a blank. -/
theorem stops_blank (kind : TokenKind) {c : Char} (hc : isSpace c = true) (cs : List Char) :
    Stops kind (c :: cs) := by
  simp only [isSpace, Bool.or_eq_true, beq_iff_eq] at hc
  unfold Stops
  rcases hc with ((rfl | rfl) | rfl) | rfl <;> split <;> first | exact clear_cons _ rfl | trivial

/-- Blanks in front of a text are skipped. -/
theorem skip_blanks {bs : List Char} (hbs : ∀ b ∈ bs, isSpace b = true) (cs : List Char) :
    skip .between (bs ++ cs) = skip .between cs := by
  induction bs with
  | nil => rfl
  | cons b bs ih =>
      have hb := hbs b (by simp)
      rw [List.cons_append, skip, hb, if_pos rfl]
      · exact ih fun c hc => hbs c (by simp [hc])
      · exact fun rest hc _ => isSpace_ne_slash hb hc
      · exact fun rest hc _ => isSpace_ne_slash hb hc

/-! ### Symbols -/

theorem scanToken_symbol (limit : Option Nat) {c : Char} {cs : List Char}
    (hquote : (c == '"' || c == '\'') = false) (hnumber : startsNumber c cs = false)
    (hname : isNameStart c = false) : scanToken limit (c :: cs) = scanSymbol c cs := by
  simp [scanToken, hquote, hnumber, hname]

theorem startsNumber_of_ne {c : Char} (cs : List Char) (hdigit : isDigit c = false)
    (hpoint : c ≠ '.') : startsNumber c cs = false := by
  simp [startsNumber, hdigit, hpoint]

theorem startsNumber_point {cs : List Char} (h : Clear isDigit cs) :
    startsNumber '.' cs = false := by
  have hdigit : isDigit '.' = false := by decide
  cases cs with
  | nil => simp [startsNumber, hdigit]
  | cons c cs => simp [startsNumber, hdigit, h c rfl]

/-- A character that spells a symbol alone and starts no other token does so if no pair is made. -/
theorem scanSymbol_single {c : Char} {m : Symbol} {cs : List Char} (hm : Symbol.ofChar? c = some m)
    (hpair : cs.head?.bind (Symbol.ofPair? c) = none) : scanSymbol c cs = .ok (.symbol m, cs) := by
  simp [scanSymbol, hpair, hm]

theorem ofPair?_eq_none {c : Char} (h : c ≠ '=' ∧ c ≠ '|') (d : Char) :
    Symbol.ofPair? c d = none := by
  unfold Symbol.ofPair?
  split
  · exact absurd rfl h.1
  · exact absurd rfl h.2
  · rfl

theorem bind_ofPair?_eq_none {c : Char} (h : c ≠ '=' ∧ c ≠ '|') (cs : List Char) :
    cs.head?.bind (Symbol.ofPair? c) = none := by
  cases cs with
  | nil => rfl
  | cons d cs => exact ofPair?_eq_none h d

theorem bind_ofPair?_assign {cs : List Char} (h : Clear (· == '>') cs) :
    cs.head?.bind (Symbol.ofPair? '=') = none := by
  cases cs with
  | nil => rfl
  | cons d cs =>
      have hd : d ≠ '>' := by simpa using h d rfl
      simp [Symbol.ofPair?, hd]

/-- A symbol of one character is the lexeme of itself if what may follow makes it nothing else. -/
theorem lexeme_single (limit : Option Nat) {c : Char} {m : Symbol} (hm : Symbol.ofChar? c = some m)
    (hc : (isSpace c || isDigit c || isNameStart c || (c == '"' || c == '\'')) = false)
    (hslash : ∀ cs, Stops (.symbol m) cs → c = '/' → Clear (fun d => d == '/' || d == '*') cs)
    (hpoint : ∀ cs, Stops (.symbol m) cs → c = '.' → Clear isDigit cs)
    (hpair : ∀ cs, Stops (.symbol m) cs → cs.head?.bind (Symbol.ofPair? c) = none) :
    Lexeme limit (.symbol m) [c] := by
  simp only [Bool.or_eq_false_iff] at hc
  obtain ⟨⟨⟨hspace, hdigit⟩, hname⟩, hquote⟩ := hc
  refine ⟨by simp, fun cs hcs => skip_cons hspace (hslash cs hcs), fun cs hcs => ?_⟩
  have hnumber : startsNumber c cs = false := by
    by_cases heq : c = '.'
    · subst heq
      exact startsNumber_point (hpoint cs hcs rfl)
    · exact startsNumber_of_ne cs hdigit heq
  have hscan := scanToken_symbol limit (by simpa using hquote) hnumber hname
  rw [List.singleton_append, hscan, scanSymbol_single hm (hpair cs hcs)]

/-- A symbol of one character that needs nothing of what follows. -/
theorem lexeme_plain (limit : Option Nat) {c : Char} {m : Symbol} (hm : Symbol.ofChar? c = some m)
    (hc : (isSpace c || isDigit c || isNameStart c || (c == '"' || c == '\'')) = false)
    (hne : c ≠ '/' ∧ c ≠ '.' ∧ c ≠ '=' ∧ c ≠ '|') : Lexeme limit (.symbol m) [c] :=
  lexeme_single limit hm hc (fun _ _ heq => absurd heq hne.1) (fun _ _ heq => absurd heq hne.2.1)
    (fun cs _ => bind_ofPair?_eq_none hne.2.2 cs)

/-- A symbol of two characters needs nothing of what follows. -/
theorem lexeme_pair (limit : Option Nat) {c d : Char} {m : Symbol}
    (hm : Symbol.ofPair? c d = some m)
    (hc : (isSpace c || isDigit c || isNameStart c || (c == '"' || c == '\'')) = false)
    (hne : c ≠ '/' ∧ c ≠ '.') : Lexeme limit (.symbol m) [c, d] := by
  simp only [Bool.or_eq_false_iff] at hc
  obtain ⟨⟨⟨hspace, hdigit⟩, hname⟩, hquote⟩ := hc
  refine ⟨by simp, fun cs _ => skip_cons hspace (fun heq => absurd heq hne.1), fun cs _ => ?_⟩
  have hscan := scanToken_symbol limit (by simpa using hquote)
    (startsNumber_of_ne (d :: cs) hdigit hne.2) hname
  simp only [List.cons_append, List.nil_append, hscan]
  simp [scanSymbol, hm]

/-- The spelling of a symbol is its lexeme. -/
theorem lexeme_symbol (limit : Option Nat) (m : Symbol) :
    Lexeme limit (.symbol m) m.text.toList := by
  cases m with
  | slash =>
      exact lexeme_single limit rfl (by decide) (fun _ hcs _ => hcs) (fun _ _ heq => by cases heq)
        (fun cs _ => bind_ofPair?_eq_none (by decide) cs)
  | dot =>
      exact lexeme_single limit rfl (by decide) (fun _ _ heq => by cases heq) (fun _ hcs _ => hcs)
        (fun cs _ => bind_ofPair?_eq_none (by decide) cs)
  | assign =>
      exact lexeme_single limit rfl (by decide) (fun _ _ heq => by cases heq)
        (fun _ _ heq => by cases heq) (fun cs hcs => bind_ofPair?_assign hcs)
  | pipe | arrow => exact lexeme_pair limit rfl (by decide) (by decide)
  | plus | minus | star | percent | bang | lparen | rparen | lbracket | rbracket | lbrace | rbrace
  | comma | colon => exact lexeme_plain limit rfl (by decide) (by decide)

/-! ### Words -/

theorem isNameChar_of_isNameStart {c : Char} (h : isNameStart c = true) : isNameChar c = true := by
  simp [isNameChar, h]

theorem isDigit_of_isNameStart {c : Char} (h : isNameStart c = true) : isDigit c = false := by
  simp only [isNameStart, isDigit, Char.le_def, UInt32.le_iff_toNat_le, Bool.or_eq_true,
    Bool.and_eq_true, decide_eq_true_eq, beq_iff_eq] at h ⊢
  rcases h with (h | h) | rfl
  · simp at *
    omega
  · simp at *
    omega
  · decide

/-- A character of a class is none of the characters that start something else, if these are not of
the class. -/
theorem excludes {p : Char → Bool} {c : Char} (h : p c = true)
    (hp : [' ', '\t', '\r', '\n', '"', '\'', '/'].all (fun d => !p d) = true) :
    isSpace c = false ∧ (c == '"' || c == '\'') = false ∧ c ≠ '/' := by
  have hne (d : Char) (hd : p d = false) : c ≠ d := by
    rintro rfl
    rw [h] at hd
    cases hd
  simp only [List.all_cons, List.all_nil, Bool.and_true, Bool.and_eq_true, Bool.not_eq_true'] at hp
  obtain ⟨h1, h2, h3, h4, h5, h6, h7⟩ := hp
  refine ⟨?_, ?_, hne _ h7⟩
  · simp [isSpace, hne _ h1, hne _ h2, hne _ h3, hne _ h4]
  · simp [hne _ h5, hne _ h6]

/-- A word that starts like a name and has only characters of names is the lexeme of its kind. -/
theorem lexeme_word (limit : Option Nat) {c : Char} {cs : List Char} (hc : isNameStart c = true)
    (hcs : ∀ d ∈ cs, isNameChar d = true) :
    Lexeme limit (wordKind (String.ofList (c :: cs))) (c :: cs) := by
  obtain ⟨hspace, hquote, hslash⟩ := excludes hc (by decide)
  have hdigit := isDigit_of_isNameStart hc
  have hpoint : c ≠ '.' := by
    rintro rfl
    cases hc
  have hall : ∀ d ∈ c :: cs, isNameChar d = true := by
    intro d hd
    rcases List.mem_cons.1 hd with rfl | hd
    · exact isNameChar_of_isNameStart hc
    · exact hcs d hd
  have hstops (rest : List Char) (h : Stops (wordKind (String.ofList (c :: cs))) rest) :
      Clear isNameChar rest := by
    unfold wordKind at h
    split at h <;> exact h
  refine ⟨by simp, fun rest _ => skip_cons hspace (fun heq => absurd heq hslash), fun rest h => ?_⟩
  have hword : scanWord (c :: cs ++ rest) = (wordKind (String.ofList (c :: cs)), rest) := by
    rw [scanWord, takeWhile_run hall (hstops rest h), dropWhile_run hall (hstops rest h)]
  have hscan : scanToken limit (c :: cs ++ rest) = .ok (scanWord (c :: cs ++ rest)) := by
    simp [scanToken, startsNumber_of_ne _ hdigit hpoint, hc, hquote]
  rw [hscan, hword]

/-! ### Strings -/

/-- What is scanned of a string is scanned of it in front of any other text. -/
theorem scanString_eq_ok {opening : List Char} {quote : Char} {text content left : List Char}
    (h : scanString opening quote text = .ok (content, left)) :
    ∃ lexeme, text = lexeme ++ left ∧
      ∀ opening cs, scanString opening quote (lexeme ++ cs) = .ok (content, cs) := by
  fun_induction scanString opening quote text generalizing content with
  | case1 => cases h
  | case2 c rest hc =>
      cases h
      exact ⟨[c], rfl, fun _ _ => by rw [List.singleton_append, scanString.eq_def]; simp [hc]⟩
  | case3 => cases h
  | case4 => cases h
  | case5 => cases h
  | case6 c hquote hline hescape d more e he ih =>
      obtain ⟨⟨content', left'⟩, hmore, h⟩ := bind_eq_ok h
      cases h
      obtain ⟨lexeme, rfl, hlexeme⟩ := ih hmore
      refine ⟨c :: d :: lexeme, rfl, fun opening cs => ?_⟩
      rw [List.cons_append, List.cons_append, scanString.eq_def]
      simp only [hquote, hline, hescape, he, hlexeme opening cs]
      rfl
  | case7 c rest hquote hline hescape ih =>
      obtain ⟨⟨content', left'⟩, hmore, h⟩ := bind_eq_ok h
      cases h
      obtain ⟨lexeme, rfl, hlexeme⟩ := ih hmore
      refine ⟨c :: lexeme, rfl, fun opening cs => ?_⟩
      rw [List.cons_append, scanString.eq_def]
      simp only [hquote, hline, hescape, hlexeme opening cs]
      rfl

theorem lexeme_string (limit : Option Nat) {c : Char} {rest content left : List Char}
    (hc : (c == '"' || c == '\'') = true)
    (h : scanString (c :: rest) c rest = .ok (content, left)) :
    ∃ lexeme, c :: rest = lexeme ++ left ∧ Lexeme limit (.string (String.ofList content)) lexeme := by
  obtain ⟨lexeme, rfl, hlexeme⟩ := scanString_eq_ok h
  have hspace : isSpace c = false ∧ c ≠ '/' := by
    rcases Bool.or_eq_true_iff.1 hc with hc | hc <;> rw [beq_iff_eq.1 hc] <;> decide
  refine ⟨c :: lexeme, rfl, by simp, fun cs _ => skip_cons hspace.1 (fun heq => absurd heq hspace.2),
    fun cs _ => ?_⟩
  rw [List.cons_append, scanToken, if_pos hc, hlexeme (c :: (lexeme ++ cs)) cs]
  rfl

/-! ### Numbers -/

/-- A point with digits behind it, or nothing. -/
def IsFraction (cs : List Char) : Prop :=
  cs = [] ∨ ∃ d ds, cs = '.' :: d :: ds ∧ ∀ c ∈ d :: ds, isDigit c = true

/-- The letter of an exponent with a sign perhaps and digits behind it, or nothing. -/
def IsExponent (cs : List Char) : Prop :=
  cs = [] ∨ ∃ e sign d ds, cs = e :: (sign ++ d :: ds) ∧ (e == 'e' || e == 'E') = true ∧
    (sign = [] ∨ sign = ['+'] ∨ sign = ['-']) ∧ ∀ c ∈ d :: ds, isDigit c = true

/-- The characters that may not follow a number. -/
abbrev isNumberEnd (c : Char) : Bool := isNameChar c || c == '.'

theorem consumed_append (cs rest : List Char) : consumed (cs ++ rest) rest = cs := by
  simp [consumed]

theorem skipFraction?_eq_some {whole rest : List Char} (h : skipFraction? whole = some rest) :
    ∃ frac, whole = frac ++ rest ∧ IsFraction frac ∧ frac ≠ [] ∧ Clear isDigit rest := by
  unfold skipFraction? at h
  split at h
  · rename_i d cs
    split at h
    · rename_i hd
      cases h
      obtain ⟨ds, hds, hall, hclear⟩ := exists_run isDigit cs
      have hskip : skipDigits (d :: cs) = cs.dropWhile isDigit := by
        rw [skipDigits, List.dropWhile_cons, if_pos hd]
      refine ⟨'.' :: d :: ds, ?_, .inr ⟨d, ds, rfl, ?_⟩, by simp, by rwa [hskip]⟩
      · rw [hskip, List.cons_append, List.cons_append, ← hds]
      · intro c hc
        rcases List.mem_cons.1 hc with rfl | hc
        · exact hd
        · exact hall c hc
    · cases h
  · cases h

theorem skipFraction?_append {frac cs : List Char} (hfrac : IsFraction frac)
    (hcs : Clear isDigit cs) (hpoint : frac = [] → skipFraction? cs = none) :
    skipFraction? (frac ++ cs) = if frac = [] then none else some cs := by
  rcases hfrac with rfl | ⟨d, ds, rfl, hds⟩
  · rw [if_pos rfl]
    exact hpoint rfl
  · have hd := hds d (by simp)
    simp only [List.cons_append, skipFraction?, hd, if_true]
    rw [skipDigits, ← List.cons_append, dropWhile_run hds hcs]
    rfl

theorem skipSign_append {sign : List Char} (ds cs : List Char) {d : Char} (hd : isDigit d = true)
    (hsign : sign = [] ∨ sign = ['+'] ∨ sign = ['-']) :
    skipSign (sign ++ d :: ds ++ cs) = d :: ds ++ cs := by
  rcases hsign with rfl | rfl | rfl
  · simp only [List.nil_append, List.cons_append]
    unfold skipSign
    split
    · rename_i heq
      cases heq
      simp [isDigit] at hd
    · rename_i heq
      cases heq
      simp [isDigit] at hd
    · rfl
  · rfl
  · rfl

theorem exists_skipSign (cs : List Char) :
    ∃ sign, cs = sign ++ skipSign cs ∧ (sign = [] ∨ sign = ['+'] ∨ sign = ['-']) := by
  unfold skipSign
  split
  · exact ⟨['+'], rfl, .inr (.inl rfl)⟩
  · exact ⟨['-'], rfl, .inr (.inr rfl)⟩
  · exact ⟨[], rfl, .inl rfl⟩

theorem skipExponent?_eq_ok {mantissa rest : List Char}
    (h : skipExponent? mantissa = .ok (some rest)) :
    ∃ exp, mantissa = exp ++ rest ∧ IsExponent exp ∧ exp ≠ [] ∧ Clear isDigit rest := by
  cases mantissa with
  | nil => cases h
  | cons e cs =>
      simp only [skipExponent?] at h
      split at h
      · rename_i he
        obtain ⟨sign, hsign, hsigns⟩ := exists_skipSign cs
        cases hdigits : skipSign cs with
        | nil => simp [hdigits] at h
        | cons d ds =>
            rw [hdigits] at h hsign
            by_cases hd : ((d :: ds).head?.map isDigit).getD false = true
            · rw [if_pos hd] at h
              have hd : isDigit d = true := hd
              obtain ⟨run, hrun, hall, hclear⟩ := exists_run isDigit ds
              have hskip : skipDigits (d :: ds) = ds.dropWhile isDigit := by
                rw [skipDigits, List.dropWhile_cons, if_pos hd]
              rw [hskip] at h
              cases h
              refine ⟨e :: (sign ++ d :: run), ?_, .inr ⟨e, sign, d, run, rfl, he, hsigns, ?_⟩,
                by simp, hclear⟩
              · rw [hsign]
                simp only [List.cons_append, List.append_assoc]
                rw [← hrun]
              · intro c hc
                rcases List.mem_cons.1 hc with rfl | hc
                · exact hd
                · exact hall c hc
            · rw [if_neg hd] at h
              cases h
      · cases h

theorem skipExponent?_append {exp cs : List Char} (hexp : IsExponent exp)
    (hcs : Clear isDigit cs) (hletter : exp = [] → Clear (fun c => c == 'e' || c == 'E') cs) :
    skipExponent? (exp ++ cs) = .ok (if exp = [] then none else some cs) := by
  rcases hexp with rfl | ⟨e, sign, d, ds, rfl, he, hsign, hds⟩
  · rw [if_pos rfl, List.nil_append]
    cases cs with
    | nil => rfl
    | cons c cs =>
        have hc : (c == 'e' || c == 'E') = false := hletter rfl c rfl
        simp [skipExponent?, hc]
  · have hd := hds d (by simp)
    have hdigits := skipSign_append ds cs hd hsign
    simp only [List.cons_append, skipExponent?, he, if_true, hdigits, List.head?_cons,
      Option.map_some, Option.getD_some, hd]
    rw [skipDigits, ← List.cons_append, dropWhile_run hds hcs]
    rfl

/-- The text of a number: digits, a fraction and an exponent with a value. There are digits at the
start or behind the point that is there. -/
structure NumberText (limit : Option Nat) (n : Number) (text : List Char) : Prop where
  start : ∃ c cs, text = c :: cs ∧
    (isDigit c = true ∨ c = '.' ∧ ∃ d ds, cs = d :: ds ∧ isDigit d = true)
  parts : ∃ ds frac exp, text = ds ++ (frac ++ exp) ∧ (∀ c ∈ ds, isDigit c = true) ∧
    IsFraction frac ∧ IsExponent exp ∧
    numberValue limit (decide (frac = []) && decide (exp = [])) text = .ok (some n)

theorem isFraction_head {frac : List Char} (h : IsFraction frac) (hne : frac ≠ []) :
    ∃ cs, frac = '.' :: cs := by
  rcases h with rfl | ⟨d, ds, rfl, -⟩
  · exact absurd rfl hne
  · exact ⟨_, rfl⟩

theorem isExponent_head {exp : List Char} (h : IsExponent exp) (hne : exp ≠ []) :
    ∃ e cs, exp = e :: cs ∧ (e == 'e' || e == 'E') = true := by
  rcases h with rfl | ⟨e, sign, d, ds, rfl, he, -⟩
  · exact absurd rfl hne
  · exact ⟨e, _, rfl, he⟩

/-- Behind the digits and behind the fraction there is no digit, since an exponent has a letter. -/
theorem clear_exponent {p : Char → Bool} {exp cs : List Char} (hexp : IsExponent exp)
    (he : p 'e' = false ∧ p 'E' = false) (hcs : Clear p cs) : Clear p (exp ++ cs) := by
  by_cases hne : exp = []
  · simpa [hne] using hcs
  · obtain ⟨e, cs', rfl, hletter⟩ := isExponent_head hexp hne
    refine clear_cons _ ?_
    rcases Bool.or_eq_true_iff.1 hletter with h | h
    · rw [beq_iff_eq.1 h]
      exact he.1
    · rw [beq_iff_eq.1 h]
      exact he.2

/-- Without a point there is no fraction. -/
theorem skipFraction?_of_clear {cs : List Char} (h : Clear (· == '.') cs) : skipFraction? cs = none := by
  unfold skipFraction?
  split
  · have hfalse := h '.' rfl
    simp at hfalse
  · rfl

/-- A number is scanned as a whole in front of a text that goes on with neither a name nor a fraction. -/
theorem scanNumber_append {limit : Option Nat} {n : Number} {text cs : List Char}
    (h : NumberText limit n text) (hname : Clear isNameChar cs) (hpoint : skipFraction? cs = none) :
    scanNumber limit (text ++ cs) = .ok (.number n, cs) := by
  obtain ⟨ds, frac, exp, rfl, hds, hfrac, hexp, hvalue⟩ := h.parts
  have hdigit : Clear isDigit cs := hname.mono fun c hc => (Bool.or_eq_false_iff.1 hc).2
  have hstarts : Clear isNameStart cs := hname.mono fun c hc => (Bool.or_eq_false_iff.1 hc).1
  have hletter : Clear (fun c => c == 'e' || c == 'E') cs :=
    hstarts.mono fun c hc => by
      cases he : (c == 'e' || c == 'E') with
      | false => rfl
      | true =>
          rcases Bool.or_eq_true_iff.1 he with h | h <;>
            (rw [beq_iff_eq.1 h] at hc; cases hc)
  have hafter : Clear isDigit (exp ++ cs) := clear_exponent hexp (by decide) hdigit
  have hnone : skipFraction? (exp ++ cs) = none := by
    by_cases hne : exp = []
    · rwa [hne]
    · obtain ⟨e, cs', rfl, he⟩ := isExponent_head hexp hne
      refine skipFraction?_of_clear (clear_cons _ ?_)
      rcases Bool.or_eq_true_iff.1 he with h | h <;> rw [beq_iff_eq.1 h] <;> decide
  have hwhole : skipDigits (ds ++ (frac ++ exp) ++ cs) = frac ++ (exp ++ cs) := by
    rw [List.append_assoc, List.append_assoc, skipDigits, dropWhile_run hds]
    by_cases hne : frac = []
    · simpa [hne] using hafter
    · obtain ⟨cs', rfl⟩ := isFraction_head hfrac hne
      exact clear_cons _ (by decide)
  have hfraction := skipFraction?_append hfrac hafter fun _ => hnone
  have hexponent := skipExponent?_append hexp hdigit fun _ => hletter
  have hmantissa : (skipFraction? (frac ++ (exp ++ cs))).getD (frac ++ (exp ++ cs)) = exp ++ cs := by
    rw [hfraction]
    by_cases hne : frac = [] <;> simp [hne]
  have hrest : (if exp = [] then none else some cs).getD (exp ++ cs) = cs := by
    by_cases hne : exp = [] <;> simp [hne]
  have hstart : (cs.head?.map isNameStart).getD false = false := by
    cases cs with
    | nil => rfl
    | cons c cs => exact hstarts c rfl
  have hflags : ((skipFraction? (frac ++ (exp ++ cs))).isNone &&
      (if exp = [] then none else some cs : Option (List Char)).isNone) =
      (decide (frac = []) && decide (exp = [])) := by
    rw [hfraction]
    by_cases hf : frac = [] <;> by_cases he : exp = [] <;> simp [hf, he]
  simp only [scanNumber, hwhole, hmantissa, hexponent, hrest, hstart, hflags, consumed_append, hvalue]
  rfl

theorem exists_fraction (whole : List Char) :
    ∃ frac, whole = frac ++ (skipFraction? whole).getD whole ∧ IsFraction frac ∧
      decide (frac = []) = (skipFraction? whole).isNone := by
  cases h : skipFraction? whole with
  | none => exact ⟨[], rfl, .inl rfl, rfl⟩
  | some rest =>
      obtain ⟨frac, hwhole, hfrac, hne, -⟩ := skipFraction?_eq_some h
      exact ⟨frac, hwhole, hfrac, by simpa using hne⟩

theorem exists_exponent {mantissa : List Char} {exponent : Option (List Char)}
    (h : skipExponent? mantissa = .ok exponent) :
    ∃ exp, mantissa = exp ++ exponent.getD mantissa ∧ IsExponent exp ∧
      decide (exp = []) = exponent.isNone := by
  cases exponent with
  | none => exact ⟨[], rfl, .inl rfl, rfl⟩
  | some rest =>
      obtain ⟨exp, hmantissa, hexp, hne, -⟩ := skipExponent?_eq_ok h
      exact ⟨exp, hmantissa, hexp, by simpa using hne⟩

/-- The digits and the fraction of a text that starts with a number start with it too. -/
theorem number_start {c : Char} {cs ds frac exp : List Char} (hstart : startsNumber c cs = true)
    (hds : c :: cs = ds ++ skipDigits (c :: cs)) (hclear : Clear isDigit (skipDigits (c :: cs)))
    (hfrac : IsFraction frac)
    (hfracNone : decide (frac = []) = (skipFraction? (skipDigits (c :: cs))).isNone) :
    ∃ d ds', ds ++ (frac ++ exp) = d :: ds' ∧
      (isDigit d = true ∨ d = '.' ∧ ∃ e es, ds' = e :: es ∧ isDigit e = true) := by
  by_cases hc : isDigit c = true
  · cases ds with
    | nil =>
        have hfalse := hclear c (by rw [List.nil_append] at hds; rw [← hds]; rfl)
        rw [hc] at hfalse
        cases hfalse
    | cons d ds =>
        obtain ⟨rfl, -⟩ := List.cons.inj hds
        exact ⟨c, _, rfl, .inl hc⟩
  · have hskip : skipDigits (c :: cs) = c :: cs := by
      rw [skipDigits, List.dropWhile_cons, if_neg hc]
    have hnil : ds = [] := by
      rw [hskip] at hds
      exact List.append_left_eq_self.1 hds.symm
    have hpoint : c = '.' ∧ (cs.head?.map isDigit).getD false = true := by
      simpa [startsNumber, hc] using hstart
    obtain ⟨rfl, hdigit⟩ := hpoint
    cases cs with
    | nil => cases hdigit
    | cons d cs =>
        have hd : isDigit d = true := hdigit
        have hsome : skipFraction? (skipDigits ('.' :: d :: cs)) ≠ none := by
          rw [hskip]
          simp [skipFraction?, hd]
        rcases hfrac with rfl | ⟨e, es, rfl, hes⟩
        · rw [Option.isNone_iff_eq_none.1 hfracNone.symm] at hsome
          exact absurd rfl hsome
        · exact ⟨'.', e :: (es ++ exp), by simp [hnil], .inr ⟨rfl, e, _, rfl, hes e (by simp)⟩⟩

theorem scanNumber_eq_ok {limit : Option Nat} {kind : TokenKind} {c : Char} {cs rest : List Char}
    (hstart : startsNumber c cs = true) (h : scanNumber limit (c :: cs) = .ok (kind, rest)) :
    ∃ n lexeme, kind = .number n ∧ c :: cs = lexeme ++ rest ∧ NumberText limit n lexeme := by
  obtain ⟨ds, hds, hall, hclear⟩ := exists_run isDigit (c :: cs)
  obtain ⟨frac, hwhole, hfrac, hfracNone⟩ := exists_fraction (skipDigits (c :: cs))
  unfold scanNumber at h
  dsimp only at h
  split at h
  · cases h
  · rename_i exponent hexponent
    obtain ⟨exp, hmantissa, hexp, hexpNone⟩ := exists_exponent hexponent
    split at h
    · cases h
    · split at h
      · cases h
      · cases h
      · rename_i n hvalue
        cases h
        rw [← hfracNone, ← hexpNone] at hvalue
        have htext : c :: cs = ds ++ (frac ++ exp) ++
            exponent.getD ((skipFraction? (skipDigits (c :: cs))).getD (skipDigits (c :: cs))) := by
          rw [List.append_assoc, List.append_assoc, ← hmantissa, ← hwhole]
          exact hds
        have hconsumed : consumed (c :: cs)
            (exponent.getD ((skipFraction? (skipDigits (c :: cs))).getD (skipDigits (c :: cs)))) =
            ds ++ (frac ++ exp) := by
          conv => lhs; arg 1; rw [htext]
          exact consumed_append _ _
        rw [hconsumed] at hvalue
        exact ⟨n, _, rfl, htext, number_start hstart hds hclear hfrac hfracNone,
          ds, frac, exp, rfl, hall, hfrac, hexp, hvalue⟩

theorem startsNumber_append {c : Char} {cs : List Char} (more : List Char)
    (h : isDigit c = true ∨ c = '.' ∧ ∃ d ds, cs = d :: ds ∧ isDigit d = true) :
    startsNumber c (cs ++ more) = true := by
  rcases h with h | ⟨rfl, d, ds, rfl, hd⟩
  · simp [startsNumber, h]
  · simp [startsNumber, hd]

/-- The text of a number starts with a digit or a point, so that nothing of it is skipped. -/
theorem NumberText.start_not_skipped {limit : Option Nat} {n : Number} {text : List Char}
    (h : NumberText limit n text) : ∃ c cs, text = c :: cs ∧ (∀ more, startsNumber c (cs ++ more) = true) ∧
      isSpace c = false ∧ (c == '"' || c == '\'') = false ∧ c ≠ '/' := by
  obtain ⟨c, cs, rfl, hc⟩ := h.start
  refine ⟨c, cs, rfl, fun more => startsNumber_append more hc, ?_⟩
  rcases hc with hc | ⟨rfl, -⟩
  · exact excludes hc (by decide)
  · decide

/-- The text of a number is skipped in no place. -/
theorem NumberText.skip {limit : Option Nat} {n : Number} {text : List Char}
    (h : NumberText limit n text) (cs : List Char) : skip .between (text ++ cs) = .ok (text ++ cs) := by
  obtain ⟨c, ds, rfl, -, hspace, -, hslash⟩ := h.start_not_skipped
  exact skip_cons hspace fun heq => absurd heq hslash

/-- The text of a number is scanned as that number in front of a text that does not go on with it. -/
theorem NumberText.scan {limit : Option Nat} {n : Number} {text cs : List Char}
    (h : NumberText limit n text) (hname : Clear isNameChar cs) (hpoint : skipFraction? cs = none) :
    scanToken limit (text ++ cs) = .ok (.number n, cs) := by
  obtain ⟨c, ds, rfl, hstarts, -, hquote, -⟩ := h.start_not_skipped
  have hscan : scanToken limit (c :: ds ++ cs) = scanNumber limit (c :: ds ++ cs) := by
    simp [scanToken, hquote, hstarts cs]
  rw [hscan, scanNumber_append h hname hpoint]

/-- The text of a number is its lexeme. -/
theorem lexeme_number {limit : Option Nat} {n : Number} {text : List Char}
    (h : NumberText limit n text) : Lexeme limit (.number n) text := by
  obtain ⟨c, cs, htext, -⟩ := h.start
  refine ⟨by simp [htext], fun rest _ => h.skip rest, fun rest hrest => ?_⟩
  exact h.scan (hrest.mono fun c hc => (Bool.or_eq_false_iff.1 hc).1)
    (skipFraction?_of_clear (hrest.mono fun c hc => (Bool.or_eq_false_iff.1 hc).2))

/-! ### Tokens -/

/-- What is known of the text of a token that is no symbol: it is a lexeme, a name is spelled by it,
and a number has the text of one. -/
structure Spelled (limit : Option Nat) (kind : TokenKind) (text : List Char) : Prop where
  lexeme : Lexeme limit kind text
  name : ∀ name, kind = .identifier name → name = String.ofList text
  number : ∀ n, kind = .number n → NumberText limit n text

theorem wordKind_eq_identifier {word name : String} (h : wordKind word = .identifier name) :
    name = word := by
  unfold wordKind at h
  split at h
  · cases h
  · cases h
    rfl

theorem wordKind_ne_number {word : String} {n : Number} : wordKind word ≠ .number n := by
  unfold wordKind
  split <;> simp

theorem wordKind_ne_finish {word : String} : wordKind word ≠ .finish := by
  unfold wordKind
  split <;> simp

theorem ofPair?_eq_some {c d : Char} {m : Symbol} (h : Symbol.ofPair? c d = some m) :
    m.text.toList = [c, d] := by
  unfold Symbol.ofPair? at h
  split at h <;> cases h <;> rfl

theorem ofChar?_eq_some {c : Char} {m : Symbol} (h : Symbol.ofChar? c = some m) :
    m.text.toList = [c] := by
  unfold Symbol.ofChar? at h
  split at h <;> cases h <;> rfl

/-- A scanned symbol was spelled in the text. -/
theorem scanSymbol_eq_ok {c : Char} {cs rest : List Char} {kind : TokenKind}
    (h : scanSymbol c cs = .ok (kind, rest)) :
    ∃ m : Symbol, kind = .symbol m ∧ c :: cs = m.text.toList ++ rest := by
  unfold scanSymbol at h
  split at h
  · rename_i m hpair
    cases h
    obtain ⟨d, hd, hm⟩ := Option.bind_eq_some_iff.1 hpair
    obtain ⟨cs, rfl⟩ := List.head?_eq_some_iff.1 hd
    exact ⟨m, rfl, by rw [ofPair?_eq_some hm]; rfl⟩
  · split at h
    · rename_i m hm
      cases h
      exact ⟨m, rfl, by rw [ofChar?_eq_some hm]; rfl⟩
    · cases h

/-- A scanned token is a symbol, or its text is spelled as its kind says. -/
theorem scanToken_eq_ok {limit : Option Nat} {c : Char} {cs rest : List Char} {kind : TokenKind}
    (h : scanToken limit (c :: cs) = .ok (kind, rest)) :
    kind ≠ .finish ∧ ∃ text, c :: cs = text ++ rest ∧
      ((∃ m : Symbol, kind = .symbol m ∧ text = m.text.toList) ∨ Spelled limit kind text) := by
  rw [scanToken] at h
  split at h
  · rename_i hquote
    obtain ⟨⟨content, left⟩, hstring, h⟩ := bind_eq_ok h
    cases h
    obtain ⟨text, htext, hlexeme⟩ := lexeme_string limit hquote hstring
    exact ⟨nofun, text, htext,
      .inr ⟨hlexeme, (fun _ heq => nomatch heq), (fun _ heq => nomatch heq)⟩⟩
  split at h
  · rename_i hstart
    obtain ⟨n, text, rfl, htext, hnumber⟩ := scanNumber_eq_ok hstart h
    refine ⟨nofun, text, htext,
      .inr ⟨lexeme_number hnumber, (fun _ heq => nomatch heq), fun m heq => ?_⟩⟩
    cases heq
    exact hnumber
  split at h
  · rename_i hname
    obtain ⟨ds, hds, hall, hclear⟩ := exists_run isNameChar cs
    have hc := isNameChar_of_isNameStart hname
    have htake : (c :: cs).takeWhile isNameChar = c :: ds := by
      rw [List.takeWhile_cons, if_pos hc]
      conv => lhs; arg 2; rw [hds]
      rw [takeWhile_run hall hclear]
    have hdrop : (c :: cs).dropWhile isNameChar = cs.dropWhile isNameChar := by
      rw [List.dropWhile_cons, if_pos hc]
    rw [scanWord, htake, hdrop] at h
    cases h
    refine ⟨wordKind_ne_finish, c :: ds, ?_, .inr ⟨lexeme_word limit hname hall,
      fun _ heq => wordKind_eq_identifier heq, fun _ heq => absurd heq wordKind_ne_number⟩⟩
    rw [List.cons_append, ← hds]
  · obtain ⟨m, rfl, htext⟩ := scanSymbol_eq_ok h
    exact ⟨nofun, m.text.toList, htext, .inl ⟨m, rfl, rfl⟩⟩

/-- Every lexeme of a number is the text of one. -/
theorem Lexeme.numberText {limit : Option Nat} {n : Number} {text : List Char}
    (h : Lexeme limit (.number n) text) : NumberText limit n text := by
  obtain ⟨c, cs, rfl⟩ := List.exists_cons_of_ne_nil h.ne_nil
  have hscan := h.scan [] (clear_nil _)
  rw [List.append_nil] at hscan
  obtain ⟨-, word, hword, hspelled⟩ := scanToken_eq_ok hscan
  rw [List.append_nil] at hword
  rcases hspelled with ⟨m, hm, -⟩ | hspelled
  · cases hm
  · rw [hword]
    exact hspelled.number n rfl

end PartScript.Lexer
