import PartScript.Proofs.Token.Tiling

/-!
Tokens are read back from their texts. However the texts of the tokens of a source are written one behind the
other, with separators between them that start with a blank, the result is read as the same tokens.
-/

namespace PartScript

/-- What a token is and its text, wherever it stands. -/
def Token.word (t : Token) : TokenKind × String := (t.kind, t.lexeme)

namespace Lexer

/-- Some words one behind the other. What separates two of them starts with a blank, and goes on with more that is
skipped. -/
inductive Spaced : List String → List Char → Prop
  | nil : Spaced [] []
  | single (word : String) : Spaced [word] word.toList
  | cons {word next : String} {words c gap text} (hc : isSpace c = true) (hgap : Skipped text gap)
      (h : Spaced (next :: words) text) :
      Spaced (word :: next :: words) (word.toList ++ (c :: (gap ++ text)))

/-- Behind the first word comes something that is skipped, with which no token goes on, and then the others. -/
theorem Spaced.exists_of_cons {word : String} {words : List String} {text : List Char}
    (h : Spaced (word :: words) text) :
    ∃ gap more, text = word.toList ++ (gap ++ more) ∧ Skipped more gap ∧ Spaced words more ∧
      ∀ kind, Stops kind (gap ++ more) := by
  cases h with
  | single => exact ⟨[], [], (List.append_nil _).symm, .nil, .nil, stops_nil⟩
  | cons hc hgap h => exact ⟨_, _, rfl, .blank hc hgap, h, fun kind => stops_blank kind hc _⟩

/-- Lexemes with separators between them are read as their tokens, behind something that is skipped too. -/
theorem tokens_spaced {r : Reading} {ts : List Token}
    (hts : ∀ t ∈ ts, Lexeme r.limit t.kind t.lexeme.toList) {gap text : List Char}
    (h : Spaced (ts.map (·.lexeme)) text) (hgap : Skipped text gap) {fuel : Nat}
    (hfuel : (gap ++ text).length ≤ fuel) (p : Position) :
    ∃ us finish, r.tokens (fuel + 1) p (gap ++ text) = .ok (us ++ [⟨.finish, "", finish⟩]) ∧
      us.map Token.word = ts.map Token.word := by
  induction ts generalizing gap text fuel p with
  | nil =>
      cases h
      rw [List.append_nil]
      exact ⟨[], _, tokens_skipped hgap r fuel p, rfl⟩
  | cons t ts ih =>
      obtain ⟨hlexeme, hts⟩ := List.forall_mem_cons.1 hts
      obtain ⟨sep, more, rfl, hsep, hmore, hstops⟩ := h.exists_of_cons
      have hpos := List.length_pos_iff.2 hlexeme.ne_nil
      simp only [List.length_append] at hfuel
      obtain ⟨fuel, rfl⟩ := Nat.exists_eq_succ_of_ne_zero (show fuel ≠ 0 by omega)
      have hlength : (sep ++ more).length ≤ fuel := by
        rw [List.length_append]
        omega
      obtain ⟨us, finish, hus, hsame⟩ := ih hts hmore hsep hlength ((p.after gap).after t.lexeme.toList)
      refine ⟨_ :: us, finish, tokens_lexeme hlexeme (hstops t.kind) hgap (fuel + 1) p hus, ?_⟩
      rw [List.map_cons, List.map_cons, hsame, Token.word, String.ofList_toList]
      rfl

end Lexer

/-- The texts of the tokens of a source, with separators between them that start with a blank, are read as the same
tokens in the same order, with the same values and texts. -/
theorem tokenize_spaced {source source' : String} {file : Option String} {tokens : List Token}
    (h : tokenize source file = .ok tokens)
    (hspaced : Lexer.Spaced (tokens.dropLast.map (·.lexeme)) source'.toList) (file' : Option String) :
    ∃ tokens', tokenize source' file' = .ok tokens' ∧ tokens'.map Token.word = tokens.map Token.word := by
  obtain ⟨ts, rfl, hts⟩ := (Lexer.tiling_of_tokenize h).exists_finish
  rw [List.dropLast_concat] at hspaced
  obtain ⟨us, finish, hus, hsame⟩ := Lexer.tokens_spaced
    (r := ⟨file', Text.linesOf source', some Number.maxDigits⟩) (fun t ht => (hts t ht).2) hspaced .nil
    (Nat.le_refl _) .first
  refine ⟨_, hus, ?_⟩
  rw [List.map_append, List.map_append, hsame]
  rfl

/-- A pipe is written with a comment in a comment behind a blank, and with the other blanks between its tokens. -/
theorem tokenize_spaced_pipe :
    ∃ source source' tokens tokens', source = "f(.5e1)// one\n|>'\\''" ∧
      source' = "f\t( .5e1 /* a /* b */*/) \n|>\r'\\''" ∧ tokenize source none = .ok tokens ∧
      Lexer.Spaced (tokens.dropLast.map (·.lexeme)) source'.toList ∧
      tokenize source' none = .ok tokens' ∧ tokens'.map Token.word = tokens.map Token.word := by
  obtain ⟨source, hsource⟩ : ∃ source, source = "f(.5e1)// one\n|>'\\''" := ⟨_, rfl⟩
  obtain ⟨source', hsource'⟩ : ∃ source', source' = "f\t( .5e1 /* a /* b */*/) \n|>\r'\\''" := ⟨_, rfl⟩
  have hwords : ((tokenize source none).toOption.any fun tokens =>
      decide (tokens.dropLast.map (·.lexeme) = ["f", "(", ".5e1", ")", "|>", "'\\''"])) = true := by
    rw [hsource]
    decide +kernel
  obtain ⟨tokens, h, hwords⟩ := exists_of_any_toOption hwords
  have htext : source'.toList = "f".toList ++ '\t' :: ([] ++ ("(".toList ++ ' ' :: ([] ++ (".5e1".toList ++
      ' ' :: ("/* a /* b */*/".toList ++ (")".toList ++ ' ' :: (['\n'] ++ ("|>".toList ++
      '\r' :: ([] ++ "'\\''".toList))))))))) := by
    rw [hsource']
    decide +kernel
  have hspaced : Lexer.Spaced (tokens.dropLast.map (·.lexeme)) source'.toList := by
    rw [of_decide_eq_true hwords, htext]
    exact .cons rfl .nil (.cons rfl .nil (.cons rfl (Lexer.skipped_of_skip rfl)
      (.cons rfl (.blank rfl .nil) (.cons rfl .nil (.single _)))))
  obtain ⟨tokens', h', hsame⟩ := tokenize_spaced h hspaced none
  exact ⟨source, source', tokens, tokens', hsource, hsource', h, hspaced, h', hsame⟩

end PartScript
