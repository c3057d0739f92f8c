import PartScript.Proofs.Token.Numeral

/-!
Scanning an excerpt. A scanner looks at what is behind a token only to know that the token does not go on. So
a text may be cut anywhere behind a token, and the same token is scanned; in the same way a text may be cut
behind the first character that is not skipped.
-/

namespace PartScript.Lexer

open Text

/-! ### Cutting a text -/

/-- If no less than some end of a text is left behind its front, the front is in what is cut off before that
end. -/
theorem exists_cut {α : Type} {front rest cs more : List α} (htext : front ++ rest = cs ++ more)
    (hlength : more.length ≤ rest.length) : ∃ cs', cs = front ++ cs' ∧ rest = cs' ++ more := by
  rcases List.append_eq_append_iff.1 htext with ⟨cs', rfl, hrest⟩ | ⟨bs, rfl, rfl⟩
  · exact ⟨cs', rfl, hrest⟩
  · rw [List.length_append] at hlength
    obtain rfl := List.length_eq_zero_iff.1 (show bs.length = 0 by omega)
    exact ⟨[], by simp, rfl⟩

theorem exists_cut_of_suffix {α : Type} {rest cs more : List α} (h : rest <:+ cs ++ more)
    (hlength : more.length ≤ rest.length) : ∃ ds, rest = ds ++ more ∧ ds <:+ cs := by
  obtain ⟨front, htext⟩ := h
  obtain ⟨ds, rfl, hrest⟩ := exists_cut htext hlength
  exact ⟨ds, hrest, List.suffix_append front ds⟩

theorem Clear.cut {p : Char → Bool} {cs more : List Char} (h : Clear p (cs ++ more)) : Clear p cs := by
  cases cs with
  | nil => exact clear_nil p
  | cons c cs => exact h

theorem consumed_cut {cs ds : List Char} (h : ds <:+ cs) (more : List Char) :
    consumed (cs ++ more) (ds ++ more) = consumed cs ds := by
  obtain ⟨front, rfl⟩ := h
  rw [consumed_append, List.append_assoc, consumed_append]

/-! ### Blanks and comments -/

/-- Two gaps are of one kind. The texts where block comments open may differ. -/
inductive Gap.Alike : Gap → Gap → Prop
  | between : Alike .between .between
  | line : Alike .line .line
  | block {opening opening' depth} : Alike (.block opening depth) (.block opening' depth)

theorem Gap.alike_closing (opening opening' : List Char) : (depth : Nat) →
    Gap.Alike (Gap.closing opening depth) (Gap.closing opening' depth)
  | 0 | 1 => .between
  | _ + 2 => .block

theorem suffix_of_skip {gap : Gap} {text here : List Char} (h : skip gap text = .ok here) :
    here <:+ text := by
  have hscans : Scans none text id (skip gap text) := skip_scans gap text
  rw [h] at hscans
  exact hscans

/-- What is skipped in front of the rest of a text is in front of what is cut off behind it. -/
theorem exists_cut_of_skip (front : List Char) {gap : Gap} {rest here cs ds more : List Char}
    (h : skip gap rest = .ok here) (hhere : here = ds ++ more) (htext : front ++ rest = cs ++ more) :
    ∃ cs', cs = front ++ cs' ∧ rest = cs' ++ more := by
  have hlength := (suffix_of_skip h).length_le
  rw [hhere, List.length_append] at hlength
  exact exists_cut htext (by omega)

/-- The same is skipped if the text is cut behind the first character that is not. -/
theorem skip_cut {gap gap' : Gap} {text here cs ds more : List Char} (h : skip gap text = .ok here)
    (hgap : Gap.Alike gap gap') (htext : text = cs ++ more) (hhere : here = ds ++ more)
    (hds : ds ≠ []) : skip gap' cs = .ok ds := by
  fun_induction skip gap text generalizing gap' cs with
  | case1 => cases h
  | case2 =>
      cases h
      exact absurd (List.append_eq_nil_iff.1 hhere.symm).1 hds
  | case3 c rest hc ih =>
      cases hgap
      obtain ⟨cs', rfl, hrest⟩ := exists_cut_of_skip [c] h hhere htext
      rw [List.singleton_append, skip, if_pos hc]
      exact ih h .between hrest
  | case4 c rest hc ih =>
      cases hgap
      obtain ⟨cs', rfl, hrest⟩ := exists_cut_of_skip [c] h hhere htext
      rw [List.singleton_append, skip, if_neg hc]
      exact ih h .line hrest
  | case5 rest ih =>
      cases hgap
      obtain ⟨cs', rfl, hrest⟩ := exists_cut_of_skip ['/', '/'] h hhere htext
      show skip .line cs' = .ok ds
      exact ih h .line hrest
  | case6 rest ih =>
      cases hgap
      obtain ⟨cs', rfl, hrest⟩ := exists_cut_of_skip ['/', '*'] h hhere htext
      show skip (.block ('/' :: '*' :: cs') 1) cs' = .ok ds
      exact ih h .block hrest
  | case7 c rest _ _ hspace ih =>
      cases hgap
      obtain ⟨cs', rfl, hrest⟩ := exists_cut_of_skip [c] h hhere htext
      rw [skip_blanks (List.forall_mem_singleton.2 hspace)]
      exact ih h .between hrest
  | case8 c rest hline hblock hspace =>
      cases hgap
      cases h
      obtain rfl := List.append_cancel_right (htext.symm.trans hhere)
      obtain ⟨d, ds, rfl⟩ := List.exists_cons_of_ne_nil hds
      obtain ⟨rfl, rfl⟩ := List.cons.inj htext
      refine skip_cons (by simpa using hspace) fun hc => ?_
      rintro e he
      obtain ⟨es, rfl⟩ := List.head?_eq_some_iff.1 he
      rw [Bool.or_eq_false_iff, beq_eq_false_iff_ne, beq_eq_false_iff_ne]
      exact ⟨fun heq => hline (es ++ more) hc (by rw [heq]; rfl),
        fun heq => hblock (es ++ more) hc (by rw [heq]; rfl)⟩
  | case9 opening depth rest ih =>
      cases hgap
      obtain ⟨cs', rfl, hrest⟩ := exists_cut_of_skip ['/', '*'] h hhere htext
      show skip (.block _ (depth + 1)) cs' = .ok ds
      exact ih h .block hrest
  | case10 opening depth rest ih =>
      cases hgap
      obtain ⟨cs', rfl, hrest⟩ := exists_cut_of_skip ['*', '/'] h hhere htext
      show skip (Gap.closing _ depth) cs' = .ok ds
      exact ih h (Gap.alike_closing _ _ depth) hrest
  | case11 opening depth c rest hopen hclose ih =>
      cases hgap
      obtain ⟨cs', rfl, hrest⟩ := exists_cut_of_skip [c] h hhere htext
      rw [List.singleton_append, skip]
      · exact ih h .block hrest
      · exact fun es hc heq => hopen (es ++ more) hc (by rw [hrest, heq]; rfl)
      · exact fun es hc heq => hclose (es ++ more) hc (by rw [hrest, heq]; rfl)

/-- Nothing is skipped where skipping ends. -/
theorem skip_skip {gap : Gap} {text here : List Char} (h : skip gap text = .ok here) :
    skip .between here = .ok here := by
  fun_induction skip gap text with
  | case1 => cases h
  | case2 =>
      cases h
      rfl
  | case8 c rest hline hblock hspace =>
      cases h
      rw [skip, if_neg hspace]
      · exact hline
      · exact hblock
  | _ =>
      rename_i ih
      exact ih h

/-! ### Words and symbols -/

theorem dropWhile_cut {p : Char → Bool} {cs ds more : List Char}
    (h : (cs ++ more).dropWhile p = ds ++ more) : cs.dropWhile p = ds := by
  rw [List.dropWhile_append] at h
  split at h
  · rename_i hempty
    have hlength := (List.dropWhile_suffix (l := more) p).length_le
    rw [h, List.length_append] at hlength
    obtain rfl := List.length_eq_zero_iff.1 (show ds.length = 0 by omega)
    exact List.isEmpty_iff.1 hempty
  · exact List.append_cancel_right h

theorem takeWhile_cut {p : Char → Bool} {cs ds more : List Char}
    (h : (cs ++ more).dropWhile p = ds ++ more) : (cs ++ more).takeWhile p = cs.takeWhile p := by
  have hwhole := List.takeWhile_append_dropWhile (p := p) (l := cs ++ more)
  have hpart := List.takeWhile_append_dropWhile (p := p) (l := cs)
  rw [h] at hwhole
  rw [dropWhile_cut h] at hpart
  refine (List.append_left_inj (ds ++ more)).1 ?_
  rw [hwhole, ← List.append_assoc, hpart]

theorem scanSymbol_cut {c : Char} {cs ds more : List Char} {kind : TokenKind}
    (h : scanSymbol c (cs ++ more) = .ok (kind, ds ++ more)) : scanSymbol c cs = .ok (kind, ds) := by
  unfold scanSymbol at h ⊢
  cases hpair : (cs ++ more).head?.bind (Symbol.ofPair? c) with
  | some mark =>
      rw [hpair] at h
      obtain ⟨rfl, hdrop⟩ := Prod.mk.inj (Except.ok.inj h)
      cases cs with
      | nil =>
          -- Of a pair nothing would be left but what is behind its second character.
          have hlength := congrArg List.length hdrop
          rw [List.nil_append, List.length_drop, List.length_append] at hlength
          obtain rfl : more = [] := List.length_eq_zero_iff.1 (by omega)
          cases hpair
      | cons d cs =>
          obtain rfl := List.append_cancel_right (show cs ++ more = ds ++ more from hdrop)
          rw [show (d :: cs).head?.bind (Symbol.ofPair? c) = some mark from hpair]
          rfl
  | none =>
      have hshort : cs.head?.bind (Symbol.ofPair? c) = none := by
        cases cs with
        | nil => rfl
        | cons d cs => exact hpair
      rw [hpair] at h
      rw [hshort]
      cases hmark : Symbol.ofChar? c with
      | none =>
          rw [hmark] at h
          cases h
      | some mark =>
          rw [hmark] at h
          obtain ⟨rfl, hrest⟩ := Prod.mk.inj (Except.ok.inj h)
          rw [List.append_cancel_right hrest]

/-! ### Numbers -/

theorem skipFraction?_cut_some {cs ds more : List Char}
    (h : skipFraction? (cs ++ more) = some (ds ++ more)) : skipFraction? cs = some ds := by
  obtain ⟨frac, htext, hfrac, hne, hclear⟩ := skipFraction?_eq_some h
  rw [← List.append_assoc] at htext
  obtain rfl := List.append_cancel_right htext
  rw [skipFraction?_append hfrac hclear.cut fun hnil => absurd hnil hne, if_neg hne]

theorem skipFraction?_cut_none {cs more : List Char} (h : skipFraction? (cs ++ more) = none) :
    skipFraction? cs = none := by
  unfold skipFraction?
  split
  · rename_i d rest
    rw [List.cons_append, List.cons_append, skipFraction?] at h
    split at h
    · cases h
    · rename_i hd
      rw [if_neg hd]
  · rfl

theorem skipExponent?_cut_some {cs ds more : List Char}
    (h : skipExponent? (cs ++ more) = .ok (some (ds ++ more))) :
    skipExponent? cs = .ok (some ds) := by
  obtain ⟨exp, htext, hexp, hne, hclear⟩ := skipExponent?_eq_ok h
  rw [← List.append_assoc] at htext
  obtain rfl := List.append_cancel_right htext
  rw [skipExponent?_append hexp hclear.cut fun hnil => absurd hnil hne, if_neg hne]

theorem skipExponent?_cut_none {cs more : List Char}
    (h : skipExponent? (cs ++ more) = .ok none) : skipExponent? cs = .ok none := by
  cases cs with
  | nil => rfl
  | cons c cs =>
      rw [List.cons_append, skipExponent?] at h
      rw [skipExponent?]
      split at h
      · dsimp only at h
        split at h
        · cases h
        · cases h
      · rename_i hc
        rw [if_neg hc]

/-- What is left behind the digits and a fraction, if there is one. -/
theorem fraction_cut {cs ds more : List Char}
    (h : (skipFraction? (cs ++ more)).getD (cs ++ more) = ds ++ more) :
    (skipFraction? cs).getD cs = ds ∧
      (skipFraction? cs).isNone = (skipFraction? (cs ++ more)).isNone := by
  cases hfraction : skipFraction? (cs ++ more) with
  | none =>
      rw [hfraction, Option.getD_none] at h
      rw [skipFraction?_cut_none hfraction]
      exact ⟨List.append_cancel_right h, rfl⟩
  | some rest =>
      rw [hfraction, Option.getD_some] at h
      subst h
      rw [skipFraction?_cut_some hfraction]
      exact ⟨rfl, rfl⟩

/-- What is left behind an exponent, if there is one. -/
theorem exponent_cut {cs ds more : List Char} {exponent : Option (List Char)}
    (h : skipExponent? (cs ++ more) = .ok exponent)
    (hrest : exponent.getD (cs ++ more) = ds ++ more) :
    ∃ exponent', skipExponent? cs = .ok exponent' ∧ exponent'.getD cs = ds ∧
      exponent'.isNone = exponent.isNone := by
  cases exponent with
  | none =>
      rw [Option.getD_none] at hrest
      exact ⟨none, skipExponent?_cut_none h, List.append_cancel_right hrest, rfl⟩
  | some rest =>
      rw [Option.getD_some] at hrest
      subst hrest
      exact ⟨some ds, skipExponent?_cut_some h, rfl, rfl⟩

theorem scanNumber_cut {limit : Option Nat} {cs ds more : List Char} {kind : TokenKind}
    (h : scanNumber limit (cs ++ more) = .ok (kind, ds ++ more)) :
    scanNumber limit cs = .ok (kind, ds) := by
  unfold scanNumber at h
  dsimp only at h
  have hdigits : skipDigits (cs ++ more) <:+ cs ++ more := List.dropWhile_suffix _
  generalize hwhole : skipDigits (cs ++ more) = whole at h hdigits
  obtain ⟨frac, hfrac, -⟩ := exists_fraction whole
  generalize hmantissa : (skipFraction? whole).getD whole = mantissa at h hfrac
  cases hexponent : skipExponent? mantissa with
  | error rest =>
      rw [hexponent] at h
      cases h
  | ok exponent =>
      obtain ⟨exp, hexp, -⟩ := exists_exponent hexponent
      rw [hexponent] at h
      dsimp only at h
      generalize hrest : exponent.getD mantissa = rest at h hexp
      split at h
      · cases h
      · rename_i hname
        cases hvalue : numberValue limit ((skipFraction? whole).isNone && exponent.isNone)
            (consumed (cs ++ more) rest) with
        | error f =>
            rw [hvalue] at h
            cases h
        | ok value =>
            rw [hvalue] at h
            cases value with
            | none => cases h
            | some n =>
                obtain ⟨rfl, rfl⟩ := Prod.mk.inj (Except.ok.inj h)
                -- Everything that is left on the way has the cut off part at its end.
                have hmore : more.length ≤ (exp ++ (ds ++ more)).length := by
                  simp only [List.length_append]
                  omega
                rw [← hexp] at hmore
                obtain ⟨w, rfl, hw⟩ := exists_cut_of_suffix hdigits (by
                  rw [hfrac, List.length_append]
                  omega)
                obtain ⟨m, rfl, hm⟩ := exists_cut_of_suffix ⟨frac, hfrac.symm⟩ hmore
                have hds : ds <:+ m := by
                  rw [← List.append_assoc] at hexp
                  exact ⟨exp, (List.append_cancel_right hexp).symm⟩
                obtain ⟨hfraction, hnone⟩ := fraction_cut hmantissa
                obtain ⟨exponent', hexponent', hrest', hnone'⟩ := exponent_cut hexponent hrest
                rw [consumed_cut ((hds.trans hm).trans hw), ← hnone, ← hnone'] at hvalue
                have hname' : ¬ (ds.head?.map isNameStart).getD false = true := by
                  cases ds with
                  | nil => nofun
                  | cons d ds => exact hname
                simp only [scanNumber, show skipDigits cs = w from dropWhile_cut hwhole, hfraction,
                  hexponent', hrest', if_neg hname', hvalue]

/-! ### Tokens -/

theorem startsNumber_cut {c : Char} {cs ds more : List Char} {limit : Option Nat} {kind : TokenKind}
    (hstart : startsNumber c (cs ++ more) = true)
    (h : scanNumber limit (c :: (cs ++ more)) = .ok (kind, ds ++ more)) :
    startsNumber c cs = true := by
  obtain ⟨n, lexeme, -, htext, hnumber⟩ := scanNumber_eq_ok hstart h
  obtain ⟨d, es, rfl, hd⟩ := hnumber.start
  rw [← List.append_assoc, ← List.cons_append] at htext
  obtain ⟨rfl, rfl⟩ := List.cons.inj (List.append_cancel_right htext)
  exact startsNumber_append ds hd

theorem startsNumber_longer {c : Char} {cs : List Char} (more : List Char)
    (h : startsNumber c cs = true) : startsNumber c (cs ++ more) = true := by
  cases cs with
  | nil =>
      have hdigit : isDigit c = true := by simpa [startsNumber] using h
      simp [startsNumber, hdigit]
  | cons d cs => exact h

/-- The same token is scanned if the text is cut anywhere behind it. -/
theorem scanToken_cut {limit : Option Nat} {cs ds more : List Char} {kind : TokenKind} (hcs : cs ≠ [])
    (h : scanToken limit (cs ++ more) = .ok (kind, ds ++ more)) :
    scanToken limit cs = .ok (kind, ds) := by
  obtain ⟨c, cs, rfl⟩ := List.exists_cons_of_ne_nil hcs
  rw [List.cons_append, scanToken] at h
  split at h
  · rename_i hquote
    obtain ⟨⟨content, left⟩, hstring, h⟩ := bind_eq_ok h
    obtain ⟨rfl, rfl⟩ := Prod.mk.inj (Except.ok.inj h)
    obtain ⟨text, htext, hlexeme⟩ := lexeme_string limit hquote hstring
    rw [← List.append_assoc, ← List.cons_append] at htext
    rw [List.append_cancel_right htext]
    exact hlexeme.scan ds trivial
  rename_i hquote
  rw [scanToken, if_neg hquote]
  split at h
  · rename_i hstart
    rw [if_pos (startsNumber_cut hstart h)]
    exact scanNumber_cut h
  · rename_i hstart
    rw [if_neg fun hshort => hstart (startsNumber_longer more hshort)]
    split at h
    · rename_i hname
      rw [if_pos hname]
      obtain ⟨rfl, hdrop⟩ := Prod.mk.inj (Except.ok.inj h)
      rw [← List.cons_append] at hdrop ⊢
      rw [scanWord, takeWhile_cut hdrop, dropWhile_cut hdrop]
    · rename_i hname
      rw [if_neg hname]
      exact scanSymbol_cut h

end PartScript.Lexer
