import PartScript.Document
import PartScript.Proofs.Results

/-!
Quoted texts can be told apart. Every character is written in its own way, no two ways start alike, and
none starts with a quote; so a text is known from its quoted form, whatever stands behind it.
-/

namespace PartScript.Document

open Text

/-! ### Digits in base sixteen -/

/-- The sixteen digits. -/
def hexDigits : List Char :=
  ['0', '1', '2', '3', '4', '5', '6', '7', '8', '9', 'a', 'b', 'c', 'd', 'e', 'f']

theorem hexDigit_eq {n : Nat} (h : n < 16) : hexDigits[n]? = some (hexDigit n) := by
  have hall : (List.range 16).all (fun k => hexDigits[k]? == some (hexDigit k)) = true := rfl
  exact eq_of_beq (List.all_eq_true.1 hall n (List.mem_range.2 h))

theorem hexDigit_inj {m n : Nat} (hm : m < 16) (hn : n < 16) (h : hexDigit m = hexDigit n) :
    m = n := by
  have hnodup : hexDigits.Nodup := by decide
  have hat : hexDigits[m]? = hexDigits[n]? := by rw [hexDigit_eq hm, hexDigit_eq hn, h]
  exact (List.getElem?_inj hm hnodup).1 hat

theorem hex_succ_inj {places m n : Nat} (h : hex (places + 1) m = hex (places + 1) n) :
    hex places (m / 16) = hex places (n / 16) ∧ m % 16 = n % 16 := by
  obtain ⟨hrest, hlast⟩ := List.append_inj h (by simp)
  exact ⟨hrest, hexDigit_inj (Nat.mod_lt _ (by decide)) (Nat.mod_lt _ (by decide))
    (List.cons.inj hlast).1⟩

/-- A code unit is known from its four digits. -/
theorem hex_four_inj {m n : Nat} (hm : m < 65536) (hn : n < 65536) (h : hex 4 m = hex 4 n) :
    m = n := by
  obtain ⟨h, h₀⟩ := hex_succ_inj h
  obtain ⟨h, h₁⟩ := hex_succ_inj h
  obtain ⟨h, h₂⟩ := hex_succ_inj h
  obtain ⟨-, h₃⟩ := hex_succ_inj h
  omega

theorem unitEscape_append_inj {m n : Nat} {cs ds : List Char} (hm : m < 65536) (hn : n < 65536)
    (h : unitEscape m ++ cs = unitEscape n ++ ds) : m = n ∧ cs = ds := by
  obtain ⟨hunit, hrest⟩ := List.append_inj h (by simp [unitEscape])
  exact ⟨hex_four_inj hm hn (List.cons.inj (List.cons.inj hunit).2).2, hrest⟩

/-! ### Characters -/

/-- The characters with a short escape, and the letter of it. -/
def shortEscapes : List (Char × Char) :=
  [('"', '"'), ('\\', '\\'), ('\n', 'n'), ('\r', 'r'), ('\t', 't'), ('\x0c', 'f'), ('\x08', 'b')]

/-- How a character is written. -/
inductive Escape (c : Char) : List Char → Prop where
  | short {letter : Char} (h : (c, letter) ∈ shortEscapes) : Escape c ['\\', letter]
  | plain (hquote : c ≠ '"') (hslash : c ≠ '\\') : Escape c [c]
  | unit (h : c.toNat < 65536) : Escape c (unitEscape c.toNat)
  | units (h : 65536 ≤ c.toNat) :
      Escape c (unitEscape (0xd800 + (c.toNat - 0x10000) / 0x400) ++
        unitEscape (0xdc00 + (c.toNat - 0x10000) % 0x400))

theorem escape_short {c d letter : Char} (h : (c == d) = true)
    (hletter : (d, letter) ∈ shortEscapes) : Escape c ['\\', letter] := by
  rw [eq_of_beq h]
  exact .short hletter

theorem escape_escapeChar (c : Char) : Escape c (escapeChar c) := by
  unfold escapeChar
  split
  · exact escape_short ‹_› (by decide)
  split
  · exact escape_short ‹_› (by decide)
  split
  · exact escape_short ‹_› (by decide)
  split
  · exact escape_short ‹_› (by decide)
  split
  · exact escape_short ‹_› (by decide)
  split
  · exact escape_short ‹_› (by decide)
  split
  · exact escape_short ‹_› (by decide)
  -- No short escape is left, so the code of the character decides.
  rename_i hquote hslash _ _ _ _ _
  dsimp only
  split
  · exact .plain (fun h => hquote (by simp [h])) (fun h => hslash (by simp [h]))
  split
  · exact .unit (by omega)
  · exact .units (by omega)

/-- No code of a character is a half of a pair of units. -/
theorem toNat_not_surrogate (c : Char) : c.toNat < 0xd800 ∨ 0xdfff < c.toNat := by
  rcases c.valid with h | ⟨h, -⟩
  · exact .inl h
  · exact .inr h

theorem toNat_lt (c : Char) : c.toNat < 0x110000 := by
  rcases c.valid with h | ⟨-, h⟩
  · exact Nat.lt_trans h (by decide)
  · exact h

theorem char_eq_of_toNat_eq {c d : Char} (h : c.toNat = d.toNat) : c = d :=
  Char.ext (UInt32.toNat.inj h)

theorem Escape.head_ne {c : Char} {cs rest rest' : List Char} (h : Escape c cs)
    (heq : cs ++ rest = '"' :: rest') : False := by
  cases h with
  | short => cases heq
  | plain hquote => exact hquote (List.cons.inj heq).1
  | unit => cases heq
  | units => cases heq

theorem shortEscapes_inj {c d letter : Char} (hc : (c, letter) ∈ shortEscapes)
    (hd : (d, letter) ∈ shortEscapes) : c = d := by
  have hall : (shortEscapes.all fun p => shortEscapes.all fun q => p.2 != q.2 || p.1 == q.1) = true :=
    rfl
  have h := List.all_eq_true.1 (List.all_eq_true.1 hall _ hc) _ hd
  simpa using h

theorem letter_ne_of_shortEscapes {c letter : Char} (h : (c, letter) ∈ shortEscapes) :
    letter ≠ 'u' := by
  have hall : (shortEscapes.all fun p => p.2 != 'u') = true := rfl
  simpa using List.all_eq_true.1 hall _ h

/-- A character is known from what is written for it, whatever comes next. -/
theorem Escape.inj {c d : Char} {cs ds rest rest' : List Char} (hc : Escape c cs)
    (hd : Escape d ds) (h : cs ++ rest = ds ++ rest') : c = d ∧ rest = rest' := by
  cases hc with
  | short hletter =>
      cases hd with
      | short hletter' =>
          obtain ⟨rfl, rfl⟩ := List.cons.inj (List.cons.inj h).2
          exact ⟨shortEscapes_inj hletter hletter', rfl⟩
      | plain _ hslash => exact absurd (List.cons.inj h).1.symm hslash
      | unit =>
          exact absurd (List.cons.inj (List.cons.inj h).2).1 (letter_ne_of_shortEscapes hletter)
      | units =>
          exact absurd (List.cons.inj (List.cons.inj h).2).1 (letter_ne_of_shortEscapes hletter)
  | plain _ hslash =>
      cases hd with
      | plain => exact List.cons.inj h
      | short => exact absurd (List.cons.inj h).1 hslash
      | unit => exact absurd (List.cons.inj h).1 hslash
      | units => exact absurd (List.cons.inj h).1 hslash
  | unit hc =>
      cases hd with
      | short hletter =>
          exact absurd (List.cons.inj (List.cons.inj h).2).1.symm
            (letter_ne_of_shortEscapes hletter)
      | plain _ hslash => exact absurd (List.cons.inj h).1.symm hslash
      | unit hd =>
          obtain ⟨hcode, hrest⟩ := unitEscape_append_inj hc hd h
          exact ⟨char_eq_of_toNat_eq hcode, hrest⟩
      | units hd =>
          have hlt := toNat_lt d
          rw [List.append_assoc] at h
          obtain ⟨hcode, -⟩ := unitEscape_append_inj hc (by omega) h
          have hno := toNat_not_surrogate c
          omega
  | units hc =>
      have hcl := toNat_lt c
      rw [List.append_assoc] at h
      cases hd with
      | short hletter =>
          exact absurd (List.cons.inj (List.cons.inj h).2).1.symm
            (letter_ne_of_shortEscapes hletter)
      | plain _ hslash => exact absurd (List.cons.inj h).1.symm hslash
      | unit hd =>
          obtain ⟨hcode, -⟩ := unitEscape_append_inj (by omega) hd h
          have hno := toNat_not_surrogate d
          omega
      | units hd =>
          have hdl := toNat_lt d
          rw [List.append_assoc] at h
          obtain ⟨hhigh, h⟩ := unitEscape_append_inj (by omega) (by omega) h
          obtain ⟨hlow, hrest⟩ := unitEscape_append_inj (by omega) (by omega) h
          exact ⟨char_eq_of_toNat_eq (by omega), hrest⟩

/-! ### Texts -/

theorem escaped_append_inj {cs ds rest rest' : List Char}
    (h : cs.flatMap escapeChar ++ '"' :: rest = ds.flatMap escapeChar ++ '"' :: rest') :
    cs = ds ∧ rest = rest' := by
  induction cs generalizing ds with
  | nil =>
      cases ds with
      | nil => exact ⟨rfl, (List.cons.inj h).2⟩
      | cons d ds =>
          rw [List.flatMap_cons, List.append_assoc] at h
          exact ((escape_escapeChar d).head_ne h.symm).elim
  | cons c cs ih =>
      rw [List.flatMap_cons, List.append_assoc] at h
      cases ds with
      | nil => exact ((escape_escapeChar c).head_ne h).elim
      | cons d ds =>
          rw [List.flatMap_cons, List.append_assoc] at h
          obtain ⟨rfl, hmore⟩ := (escape_escapeChar c).inj (escape_escapeChar d) h
          obtain ⟨rfl, hrest⟩ := ih hmore
          exact ⟨rfl, hrest⟩

theorem toList_quote (s : String) :
    (quote s).toList = '"' :: (s.toList.flatMap escapeChar ++ ['"']) := by
  simp [quote]

/-- A text is known from its quoted form, whatever stands behind it. -/
theorem quote_append_inj {s t : String} {rest rest' : List Char}
    (h : (quote s).toList ++ rest = (quote t).toList ++ rest') : s = t ∧ rest = rest' := by
  rw [toList_quote, toList_quote] at h
  simp only [List.cons_append, List.append_assoc, List.nil_append] at h
  obtain ⟨hchars, hrest⟩ := escaped_append_inj (List.cons.inj h).2
  exact ⟨String.toList_inj.1 hchars, hrest⟩

theorem quote_inj {s t : String} (h : quote s = quote t) : s = t :=
  (@quote_append_inj s t [] [] (by rw [h])).1

end PartScript.Document
