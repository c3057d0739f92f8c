import PartScript.Proofs.Node.Legible

/-!
Texts that are told apart after something has been taken out of them. Behind a blank or a bracket anything may
stand. In front of a point an expression can be read as in front of a blank, even if a number is the last of
it, since the point of a member has no digit behind it.
-/

namespace PartScript.Lexer

open Text

variable {limit : Option Nat} {after after' cs : List Char} {ps qs : List Piece}

/-! ### What stands behind -/

/-- What may follow a token is a matter of the first character. -/
theorem stops_of_head?_eq {kind : TokenKind} (h : Stops kind cs) {ds : List Char}
    (heq : cs.head? = ds.head?) : Stops kind ds := by
  have hclear {p : Char → Bool} (hcs : Clear p cs) : Clear p ds := fun c hc => hcs c (heq ▸ hc)
  revert h
  unfold Stops
  split <;> first | exact hclear | exact id

theorem Legible.of_head?_eq (h : Legible limit after ps) (heq : after.head? = after'.head?) :
    Legible limit after' ps := by
  induction ps with
  | nil => trivial
  | cons piece ps ih =>
      cases piece with
      | blank text => exact ⟨h.1, ih h.2⟩
      | word kind text =>
          refine ⟨h.1, stops_of_head?_eq h.2.1 ?_, ih h.2.2⟩
          rw [List.head?_append, List.head?_append, heq]

/-- Behind the pieces anything may stand. -/
def Loose (limit : Option Nat) (ps : List Piece) : Prop :=
  ∀ after after', Legible limit after ps → Legible limit after' ps

/-- Behind the piece anything may stand. -/
def Piece.Frees : Piece → Prop
  | blank text => text ≠ []
  | word kind text => text ≠ [] ∧ ∀ cs, Stops kind cs

theorem loose_nil : Loose limit [] := fun _ _ _ => trivial

theorem loose_concat {p : Piece} (hp : p.Frees) (ps : List Piece) : Loose limit (ps ++ [p]) := by
  intro after after' h
  rw [legible_append] at h ⊢
  have hne : p.chars ≠ [] := by
    cases p with
    | blank text => exact hp
    | word kind text => exact hp.1
  obtain ⟨c, ds, hchars⟩ := List.exists_cons_of_ne_nil hne
  refine ⟨h.1.of_head?_eq (by simp [hchars]), ?_⟩
  cases p with
  | blank text => exact h.2
  | word kind text => exact ⟨h.2.1, hp.2 _, trivial⟩

theorem Loose.append (hps : Loose limit ps) (hqs : Loose limit qs) : Loose limit (ps ++ qs) := by
  intro after after' h
  rw [legible_append] at h ⊢
  exact ⟨hps _ _ h.1, hqs _ _ h.2⟩

/-! ### What stands in front -/

/-- The pieces start with nothing that a number could go on with, or with a point. -/
def Guards (ps : List Piece) : Prop :=
  Clear isNumberEnd (chars ps) ∨ ∃ qs, ps = .symbol .dot :: qs

theorem guards_nil : Guards [] := .inl (clear_nil _)

/-- The piece starts with nothing that a number could go on with, or is a point. -/
def Piece.Shields (p : Piece) : Prop :=
  p = symbol .dot ∨ ∃ c cs, p.chars = c :: cs ∧ isNumberEnd c = false

theorem Piece.Shields.guards {p : Piece} (h : p.Shields) (ps : List Piece) : Guards (p :: ps) := by
  rcases h with rfl | ⟨c, cs, hchars, hc⟩
  · exact .inr ⟨ps, rfl⟩
  · refine .inl ?_
    rw [chars_cons, hchars]
    exact clear_cons _ hc

/-! ### Points -/

theorem skipFraction?_point (h : Clear isDigit cs) : skipFraction? ('.' :: cs) = none := by
  cases cs with
  | nil => rfl
  | cons c cs => simp [skipFraction?, h c rfl]

theorem stops_point {kind : TokenKind} (hkind : ∀ n, kind ≠ .number n) (cs : List Char) :
    Stops kind ('.' :: cs) := by
  unfold Stops
  split
  · exact absurd rfl (hkind _)
  all_goals first | exact clear_cons cs rfl | trivial

/-- A token that may stand in front of a blank may stand in front of a point without a digit behind it. -/
theorem Lexeme.scans_point {kind : TokenKind} {text : List Char} (h : Lexeme limit kind text)
    (hcs : Clear isDigit cs) : ScansAs limit kind text ('.' :: cs) := by
  by_cases hkind : ∃ n, kind = .number n
  · obtain ⟨n, rfl⟩ := hkind
    exact ⟨h.ne_nil, h.numberText.skip _,
      h.numberText.scan (clear_cons cs rfl) (skipFraction?_point hcs)⟩
  · exact h.scansAs (stops_point (fun n hn => hkind ⟨n, hn⟩) cs)

theorem Legible.readable_point (h : Legible limit [' '] ps) (hcs : Clear isDigit cs) :
    Readable limit ('.' :: cs) ps := by
  induction ps with
  | nil => trivial
  | cons piece ps ih =>
      cases piece with
      | blank text => exact ⟨h.1, ih h.2⟩
      | word kind text =>
          refine ⟨?_, ih h.2.2⟩
          cases hps : chars ps with
          | nil => exact h.1.scans_point hcs
          | cons c ds =>
              have hstops := h.2.1
              rw [hps] at hstops
              exact h.1.scansAs (stops_of_head?_eq hstops rfl)

end PartScript.Lexer

namespace PartScript.Printer

open Lexer
open PartScript.Parser (Setting)
open Node (Writable)

/-- An expression can be read in front of anything that no number goes on with, and in front of a member. -/
theorem readable_pieces {style : Style} {level : Nat} {s : Setting} {e : Node}
    (h : Writable .expression s e) {ps : List Piece} (hguards : Guards ps)
    (hps : Legible (some Number.maxDigits) [] ps) :
    Readable (some Number.maxDigits) (chars ps) (pieces style level e) := by
  rcases hguards with hclear | ⟨qs, rfl⟩
  · exact (legible_pieces style level .expression s e h _ (.inl hclear)).readable
  · obtain ⟨hdigit, -⟩ := legible_symbol.1 hps
    rw [List.append_nil] at hdigit
    exact (legible_pieces style level .expression s e h [' '] (.inl (clear_cons _ rfl))).readable_point hdigit

end PartScript.Printer
