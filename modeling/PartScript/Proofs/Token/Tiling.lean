import Mathlib.Data.List.Chain
import PartScript.Proofs.Text.Lines
import PartScript.Proofs.Token.Piece

/-!
Nothing of a text is lost in its tokens. They lie in it side by side, each where its lexeme stands, and before,
between and behind them there is nothing but what is skipped.
-/

namespace PartScript

namespace Lexer

/-! ### Texts side by side with their tokens -/

/-- The tokens of a text that starts at a position: what is skipped and the text of a token, again and again, and
at last the end, behind something else that is skipped. -/
inductive Tiling (limit : Option Nat) (file : Option String) : Position → List Char → List Token → Prop
  | finish {p gap} (hgap : Skipped [] gap) :
      Tiling limit file p gap [⟨.finish, "", ⟨p.after gap, p.after gap, file⟩⟩]
  | token {p gap word rest kind more} (hgap : Skipped (word ++ rest) gap)
      (hword : Lexeme limit kind word) (hkind : kind ≠ .finish)
      (hmore : Tiling limit file ((p.after gap).after word) rest more) :
      Tiling limit file p (gap ++ (word ++ rest))
        (⟨kind, String.ofList word, ⟨p.after gap, (p.after gap).after word, file⟩⟩ :: more)

theorem tiling_of_tokens {r : Reading} {fuel : Nat} {p : Position} {text : List Char} {all : List Token}
    (h : r.tokens fuel p text = .ok all) (hfuel : text.length < fuel) :
    Tiling r.limit r.file p text all := by
  induction fuel generalizing p text all with
  | zero => exact absurd hfuel (Nat.not_lt_zero _)
  | succ fuel ih =>
      rcases Reading.tokens_succ_cases h with
        ⟨hgap, rfl⟩ | ⟨gap, word, rest, kind, more, hfirst, rfl, hmore⟩
      · exact .finish hgap
      · have hpos := List.length_pos_iff.2 hfirst.lexeme.ne_nil
        obtain rfl := hfirst.text_eq
        simp only [List.length_append] at hfuel
        exact .token hfirst.skipped hfirst.lexeme hfirst.ne_finish (ih hmore (by omega))

theorem tiling_of_tokenize {source : String} {file : Option String} {tokens : List Token}
    (h : tokenize source file = .ok tokens) :
    Tiling (some Number.maxDigits) file .first source.toList tokens :=
  tiling_of_tokens h (Nat.lt_succ_self _)

section

variable {limit : Option Nat} {file : Option String} {p : Position} {text : List Char} {all : List Token}

/-- The last token is the end of the text, and every other one has a lexeme. -/
theorem Tiling.exists_finish (h : Tiling limit file p text all) :
    ∃ ts, all = ts ++ [⟨.finish, "", ⟨p.after text, p.after text, file⟩⟩] ∧
      ∀ t ∈ ts, t.kind ≠ .finish ∧ Lexeme limit t.kind t.lexeme.toList := by
  induction h with
  | finish _ => exact ⟨[], rfl, nofun⟩
  | @token p gap word rest kind _ _ hword hkind _ ih =>
      obtain ⟨ts, rfl, hts⟩ := ih
      have hfirst : kind ≠ .finish ∧ Lexeme limit kind (String.ofList word).toList := by
        rw [String.toList_ofList]
        exact ⟨hkind, hword⟩
      refine ⟨⟨kind, String.ofList word, ⟨p.after gap, (p.after gap).after word, file⟩⟩ :: ts, ?_,
        List.forall_mem_cons.2 ⟨hfirst, hts⟩⟩
      rw [Position.after_append, Position.after_append]
      rfl

/-- Every token stands in the text where its span says. -/
theorem Tiling.exists_of_mem (h : Tiling limit file p text all) {t : Token} (ht : t ∈ all) :
    ∃ front rest, text = front ++ (t.lexeme.toList ++ rest) ∧
      t.span = ⟨p.after front, (p.after front).after t.lexeme.toList, file⟩ := by
  induction h with
  | @finish p gap _ =>
      obtain rfl := List.mem_singleton.1 ht
      exact ⟨gap, [], (List.append_nil gap).symm, rfl⟩
  | @token p gap word rest kind more _ _ _ _ ih =>
      rcases List.mem_cons.1 ht with rfl | ht
      · exact ⟨gap, rest, by rw [String.toList_ofList], by rw [String.toList_ofList]⟩
      · obtain ⟨front, rest, rfl, hspan⟩ := ih ht
        refine ⟨gap ++ (word ++ front), rest, by simp only [List.append_assoc], ?_⟩
        rw [hspan, Position.after_append, Position.after_append]

/-- Each token ends before the next one starts. -/
theorem Tiling.pairwise (h : Tiling limit file p text all) :
    (all.map (·.span.range)).Pairwise fun r s => r.stop ≤ s.start := by
  induction h with
  | finish _ => exact List.pairwise_singleton _ _
  | token _ _ _ hmore ih =>
      refine List.pairwise_cons.2 ⟨List.forall_mem_map.2 fun t ht => ?_, ih⟩
      obtain ⟨front, rest, -, hspan⟩ := hmore.exists_of_mem ht
      rw [hspan]
      exact Int.ofNat_le.2 (Position.offset_le_after _ front)

end

end Lexer

/-! ### Places in the whole text -/

/-- One range of a text ends before another one starts, and what is between them is skipped. -/
def Range.Apart (text : List Char) (r s : Range) : Prop :=
  r.stop ≤ s.start ∧ Lexer.Skipped (text.drop s.start.toNat) (Range.slice ⟨r.stop, s.start⟩ text)

theorem Range.apart_append (front : List Char) {gap rest : List Char} (hgap : Lexer.Skipped rest gap)
    (start stop : Int) :
    Range.Apart (front ++ (gap ++ rest)) ⟨start, front.length⟩ ⟨(front ++ gap).length, stop⟩ := by
  refine ⟨Int.ofNat_le.2 (by rw [List.length_append]; exact Nat.le_add_right _ _), ?_⟩
  rw [slice_append, Int.toNat_natCast, ← List.append_assoc, List.drop_left]
  exact hgap

namespace Lexer

/-- What is between the tokens of a text, and in front of the first one, is skipped. -/
theorem Tiling.isChain {limit : Option Nat} {file : Option String} (front : List Char) {text : List Char}
    {all : List Token} (h : Tiling limit file (.after .first front) text all) (start : Int) :
    (⟨start, front.length⟩ :: all.map (·.span.range)).IsChain (Range.Apart (front ++ text)) := by
  generalize hp : Position.first.after front = p at h
  induction h generalizing front start with
  | @finish p gap hgap =>
      subst hp
      have hapart := Range.apart_append front hgap start (front ++ gap).length
      rw [List.append_nil] at hapart
      rw [List.map_singleton, Span.range, ← Position.after_append, Position.offset_after_first]
      exact .cons_cons hapart (.singleton _)
  | @token p gap word rest kind more hgap _ _ _ ih =>
      subst hp
      have hmore := ih (front ++ gap ++ word) (front ++ gap).length
        (by rw [Position.after_append, Position.after_append])
      rw [List.append_assoc, List.append_assoc] at hmore
      rw [List.map_cons, Span.range, ← Position.after_append, ← Position.after_append,
        Position.offset_after_first, Position.offset_after_first]
      exact .cons_cons (Range.apart_append front hgap start _) hmore

end Lexer

/-! ### Tokens of a source -/

/-- The tokens of a source place everything in it. The last one is the end, at the end of the source, and it is the
only such. Any other has a text, and its range is where that text stands. The ranges come one behind the other,
and what stands before, between and behind them is skipped. Both ends of each are places in the source. -/
theorem tokens_cover_source {source : String} {file : Option String} {tokens : List Token}
    (h : tokenize source file = .ok tokens) :
    ∃ ts finish, tokens = ts ++ [⟨.finish, "", finish⟩] ∧
      finish.range = ⟨source.toList.length, source.toList.length⟩ ∧
      (∀ t ∈ ts, t.kind ≠ .finish ∧ t.lexeme ≠ "" ∧ t.span.range.start < t.span.range.stop ∧
        t.lexeme.toList = t.span.range.slice source.toList) ∧
      (tokens.map (·.span.range)).Pairwise (fun r s => r.stop ≤ s.start) ∧
      (⟨0, 0⟩ :: tokens.map (·.span.range)).IsChain (Range.Apart source.toList) ∧
      ∀ t ∈ tokens, t.span.start.IsIn source.toList ∧ t.span.stop.IsIn source.toList := by
  have htiling := Lexer.tiling_of_tokenize h
  obtain ⟨ts, rfl, hts⟩ := htiling.exists_finish
  refine ⟨ts, _, rfl, ?_, fun t ht => ?_, htiling.pairwise, ?_, fun t ht => ?_⟩
  · rw [Span.range, Position.offset_after_first]
  · obtain ⟨hkind, hlexeme⟩ := hts t ht
    obtain ⟨front, rest, htext, hspan⟩ := htiling.exists_of_mem (List.mem_append_left _ ht)
    have hrange : t.span.range = ⟨front.length, (front ++ t.lexeme.toList).length⟩ := by
      rw [hspan, Span.range, ← Position.after_append, Position.offset_after_first,
        Position.offset_after_first]
    rw [hrange]
    refine ⟨hkind, fun hempty => hlexeme.ne_nil (String.toList_eq_nil_iff.2 hempty), ?_, ?_⟩
    · have hpos : 0 < t.lexeme.toList.length := List.length_pos_iff.2 hlexeme.ne_nil
      show (front.length : Int) < (front ++ t.lexeme.toList).length
      rw [List.length_append]
      omega
    · rw [htext, Range.slice_append]
  · exact Lexer.Tiling.isChain [] htiling 0
  · obtain ⟨front, rest, htext, hspan⟩ := htiling.exists_of_mem ht
    rw [hspan, htext]
    refine ⟨Position.isIn_after_first front _, ?_⟩
    rw [← Position.after_append, ← List.append_assoc]
    exact Position.isIn_after_first _ rest

/-- Six tokens with a comment in a comment in front of them, and one that ends with its line between them. -/
theorem tokens_cover_source_comments :
    ∃ source tokens ts finish,
      source = "/* a /* \x00 */ */ x =\n\t'q\\n\x00' // c\r\n+1.5e2 " ∧
      tokenize source none = .ok tokens ∧ tokens.length = 6 ∧ tokens = ts ++ [⟨.finish, "", finish⟩] ∧
      finish.range = ⟨source.toList.length, source.toList.length⟩ ∧
      (∀ t ∈ ts, t.kind ≠ .finish ∧ t.lexeme ≠ "" ∧ t.span.range.start < t.span.range.stop ∧
        t.lexeme.toList = t.span.range.slice source.toList) ∧
      (tokens.map (·.span.range)).Pairwise (fun r s => r.stop ≤ s.start) ∧
      (⟨0, 0⟩ :: tokens.map (·.span.range)).IsChain (Range.Apart source.toList) ∧
      ∀ t ∈ tokens, t.span.start.IsIn source.toList ∧ t.span.stop.IsIn source.toList := by
  obtain ⟨source, hsource⟩ :
      ∃ source, source = "/* a /* \x00 */ */ x =\n\t'q\\n\x00' // c\r\n+1.5e2 " := ⟨_, rfl⟩
  have htokens : ((tokenize source none).toOption.any fun tokens => decide (tokens.length = 6)) = true := by
    rw [hsource]
    decide +kernel
  obtain ⟨tokens, h, hlength⟩ := exists_of_any_toOption htokens
  obtain ⟨ts, finish, hcover⟩ := tokens_cover_source h
  exact ⟨source, tokens, ts, finish, hsource, h, of_decide_eq_true hlength, hcover⟩

end PartScript
