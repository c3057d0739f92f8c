import PartScript.Proofs.Parentheses.Depths

/-!
The depths of what is read. Whatever tokens the grammar reads as a tree, they are the tokens of that tree at
depths that it can have: every part that binds more loosely than the place it stands in has parentheses around
it.
-/

namespace PartScript.Grammar

open PartScript.Parser (Setting)
open Printer

/-- The kinds of tokens in a row. -/
abbrev kindsOf (ts : List Token) : List TokenKind := ts.map Token.kind

theorem Head.fills {ts : List Token} {params : List Ident} {rest : List Token} (h : Head ts params rest)
    {ss : List Slot} {ks : List TokenKind} (hrest : Fills ss (kindsOf rest) ks) :
    Fills (params.map (fun _ => .token .own) ++ .token .closing :: .token .own :: ss) (kindsOf ts) ks := by
  induction h with
  | nil ht hu => exact (hrest.token hu rfl).token ht rfl
  | last ht hu hv => exact ((hrest.token hv rfl).token hu rfl).token ht rfl
  | more ht hu _ ih => exact ((ih hrest).skip hu rfl).token ht rfl

mutual

theorem Atom.holds {s : Setting} {n : Nat} {ts : List Token} {e : Node} {rest : List Token} :
    Atom s n ts e rest → Holds 4 e (kindsOf ts) (kindsOf rest)
  | .number h | .string h | .trueWord h | .falseWord h | .name h | .hole h _ =>
      holds_of_fills (wraps_of_le (Nat.le_refl 4)) (fills_nil.token h rfl)
  | .array ht h hu =>
      holds_of_fills (wraps_of_le (Nat.le_refl 4))
        ((h.fills.append (fills_nil.token hu rfl)).token ht rfl)
  | .object ht h hu =>
      holds_of_fills (wraps_of_le (Nat.le_refl 4))
        ((h.fills.append (fills_nil.token hu rfl)).token ht rfl)
  | .function ht hhead hu h hv =>
      holds_of_fills (by simp [wraps, isFunction])
        ((hhead.fills ((h.fills.append (fills_nil.token hv rfl)).token hu rfl)).token ht rfl)
  | .parens ht _ h hu => by
      have hinner := h.holds
      simp only [kindsOf, List.map_cons, ht, hu] at hinner ⊢
      exact (hinner.parens 4).of_bare_eq (Node.bare_setMark _ _)

theorem Suffixed.holds {s : Setting} {n : Nat} {ts : List Token} {e : Node} {rest : List Token} :
    Suffixed s n ts e rest → Holds 4 e (kindsOf ts) (kindsOf rest)
  | .atom h => h.holds
  | .member h ht hu =>
      holds_of_fills (wraps_of_le (Nat.le_refl 4))
        (((fills_nil.token hu rfl).token ht rfl).part h.holds)
  | .index h ht _ hkey hv =>
      holds_of_fills (wraps_of_le (Nat.le_refl 4))
        ((((fills_nil.token hv rfl).part hkey.holds).token ht rfl).part h.holds)
  | .call h ht _ hargs hv =>
      holds_of_fills (wraps_of_le (Nat.le_refl 4))
        (((hargs.fills.append (fills_nil.token hv rfl)).token ht rfl).part h.holds)

theorem Operand.holds {s : Setting} {n : Nat} {ts : List Token} {e : Node} {rest : List Token} :
    Operand s n ts e rest → Holds 3 e (kindsOf ts) (kindsOf rest)
  | .suffixed h _ => h.holds.mono (by omega)
  | .sign ht hsign h =>
      holds_of_fills (wraps_of_le (Nat.le_refl 3))
        ((fills_nil.part h.holds).token ht (by cases hsign <;> rfl))

theorem Product.holds {s : Setting} {n : Nat} {ts : List Token} {e : Node} {rest : List Token} :
    Product s n ts e rest → Holds 2 e (kindsOf ts) (kindsOf rest)
  | .first h => h.holds.mono (by omega)
  | .more h ht hsign hr => by
      obtain ⟨-, -, hstrength⟩ := productSign_iff hsign
      refine holds_of_fills (wraps_of_le (by simp [rank, hstrength])) ?_
      rw [slots, hstrength]
      exact ((fills_nil.part hr.holds).token ht (by cases hsign <;> rfl)).part h.holds

theorem Sum.holds {s : Setting} {n : Nat} {ts : List Token} {e : Node} {rest : List Token} :
    Sum s n ts e rest → Holds 1 e (kindsOf ts) (kindsOf rest)
  | .first h _ => h.holds.mono (by omega)
  | .more h ht hsign hr _ => by
      obtain ⟨-, -, hstrength⟩ := sumSign_iff hsign
      refine holds_of_fills (wraps_of_le (by simp [rank, hstrength])) ?_
      rw [slots, hstrength]
      exact ((fills_nil.part hr.holds).token ht (by cases hsign <;> rfl)).part h.holds

theorem Stages.fills {s : Setting} {n : Nat} {ts : List Token} {es : List Node} {rest : List Token} :
    Stages s n ts es rest →
      Fills (es.flatMap fun e => [.token .own, .part 0 e.bare]) (kindsOf ts) (kindsOf rest)
  | .nil _ => fills_nil
  | .cons ht h _ _ hmore => (hmore.fills.part (h.holds.mono (Nat.zero_le 1))).token ht rfl

theorem Expression.holds {s : Setting} {n : Nat} {ts : List Token} {e : Node} {rest : List Token} :
    Expression s n ts e rest → Holds 0 e (kindsOf ts) (kindsOf rest)
  | .sum h _ _ => h.holds.mono (Nat.zero_le 1)
  | .pipe h _ hstages =>
      holds_of_fills (wraps_of_le (Nat.zero_le _)) (hstages.fills.part h.holds)

theorem Items.fills {c : Symbol} {s : Setting} {n : Nat} {ts : List Token} {es : List Node}
    {rest : List Token} : Items c s n ts es rest →
      Fills (es.map fun e => .part 0 e.bare) (kindsOf ts) (kindsOf rest)
  | .nil _ => fills_nil
  | .last h _ => fills_nil.part h.holds
  | .more h ht hmore => (hmore.fills.skip ht rfl).part h.holds

theorem Entries.fills {s : Setting} {n : Nat} {ts : List Token} {es : List Node}
    {rest : List Token} : Entries s n ts es rest →
      Fills (es.map fun e => .part 0 e.bare) (kindsOf ts) (kindsOf rest)
  | .nil _ => fills_nil
  | .last h _ => fills_nil.part h.holds
  | .more h ht hmore => (hmore.fills.skip ht rfl).part h.holds

theorem Entry.holds {s : Setting} {n : Nat} {ts : List Token} {e : Node} {rest : List Token} :
    Entry s n ts e rest → Holds 0 e (kindsOf ts) (kindsOf rest)
  | .mk ht hu h =>
      holds_of_fills (wraps_of_le (Nat.zero_le _)) (((fills_nil.part h.holds).token hu rfl).token ht rfl)

theorem Block.fills {n : Nat} {ts : List Token} {es : List Node} {rest : List Token} :
    Block n ts es rest → Fills (es.map fun e => .part 0 e.bare) (kindsOf ts) (kindsOf rest)
  | .nil _ => fills_nil
  | .cons h hmore => hmore.fills.part h.holds

theorem Statement.holds {s : Setting} {n : Nat} {ts : List Token} {e : Node} {rest : List Token} :
    Statement s n ts e rest → Holds 0 e (kindsOf ts) (kindsOf rest)
  | .expression h => holds_of_fills (wraps_of_le (Nat.zero_le _)) (fills_nil.part h.holds)
  | .declaration ht _ hu hv h =>
      holds_of_fills (wraps_of_le (Nat.zero_le _))
        ((((fills_nil.part h.holds).token hv rfl).token hu rfl).token ht rfl)
  | .giveBack ht _ h =>
      holds_of_fills (wraps_of_le (Nat.zero_le _)) ((fills_nil.part h.holds).token ht rfl)

end

/-- The tokens of a script are those of its statements, each in a place for anything. -/
theorem Statements.fills {n : Nat} {ts : List Token} {es : List Node} (h : Statements n ts es) :
    Fills (es.map fun e => .part 0 e.bare) (kindsOf ts) [] := by
  induction h with
  | nil => exact fills_nil
  | cons hfirst _ ih => exact ih.part hfirst.holds

end PartScript.Grammar
