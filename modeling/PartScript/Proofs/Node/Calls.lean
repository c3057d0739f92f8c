import PartScript.Proofs.Node.Bare
import PartScript.Proofs.Grammar.Recognition
import PartScript.Proofs.Token.Piece

/-!
Calls and where they stand. A call ends with a closing parenthesis, its own or one around it, and no two
calls of a script end with the same one. So the ranges of the calls of a script are all different, and
the range of a call tells which call of the script it is.
-/

namespace PartScript

namespace Node

mutual

/-- The ranges of the calls in a tree, in the order in which they end. -/
def calls : Node → List Range
  | program _ body => callsAll body
  | declaration _ _ _ init => calls init
  | statement _ e => calls e
  | giveBack _ e => calls e
  | literal _ _ _ => []
  | identifier _ => []
  | binary _ _ l r => calls l ++ calls r
  | unary _ _ e => calls e
  | call m _ args => callsAll args ++ [m.span.range]
  | array _ es => callsAll es
  | object _ ps => callsAll ps
  | property _ _ e => calls e
  | member _ e _ => calls e
  | index _ e key => calls e ++ calls key
  | pipe _ stages => callsAll stages
  | hole _ => []
  | function _ _ body => callsAll body

/-- The ranges of the calls in some trees. -/
def callsAll : List Node → List Range
  | [] => []
  | n :: rest => calls n ++ callsAll rest

end

mutual

/-- Paths do not move calls. -/
theorem calls_place (path : List Nat) : (n : Node) → (n.place path).calls = n.calls
  | program _ body => callsAll_placeAll path 0 body
  | declaration _ _ _ init => calls_place _ init
  | statement _ e | giveBack _ e | unary _ _ e | property _ _ e | member _ e _ => calls_place _ e
  | literal _ _ _ | identifier _ | hole _ => rfl
  | binary _ _ l r => by simp only [place, calls, calls_place _ l, calls_place _ r]
  | call _ _ args => by simp only [place, calls, callsAll_placeAll path 1 args]
  | array _ es => callsAll_placeAll path 0 es
  | object _ ps => callsAll_placeAll path 0 ps
  | index _ e key => by simp only [place, calls, calls_place _ e, calls_place _ key]
  | pipe _ stages => callsAll_placeAll path 0 stages
  | function _ params body => callsAll_placeAll path params.length body

theorem callsAll_placeAll (path : List Nat) (k : Nat) :
    (ns : List Node) → callsAll (placeAll path k ns) = callsAll ns
  | [] => rfl
  | n :: rest => by
      simp only [placeAll, callsAll, calls_place (path ++ [k]) n, callsAll_placeAll path (k + 1) rest]

end

theorem calls_withPaths (n : Node) : n.withPaths.calls = n.calls := calls_place [] n

end Node

namespace Grammar

open PartScript.Parser (Setting)
open Node (calls callsAll)

/-! ### Closing parentheses -/

/-- Where the closing parentheses among some tokens end. -/
def closings : List Token → List Int
  | [] => []
  | t :: rest =>
    if t.kind = .symbol .rparen then t.span.range.stop :: closings rest else closings rest

theorem closings_rparen {t : Token} (rest : List Token) (h : t.kind = .symbol .rparen) :
    closings (t :: rest) = t.span.range.stop :: closings rest := if_pos h

theorem closings_sublist_cons (t : Token) (rest : List Token) :
    (closings rest).Sublist (closings (t :: rest)) := by
  rw [closings]
  split
  · exact List.sublist_cons_self _ _
  · exact List.Sublist.refl _

theorem closings_sublist_of_suffix {ts rest : List Token} (h : rest <:+ ts) :
    (closings rest).Sublist (closings ts) := by
  obtain ⟨us, rfl⟩ := h
  induction us with
  | nil => exact List.Sublist.refl _
  | cons t us ih => exact ih.trans (closings_sublist_cons _ _)

/-- The ends of some calls, in order, are ends of closing parentheses in front of a rest. -/
def Closed (ts : List Token) (ranges : List Range) (rest : List Token) : Prop :=
  (ranges.map (·.stop) ++ closings rest).Sublist (closings ts)

theorem closed_of_suffix {ts rest : List Token} (h : rest <:+ ts) : Closed ts [] rest :=
  closings_sublist_of_suffix h

theorem Closed.append {ts us rest : List Token} {rs rs' : List Range} (h : Closed ts rs us)
    (h' : Closed us rs' rest) : Closed ts (rs ++ rs') rest := by
  unfold Closed
  rw [List.map_append, List.append_assoc]
  exact ((List.Sublist.refl _).append h').trans h

theorem Closed.cons {ts rest : List Token} {rs : List Range} (t : Token) (h : Closed ts rs rest) :
    Closed (t :: ts) rs rest :=
  h.trans (closings_sublist_cons _ _)

/-- A token behind the calls does no harm. -/
theorem Closed.drop {ts rest : List Token} {t : Token} {rs : List Range}
    (h : Closed ts rs (t :: rest)) : Closed ts rs rest :=
  ((List.Sublist.refl _).append (closings_sublist_cons t rest)).trans h

/-- A closing parenthesis behind the calls ends one more. -/
theorem Closed.close {ts rest : List Token} {t : Token} {rs : List Range} {r : Range}
    (h : Closed ts rs (t :: rest)) (ht : t.kind = .symbol .rparen)
    (hr : r.stop = t.span.range.stop) : Closed ts (rs ++ [r]) rest := by
  unfold Closed at h ⊢
  rw [closings_rparen rest ht] at h
  rw [List.map_append, List.append_assoc]
  simpa only [List.map_cons, List.map_nil, List.singleton_append, hr] using h

/-- Parentheses around a call are taken for its end. -/
theorem Closed.parens {ts rest : List Token} {t u : Token} {e : Node}
    (h : Closed ts e.calls (u :: rest)) (hu : u.kind = .symbol .rparen) :
    Closed ts (e.setMark (.at (t.span.upTo u.span))).calls rest := by
  cases e with
  | call m callee args =>
      refine Closed.close ?_ hu rfl
      refine List.Sublist.trans ?_ h
      rw [Node.calls, List.map_append, List.append_assoc]
      exact (List.Sublist.refl _).append (List.sublist_append_right _ _)
  | _ => exact h.drop

/-! ### Phrases -/

mutual

theorem Atom.closed {s : Setting} {n : Nat} {ts : List Token} {e : Node} {rest : List Token} :
    Atom s n ts e rest → Closed ts e.calls rest
  | .number _ => closed_of_suffix (List.suffix_cons _ _)
  | .string _ => closed_of_suffix (List.suffix_cons _ _)
  | .trueWord _ => closed_of_suffix (List.suffix_cons _ _)
  | .falseWord _ => closed_of_suffix (List.suffix_cons _ _)
  | .name _ => closed_of_suffix (List.suffix_cons _ _)
  | .hole _ _ => closed_of_suffix (List.suffix_cons _ _)
  | .array _ h _ => (h.closed.cons _).drop
  | .object _ h _ => (h.closed.cons _).drop
  | .function _ hhead _ h _ =>
      ((closed_of_suffix ((List.suffix_cons _ _).trans hhead.suffix)).append h.closed.drop).cons _
  | .parens _ _ h hu => (h.closed.cons _).parens hu

theorem Suffixed.closed {s : Setting} {n : Nat} {ts : List Token} {e : Node} {rest : List Token} :
    Suffixed s n ts e rest → Closed ts e.calls rest
  | .atom h => h.closed
  | .member h _ _ => h.closed.drop.drop
  | .index h _ _ hkey _ => h.closed.drop.append hkey.closed.drop
  | .call h _ _ hargs hv => (h.closed.drop.append hargs.closed).close hv rfl

theorem Operand.closed {s : Setting} {n : Nat} {ts : List Token} {e : Node} {rest : List Token} :
    Operand s n ts e rest → Closed ts e.calls rest
  | .suffixed h _ => h.closed
  | .sign _ _ h => h.closed.cons _

theorem Product.closed {s : Setting} {n : Nat} {ts : List Token} {e : Node} {rest : List Token} :
    Product s n ts e rest → Closed ts e.calls rest
  | .first h => h.closed
  | .more h _ _ hr => h.closed.drop.append hr.closed

theorem Sum.closed {s : Setting} {n : Nat} {ts : List Token} {e : Node} {rest : List Token} :
    Sum s n ts e rest → Closed ts e.calls rest
  | .first h _ => h.closed
  | .more h _ _ hr _ => h.closed.drop.append hr.closed

theorem Stages.closed {s : Setting} {n : Nat} {ts : List Token} {es : List Node}
    {rest : List Token} : Stages s n ts es rest → Closed ts (callsAll es) rest
  | .nil _ => closed_of_suffix (List.suffix_refl _)
  | .cons _ h _ _ hmore => (h.closed.append hmore.closed).cons _

theorem Expression.closed {s : Setting} {n : Nat} {ts : List Token} {e : Node}
    {rest : List Token} : Expression s n ts e rest → Closed ts e.calls rest
  | .sum h _ _ => h.closed
  | .pipe h _ hstages => h.closed.append hstages.closed

theorem Items.closed {c : Symbol} {s : Setting} {n : Nat} {ts : List Token} {es : List Node}
    {rest : List Token} : Items c s n ts es rest → Closed ts (callsAll es) rest
  | .nil _ => closed_of_suffix (List.suffix_refl _)
  | .last h _ => h.closed.append (closed_of_suffix (List.suffix_refl _))
  | .more h _ hmore => h.closed.drop.append hmore.closed

theorem Entries.closed {s : Setting} {n : Nat} {ts : List Token} {es : List Node}
    {rest : List Token} : Entries s n ts es rest → Closed ts (callsAll es) rest
  | .nil _ => closed_of_suffix (List.suffix_refl _)
  | .last h _ => h.closed.append (closed_of_suffix (List.suffix_refl _))
  | .more h _ hmore => h.closed.drop.append hmore.closed

theorem Entry.closed {s : Setting} {n : Nat} {ts : List Token} {e : Node} {rest : List Token} :
    Entry s n ts e rest → Closed ts e.calls rest
  | .mk _ _ h => (h.closed.cons _).cons _

theorem Block.closed {n : Nat} {ts : List Token} {es : List Node} {rest : List Token} :
    Block n ts es rest → Closed ts (callsAll es) rest
  | .nil _ => closed_of_suffix (List.suffix_refl _)
  | .cons h hmore => h.closed.append hmore.closed

theorem Statement.closed {s : Setting} {n : Nat} {ts : List Token} {e : Node} {rest : List Token} :
    Statement s n ts e rest → Closed ts e.calls rest
  | .expression h => h.closed
  | .declaration _ _ _ _ h => ((h.closed.cons _).cons _).cons _
  | .giveBack _ _ h => h.closed.cons _

end

theorem Statements.closed {n : Nat} {ts : List Token} {es : List Node} (h : Statements n ts es) :
    Closed ts (callsAll es) [] := by
  induction h with
  | nil => exact List.Sublist.refl _
  | cons h _ ih => exact h.closed.append ih

theorem Script.closed {finish : Span} {n : Nat} {ts : List Token} {tree : Node}
    (h : Script finish n ts tree) : Closed ts tree.calls [] := by
  cases h with
  | empty => exact List.Sublist.refl _
  | body h => exact h.closed

end Grammar

/-! ### Scripts -/

namespace Lexer

open Grammar (closings)

/-- Closing parentheses end one behind the other. -/
theorem Reading.closings_increasing {r : Reading} {fuel : Nat} {p : Position} {text : List Char}
    {all : List Token} (h : r.tokens fuel p text = .ok all) :
    (∀ x ∈ closings all, (p.offset : Int) < x) ∧ (closings all).Pairwise (· < ·) := by
  induction fuel generalizing p text all with
  | zero =>
      cases h
      exact ⟨nofun, .nil⟩
  | succ fuel ih =>
      rcases tokens_succ_cases h with ⟨-, rfl⟩ | ⟨gap, word, rest, kind, more, hfirst, rfl, hmore⟩
      · exact ⟨nofun, .nil⟩
      · obtain ⟨hbehind, hmore⟩ := ih hmore
        -- The token starts at the position or behind it, and takes at least one character.
        have hword : 0 < word.length := List.length_pos_iff.2 hfirst.lexeme.ne_nil
        simp only [Position.offset_after] at hbehind
        simp only [closings]
        split
        · refine ⟨fun x hx => ?_, List.pairwise_cons.2 ⟨fun x hx => ?_, hmore⟩⟩
          · rcases List.mem_cons.1 hx with rfl | hx
            · simp only [Span.range, Position.offset_after]
              omega
            · have hx := hbehind x hx
              omega
          · simp only [Span.range, Position.offset_after]
            exact hbehind x hx
        · refine ⟨fun x hx => ?_, hmore⟩
          have hx := hbehind x hx
          omega

end Lexer

theorem closings_append_finish (ts : List Token) {t : Token} (h : t.kind = .finish) :
    Grammar.closings (ts ++ [t]) = Grammar.closings ts := by
  induction ts with
  | nil => simp [Grammar.closings, h]
  | cons u ts ih => simp only [List.cons_append, Grammar.closings, ih]

/-- No two calls of a script have the same range. -/
theorem calls_nodup_of_parse {source : String} {file : Option String} {tree : Node}
    (h : parse source file = .ok tree) : tree.calls.Nodup := by
  obtain ⟨tokens, htokens, htree⟩ := bind_eq_ok h
  have hincreasing := (Lexer.Reading.closings_increasing htokens).2
  obtain ⟨ts, finish, rfl⟩ := tokenize_eq_ok htokens
  obtain ⟨n, bare, hscript, -, -, rfl⟩ :=
    Grammar.script_eq_ok_iff.1 (parseTokens_eq_ok_iff.1 htree)
  rw [closings_append_finish ts rfl] at hincreasing
  have hclosed := hscript.closed
  unfold Grammar.Closed at hclosed
  rw [Grammar.closings, List.append_nil] at hclosed
  rw [Node.calls_withPaths]
  have hstops : (bare.calls.map (·.stop)).Pairwise (· < ·) := hincreasing.sublist hclosed
  have hranges := List.pairwise_map.1 hstops
  refine hranges.imp fun {a b} hlt heq => ?_
  rw [heq] at hlt
  exact absurd hlt (Int.lt_irrefl _)

end PartScript
