import PartScript.Proofs.Grammar
import PartScript.Proofs.Results

/-!
How far a phrase reaches. A phrase takes at least one token, leaves a suffix of the tokens, and its node
ends where the last token it took ends. So the line on which the token before a bracket ends, which is
what the grammar asks about, is the line on which the node before it ends, which is what a reader can
see.
-/

namespace PartScript.Grammar

open PartScript.Parser (Setting)

/-- The tokens up to a rest end at a position, and there is at least one of them. -/
def Ends (ts : List Token) (stop : Position) (rest : List Token) : Prop :=
  ∃ us p, ts = us ++ p :: rest ∧ stop = p.span.stop

theorem Ends.cons {t : Token} {ts rest : List Token} {stop : Position} (h : Ends ts stop rest) :
    Ends (t :: ts) stop rest := by
  obtain ⟨us, p, rfl, hp⟩ := h
  exact ⟨t :: us, p, rfl, hp⟩

theorem Ends.suffix {ts rest : List Token} {stop : Position} (h : Ends ts stop rest) :
    rest <:+ ts := by
  obtain ⟨us, p, rfl, -⟩ := h
  exact ⟨us ++ [p], by simp⟩

theorem Ends.length_lt {ts rest : List Token} {stop : Position} (h : Ends ts stop rest) :
    rest.length < ts.length := by
  obtain ⟨us, p, rfl, -⟩ := h
  simp
  omega

/-- A phrase whose last token is known ends there. -/
theorem ends_of_suffix {ts rest : List Token} {v : Token} (h : v :: rest <:+ ts) :
    Ends ts v.span.stop rest := by
  obtain ⟨us, rfl⟩ := h
  exact ⟨us, v, rfl, rfl⟩

/-- The phrase goes on from the rest of an earlier part to a new end. -/
theorem Ends.extend {ts us rest : List Token} {stop : Position} (h : us <:+ ts)
    (h' : Ends us stop rest) : Ends ts stop rest := by
  obtain ⟨vs, p, rfl, hp⟩ := h'
  obtain ⟨ws, rfl⟩ := h
  exact ⟨ws ++ vs, p, by simp, hp⟩

/-- Adjoining is about the line where the tokens before end. -/
theorem Ends.adjoins_iff {ts after : List Token} {stop : Position} {t : Token}
    (h : Ends ts stop (t :: after)) : Adjoins ts t after ↔ stop.line = t.span.start.line := by
  obtain ⟨us, p, rfl, hp⟩ := h
  constructor
  · rintro ⟨vs, q, heq, hq⟩
    have hlen : us.length = vs.length := by
      have := congrArg List.length heq
      simp at this
      omega
    obtain ⟨-, hrest⟩ := List.append_inj heq hlen
    have hpq : p = q := (List.cons.inj hrest).1
    rw [hp, hpq, hq]
  · intro hline
    exact ⟨us, p, rfl, by rw [← hp]; exact hline⟩

theorem Head.suffix {ts : List Token} {params : List Ident} {rest : List Token} :
    Head ts params rest → rest <:+ ts
  | .nil _ _ => ⟨[_, _], rfl⟩
  | .last _ _ _ => ⟨[_, _, _], rfl⟩
  | .more _ _ h => h.suffix.trans ⟨[_, _], rfl⟩

@[simp] theorem span_setMark (e : Node) (m : Mark) : (e.setMark m).span = m.span := by
  simp [Node.span]

mutual

theorem Atom.ends {s : Setting} {n : Nat} {ts : List Token} {e : Node} {rest : List Token} :
    Atom s n ts e rest → Ends ts e.span.stop rest
  | .number _ => ⟨[], _, rfl, rfl⟩
  | .string _ => ⟨[], _, rfl, rfl⟩
  | .trueWord _ => ⟨[], _, rfl, rfl⟩
  | .falseWord _ => ⟨[], _, rfl, rfl⟩
  | .name _ => ⟨[], _, rfl, rfl⟩
  | .hole _ _ => ⟨[], _, rfl, rfl⟩
  | .array _ h _ => ends_of_suffix (h.suffix.trans (List.suffix_cons _ _))
  | .object _ h _ => ends_of_suffix (h.suffix.trans (List.suffix_cons _ _))
  | .function _ hhead _ h _ =>
      ends_of_suffix (((h.suffix.trans (List.suffix_cons _ _)).trans hhead.suffix).trans
        (List.suffix_cons _ _))
  | .parens _ _ h _ => by
      rw [span_setMark]
      exact ends_of_suffix (h.ends.suffix.trans (List.suffix_cons _ _))

theorem Suffixed.ends {s : Setting} {n : Nat} {ts : List Token} {e : Node} {rest : List Token} :
    Suffixed s n ts e rest → Ends ts e.span.stop rest
  | .atom h => h.ends
  | .member h _ _ => ends_of_suffix ((List.suffix_cons _ _).trans h.ends.suffix)
  | .index h _ _ hkey _ =>
      ends_of_suffix ((hkey.ends.suffix.trans (List.suffix_cons _ _)).trans h.ends.suffix)
  | .call h _ _ hargs _ =>
      ends_of_suffix ((hargs.suffix.trans (List.suffix_cons _ _)).trans h.ends.suffix)

theorem Operand.ends {s : Setting} {n : Nat} {ts : List Token} {e : Node} {rest : List Token} :
    Operand s n ts e rest → Ends ts e.span.stop rest
  | .suffixed h _ => h.ends
  | .sign _ _ h => h.ends.cons

theorem Product.ends {s : Setting} {n : Nat} {ts : List Token} {e : Node} {rest : List Token} :
    Product s n ts e rest → Ends ts e.span.stop rest
  | .first h => h.ends
  | .more h _ _ hr => Ends.extend ((List.suffix_cons _ _).trans h.ends.suffix) hr.ends

theorem Sum.ends {s : Setting} {n : Nat} {ts : List Token} {e : Node} {rest : List Token} :
    Sum s n ts e rest → Ends ts e.span.stop rest
  | .first h _ => h.ends
  | .more h _ _ hr _ => Ends.extend ((List.suffix_cons _ _).trans h.ends.suffix) hr.ends

/-- Stages end with the last of them; no stages take nothing. -/
theorem Stages.ends {s : Setting} {n : Nat} {ts : List Token} {es : List Node}
    {rest : List Token} : Stages s n ts es rest →
      rest <:+ ts ∧ ∀ h : es ≠ [], Ends ts (es.getLast h).span.stop rest
  | .nil _ => ⟨List.suffix_refl _, fun h => absurd rfl h⟩
  | @Stages.cons _ _ _ _ _ _ _ es _ _ h _ _ hmore => by
      obtain ⟨hsuffix, hlast⟩ := hmore.ends
      have hfirst := h.ends
      refine ⟨(hsuffix.trans hfirst.suffix).trans (List.suffix_cons _ _), fun _ => ?_⟩
      cases es with
      | nil =>
          cases hmore
          exact hfirst.cons
      | cons x xs =>
          rw [List.getLast_cons (by simp)]
          exact Ends.extend (hfirst.suffix.trans (List.suffix_cons _ _)) (hlast (by simp))

theorem Expression.ends {s : Setting} {n : Nat} {ts : List Token} {e : Node} {rest : List Token} :
    Expression s n ts e rest → Ends ts e.span.stop rest
  | .sum h _ _ => h.ends
  | .pipe h _ hstages => Ends.extend h.ends.suffix (hstages.ends.2 (by simp))

theorem Items.suffix {c : Symbol} {s : Setting} {n : Nat} {ts : List Token} {es : List Node}
    {rest : List Token} : Items c s n ts es rest → rest <:+ ts
  | .nil _ => List.suffix_refl _
  | .last h _ => h.ends.suffix
  | .more h _ hmore => (hmore.suffix.trans (List.suffix_cons _ _)).trans h.ends.suffix

theorem Entries.suffix {s : Setting} {n : Nat} {ts : List Token} {es : List Node}
    {rest : List Token} : Entries s n ts es rest → rest <:+ ts
  | .nil _ => List.suffix_refl _
  | .last h _ => h.ends.suffix
  | .more h _ hmore => (hmore.suffix.trans (List.suffix_cons _ _)).trans h.ends.suffix

theorem Entry.ends {s : Setting} {n : Nat} {ts : List Token} {e : Node} {rest : List Token} :
    Entry s n ts e rest → Ends ts e.span.stop rest
  | .mk _ _ h => h.ends.cons.cons

theorem Block.suffix {n : Nat} {ts : List Token} {es : List Node} {rest : List Token} :
    Block n ts es rest → rest <:+ ts
  | .nil _ => List.suffix_refl _
  | .cons h hmore => hmore.suffix.trans h.ends.suffix

theorem Statement.ends {s : Setting} {n : Nat} {ts : List Token} {e : Node} {rest : List Token} :
    Statement s n ts e rest → Ends ts e.span.stop rest
  | .expression h => h.ends
  | .declaration _ _ _ _ h => h.ends.cons.cons.cons
  | .giveBack _ _ h => h.ends.cons

end

/-! ### How phrases start -/

/-- Can an atom start with such a token? -/
def startsAtom : TokenKind → Bool
  | .number _ | .string _ | .identifier _ => true
  | .keyword .trueWord | .keyword .falseWord => true
  | .symbol .percent | .symbol .lbracket | .symbol .lbrace | .symbol .lparen => true
  | _ => false

/-- Can an expression start with such a token? -/
def startsExpression : TokenKind → Bool
  | .symbol .minus | .symbol .bang => true
  | kind => startsAtom kind

/-- Can a statement start with such a token? -/
def startsStatement : TokenKind → Bool
  | .keyword _ => true
  | kind => startsExpression kind

/-- The tokens start with one of some kinds. -/
def Starts (p : TokenKind → Bool) (ts : List Token) : Prop :=
  ∃ t after, ts = t :: after ∧ p t.kind = true

theorem starts_cons {p : TokenKind → Bool} {t : Token} {kind : TokenKind} (after : List Token)
    (ht : t.kind = kind) (h : p kind = true) : Starts p (t :: after) :=
  ⟨t, after, rfl, by rw [ht]; exact h⟩

theorem Starts.mono {p q : TokenKind → Bool} {ts : List Token} (h : Starts p ts)
    (hpq : ∀ kind, p kind = true → q kind = true) : Starts q ts := by
  obtain ⟨t, after, hts, ht⟩ := h
  exact ⟨t, after, hts, hpq _ ht⟩

theorem startsExpression_of_startsAtom {kind : TokenKind} (h : startsAtom kind = true) :
    startsExpression kind = true := by
  unfold startsExpression
  split <;> first | rfl | exact h

theorem startsStatement_of_startsExpression {kind : TokenKind} (h : startsExpression kind = true) :
    startsStatement kind = true := by
  unfold startsStatement
  split <;> first | rfl | exact h

theorem Atom.starts {s : Setting} {n : Nat} {ts : List Token} {e : Node} {rest : List Token} :
    Atom s n ts e rest → Starts startsAtom ts
  | .number h => starts_cons _ h rfl
  | .string h => starts_cons _ h rfl
  | .trueWord h => starts_cons _ h rfl
  | .falseWord h => starts_cons _ h rfl
  | .name h => starts_cons _ h rfl
  | .hole h _ => starts_cons _ h rfl
  | .array h _ _ => starts_cons _ h rfl
  | .object h _ _ => starts_cons _ h rfl
  | .function h _ _ _ _ => starts_cons _ h rfl
  | .parens h _ _ _ => starts_cons _ h rfl

theorem Suffixed.starts {s : Setting} {n : Nat} {ts : List Token} {e : Node} {rest : List Token} :
    Suffixed s n ts e rest → Starts startsAtom ts
  | .atom h => h.starts
  | .member h _ _ => h.starts
  | .index h _ _ _ _ => h.starts
  | .call h _ _ _ _ => h.starts

theorem Operand.starts {s : Setting} {n : Nat} {ts : List Token} {e : Node} {rest : List Token} :
    Operand s n ts e rest → Starts startsExpression ts
  | .suffixed h _ => h.starts.mono fun _ => startsExpression_of_startsAtom
  | .sign ht .minus _ => starts_cons _ ht rfl
  | .sign ht .bang _ => starts_cons _ ht rfl

theorem Product.starts {s : Setting} {n : Nat} {ts : List Token} {e : Node} {rest : List Token} :
    Product s n ts e rest → Starts startsExpression ts
  | .first h => h.starts
  | .more h _ _ _ => h.starts

theorem Sum.starts {s : Setting} {n : Nat} {ts : List Token} {e : Node} {rest : List Token} :
    Sum s n ts e rest → Starts startsExpression ts
  | .first h _ => h.starts
  | .more h _ _ _ _ => h.starts

theorem Expression.starts {s : Setting} {n : Nat} {ts : List Token} {e : Node}
    {rest : List Token} : Expression s n ts e rest → Starts startsExpression ts
  | .sum h _ _ => h.starts
  | .pipe h _ _ => h.starts

theorem Statement.starts {s : Setting} {n : Nat} {ts : List Token} {e : Node} {rest : List Token} :
    Statement s n ts e rest → Starts startsStatement ts
  | .expression h => h.starts.mono fun _ => startsStatement_of_startsExpression
  | .declaration ht _ _ _ _ => starts_cons _ ht rfl
  | .giveBack ht _ _ => starts_cons _ ht rfl

end PartScript.Grammar
