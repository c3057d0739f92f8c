import PartScript.Proofs.Grammar.Extent
import PartScript.Proofs.Node.Ranges
import PartScript.Proofs.Pipe.Nested

/-!
Phrases by themselves. What a phrase takes does not depend on what is behind it, so the tokens of a phrase are
a phrase when nothing is behind them. Surroundings matter only for the value of a stage, and only if the
phrase uses one that it does not make. Every expression in a tree comes from a piece of the tokens that is a
whole expression and is not nested deeper.
-/

namespace PartScript

/-! ### Values of stages -/

namespace Node

mutual

/-- Marks do not matter for the use of the values of stages. -/
theorem enclosed_bare (inStage : Bool) : (n : Node) → enclosed inStage n.bare = enclosed inStage n
  | .program _ body => enclosedAll_bareAll inStage body
  | .declaration _ _ _ e | .statement _ e | .giveBack _ e | .unary _ _ e | .property _ _ e
  | .member _ e _ => enclosed_bare inStage e
  | .literal _ _ _ | .identifier _ | .hole _ | .pipe _ [] => rfl
  | .binary _ _ l r => by
      simp only [bare, enclosed, enclosed_bare inStage l, enclosed_bare inStage r]
  | .index _ e key => by
      simp only [bare, enclosed, enclosed_bare inStage e, enclosed_bare inStage key]
  | .call _ _ args => enclosedAll_bareAll inStage args
  | .array _ es | .object _ es => enclosedAll_bareAll inStage es
  | .pipe _ (first :: more) => by
      simp only [bare, bareAll, enclosed, enclosed_bare inStage first,
        enclosedAll_bareAll true more]
  | .function _ _ body => enclosedAll_bareAll false body

theorem enclosedAll_bareAll (inStage : Bool) :
    (ns : List Node) → enclosedAll inStage (bareAll ns) = enclosedAll inStage ns
  | [] => rfl
  | n :: ns => by
      simp only [bareAll, enclosedAll, enclosed_bare inStage n, enclosedAll_bareAll inStage ns]

end

theorem enclosed_setMark (inStage : Bool) (m : Mark) (e : Node) :
    enclosed inStage (e.setMark m) = enclosed inStage e := by
  rw [← enclosed_bare, bare_setMark, enclosed_bare]

theorem enclosed_place (inStage : Bool) (path : List Nat) (e : Node) :
    enclosed inStage (e.place path) = enclosed inStage e := by
  rw [← enclosed_bare, bare_place, enclosed_bare]

end Node

namespace Grammar

open PartScript.Parser (Setting)
open Node (enclosed enclosedAll)

/-! ### What is behind a phrase -/

section

variable {more : List Token}

theorem NoSuffix.cut {us vs : List Token} (h : NoSuffix (us ++ more) (vs ++ more)) :
    NoSuffix us vs := by
  rintro t after rfl
  obtain ⟨hdot, hopening⟩ := h t (after ++ more) rfl
  refine ⟨hdot, fun hkind hadjoins => hopening hkind ?_⟩
  obtain ⟨front, p, rfl, hline⟩ := hadjoins
  exact ⟨front, p, by simp, hline⟩

theorem NoProduct.cut {vs : List Token} (h : NoProduct (vs ++ more)) : NoProduct vs := by
  rintro t after rfl
  exact h t (after ++ more) rfl

theorem NoSum.cut {vs : List Token} (h : NoSum (vs ++ more)) : NoSum vs := by
  rintro t after rfl
  exact h t (after ++ more) rfl

theorem NoPipe.cut {vs : List Token} (h : NoPipe (vs ++ more)) : NoPipe vs := by
  rintro t after rfl
  exact h t (after ++ more) rfl

theorem Adjoins.cut {us vs : List Token} {t : Token} (h : Adjoins (us ++ more) t (vs ++ more)) :
    Adjoins us t vs := by
  obtain ⟨front, p, heq, hline⟩ := h
  refine ⟨front, p, (List.append_left_inj more).1 ?_, hline⟩
  rw [heq]
  simp

theorem Head.cut (more : List Token) {ts : List Token} {params : List Ident} {rest : List Token} :
    Head ts params rest → ∀ vs, rest = vs ++ more → ∃ us, ts = us ++ more ∧ Head us params vs
  | .nil ht hu, vs, heq => ⟨_ :: _ :: vs, by rw [heq]; rfl, .nil ht hu⟩
  | .last ht hu hv, vs, heq => ⟨_ :: _ :: _ :: vs, by rw [heq]; rfl, .last ht hu hv⟩
  | .more ht hu h, vs, heq =>
      have ⟨us, hus, h'⟩ := h.cut more vs heq
      ⟨_ :: _ :: us, by rw [hus]; rfl, .more ht hu h'⟩

theorem Head.append {ts : List Token} {params : List Ident} {rest : List Token} :
    Head ts params rest → ∀ vs, Head (ts ++ vs) params (rest ++ vs)
  | .nil ht hu, _ => .nil ht hu
  | .last ht hu hv, _ => .last ht hu hv
  | .more ht hu h, vs => .more ht hu (h.append vs)

mutual

theorem Atom.cut {s : Setting} {n : Nat} {ts : List Token} {e : Node} {rest : List Token} :
    Atom s n ts e rest → ∀ vs, rest = vs ++ more → ∃ us, ts = us ++ more ∧ Atom s n us e vs
  | .number ht, vs, heq => ⟨_ :: vs, by rw [heq]; rfl, .number ht⟩
  | .string ht, vs, heq => ⟨_ :: vs, by rw [heq]; rfl, .string ht⟩
  | .trueWord ht, vs, heq => ⟨_ :: vs, by rw [heq]; rfl, .trueWord ht⟩
  | .falseWord ht, vs, heq => ⟨_ :: vs, by rw [heq]; rfl, .falseWord ht⟩
  | .name ht, vs, heq => ⟨_ :: vs, by rw [heq]; rfl, .name ht⟩
  | .hole ht hstage, vs, heq => ⟨_ :: vs, by rw [heq]; rfl, .hole ht hstage⟩
  | .array ht h hu, vs, heq =>
      have ⟨us, hus, h'⟩ := h.cut _ vs (by rw [heq])
      ⟨_ :: us, by rw [hus]; rfl, .array ht h' hu⟩
  | .object ht h hu, vs, heq =>
      have ⟨us, hus, h'⟩ := h.cut _ vs (by rw [heq])
      ⟨_ :: us, by rw [hus]; rfl, .object ht h' hu⟩
  | .function ht hhead hu h hv, vs, heq =>
      have ⟨us, hus, h'⟩ := h.cut _ vs (by rw [heq])
      have ⟨ws, hws, hhead'⟩ := hhead.cut more (_ :: us) (by rw [hus]; rfl)
      ⟨_ :: ws, by rw [hws]; rfl, .function ht hhead' hu h' hv⟩
  | .parens ht hno h hu, vs, heq =>
      have ⟨us, hus, h'⟩ := h.cut (_ :: vs) (by rw [heq]; rfl)
      have hno' : ∀ params ws, ¬ Head us params ws := fun params ws hhead =>
        hno params (ws ++ more) (by rw [hus]; exact hhead.append more)
      ⟨_ :: us, by rw [hus]; rfl, .parens ht hno' h' hu⟩

theorem Suffixed.cut {s : Setting} {n : Nat} {ts : List Token} {e : Node} {rest : List Token} :
    Suffixed s n ts e rest → ∀ vs, rest = vs ++ more → ∃ us, ts = us ++ more ∧ Suffixed s n us e vs
  | .atom h, vs, heq =>
      have ⟨us, hus, h'⟩ := h.cut vs heq
      ⟨us, hus, .atom h'⟩
  | .member h ht hu, vs, heq =>
      have ⟨us, hus, h'⟩ := h.cut (_ :: _ :: vs) (by rw [heq]; rfl)
      ⟨us, hus, .member h' ht hu⟩
  | .index h ht hadjoins hkey hv, vs, heq =>
      have ⟨ws, hws, hkey'⟩ := hkey.cut (_ :: vs) (by rw [heq]; rfl)
      have ⟨us, hus, h'⟩ := h.cut (_ :: ws) (by rw [hws]; rfl)
      ⟨us, hus, .index h' ht (Adjoins.cut (by rw [← hus, ← hws]; exact hadjoins)) hkey' hv⟩
  | .call h ht hadjoins hargs hv, vs, heq =>
      have ⟨ws, hws, hargs'⟩ := hargs.cut _ vs (by rw [heq])
      have ⟨us, hus, h'⟩ := h.cut (_ :: ws) (by rw [hws]; rfl)
      ⟨us, hus, .call h' ht (Adjoins.cut (by rw [← hus, ← hws]; exact hadjoins)) hargs' hv⟩

theorem Operand.cut {s : Setting} {n : Nat} {ts : List Token} {e : Node} {rest : List Token} :
    Operand s n ts e rest → ∀ vs, rest = vs ++ more → ∃ us, ts = us ++ more ∧ Operand s n us e vs
  | .suffixed h hno, vs, heq =>
      have ⟨us, hus, h'⟩ := h.cut vs heq
      ⟨us, hus, .suffixed h' (NoSuffix.cut (by rw [← hus, ← heq]; exact hno))⟩
  | .sign ht hop h, vs, heq =>
      have ⟨us, hus, h'⟩ := h.cut vs heq
      ⟨_ :: us, by rw [hus]; rfl, .sign ht hop h'⟩

theorem Product.cut {s : Setting} {n : Nat} {ts : List Token} {e : Node} {rest : List Token} :
    Product s n ts e rest → ∀ vs, rest = vs ++ more → ∃ us, ts = us ++ more ∧ Product s n us e vs
  | .first h, vs, heq =>
      have ⟨us, hus, h'⟩ := h.cut vs heq
      ⟨us, hus, .first h'⟩
  | .more h ht hop hr, vs, heq =>
      have ⟨ws, hws, hr'⟩ := hr.cut vs heq
      have ⟨us, hus, h'⟩ := h.cut (_ :: ws) (by rw [hws]; rfl)
      ⟨us, hus, .more h' ht hop hr'⟩

theorem Sum.cut {s : Setting} {n : Nat} {ts : List Token} {e : Node} {rest : List Token} :
    Sum s n ts e rest → ∀ vs, rest = vs ++ more → ∃ us, ts = us ++ more ∧ Sum s n us e vs
  | .first h hno, vs, heq =>
      have ⟨us, hus, h'⟩ := h.cut vs heq
      ⟨us, hus, .first h' (NoProduct.cut (by rw [← heq]; exact hno))⟩
  | .more h ht hop hr hno, vs, heq =>
      have ⟨ws, hws, hr'⟩ := hr.cut vs heq
      have ⟨us, hus, h'⟩ := h.cut (_ :: ws) (by rw [hws]; rfl)
      ⟨us, hus, .more h' ht hop hr' (NoProduct.cut (by rw [← heq]; exact hno))⟩

theorem Stages.cut {s : Setting} {n : Nat} {ts : List Token} {es : List Node}
    {rest : List Token} : Stages s n ts es rest → ∀ vs, rest = vs ++ more →
      ∃ us, ts = us ++ more ∧ Stages s n us es vs
  | .nil hno, vs, heq => ⟨vs, heq, .nil (NoPipe.cut (by rw [← heq]; exact hno))⟩
  | .cons ht h hno hcall hmore, vs, heq =>
      have ⟨ws, hws, hmore'⟩ := hmore.cut vs heq
      have ⟨us, hus, h'⟩ := h.cut ws hws
      ⟨_ :: us, by rw [hus]; rfl,
        .cons ht h' (NoSum.cut (by rw [← hws]; exact hno)) hcall hmore'⟩

theorem Expression.cut {s : Setting} {n : Nat} {ts : List Token} {e : Node}
    {rest : List Token} : Expression s n ts e rest → ∀ vs, rest = vs ++ more →
      ∃ us, ts = us ++ more ∧ Expression s n us e vs
  | .sum h hsum hpipe, vs, heq =>
      have ⟨us, hus, h'⟩ := h.cut vs heq
      ⟨us, hus, .sum h' (NoSum.cut (by rw [← heq]; exact hsum))
        (NoPipe.cut (by rw [← heq]; exact hpipe))⟩
  | .pipe h hsum hstages, vs, heq =>
      have ⟨ws, hws, hstages'⟩ := hstages.cut vs heq
      have ⟨us, hus, h'⟩ := h.cut ws hws
      ⟨us, hus, .pipe h' (NoSum.cut (by rw [← hws]; exact hsum)) hstages'⟩

theorem Items.cut {c : Symbol} {s : Setting} {n : Nat} {ts : List Token} {es : List Node}
    {rest : List Token} : Items c s n ts es rest → ∀ u vs, rest = u :: (vs ++ more) →
      ∃ us, ts = us ++ more ∧ Items c s n us es (u :: vs)
  | .nil ht, u, vs, heq => by
      cases heq
      exact ⟨_ :: vs, rfl, .nil ht⟩
  | .last h ht, u, vs, heq =>
      have ⟨us, hus, h'⟩ := h.cut (u :: vs) heq
      ⟨us, hus, .last h' ((List.cons.inj heq).1 ▸ ht)⟩
  | .more h ht hmore, u, vs, heq =>
      have ⟨ws, hws, hmore'⟩ := hmore.cut u vs heq
      have ⟨us, hus, h'⟩ := h.cut (_ :: ws) (by rw [hws]; rfl)
      ⟨us, hus, .more h' ht hmore'⟩

theorem Entries.cut {s : Setting} {n : Nat} {ts : List Token} {es : List Node}
    {rest : List Token} : Entries s n ts es rest → ∀ u vs, rest = u :: (vs ++ more) →
      ∃ us, ts = us ++ more ∧ Entries s n us es (u :: vs)
  | .nil ht, u, vs, heq => by
      cases heq
      exact ⟨_ :: vs, rfl, .nil ht⟩
  | .last h ht, u, vs, heq =>
      have ⟨us, hus, h'⟩ := h.cut (u :: vs) heq
      ⟨us, hus, .last h' ((List.cons.inj heq).1 ▸ ht)⟩
  | .more h ht hmore, u, vs, heq =>
      have ⟨ws, hws, hmore'⟩ := hmore.cut u vs heq
      have ⟨us, hus, h'⟩ := h.cut (_ :: ws) (by rw [hws]; rfl)
      ⟨us, hus, .more h' ht hmore'⟩

theorem Entry.cut {s : Setting} {n : Nat} {ts : List Token} {e : Node} {rest : List Token} :
    Entry s n ts e rest → ∀ vs, rest = vs ++ more → ∃ us, ts = us ++ more ∧ Entry s n us e vs
  | .mk ht hu h, vs, heq =>
      have ⟨us, hus, h'⟩ := h.cut vs heq
      ⟨_ :: _ :: us, by rw [hus]; rfl, .mk ht hu h'⟩

theorem Block.cut {n : Nat} {ts : List Token} {es : List Node} {rest : List Token} :
    Block n ts es rest → ∀ u vs, rest = u :: (vs ++ more) →
      ∃ us, ts = us ++ more ∧ Block n us es (u :: vs)
  | .nil ht, u, vs, heq => by
      cases heq
      exact ⟨_ :: vs, rfl, .nil ht⟩
  | .cons h hmore, u, vs, heq =>
      have ⟨ws, hws, hmore'⟩ := hmore.cut u vs heq
      have ⟨us, hus, h'⟩ := h.cut ws hws
      ⟨us, hus, .cons h' hmore'⟩

theorem Statement.cut {s : Setting} {n : Nat} {ts : List Token} {e : Node} {rest : List Token} :
    Statement s n ts e rest → ∀ vs, rest = vs ++ more → ∃ us, ts = us ++ more ∧ Statement s n us e vs
  | .expression h, vs, heq =>
      have ⟨us, hus, h'⟩ := h.cut vs heq
      ⟨us, hus, .expression h'⟩
  | .declaration ht hword hu hv h, vs, heq =>
      have ⟨us, hus, h'⟩ := h.cut vs heq
      ⟨_ :: _ :: _ :: us, by rw [hus]; rfl, .declaration ht hword hu hv h'⟩
  | .giveBack ht hfunction h, vs, heq =>
      have ⟨us, hus, h'⟩ := h.cut vs heq
      ⟨_ :: us, by rw [hus]; rfl, .giveBack ht hfunction h'⟩

end

end

/-! ### Surroundings -/

mutual

theorem Atom.elsewhere {s : Setting} {n : Nat} {ts : List Token} {e : Node} {rest : List Token} :
    Atom s n ts e rest → ∀ s' : Setting, enclosed s'.inStage e = true → Atom s' n ts e rest
  | .number ht, _, _ => .number ht
  | .string ht, _, _ => .string ht
  | .trueWord ht, _, _ => .trueWord ht
  | .falseWord ht, _, _ => .falseWord ht
  | .name ht, _, _ => .name ht
  | .hole ht _, _, henclosed => .hole ht henclosed
  | .array ht h hu, s', henclosed => .array ht (h.elsewhere s' henclosed) hu
  | .object ht h hu, s', henclosed => .object ht (h.elsewhere s' henclosed) hu
  | .function ht hhead hu h hv, _, _ => .function ht hhead hu h hv
  | .parens ht hno h hu, s', henclosed =>
      .parens ht hno (h.elsewhere s' (by rw [Node.enclosed_setMark] at henclosed; exact henclosed)) hu

theorem Suffixed.elsewhere {s : Setting} {n : Nat} {ts : List Token} {e : Node}
    {rest : List Token} : Suffixed s n ts e rest →
      ∀ s' : Setting, enclosed s'.inStage e = true → Suffixed s' n ts e rest
  | .atom h, s', henclosed => .atom (h.elsewhere s' henclosed)
  | .member h ht hu, s', henclosed => .member (h.elsewhere s' henclosed) ht hu
  | .index h ht hadjoins hkey hv, s', henclosed =>
      have ⟨htarget, hinner⟩ := Bool.and_eq_true_iff.1 henclosed
      .index (h.elsewhere s' htarget) ht hadjoins (hkey.elsewhere s' hinner) hv
  | .call h ht hadjoins hargs hv, s', henclosed =>
      .call (h.elsewhere s' rfl) ht hadjoins (hargs.elsewhere s' henclosed) hv

theorem Operand.elsewhere {s : Setting} {n : Nat} {ts : List Token} {e : Node}
    {rest : List Token} : Operand s n ts e rest →
      ∀ s' : Setting, enclosed s'.inStage e = true → Operand s' n ts e rest
  | .suffixed h hno, s', henclosed => .suffixed (h.elsewhere s' henclosed) hno
  | .sign ht hop h, s', henclosed => .sign ht hop (h.elsewhere s' henclosed)

theorem Product.elsewhere {s : Setting} {n : Nat} {ts : List Token} {e : Node}
    {rest : List Token} : Product s n ts e rest →
      ∀ s' : Setting, enclosed s'.inStage e = true → Product s' n ts e rest
  | .first h, s', henclosed => .first (h.elsewhere s' henclosed)
  | .more h ht hop hr, s', henclosed =>
      have ⟨hleft, hright⟩ := Bool.and_eq_true_iff.1 henclosed
      .more (h.elsewhere s' hleft) ht hop (hr.elsewhere s' hright)

theorem Sum.elsewhere {s : Setting} {n : Nat} {ts : List Token} {e : Node} {rest : List Token} :
    Sum s n ts e rest → ∀ s' : Setting, enclosed s'.inStage e = true → Sum s' n ts e rest
  | .first h hno, s', henclosed => .first (h.elsewhere s' henclosed) hno
  | .more h ht hop hr hno, s', henclosed =>
      have ⟨hleft, hright⟩ := Bool.and_eq_true_iff.1 henclosed
      .more (h.elsewhere s' hleft) ht hop (hr.elsewhere s' hright) hno

theorem Stages.elsewhere {s : Setting} {n : Nat} {ts : List Token} {es : List Node}
    {rest : List Token} : Stages s n ts es rest →
      ∀ s' : Setting, enclosedAll true es = true → Stages s' n ts es rest
  | .nil hno, _, _ => .nil hno
  | .cons ht h hno hcall hmore, s', henclosed =>
      have ⟨hstage, hmore'⟩ := Bool.and_eq_true_iff.1 henclosed
      .cons ht (h.elsewhere { s' with inStage := true } hstage) hno hcall (hmore.elsewhere s' hmore')

theorem Expression.elsewhere {s : Setting} {n : Nat} {ts : List Token} {e : Node}
    {rest : List Token} : Expression s n ts e rest →
      ∀ s' : Setting, enclosed s'.inStage e = true → Expression s' n ts e rest
  | .sum h hsum hpipe, s', henclosed => .sum (h.elsewhere s' henclosed) hsum hpipe
  | .pipe h hsum hstages, s', henclosed =>
      have ⟨hfirst, hmore⟩ := Bool.and_eq_true_iff.1 henclosed
      .pipe (h.elsewhere s' hfirst) hsum (hstages.elsewhere s' hmore)

theorem Items.elsewhere {c : Symbol} {s : Setting} {n : Nat} {ts : List Token} {es : List Node}
    {rest : List Token} : Items c s n ts es rest →
      ∀ s' : Setting, enclosedAll s'.inStage es = true → Items c s' n ts es rest
  | .nil ht, _, _ => .nil ht
  | .last h ht, s', henclosed => .last (h.elsewhere s' (Bool.and_eq_true_iff.1 henclosed).1) ht
  | .more h ht hmore, s', henclosed =>
      have ⟨hfirst, hmore'⟩ := Bool.and_eq_true_iff.1 henclosed
      .more (h.elsewhere s' hfirst) ht (hmore.elsewhere s' hmore')

theorem Entries.elsewhere {s : Setting} {n : Nat} {ts : List Token} {es : List Node}
    {rest : List Token} : Entries s n ts es rest →
      ∀ s' : Setting, enclosedAll s'.inStage es = true → Entries s' n ts es rest
  | .nil ht, _, _ => .nil ht
  | .last h ht, s', henclosed => .last (h.elsewhere s' (Bool.and_eq_true_iff.1 henclosed).1) ht
  | .more h ht hmore, s', henclosed =>
      have ⟨hfirst, hmore'⟩ := Bool.and_eq_true_iff.1 henclosed
      .more (h.elsewhere s' hfirst) ht (hmore.elsewhere s' hmore')

theorem Entry.elsewhere {s : Setting} {n : Nat} {ts : List Token} {e : Node} {rest : List Token} :
    Entry s n ts e rest → ∀ s' : Setting, enclosed s'.inStage e = true → Entry s' n ts e rest
  | .mk ht hu h, s', henclosed => .mk ht hu (h.elsewhere s' henclosed)

end

/-! ### How nodes start -/

/-- The tokens start where a node does. -/
def Begins (ts : List Token) (start : Position) : Prop :=
  ∃ t after, ts = t :: after ∧ start = t.span.start

mutual

theorem Atom.begins {s : Setting} {n : Nat} {ts : List Token} {e : Node} {rest : List Token} :
    Atom s n ts e rest → Begins ts e.span.start
  | .number _ | .string _ | .trueWord _ | .falseWord _ | .name _ | .hole _ _ => ⟨_, _, rfl, rfl⟩
  | .array _ _ _ | .object _ _ _ | .function _ _ _ _ _ => ⟨_, _, rfl, rfl⟩
  | .parens _ _ _ _ => ⟨_, _, rfl, by rw [span_setMark]; rfl⟩

theorem Suffixed.begins {s : Setting} {n : Nat} {ts : List Token} {e : Node} {rest : List Token} :
    Suffixed s n ts e rest → Begins ts e.span.start
  | .atom h => h.begins
  | .member h _ _ => h.begins
  | .index h _ _ _ _ => h.begins
  | .call h _ _ _ _ => h.begins

theorem Operand.begins {s : Setting} {n : Nat} {ts : List Token} {e : Node} {rest : List Token} :
    Operand s n ts e rest → Begins ts e.span.start
  | .suffixed h _ => h.begins
  | .sign _ _ _ => ⟨_, _, rfl, rfl⟩

theorem Product.begins {s : Setting} {n : Nat} {ts : List Token} {e : Node} {rest : List Token} :
    Product s n ts e rest → Begins ts e.span.start
  | .first h => h.begins
  | .more h _ _ _ => h.begins

theorem Sum.begins {s : Setting} {n : Nat} {ts : List Token} {e : Node} {rest : List Token} :
    Sum s n ts e rest → Begins ts e.span.start
  | .first h _ => h.begins
  | .more h _ _ _ _ => h.begins

end

theorem Expression.begins {s : Setting} {n : Nat} {ts : List Token} {e : Node} {rest : List Token}
    (h : Expression s n ts e rest) : Begins ts e.span.start := by
  cases h with
  | sum h => exact h.begins
  | pipe h => exact h.begins

/-! ### Expressions in a tree -/

/-- Some of the tokens, one behind the other, are an expression by themselves, not nested deeper than a
bound. -/
def Stands (bound : Nat) (ts : List Token) (e : Node) : Prop :=
  ∃ s n us, us <:+: ts ∧ n ≤ bound ∧ Expression s n us e []

/-- All expressions in a tree are such. -/
def AllStand (bound : Nat) (ts : List Token) (e : Node) : Prop :=
  ∀ m ∈ e.walk, m.isExpression = true → Stands bound ts m

theorem allStand_iff {bound : Nat} {ts : List Token} {e : Node} : AllStand bound ts e ↔
    (e.isExpression = true → Stands bound ts e) ∧ ∀ c ∈ e.children, AllStand bound ts c := by
  rw [AllStand, Node.walk_eq_cons, List.forall_mem_cons]
  simp only [List.mem_flatMap, forall_exists_index, and_imp, AllStand]
  exact and_congr_right fun _ => ⟨fun h c hc m hm => h m c hc hm, fun h m c hc hm => h c hc m hm⟩

theorem AllStand.mono {bound bound' : Nat} {ts ts' : List Token} {e : Node}
    (h : AllStand bound ts e) (hbound : bound ≤ bound') (hts : ts <:+: ts') :
    AllStand bound' ts' e := by
  intro m hm hexpression
  obtain ⟨s, n, us, hus, hn, h⟩ := h m hm hexpression
  exact ⟨s, n, us, hus.trans hts, Nat.le_trans hn hbound, h⟩

theorem infix_of_suffix_cons {t : Token} {us ts : List Token} (h : t :: us <:+ ts) : us <:+: ts :=
  ((List.suffix_cons t us).trans h).isInfix

section

variable {s : Setting} {n : Nat} {ts rest : List Token} {e : Node}

theorem Expression.stands_self (h : Expression s n ts e rest) : Stands n ts e := by
  obtain ⟨us, hus, h⟩ := h.cut [] rfl
  exact ⟨s, n, us, hus ▸ List.infix_append [] us rest, Nat.le_refl _, h⟩

theorem Sum.stands_self (h : Sum s n ts e rest) : Stands (n + 1) ts e := by
  obtain ⟨us, hus, h⟩ := h.cut [] rfl
  exact ⟨s, n + 1, us, hus ▸ List.infix_append [] us rest, Nat.le_refl _,
    .sum h noSum_nil noPipe_nil⟩

theorem Product.stands_self (h : Product s n ts e rest) : Stands (n + 1) ts e := by
  obtain ⟨us, hus, h⟩ := h.cut [] rfl
  exact ⟨s, n + 1, us, hus ▸ List.infix_append [] us rest, Nat.le_refl _,
    .sum (.first h noProduct_nil) noSum_nil noPipe_nil⟩

theorem Operand.stands_self (h : Operand s n ts e rest) : Stands (n + 1) ts e :=
  (Product.first h).stands_self

theorem Suffixed.stands_self (h : Suffixed s n ts e rest) : Stands (n + 1) ts e := by
  obtain ⟨us, hus, h⟩ := h.cut [] rfl
  obtain ⟨s, n, ws, hws, hn, h⟩ := (Operand.suffixed h (noSuffix_nil us)).stands_self
  exact ⟨s, n, ws, hws.trans (hus ▸ List.infix_append [] us rest), hn, h⟩

theorem Atom.stands_self (h : Atom s n ts e rest) : Stands (n + 1) ts e :=
  (Suffixed.atom h).stands_self

end

/-- An expression is nested at least once. -/
theorem Expression.nesting_pos {s : Setting} {n : Nat} {ts rest : List Token} {e : Node}
    (h : Expression s n ts e rest) : 1 ≤ n := by
  cases h <;> exact Nat.le_add_left 1 _

theorem allStand_leaf {bound : Nat} {ts : List Token} {e : Node} (h : Stands bound ts e)
    (hchildren : e.children = []) : AllStand bound ts e :=
  allStand_iff.2 ⟨fun _ => h, by rw [hchildren]; exact nofun⟩

theorem allStand_name {bound : Nat} {ts : List Token} {t : Token} {name : String}
    (ht : t.kind = .identifier name) (hbound : 1 ≤ bound) (hts : [t] <:+: ts) :
    AllStand bound ts (.identifier (.at t.span name)) := by
  have hatom : Atom ⟨false, false⟩ 0 [t] (.identifier (.at t.span name)) [] := .name ht
  exact (allStand_leaf hatom.stands_self rfl).mono hbound hts

theorem Head.allStand {ts : List Token} {params : List Ident} {rest : List Token} :
    Head ts params rest → ∀ i ∈ params, AllStand 1 ts (.identifier i)
  | .nil _ _ => nofun
  | .last ht _ _ => List.forall_mem_singleton.2 (allStand_name ht (Nat.le_refl _) ⟨[], _, rfl⟩)
  | .more ht _ h => List.forall_mem_cons.2 ⟨allStand_name ht (Nat.le_refl _) ⟨[], _, rfl⟩,
      fun i hi => (h.allStand i hi).mono (Nat.le_refl _) ((List.suffix_cons _ _).trans (List.suffix_cons _ _)).isInfix⟩

mutual

theorem Atom.allStand {s : Setting} {n : Nat} {ts : List Token} {e : Node} {rest : List Token} :
    Atom s n ts e rest → AllStand (n + 1) ts e
  | .number ht => allStand_leaf (Atom.number (s := s) ht).stands_self rfl
  | .string ht => allStand_leaf (Atom.string (s := s) ht).stands_self rfl
  | .trueWord ht => allStand_leaf (Atom.trueWord (s := s) ht).stands_self rfl
  | .falseWord ht => allStand_leaf (Atom.falseWord (s := s) ht).stands_self rfl
  | .name ht => allStand_leaf (Atom.name (s := s) ht).stands_self rfl
  | .hole ht hstage => allStand_leaf (Atom.hole ht hstage).stands_self rfl
  | .array ht h hu => allStand_iff.2 ⟨fun _ => (Atom.array ht h hu).stands_self, fun c hc =>
      (h.allStand c hc).mono (Nat.le_succ _) (List.suffix_cons _ _).isInfix⟩
  | .object ht h hu => allStand_iff.2 ⟨fun _ => (Atom.object ht h hu).stands_self, fun c hc =>
      (h.allStand c hc).mono (Nat.le_succ _) (List.suffix_cons _ _).isInfix⟩
  | .function ht hhead hu h hv => by
      refine allStand_iff.2 ⟨fun _ => (Atom.function (s := s) ht hhead hu h hv).stands_self,
        fun c hc => ?_⟩
      rcases List.mem_append.1 hc with hc | hc
      · obtain ⟨i, hi, rfl⟩ := List.mem_map.1 hc
        exact (hhead.allStand i hi).mono (Nat.le_add_left 1 n) (List.suffix_cons _ _).isInfix
      · exact (h.allStand c hc).mono (Nat.le_succ n)
          (infix_of_suffix_cons (hhead.suffix.trans (List.suffix_cons _ _)))
  | .parens ht hno h hu => by
      refine allStand_iff.2 ⟨fun _ => (Atom.parens ht hno h hu).stands_self, fun c hc => ?_⟩
      rw [Node.children_setMark] at hc
      exact ((allStand_iff.1 h.allStand).2 c hc).mono (Nat.le_succ n) (List.suffix_cons _ _).isInfix

theorem Suffixed.allStand {s : Setting} {n : Nat} {ts : List Token} {e : Node}
    {rest : List Token} : Suffixed s n ts e rest → AllStand (n + 1) ts e
  | .atom h => h.allStand
  | .member h ht hu => by
      have hname : [_] <:+: ts :=
        List.IsInfix.trans ⟨[], _, rfl⟩ (infix_of_suffix_cons h.ends.suffix)
      refine allStand_iff.2 ⟨fun _ => (Suffixed.member h ht hu).stands_self, ?_⟩
      exact List.forall_mem_cons.2 ⟨h.allStand,
        List.forall_mem_singleton.2 (allStand_name hu (Nat.le_add_left 1 n) hname)⟩
  | .index (n := k) (m := m) h ht hadjoins hkey hv => by
      refine allStand_iff.2 ⟨fun _ => (Suffixed.index h ht hadjoins hkey hv).stands_self, ?_⟩
      refine List.forall_mem_cons.2 ⟨?_, List.forall_mem_singleton.2 ?_⟩
      · exact h.allStand.mono (by omega) (List.infix_refl ts)
      · exact hkey.allStand.mono (by omega) (infix_of_suffix_cons h.ends.suffix)
  | .call (n := k) (m := m) h ht hadjoins hargs hv => by
      refine allStand_iff.2 ⟨fun _ => (Suffixed.call h ht hadjoins hargs hv).stands_self, ?_⟩
      refine List.forall_mem_cons.2 ⟨?_, fun c hc => ?_⟩
      · exact h.allStand.mono (by omega) (List.infix_refl ts)
      · exact (hargs.allStand c hc).mono (by omega) (infix_of_suffix_cons h.ends.suffix)

theorem Operand.allStand {s : Setting} {n : Nat} {ts : List Token} {e : Node} {rest : List Token} :
    Operand s n ts e rest → AllStand (n + 1) ts e
  | .suffixed h _ => h.allStand
  | .sign ht hop h => allStand_iff.2 ⟨fun _ => (Operand.sign ht hop h).stands_self,
      List.forall_mem_singleton.2 (h.allStand.mono (Nat.le_succ _) (List.suffix_cons _ _).isInfix)⟩

theorem Product.allStand {s : Setting} {n : Nat} {ts : List Token} {e : Node} {rest : List Token} :
    Product s n ts e rest → AllStand (n + 1) ts e
  | .first h => h.allStand
  | .more (n := k) (k := m) h ht hop hr => by
      refine allStand_iff.2 ⟨fun _ => (Product.more h ht hop hr).stands_self, ?_⟩
      refine List.forall_mem_cons.2 ⟨?_, List.forall_mem_singleton.2 ?_⟩
      · exact h.allStand.mono (by omega) (List.infix_refl ts)
      · exact hr.allStand.mono (by omega) (infix_of_suffix_cons h.ends.suffix)

theorem Sum.allStand {s : Setting} {n : Nat} {ts : List Token} {e : Node} {rest : List Token} :
    Sum s n ts e rest → AllStand (n + 1) ts e
  | .first h _ => h.allStand
  | .more (n := k) (k := m) h ht hop hr hno => by
      refine allStand_iff.2 ⟨fun _ => (Sum.more h ht hop hr hno).stands_self, ?_⟩
      refine List.forall_mem_cons.2 ⟨?_, List.forall_mem_singleton.2 ?_⟩
      · exact h.allStand.mono (by omega) (List.infix_refl ts)
      · exact hr.allStand.mono (by omega) (infix_of_suffix_cons h.ends.suffix)

theorem Stages.allStand {s : Setting} {n : Nat} {ts : List Token} {es : List Node}
    {rest : List Token} : Stages s n ts es rest → ∀ e ∈ es, AllStand (n + 1) ts e
  | .nil _ => nofun
  | .cons (n := k) (m := m) _ h _ _ hmore => by
      refine List.forall_mem_cons.2 ⟨?_, fun e he => ?_⟩
      · exact h.allStand.mono (by omega) (List.suffix_cons _ _).isInfix
      · exact (hmore.allStand e he).mono (by omega)
          (h.ends.suffix.trans (List.suffix_cons _ _)).isInfix

theorem Expression.allStand {s : Setting} {n : Nat} {ts : List Token} {e : Node}
    {rest : List Token} : Expression s n ts e rest → AllStand n ts e
  | .sum h _ _ => h.allStand
  | .pipe (n := k) (m := m) h hsum hstages => by
      refine allStand_iff.2 ⟨fun _ => (Expression.pipe h hsum hstages).stands_self, ?_⟩
      refine List.forall_mem_cons.2 ⟨?_, fun c hc => ?_⟩
      · exact h.allStand.mono (by omega) (List.infix_refl ts)
      · exact (hstages.allStand c hc).mono (by omega) h.ends.suffix.isInfix

theorem Items.allStand {c : Symbol} {s : Setting} {n : Nat} {ts : List Token} {es : List Node}
    {rest : List Token} : Items c s n ts es rest → ∀ e ∈ es, AllStand n ts e
  | .nil _ => nofun
  | .last h _ => List.forall_mem_singleton.2 h.allStand
  | .more (n := k) (m := m) h _ hmore => by
      refine List.forall_mem_cons.2 ⟨?_, fun e he => ?_⟩
      · exact h.allStand.mono (by omega) (List.infix_refl ts)
      · exact (hmore.allStand e he).mono (by omega) (infix_of_suffix_cons h.ends.suffix)

theorem Entries.allStand {s : Setting} {n : Nat} {ts : List Token} {es : List Node}
    {rest : List Token} : Entries s n ts es rest → ∀ e ∈ es, AllStand n ts e
  | .nil _ => nofun
  | .last h _ => List.forall_mem_singleton.2 h.allStand
  | .more (n := k) (m := m) h _ hmore => by
      refine List.forall_mem_cons.2 ⟨?_, fun e he => ?_⟩
      · exact h.allStand.mono (by omega) (List.infix_refl ts)
      · exact (hmore.allStand e he).mono (by omega) (infix_of_suffix_cons h.ends.suffix)

theorem Entry.allStand {s : Setting} {n : Nat} {ts : List Token} {e : Node} {rest : List Token} :
    Entry s n ts e rest → AllStand n ts e
  | .mk ht _ h => allStand_iff.2 ⟨nofun, List.forall_mem_cons.2
      ⟨allStand_name ht h.nesting_pos ⟨[], _, rfl⟩, List.forall_mem_singleton.2
        (h.allStand.mono (Nat.le_refl n)
          ((List.suffix_cons _ _).trans (List.suffix_cons _ _)).isInfix)⟩⟩

theorem Block.allStand {n : Nat} {ts : List Token} {es : List Node} {rest : List Token} :
    Block n ts es rest → ∀ e ∈ es, AllStand n ts e
  | .nil _ => nofun
  | .cons (n := k) (m := m) h hmore => by
      refine List.forall_mem_cons.2 ⟨?_, fun e he => ?_⟩
      · exact h.allStand.mono (by omega) (List.infix_refl ts)
      · exact (hmore.allStand e he).mono (by omega) h.ends.suffix.isInfix

theorem Statement.allStand {s : Setting} {n : Nat} {ts : List Token} {e : Node} {rest : List Token} :
    Statement s n ts e rest → AllStand n ts e
  | .expression h => allStand_iff.2 ⟨nofun, List.forall_mem_singleton.2 h.allStand⟩
  | .declaration _ _ hu _ h => allStand_iff.2 ⟨nofun, List.forall_mem_cons.2
      ⟨allStand_name hu h.nesting_pos ⟨[_], _, rfl⟩, List.forall_mem_singleton.2
        (h.allStand.mono (Nat.le_refl n) (((List.suffix_cons _ _).trans (List.suffix_cons _ _)).trans
          (List.suffix_cons _ _)).isInfix)⟩⟩
  | .giveBack _ _ h => allStand_iff.2 ⟨nofun, List.forall_mem_singleton.2
      (h.allStand.mono (Nat.le_refl n) (List.suffix_cons _ _).isInfix)⟩

end

theorem Statements.allStand {n : Nat} {ts : List Token} {es : List Node} (h : Statements n ts es) :
    ∀ e ∈ es, AllStand n ts e := by
  induction h with
  | nil => exact nofun
  | @cons k m _ _ _ _ h _ ih =>
      refine List.forall_mem_cons.2 ⟨?_, fun e he => ?_⟩
      · exact h.allStand.mono (by omega) (List.infix_refl _)
      · exact (ih e he).mono (by omega) h.ends.suffix.isInfix

/-- Every expression of a script stands by itself. -/
theorem Script.allStand {finish : Span} {n : Nat} {ts : List Token} {tree : Node}
    (h : Script finish n ts tree) : AllStand n ts tree := by
  cases h with
  | empty => exact allStand_iff.2 ⟨nofun, nofun⟩
  | body h => exact allStand_iff.2 ⟨nofun, h.allStand⟩

end Grammar

end PartScript
