import PartScript.Proofs.Node.Layout

/-!
How deep a text is nested, told from its tree. Every expression, sign and statement of a function is a level,
and so is a pair of parentheses, since there is an expression in it. The printer puts parentheses around parts
that bind more loosely than the place they stand in, and these are in every text that is read as the tree.
But it also puts them around functions and around numbers with a member, which could do without, so that the
printed text can be nested deeper than the one that was read.
-/

namespace PartScript.Printer

/-! ### Levels -/

/-- Is the expression a function? It is printed as if it did not hold together by itself. -/
def isFunction : Node → Bool
  | .function _ _ _ => true
  | _ => false

/-- Does a part that stands where expressions of a strength do have parentheses around it, either all that
are printed or only those that no text can do without? -/
def wraps (printed : Bool) (k : Nat) (e : Node) : Bool :=
  decide (rank e < k) && (printed || !isFunction e)

/-- Does the target of a member or an index have parentheses around it? -/
def wrapsTarget (printed : Bool) (e : Node) : Bool :=
  wraps printed atomStrength e || (printed && isBareNumber e)

mutual

/-- The number of levels inside an expression or a statement, with all parentheses that are printed or only
those that no text can do without. -/
def nesting (printed : Bool) : Node → Nat
  | .literal _ _ _ | .identifier _ | .hole _ | .pipe _ [] => 0
  | .binary _ op l r =>
    max (nesting printed l + (wraps printed (op.strength?.getD 0) l).toNat)
      (nesting printed r + (wraps printed (op.strength?.getD 0 + 1) r).toNat)
  | .unary _ _ e => nesting printed e + (wraps printed signStrength e).toNat + 1
  | .call _ _ args => nestingAll printed 1 args
  | .array _ es => nestingAll printed 1 es
  | .object _ ps => nestingAll printed 1 ps
  | .property _ _ e => nesting printed e
  | .member _ e _ => nesting printed e + (wrapsTarget printed e).toNat
  | .index _ e key =>
    max (nesting printed e + (wrapsTarget printed e).toNat) (nesting printed key + 1)
  | .pipe _ (first :: more) =>
    max (nesting printed first + (wraps printed (looseStrength + 1) first).toNat)
      (nestingAll printed 0 more)
  | .function _ _ body => nestingAll printed 2 body
  | .declaration _ _ _ e => nesting printed e
  | .statement _ e => nesting printed e
  | .giveBack _ e => nesting printed e
  | .program _ body => nestingAll printed 1 body

/-- The number of levels in a row of trees, each of which stands in some levels of its own. -/
def nestingAll (printed : Bool) (levels : Nat) : List Node → Nat
  | [] => 0
  | n :: rest => max (nesting printed n + levels) (nestingAll printed levels rest)

end

/-! ### Marks -/

@[simp] theorem isFunction_bare (e : Node) : isFunction e.bare = isFunction e := by
  cases e <;> rfl

@[simp] theorem wraps_bare (printed : Bool) (k : Nat) (e : Node) :
    wraps printed k e.bare = wraps printed k e := by
  simp [wraps]

@[simp] theorem wrapsTarget_bare (printed : Bool) (e : Node) :
    wrapsTarget printed e.bare = wrapsTarget printed e := by
  simp [wrapsTarget]

mutual

theorem nesting_bare (printed : Bool) : (e : Node) → nesting printed e.bare = nesting printed e
  | .literal _ _ _ | .identifier _ | .hole _ => by simp [Node.bare, nesting]
  | .binary _ _ l r | .index _ l r => by
      simp [Node.bare, nesting, nesting_bare printed l, nesting_bare printed r]
  | .unary _ _ e | .property _ _ e | .member _ e _ | .declaration _ _ _ e | .statement _ e
  | .giveBack _ e => by simp [Node.bare, nesting, nesting_bare printed e]
  | .call _ _ es | .array _ es | .object _ es => by
      simp [Node.bare, nesting, nestingAll_bare printed 1 es]
  | .pipe _ [] => by simp [Node.bare, Node.bareAll, nesting]
  | .pipe _ (first :: more) => by
      simp [Node.bare, Node.bareAll, nesting, nesting_bare printed first, nestingAll_bare printed 0 more]
  | .function _ _ body => by simp [Node.bare, nesting, nestingAll_bare printed 2 body]
  | .program _ body => by simp [Node.bare, nesting, nestingAll_bare printed 1 body]

theorem nestingAll_bare (printed : Bool) (levels : Nat) :
    (es : List Node) → nestingAll printed levels (Node.bareAll es) = nestingAll printed levels es
  | [] => rfl
  | e :: rest => by
      simp [Node.bareAll, nestingAll, nesting_bare printed e, nestingAll_bare printed levels rest]

end

/-- The nesting does not depend on marks. -/
theorem nesting_of_bare_eq {e e' : Node} (h : e.bare = e'.bare) (printed : Bool) :
    nesting printed e = nesting printed e' := by
  rw [← nesting_bare, h, nesting_bare]

theorem nesting_setMark (printed : Bool) (m : Mark) (e : Node) :
    nesting printed (e.setMark m) = nesting printed e :=
  nesting_of_bare_eq (Node.bare_setMark m e) printed

/-! ### Parentheses that could be left out -/

/-- Does the node have a part that is printed in parentheses and could do without them? -/
def overwraps : Node → Bool
  | .binary _ _ l r => isFunction l || isFunction r
  | .unary _ _ e => isFunction e
  | .member _ e _ => isFunction e || isBareNumber e
  | .index _ e _ => isFunction e || isBareNumber e
  | .pipe _ (first :: _) => isFunction first
  | _ => false

theorem wraps_eq {e : Node} (h : isFunction e = false) (k : Nat) : wraps true k e = wraps false k e := by
  simp [wraps, h]

theorem wrapsTarget_eq {e : Node} (h : (isFunction e || isBareNumber e) = false) :
    wrapsTarget true e = wrapsTarget false e := by
  obtain ⟨hfunction, hnumber⟩ := Bool.or_eq_false_iff.1 h
  simp [wrapsTarget, wraps_eq hfunction, hnumber]

mutual

/-- Where no parentheses are printed that could be left out, all count. -/
theorem nesting_eq :
    (e : Node) → (∀ n ∈ e.walk, overwraps n = false) → nesting true e = nesting false e
  | .literal _ _ _, _ | .identifier _, _ | .hole _, _ | .pipe _ [], _ => by simp [nesting]
  | .binary m op l r, h => by
      have hself := h (.binary m op l r) (by simp [Node.walk])
      obtain ⟨hl, hr⟩ := Bool.or_eq_false_iff.1 hself
      simp only [nesting, wraps_eq hl, wraps_eq hr, nesting_eq l fun n hn => h n (by simp [Node.walk, hn]),
        nesting_eq r fun n hn => h n (by simp [Node.walk, hn])]
  | .unary m op e, h => by
      have hself := h (.unary m op e) (by simp [Node.walk])
      simp only [nesting, wraps_eq hself, nesting_eq e fun n hn => h n (by simp [Node.walk, hn])]
  | .member m e label, h => by
      have hself := h (.member m e label) (by simp [Node.walk])
      simp only [nesting, wrapsTarget_eq hself, nesting_eq e fun n hn => h n (by simp [Node.walk, hn])]
  | .index m e key, h => by
      have hself := h (.index m e key) (by simp [Node.walk])
      simp only [nesting, wrapsTarget_eq hself, nesting_eq e fun n hn => h n (by simp [Node.walk, hn]),
        nesting_eq key fun n hn => h n (by simp [Node.walk, hn])]
  | .pipe m (first :: more), h => by
      have hself := h (.pipe m (first :: more)) (by simp [Node.walk])
      simp only [nesting, wraps_eq hself,
        nesting_eq first fun n hn => h n (by simp [Node.walk, Node.walkAll, hn]),
        nestingAll_eq 0 more fun n hn => h n (by simp [Node.walk, Node.walkAll, hn])]
  | .property _ _ e, h | .declaration _ _ _ e, h | .statement _ e, h | .giveBack _ e, h => by
      simp only [nesting, nesting_eq e fun n hn => h n (by simp [Node.walk, hn])]
  | .call _ _ es, h | .array _ es, h | .object _ es, h | .program _ es, h => by
      simp only [nesting, nestingAll_eq 1 es fun n hn => h n (by simp [Node.walk, hn])]
  | .function _ _ body, h => by
      simp only [nesting, nestingAll_eq 2 body fun n hn => h n (by simp [Node.walk, hn])]

theorem nestingAll_eq (levels : Nat) :
    (es : List Node) → (∀ n ∈ Node.walkAll es, overwraps n = false) →
      nestingAll true levels es = nestingAll false levels es
  | [], _ => rfl
  | e :: rest, h => by
      simp only [nestingAll, nesting_eq e fun n hn => h n (by simp [Node.walkAll, hn]),
        nestingAll_eq levels rest fun n hn => h n (by simp [Node.walkAll, hn])]

end

end PartScript.Printer

/-! ### The nesting of what is read -/

namespace PartScript.Printer

variable {printed : Bool} {j k : Nat} {e : Node}

/-- What is wrapped in a place is wrapped where tighter expressions stand. -/
theorem wraps_mono (hjk : j ≤ k) (e : Node) :
    (wraps printed j e).toNat ≤ (wraps printed k e).toNat := by
  simp only [wraps]
  by_cases hj : rank e < j
  · have hk : rank e < k := by omega
    simp [hj, hk]
  · simp [hj]

/-- What binds as tightly as its place asks for is not wrapped. -/
theorem wraps_of_le (h : k ≤ rank e) : wraps printed k e = false := by
  simp [wraps, Nat.not_lt.2 h]

theorem wrapsTarget_false (e : Node) : wrapsTarget false e = wraps false atomStrength e := by
  simp [wrapsTarget]

theorem toNat_le_one (b : Bool) : b.toNat ≤ 1 := by
  cases b <;> decide

end PartScript.Printer

namespace PartScript.Grammar

open PartScript.Parser (Setting)
open Printer

/-- A phrase of a strength is nested at least as deep as its tree is, with the parentheses that the tree needs
where phrases of that strength stand. -/
abbrev Covers (k n : Nat) (e : Node) : Prop := nesting false e + (wraps false k e).toNat ≤ n

theorem Covers.mono {j k n : Nat} {e : Node} (h : Covers k n e) (hjk : j ≤ k) : Covers j n e :=
  Nat.le_trans (Nat.add_le_add_left (wraps_mono hjk e) _) h

/-- An expression that binds as tightly as its place asks for needs no parentheses. -/
theorem covers_of_le {k n : Nat} {e : Node} (hk : k ≤ rank e) (h : nesting false e ≤ n) :
    Covers k n e := by
  rw [Covers, wraps_of_le hk]
  exact h

mutual

theorem Atom.covers {s : Setting} {n : Nat} {ts : List Token} {e : Node} {rest : List Token} :
    Atom s n ts e rest → Covers 4 n e
  | .number _ | .string _ | .trueWord _ | .falseWord _ | .name _ | .hole _ _ => by
      exact covers_of_le (Nat.le_refl 4) (by simp [nesting])
  | .array _ h _ => covers_of_le (Nat.le_refl 4) h.nesting_le
  | .object _ h _ => covers_of_le (Nat.le_refl 4) h.nesting_le
  | .function _ _ _ h _ => by
      have hbody := h.nesting_le
      simpa [Covers, wraps, isFunction, nesting] using hbody
  | .parens _ _ h _ => by
      have hinner := h.nesting_le
      rw [Covers, nesting_setMark]
      exact Nat.le_trans (Nat.add_le_add_left (toNat_le_one _) _) hinner

theorem Suffixed.covers {s : Setting} {n : Nat} {ts : List Token} {e : Node} {rest : List Token} :
    Suffixed s n ts e rest → Covers 4 n e
  | .atom h => h.covers
  | .member h _ _ => by
      refine covers_of_le (Nat.le_refl 4) ?_
      rw [nesting, wrapsTarget_false]
      exact h.covers
  | .index h _ _ hkey _ => by
      refine covers_of_le (Nat.le_refl 4) ?_
      rw [nesting, wrapsTarget_false]
      exact Nat.max_le.2 ⟨Nat.le_trans h.covers (Nat.le_max_left _ _),
        Nat.le_trans hkey.nesting_le (Nat.le_max_right _ _)⟩
  | .call _ _ _ hargs _ =>
      covers_of_le (Nat.le_refl 4) (Nat.le_trans hargs.nesting_le (Nat.le_max_right _ _))

theorem Operand.covers {s : Setting} {n : Nat} {ts : List Token} {e : Node} {rest : List Token} :
    Operand s n ts e rest → Covers 3 n e
  | .suffixed h _ => h.covers.mono (by omega)
  | .sign _ _ h => covers_of_le (Nat.le_refl 3) (Nat.succ_le_succ h.covers)

theorem Product.covers {s : Setting} {n : Nat} {ts : List Token} {e : Node} {rest : List Token} :
    Product s n ts e rest → Covers 2 n e
  | .first h => h.covers.mono (by omega)
  | .more h _ hsign hr => by
      obtain ⟨-, -, hstrength⟩ := productSign_iff hsign
      refine covers_of_le (by simp [rank, hstrength]) ?_
      rw [nesting, hstrength]
      exact Nat.max_le.2 ⟨Nat.le_trans h.covers (Nat.le_max_left _ _),
        Nat.le_trans hr.covers (Nat.le_max_right _ _)⟩

theorem Sum.covers {s : Setting} {n : Nat} {ts : List Token} {e : Node} {rest : List Token} :
    Sum s n ts e rest → Covers 1 n e
  | .first h _ => h.covers.mono (by omega)
  | .more h _ hsign hr _ => by
      obtain ⟨-, -, hstrength⟩ := sumSign_iff hsign
      refine covers_of_le (by simp [rank, hstrength]) ?_
      rw [nesting, hstrength]
      exact Nat.max_le.2 ⟨Nat.le_trans h.covers (Nat.le_max_left _ _),
        Nat.le_trans hr.covers (Nat.le_max_right _ _)⟩

theorem Stages.nesting_le {s : Setting} {n : Nat} {ts : List Token} {es : List Node}
    {rest : List Token} : Stages s n ts es rest → nestingAll false 0 es ≤ n
  | .nil _ => Nat.le_refl 0
  | .cons _ h _ _ hmore => by
      have hfirst := h.covers
      have hrest := hmore.nesting_le
      rw [nestingAll]
      omega

theorem Expression.nesting_le {s : Setting} {n : Nat} {ts : List Token} {e : Node} {rest : List Token} :
    Expression s n ts e rest → nesting false e + 1 ≤ n
  | .sum h _ _ => Nat.succ_le_succ (Nat.le_trans (Nat.le_add_right _ _) h.covers)
  | .pipe h _ hstages => by
      rw [nesting]
      exact Nat.succ_le_succ (Nat.max_le.2 ⟨Nat.le_trans h.covers (Nat.le_max_left _ _),
        Nat.le_trans hstages.nesting_le (Nat.le_max_right _ _)⟩)

theorem Items.nesting_le {c : Symbol} {s : Setting} {n : Nat} {ts : List Token} {es : List Node}
    {rest : List Token} : Items c s n ts es rest → nestingAll false 1 es ≤ n
  | .nil _ => Nat.le_refl 0
  | .last h _ => Nat.max_le.2 ⟨h.nesting_le, Nat.zero_le _⟩
  | .more h _ hmore => by
      have hfirst := h.nesting_le
      have hrest := hmore.nesting_le
      rw [nestingAll]
      omega

theorem Entries.nesting_le {s : Setting} {n : Nat} {ts : List Token} {es : List Node}
    {rest : List Token} : Entries s n ts es rest → nestingAll false 1 es ≤ n
  | .nil _ => Nat.le_refl 0
  | .last h _ => Nat.max_le.2 ⟨h.nesting_le, Nat.zero_le _⟩
  | .more h _ hmore => by
      have hfirst := h.nesting_le
      have hrest := hmore.nesting_le
      rw [nestingAll]
      omega

theorem Entry.nesting_le {s : Setting} {n : Nat} {ts : List Token} {e : Node} {rest : List Token} :
    Entry s n ts e rest → nesting false e + 1 ≤ n
  | .mk _ _ h => by
      rw [nesting]
      exact h.nesting_le

theorem Block.nesting_le {n : Nat} {ts : List Token} {es : List Node} {rest : List Token} :
    Block n ts es rest → nestingAll false 2 es ≤ n
  | .nil _ => Nat.le_refl 0
  | .cons h hmore => by
      have hfirst := h.nesting_le
      have hrest := hmore.nesting_le
      rw [nestingAll]
      omega

theorem Statement.nesting_le {s : Setting} {n : Nat} {ts : List Token} {e : Node} {rest : List Token} :
    Statement s n ts e rest → nesting false e + 1 ≤ n
  | .expression h => by
      rw [nesting]
      exact h.nesting_le
  | .declaration _ _ _ _ h => by
      rw [nesting]
      exact h.nesting_le
  | .giveBack _ _ h => by
      rw [nesting]
      exact h.nesting_le

end

/-- No text of a script is nested less deep than its tree is, with the parentheses that it cannot do
without. -/
theorem Statements.nesting_le {n : Nat} {ts : List Token} {es : List Node} (h : Statements n ts es) :
    nestingAll false 1 es ≤ n := by
  induction h with
  | nil => exact Nat.le_refl 0
  | cons hfirst _ ih =>
      have hlevels := hfirst.nesting_le
      rw [nestingAll]
      omega

end PartScript.Grammar
