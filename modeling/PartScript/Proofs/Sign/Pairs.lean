import PartScript.Proofs.Edit.Edited
import PartScript.Proofs.Twin.Reformat

/-!
Pairs of minus signs. One tree unpairs another if it says the same without some pairs of minus signs that
follow each other directly, and its calls stand at the same ranges. Simplifying the signs of a tree that
can be written drops pairs and does nothing else, since such a tree has no negative literal.
-/

namespace PartScript.Node

open List (Forall₂)
open PartScript.Parser (Setting)

/-- The second tree says the same as the first one without some pairs of minus signs, and its calls stand
at the same ranges. -/
inductive Unpairs : Node → Node → Prop
  | program {m m' body body'} : Forall₂ Unpairs body body' →
      Unpairs (.program m body) (.program m' body')
  | declaration {m m' word i i' e e'} : i.name = i'.name → Unpairs e e' →
      Unpairs (.declaration m word i e) (.declaration m' word i' e')
  | statement {m m' e e'} : Unpairs e e' → Unpairs (.statement m e) (.statement m' e')
  | giveBack {m m' e e'} : Unpairs e e' → Unpairs (.giveBack m e) (.giveBack m' e')
  | literal {m m' value raw} : Unpairs (.literal m value raw) (.literal m' value raw)
  | identifier {i i'} : i.name = i'.name → Unpairs (.identifier i) (.identifier i')
  | binary {m m' op l l' r r'} : Unpairs l l' → Unpairs r r' →
      Unpairs (.binary m op l r) (.binary m' op l' r')
  | unary {m m' op e e'} : Unpairs e e' → Unpairs (.unary m op e) (.unary m' op e')
  | pair {m m' e e'} : Unpairs e e' → Unpairs (.unary m .minus (.unary m' .minus e)) e'
  | call {m m' i i' args args'} : m.span.range = m'.span.range → i.name = i'.name →
      Forall₂ Unpairs args args' → Unpairs (.call m i args) (.call m' i' args')
  | array {m m' es es'} : Forall₂ Unpairs es es' → Unpairs (.array m es) (.array m' es')
  | object {m m' ps ps'} : Forall₂ Unpairs ps ps' → Unpairs (.object m ps) (.object m' ps')
  | property {m m' i i' e e'} : i.name = i'.name → Unpairs e e' →
      Unpairs (.property m i e) (.property m' i' e')
  | member {m m' e e' i i'} : Unpairs e e' → i.name = i'.name →
      Unpairs (.member m e i) (.member m' e' i')
  | index {m m' e e' key key'} : Unpairs e e' → Unpairs key key' →
      Unpairs (.index m e key) (.index m' e' key')
  | pipe {m m' stages stages'} : Forall₂ Unpairs stages stages' →
      Unpairs (.pipe m stages) (.pipe m' stages')
  | hole {m m'} : Unpairs (.hole m) (.hole m')
  | function {m m' params params' body body'} :
      params.map (·.name) = params'.map (·.name) → Forall₂ Unpairs body body' →
      Unpairs (.function m params body) (.function m' params' body')

mutual

/-- Twins have the same minus signs. -/
theorem Twin.unpairs {n n' : Node} : Twin Eq n n' → Unpairs n n'
  | .program h => .program h.unpairs
  | .declaration hname h => .declaration hname h.unpairs
  | .statement h => .statement h.unpairs
  | .giveBack h => .giveBack h.unpairs
  | .literal => .literal
  | .identifier hname => .identifier hname
  | .binary hl hr => .binary hl.unpairs hr.unpairs
  | .unary h => .unary h.unpairs
  | .call hrange hname hargs => .call hrange hname hargs.unpairs
  | .array h => .array h.unpairs
  | .object h => .object h.unpairs
  | .property hname h => .property hname h.unpairs
  | .member h hname => .member h.unpairs hname
  | .index h hkey => .index h.unpairs hkey.unpairs
  | .pipe h => .pipe h.unpairs
  | .hole => .hole
  | .function hparams h => .function hparams h.unpairs

theorem TwinAll.unpairs {ns ns' : List Node} : TwinAll Eq ns ns' → Forall₂ Unpairs ns ns'
  | .nil => .nil
  | .cons h hrest => .cons h.unpairs hrest.unpairs

end

/-- Other marks make no difference as long as the calls stay where they are. -/
theorem unpairs_of_bare_eq {n n' : Node} (h : n.bare = n'.bare) (hcalls : n.calls = n'.calls) :
    Unpairs n n' :=
  (twin_of_bare_eq n n' h (List.forall₂_eq_eq_eq ▸ hcalls)).unpairs

/-! ### Simpler signs -/

/-- A minus sign before a tree goes away together with the first one that is left of it. -/
theorem Unpairs.minus {n e : Node} {m' : Mark} (m : Mark) :
    Unpairs n (.unary m' .minus e) → Unpairs (.unary m .minus n) e
  | .unary h => .pair h
  | .pair h => .pair (h.minus _)

/-- A pair that is left can be dropped as well. -/
theorem Unpairs.drop {n e : Node} {m m' : Mark} :
    Unpairs n (.unary m .minus (.unary m' .minus e)) → Unpairs n e
  | .unary h => h.minus _
  | .pair h => .pair h.drop

theorem Unpairs.collapse {n k : Node} (h : Unpairs n k) : Unpairs n (Edit.collapse k) := by
  fun_induction Edit.collapse k with
  | case1 _ _ e ih => exact ih h.drop
  | case2 => exact h

theorem Unpairs.simplify {s : Setting} (rules : Edit.NegationRules) {n k : Node}
    (hk : Writable .expression s k) (h : Unpairs n k) : Unpairs n (Edit.simplify rules k) := by
  have hcollapsed : Writable .expression s (if rules.collapse then Edit.collapse k else k) ∧
      Unpairs n (if rules.collapse then Edit.collapse k else k) := by
    split
    · exact ⟨hk.collapse, h.collapse⟩
    · exact ⟨hk, h⟩
  unfold Edit.simplify
  dsimp only
  split
  · rw [hcollapsed.1.fold_eq]
    exact hcollapsed.2
  · exact hcollapsed.2

mutual

/-- A tree that can be written, and the tree with simpler signs. -/
theorem unpairs_simplifyAll (rules : Edit.NegationRules) (role : Role) (s : Setting) :
    (n : Node) → Writable role s n → Unpairs n (Edit.simplifyAll rules n)
  | program _ body, h => by
      cases role <;> simp only [Writable] at h
      exact .program (unpairs_simplifyEach rules .statement s body h)
  | declaration _ _ _ e, h => by
      cases role <;> simp only [Writable] at h
      exact .declaration rfl (unpairs_simplifyAll rules .expression s e h.2.2)
  | statement _ e, h => by
      cases role <;> simp only [Writable] at h
      exact .statement (unpairs_simplifyAll rules .expression s e h)
  | giveBack _ e, h => by
      cases role <;> simp only [Writable] at h
      exact .giveBack (unpairs_simplifyAll rules .expression s e h.2)
  | literal _ _ _, _ => .literal
  | identifier _, _ => .identifier rfl
  | hole _, _ => .hole
  | binary _ _ l r, h => by
      cases role <;> simp only [Writable] at h
      exact .binary (unpairs_simplifyAll rules .expression s l h.2.1)
        (unpairs_simplifyAll rules .expression s r h.2.2)
  | unary m op e, h => by
      cases role <;> simp only [Writable] at h
      have hsimpler : Writable .expression s (.unary m op (Edit.simplifyAll rules e)) := by
        simp only [Writable]
        exact ⟨h.1, writable_simplifyAll rules .expression s e h.2⟩
      exact Unpairs.simplify rules hsimpler
        (.unary (unpairs_simplifyAll rules .expression s e h.2))
  | call _ _ args, h => by
      cases role <;> simp only [Writable] at h
      all_goals exact .call rfl rfl (unpairs_simplifyEach rules .expression s args h.2)
  | array _ es, h => by
      cases role <;> simp only [Writable] at h
      exact .array (unpairs_simplifyEach rules .expression s es h)
  | object _ ps, h => by
      cases role <;> simp only [Writable] at h
      exact .object (unpairs_simplifyEach rules .entry s ps h)
  | property _ _ e, h => by
      cases role <;> simp only [Writable] at h
      exact .property rfl (unpairs_simplifyAll rules .expression s e h.2)
  | member _ e _, h => by
      cases role <;> simp only [Writable] at h
      exact .member (unpairs_simplifyAll rules .expression s e h.1) rfl
  | index _ e key, h => by
      cases role <;> simp only [Writable] at h
      exact .index (unpairs_simplifyAll rules .expression s e h.1)
        (unpairs_simplifyAll rules .expression s key h.2)
  | pipe _ [], h => by cases role <;> simp only [Writable] at h
  | pipe _ (first :: more), h => by
      cases role <;> simp only [Writable] at h
      exact .pipe (.cons (unpairs_simplifyAll rules .expression s first h.1)
        (unpairs_simplifyEach rules .stage { s with inStage := true } more h.2.2))
  | function _ _ body, h => by
      cases role <;> simp only [Writable] at h
      exact .function rfl (unpairs_simplifyEach rules .statement ⟨false, true⟩ body h.2)

theorem unpairs_simplifyEach (rules : Edit.NegationRules) (role : Role) (s : Setting) :
    (ns : List Node) → WritableAll role s ns → Forall₂ Unpairs ns (Edit.simplifyEach rules ns)
  | [], _ => .nil
  | n :: rest, h =>
      .cons (unpairs_simplifyAll rules role s n h.1) (unpairs_simplifyEach rules role s rest h.2)

end

end PartScript.Node
