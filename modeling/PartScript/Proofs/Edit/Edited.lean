import PartScript.Proofs.Node.Writable

/-!
Scripts after edits. The edits that leave a script as it is, simplify its signs or rename a name can
follow each other in any order, and what comes out can be written if what went in could. Simplifying
signs never makes a new literal, since a literal that can be written is not negative.
-/

namespace PartScript

open PartScript.Parser (Setting)

/-- A script comes from another one by edits. -/
inductive Edited (script : Node) : Node → Prop
  | refl : Edited script script
  | identity {n m : Node} : Edited script n → Edit.identity n = .ok m → Edited script m
  | normalize {n m : Node} (rules : Edit.NegationRules) :
      Edited script n → Edit.normalize rules n = .ok m → Edited script m
  | rename {n m : Node} (old new : String) :
      Edited script n → Edit.rename old new n = .ok m → Edited script m

namespace Node

/-! ### Simpler signs -/

theorem Writable.collapse {s : Setting} {n : Node} (h : Writable .expression s n) :
    Writable .expression s (Edit.collapse n) := by
  fun_induction Edit.collapse n with
  | case1 _ _ e ih =>
      simp only [Writable] at h
      exact ih h.2.2
  | case2 => exact h

/-- No literal that can be written is folded. -/
theorem Writable.fold_eq {s : Setting} {n : Node} (h : Writable .expression s n) :
    Edit.fold n = n := by
  unfold Edit.fold
  split
  · rename_i v raw
    simp only [Writable] at h
    obtain ⟨-, kind, hkind, hspelled⟩ := h
    cases hkind
    have hnatural := (hspelled.number v rfl).natural
    rw [hnatural.2]
    rfl
  · rfl

theorem Writable.simplify {s : Setting} (rules : Edit.NegationRules) {n : Node}
    (h : Writable .expression s n) : Writable .expression s (Edit.simplify rules n) := by
  unfold Edit.simplify
  dsimp only
  have hcollapse : Writable .expression s (if rules.collapse then Edit.collapse n else n) := by
    split
    · exact h.collapse
    · exact h
  split
  · rw [hcollapse.fold_eq]
    exact hcollapse
  · exact hcollapse

theorem simplifyEach_ne_nil {rules : Edit.NegationRules} {ns : List Node} (h : ns ≠ []) :
    Edit.simplifyEach rules ns ≠ [] := by
  cases ns with
  | nil => exact absurd rfl h
  | cons n ns => simp [Edit.simplifyEach]

mutual

theorem writable_simplifyAll (rules : Edit.NegationRules) (role : Role) (s : Setting) :
    (n : Node) → Writable role s n → Writable role s (Edit.simplifyAll rules n)
  | program _ body, h => by
      cases role <;> simp only [Edit.simplifyAll, Writable] at h ⊢
      exact writableAll_simplifyEach rules .statement s body h
  | declaration _ _ _ e, h => by
      cases role <;> simp only [Edit.simplifyAll, Writable] at h ⊢
      exact ⟨h.1, h.2.1, writable_simplifyAll rules .expression s e h.2.2⟩
  | statement _ e, h => by
      cases role <;> simp only [Edit.simplifyAll, Writable] at h ⊢
      exact writable_simplifyAll rules .expression s e h
  | giveBack _ e, h => by
      cases role <;> simp only [Edit.simplifyAll, Writable] at h ⊢
      exact ⟨h.1, writable_simplifyAll rules .expression s e h.2⟩
  | literal _ _ _, h | identifier _, h | hole _, h => h
  | binary _ _ l r, h => by
      cases role <;> simp only [Edit.simplifyAll, Writable] at h ⊢
      exact ⟨h.1, writable_simplifyAll rules .expression s l h.2.1,
        writable_simplifyAll rules .expression s r h.2.2⟩
  | unary _ _ e, h => by
      cases role <;> simp only [Edit.simplifyAll, Writable] at h ⊢
      refine Writable.simplify rules ?_
      simp only [Writable]
      exact ⟨h.1, writable_simplifyAll rules .expression s e h.2⟩
  | call _ _ args, h => by
      cases role <;> simp only [Edit.simplifyAll, Writable] at h ⊢
      all_goals exact ⟨h.1, writableAll_simplifyEach rules .expression s args h.2⟩
  | array _ es, h => by
      cases role <;> simp only [Edit.simplifyAll, Writable] at h ⊢
      exact writableAll_simplifyEach rules .expression s es h
  | object _ ps, h => by
      cases role <;> simp only [Edit.simplifyAll, Writable] at h ⊢
      exact writableAll_simplifyEach rules .entry s ps h
  | property _ _ e, h => by
      cases role <;> simp only [Edit.simplifyAll, Writable] at h ⊢
      exact ⟨h.1, writable_simplifyAll rules .expression s e h.2⟩
  | member _ e _, h => by
      cases role <;> simp only [Edit.simplifyAll, Writable] at h ⊢
      exact ⟨writable_simplifyAll rules .expression s e h.1, h.2⟩
  | index _ e key, h => by
      cases role <;> simp only [Edit.simplifyAll, Writable] at h ⊢
      exact ⟨writable_simplifyAll rules .expression s e h.1,
        writable_simplifyAll rules .expression s key h.2⟩
  | pipe _ [], h => by cases role <;> simp only [Writable] at h
  | pipe _ (first :: more), h => by
      cases role <;> simp only [Edit.simplifyAll, Edit.simplifyEach, Writable] at h ⊢
      exact ⟨writable_simplifyAll rules .expression s first h.1, simplifyEach_ne_nil h.2.1,
        writableAll_simplifyEach rules .stage { s with inStage := true } more h.2.2⟩
  | function _ _ body, h => by
      cases role <;> simp only [Edit.simplifyAll, Writable] at h ⊢
      exact ⟨h.1, writableAll_simplifyEach rules .statement ⟨false, true⟩ body h.2⟩

theorem writableAll_simplifyEach (rules : Edit.NegationRules) (role : Role) (s : Setting) :
    (ns : List Node) → WritableAll role s ns → WritableAll role s (Edit.simplifyEach rules ns)
  | [], _ => trivial
  | n :: rest, h =>
      ⟨writable_simplifyAll rules role s n h.1, writableAll_simplifyEach rules role s rest h.2⟩

end

/-! ### New names -/

theorem writtenName_ident {r : Edit.Renaming} (hnew : WrittenName r.new) (hidden : Bool) {i : Ident}
    (h : WrittenName i.name) : WrittenName (r.ident hidden i).name := by
  unfold Edit.Renaming.ident
  split
  · exact hnew
  · exact h

theorem writtenName_callee {r : Edit.Renaming} (hnew : WrittenName r.new) (hidden : Bool)
    {i : Ident} (h : WrittenName i.name) : WrittenName (r.callee hidden i).name := by
  unfold Edit.Renaming.callee
  split
  · exact writtenName_ident hnew hidden h
  · exact h

theorem trees_ne_nil {r : Edit.Renaming} {inFunction hidden : Bool} {ns : List Node}
    (h : ns ≠ []) : r.trees inFunction hidden ns ≠ [] := by
  cases ns with
  | nil => exact absurd rfl h
  | cons n ns => simp [Edit.Renaming.trees]

mutual

theorem writable_tree {r : Edit.Renaming} (hnew : WrittenName r.new) (inFunction hidden : Bool)
    (role : Role) (s : Setting) :
    (n : Node) → Writable role s n → Writable role s (r.tree inFunction hidden n)
  | program _ body, h => by
      cases role <;> simp only [Edit.Renaming.tree, Writable] at h ⊢
      exact writableAll_bodyOf hnew inFunction hidden s body h
  | declaration _ _ _ e, h => by
      cases role <;> simp only [Edit.Renaming.tree, Writable] at h ⊢
      refine ⟨h.1, ?_, writable_tree hnew inFunction hidden .expression s e h.2.2⟩
      split
      · exact h.2.1
      · exact writtenName_ident hnew hidden h.2.1
  | statement _ e, h => by
      cases role <;> simp only [Edit.Renaming.tree, Writable] at h ⊢
      exact writable_tree hnew inFunction hidden .expression s e h
  | giveBack _ e, h => by
      cases role <;> simp only [Edit.Renaming.tree, Writable] at h ⊢
      exact ⟨h.1, writable_tree hnew inFunction hidden .expression s e h.2⟩
  | literal _ _ _, h | hole _, h => h
  | identifier i, h => by
      cases role <;> simp only [Edit.Renaming.tree, Writable] at h ⊢
      exact writtenName_ident hnew hidden h
  | binary _ _ l e, h => by
      cases role <;> simp only [Edit.Renaming.tree, Writable] at h ⊢
      exact ⟨h.1, writable_tree hnew inFunction hidden .expression s l h.2.1,
        writable_tree hnew inFunction hidden .expression s e h.2.2⟩
  | unary _ _ e, h => by
      cases role <;> simp only [Edit.Renaming.tree, Writable] at h ⊢
      exact ⟨h.1, writable_tree hnew inFunction hidden .expression s e h.2⟩
  | call _ _ args, h => by
      cases role <;> simp only [Edit.Renaming.tree, Writable] at h ⊢
      all_goals exact ⟨writtenName_callee hnew hidden h.1,
        writableAll_trees hnew inFunction hidden .expression s args h.2⟩
  | array _ es, h => by
      cases role <;> simp only [Edit.Renaming.tree, Writable] at h ⊢
      exact writableAll_trees hnew inFunction hidden .expression s es h
  | object _ ps, h => by
      cases role <;> simp only [Edit.Renaming.tree, Writable] at h ⊢
      exact writableAll_trees hnew inFunction hidden .entry s ps h
  | property _ _ e, h => by
      cases role <;> simp only [Edit.Renaming.tree, Writable] at h ⊢
      exact ⟨h.1, writable_tree hnew inFunction hidden .expression s e h.2⟩
  | member _ e _, h => by
      cases role <;> simp only [Edit.Renaming.tree, Writable] at h ⊢
      exact ⟨writable_tree hnew inFunction hidden .expression s e h.1, h.2⟩
  | index _ e key, h => by
      cases role <;> simp only [Edit.Renaming.tree, Writable] at h ⊢
      exact ⟨writable_tree hnew inFunction hidden .expression s e h.1,
        writable_tree hnew inFunction hidden .expression s key h.2⟩
  | pipe _ [], h => by cases role <;> simp only [Writable] at h
  | pipe _ (first :: more), h => by
      cases role <;> simp only [Edit.Renaming.tree, Edit.Renaming.trees, Writable] at h ⊢
      exact ⟨writable_tree hnew inFunction hidden .expression s first h.1, trees_ne_nil h.2.1,
        writableAll_trees hnew inFunction hidden .stage { s with inStage := true } more h.2.2⟩
  | function _ _ body, h => by
      cases role <;> simp only [Edit.Renaming.tree, Writable] at h ⊢
      exact ⟨h.1, writableAll_bodyOf hnew true _ ⟨false, true⟩ body h.2⟩

theorem writableAll_trees {r : Edit.Renaming} (hnew : WrittenName r.new)
    (inFunction hidden : Bool) (role : Role) (s : Setting) :
    (ns : List Node) → WritableAll role s ns → WritableAll role s (r.trees inFunction hidden ns)
  | [], _ => trivial
  | n :: rest, h =>
      ⟨writable_tree hnew inFunction hidden role s n h.1,
        writableAll_trees hnew inFunction hidden role s rest h.2⟩

theorem writableAll_bodyOf {r : Edit.Renaming} (hnew : WrittenName r.new)
    (inFunction hidden : Bool) (s : Setting) : (ns : List Node) →
    WritableAll .statement s ns → WritableAll .statement s (r.bodyOf inFunction hidden ns)
  | [], _ => trivial
  | n :: rest, h =>
      ⟨writable_tree hnew inFunction hidden .statement s n h.1,
        writableAll_bodyOf hnew inFunction _ s rest h.2⟩

end

end Node

/-! ### Edits -/

theorem eq_withPaths_of_apply {edit : Node → Node} {n m : Node} (h : Edit.apply edit n = .ok m) :
    m = (edit n).withPaths := by
  obtain ⟨-, -, h⟩ := bind_eq_ok h
  exact (Except.ok.inj h).symm

theorem apply_eq_ok {edit : Node → Node} {n m : Node} (h : Edit.apply edit n = .ok m) :
    m.bare = (edit n).bare := by
  rw [eq_withPaths_of_apply h, Node.bare_withPaths]

/-- A name is only renamed to what can be used as one. -/
theorem rename_eq_ok {old new : String} {n m : Node} (h : Edit.rename old new n = .ok m) :
    Edit.isName new = true ∧
      Edit.apply (Edit.Renaming.tree ⟨old, new, (n.declarationOf? old).isSome⟩ false false) n = .ok m := by
  cases hname : Edit.isName new with
  | false =>
      simp only [Edit.rename, hname] at h
      cases h
  | true =>
      simp only [Edit.rename, hname] at h
      exact ⟨rfl, h⟩

/-- Edits of a script that can be written give one that can be written. -/
theorem Edited.writable {script n : Node} (h : Edited script n) {s : Setting}
    (hscript : script.Writable .script s) : n.Writable .script s := by
  induction h with
  | refl => exact hscript
  | identity _ hedit ih => exact ih.of_bare_eq (apply_eq_ok hedit)
  | normalize rules _ hedit ih =>
      exact (Node.writable_simplifyAll rules .script s _ ih).of_bare_eq (apply_eq_ok hedit)
  | @rename n m old new _ hedit ih =>
      obtain ⟨hname, hedit⟩ := rename_eq_ok hedit
      exact (Node.writable_tree (r := ⟨old, new, _⟩) (writtenName_of_isName hname) false false
        .script s n ih).of_bare_eq (apply_eq_ok hedit)

end PartScript
