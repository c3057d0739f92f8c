import Mathlib.Data.List.Basic
import PartScript.Node.Tree
import PartScript.Proofs.Node.Writable

/-!
What running relies on in a tree. Wherever a script is run, number literals are finite, pipes have stages, and
objects are made of entries. This is a matter of single nodes, and every node of a tree that a script can
write is like that.
-/

namespace PartScript

/-- The value of the text of a number is finite. -/
theorem Lexer.isFinite_of_numberValue {limit : Option Nat} {isWhole : Bool} {text : List Char}
    {n : Number} (h : numberValue limit isWhole text = .ok (some n)) : n.isFinite = true := by
  unfold numberValue at h
  split at h
  · obtain ⟨value, hvalue, h⟩ := bind_eq_ok h
    cases value with
    | none => cases h
    | some k =>
    cases h
    unfold wholeValue at hvalue
    split at hvalue
    · cases hvalue
    · split at hvalue
      · cases hvalue
      · -- The digits stand for a number that is checked to be in the range.
        have hchecked := Except.ok.inj hvalue
        split at hchecked
        · rename_i hle
          cases hchecked
          exact (Number.isFinite_int _).2 hle
        · cases hchecked
  · have hchecked := Except.ok.inj h
    split at hchecked
    · rename_i hfinite
      cases hchecked
      exact hfinite
    · cases hchecked

namespace Node

/-! ### All nodes of a tree -/

theorem mem_walk (n : Node) : n ∈ n.walk := by
  cases n <;> simp [walk]

theorem mem_walkAll {n : Node} {ns : List Node} : n ∈ walkAll ns ↔ ∃ m ∈ ns, n ∈ m.walk := by
  induction ns with
  | nil => simp [walkAll]
  | cons m ns ih => simp [walkAll, ih]

/-- What is in a child is in the tree. -/
theorem walk_subset_of_mem_children {child n : Node} (hchild : child ∈ n.children) :
    child.walk ⊆ n.walk := by
  intro m h
  have hrow : ∀ {ns : List Node}, child ∈ ns → m ∈ walkAll ns := fun hns =>
    mem_walkAll.2 ⟨child, hns, h⟩
  cases n with
  | literal | identifier | hole => cases hchild
  | program | array | object | pipe => exact List.mem_cons_of_mem _ (hrow hchild)
  | statement | giveBack | unary =>
      obtain rfl := List.mem_singleton.1 hchild
      exact List.mem_cons_of_mem _ h
  | declaration | property =>
      rcases List.mem_pair.1 hchild with rfl | rfl
      · exact List.mem_cons_of_mem _ (List.mem_singleton.1 h ▸ List.mem_cons_self)
      · exact List.mem_cons_of_mem _ (List.mem_cons_of_mem _ h)
  | binary | index | member =>
      refine List.mem_cons_of_mem _ (List.mem_append.2 ?_)
      rcases List.mem_pair.1 hchild with rfl | rfl
      · exact .inl h
      · exact .inr h
  | call =>
      rcases List.mem_cons.1 hchild with rfl | hchild
      · exact List.mem_cons_of_mem _ (List.mem_singleton.1 h ▸ List.mem_cons_self)
      · exact List.mem_cons_of_mem _ (List.mem_cons_of_mem _ (hrow hchild))
  | function =>
      refine List.mem_cons_of_mem _ (List.mem_append.2 ?_)
      rcases List.mem_append.1 hchild with hchild | hchild
      · obtain ⟨i, hi, rfl⟩ := List.mem_map.1 hchild
        exact .inl (List.mem_singleton.1 h ▸ List.mem_map_of_mem hi)
      · exact .inr (hrow hchild)

/-! ### Nodes that can be run -/

/-- The node is an entry of an object. -/
def IsEntry (n : Node) : Prop := ∃ m key e, n = .property m key e

/-- A literal that is a number is finite, a pipe has stages, and an object has entries only. -/
def Runnable : Node → Prop
  | literal _ (.number n) _ => n.isFinite = true
  | pipe _ stages => stages ≠ []
  | object _ ps => ∀ p ∈ ps, p.IsEntry
  | _ => True

theorem runnable_literal {s : Parser.Setting} {m : Mark} {value : Plain} {raw : String}
    (h : Writable .expression s (.literal m value raw)) : (literal m value raw).Runnable := by
  cases value with
  | number n =>
      obtain ⟨kind, hkind, hspelled⟩ := h
      obtain ⟨-, ds, frac, exp, -, -, -, -, hvalue⟩ := hspelled.number n (Option.some.inj hkind).symm
      exact Lexer.isFinite_of_numberValue hvalue
  | _ => trivial

theorem isEntry_of_writable {s : Parser.Setting} {n : Node} (h : Writable .entry s n) : n.IsEntry := by
  cases n with
  | property m key e => exact ⟨m, key, e, rfl⟩
  | _ => simp [Writable] at h

theorem writableAll_iff {role : Role} {s : Parser.Setting} {ns : List Node} :
    WritableAll role s ns ↔ ∀ n ∈ ns, Writable role s n := by
  induction ns with
  | nil => simp [WritableAll]
  | cons n rest ih => simp [WritableAll, ih]

mutual

/-- Every node of a tree that a script can write can be run. -/
theorem Writable.runnable {role : Role} {s : Parser.Setting} :
    (n : Node) → Writable role s n → ∀ m ∈ n.walk, m.Runnable
  | program _ body, h => by
      cases role <;> simp only [Writable] at h
      exact List.forall_mem_cons.2 ⟨trivial, WritableAll.runnable body h⟩
  | declaration _ _ name init, h => by
      cases role <;> simp only [Writable] at h
      refine List.forall_mem_cons.2 ⟨trivial, List.forall_mem_cons.2 ⟨trivial, ?_⟩⟩
      exact Writable.runnable init h.2.2
  | statement _ e, h => by
      cases role <;> simp only [Writable] at h
      exact List.forall_mem_cons.2 ⟨trivial, Writable.runnable e h⟩
  | giveBack _ e, h => by
      cases role <;> simp only [Writable] at h
      exact List.forall_mem_cons.2 ⟨trivial, Writable.runnable e h.2⟩
  | literal m value raw, h => by
      cases role <;> try simp only [Writable] at h
      exact List.forall_mem_singleton.2 (runnable_literal (s := s) h)
  | identifier _, _ => List.forall_mem_singleton.2 trivial
  | binary _ _ l r, h => by
      cases role <;> simp only [Writable] at h
      refine List.forall_mem_cons.2 ⟨trivial, List.forall_mem_append.2 ⟨?_, ?_⟩⟩
      · exact Writable.runnable l h.2.1
      · exact Writable.runnable r h.2.2
  | unary _ _ e, h => by
      cases role <;> simp only [Writable] at h
      exact List.forall_mem_cons.2 ⟨trivial, Writable.runnable e h.2⟩
  | call _ callee args, h => by
      cases role <;> simp only [Writable] at h <;>
        exact List.forall_mem_cons.2 ⟨trivial, List.forall_mem_cons.2
          ⟨trivial, WritableAll.runnable args h.2⟩⟩
  | array _ es, h => by
      cases role <;> simp only [Writable] at h
      exact List.forall_mem_cons.2 ⟨trivial, WritableAll.runnable es h⟩
  | object _ ps, h => by
      cases role <;> simp only [Writable] at h
      refine List.forall_mem_cons.2 ⟨fun p hp => ?_, WritableAll.runnable ps h⟩
      exact isEntry_of_writable (writableAll_iff.1 h p hp)
  | property _ key e, h => by
      cases role <;> simp only [Writable] at h
      refine List.forall_mem_cons.2 ⟨trivial, List.forall_mem_cons.2 ⟨trivial, ?_⟩⟩
      exact Writable.runnable e h.2
  | member _ e label, h => by
      cases role <;> simp only [Writable] at h
      refine List.forall_mem_cons.2 ⟨trivial, List.forall_mem_append.2 ⟨?_, ?_⟩⟩
      · exact Writable.runnable e h.1
      · exact List.forall_mem_singleton.2 trivial
  | index _ e key, h => by
      cases role <;> simp only [Writable] at h
      refine List.forall_mem_cons.2 ⟨trivial, List.forall_mem_append.2 ⟨?_, ?_⟩⟩
      · exact Writable.runnable e h.1
      · exact Writable.runnable key h.2
  | pipe _ [], h => by cases role <;> simp [Writable] at h
  | pipe _ (first :: more), h => by
      cases role <;> simp only [Writable] at h
      refine List.forall_mem_cons.2 ⟨List.cons_ne_nil _ _, List.forall_mem_append.2 ⟨?_, ?_⟩⟩
      · exact Writable.runnable first h.1
      · exact WritableAll.runnable more h.2.2
  | hole _, _ => List.forall_mem_singleton.2 trivial
  | function _ params body, h => by
      cases role <;> simp only [Writable] at h
      refine List.forall_mem_cons.2 ⟨trivial, List.forall_mem_append.2 ⟨fun n hn => ?_, ?_⟩⟩
      · obtain ⟨i, -, rfl⟩ := List.mem_map.1 hn
        trivial
      · exact WritableAll.runnable body h.2

theorem WritableAll.runnable {role : Role} {s : Parser.Setting} :
    (ns : List Node) → WritableAll role s ns → ∀ m ∈ walkAll ns, m.Runnable
  | [], _ => fun _ hm => absurd hm List.not_mem_nil
  | n :: rest, h => List.forall_mem_append.2
      ⟨Writable.runnable n h.1, WritableAll.runnable rest h.2⟩

end

end Node

end PartScript
