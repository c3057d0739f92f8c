import PartScript.Proofs.Node.Writable
import PartScript.Proofs.Results

/-!
Everything in its place. In a script that can be written every statement, expression and entry stands where
one may stand, and new paths change nothing about that.
-/

namespace PartScript

open PartScript.Parser (Setting)

namespace Edit

/-! ### Trees that can be written -/

mutual

/-- Everything in a tree that can be written is in place. -/
theorem placedExpression_of_writable (s : Setting) : (n : Node) → n.Writable .expression s →
    placedExpression n = .ok ()
  | .literal _ _ _, _ | .identifier _, _ | .hole _, _ => rfl
  | .binary _ _ l e, h => by
      simp only [Node.Writable] at h
      rw [placedExpression, placedExpression_of_writable s l h.2.1]
      exact placedExpression_of_writable s e h.2.2
  | .unary _ _ e, h => by
      simp only [Node.Writable] at h
      exact placedExpression_of_writable s e h.2
  | .call _ _ args, h => by
      simp only [Node.Writable] at h
      exact placedExpressions_of_writable s args h.2
  | .array _ es, h => by
      simp only [Node.Writable] at h
      exact placedExpressions_of_writable s es h
  | .object _ ps, h => by
      simp only [Node.Writable] at h
      exact placedProperties_of_writable s ps h
  | .member _ e _, h => by
      simp only [Node.Writable] at h
      exact placedExpression_of_writable s e h.1
  | .index _ e key, h => by
      simp only [Node.Writable] at h
      rw [placedExpression, placedExpression_of_writable s key h.2]
      exact placedExpression_of_writable s e h.1
  | .pipe _ [], h => by simp only [Node.Writable] at h
  | .pipe _ (first :: more), h => by
      simp only [Node.Writable] at h
      rw [placedExpression, placedExpressions, placedExpression_of_writable s first h.1]
      exact placedStages_of_writable { s with inStage := true } more h.2.2
  | .function _ _ body, h => by
      simp only [Node.Writable] at h
      exact placedStatements_of_writable ⟨false, true⟩ body h.2
  | .program _ _, h | .declaration _ _ _ _, h | .statement _ _, h | .giveBack _ _, h
  | .property _ _ _, h => by simp only [Node.Writable] at h

theorem placedExpressions_of_writable (s : Setting) : (ns : List Node) →
    Node.WritableAll .expression s ns → placedExpressions ns = .ok ()
  | [], _ => rfl
  | n :: rest, h => by
      rw [placedExpressions, placedExpression_of_writable s n h.1]
      exact placedExpressions_of_writable s rest h.2

theorem placedStages_of_writable (s : Setting) : (ns : List Node) →
    Node.WritableAll .stage s ns → placedExpressions ns = .ok ()
  | [], _ => rfl
  | n :: rest, h => by
      have hn := (Node.writable_stage_iff.1 h.1).2
      rw [placedExpressions, placedExpression_of_writable s n hn]
      exact placedStages_of_writable s rest h.2

theorem placedProperties_of_writable (s : Setting) : (ns : List Node) →
    Node.WritableAll .entry s ns → placedProperties ns = .ok ()
  | [], _ => rfl
  | .property _ _ e :: rest, h => by
      have he := h.1
      simp only [Node.Writable] at he
      rw [placedProperties, placedExpression_of_writable s e he.2]
      exact placedProperties_of_writable s rest h.2
  | .program _ _ :: _, h | .declaration _ _ _ _ :: _, h | .statement _ _ :: _, h
  | .giveBack _ _ :: _, h | .literal _ _ _ :: _, h | .identifier _ :: _, h
  | .binary _ _ _ _ :: _, h | .unary _ _ _ :: _, h | .call _ _ _ :: _, h | .array _ _ :: _, h
  | .object _ _ :: _, h | .member _ _ _ :: _, h | .index _ _ _ :: _, h | .pipe _ _ :: _, h
  | .hole _ :: _, h | .function _ _ _ :: _, h => by
      have hn := h.1
      simp only [Node.Writable] at hn

theorem placedStatement_of_writable (s : Setting) : (n : Node) → n.Writable .statement s →
    placedStatement n = .ok ()
  | .declaration _ _ _ init, h => by
      simp only [Node.Writable] at h
      exact placedExpression_of_writable s init h.2.2
  | .statement _ e, h => by
      simp only [Node.Writable] at h
      exact placedExpression_of_writable s e h
  | .giveBack _ e, h => by
      simp only [Node.Writable] at h
      exact placedExpression_of_writable s e h.2
  | .program _ _, h | .literal _ _ _, h | .identifier _, h | .binary _ _ _ _, h | .unary _ _ _, h
  | .call _ _ _, h | .array _ _, h | .object _ _, h | .property _ _ _, h | .member _ _ _, h
  | .index _ _ _, h | .pipe _ _, h | .hole _, h | .function _ _ _, h => by
      simp only [Node.Writable] at h

theorem placedStatements_of_writable (s : Setting) : (ns : List Node) →
    Node.WritableAll .statement s ns → placedStatements ns = .ok ()
  | [], _ => rfl
  | n :: rest, h => by
      rw [placedStatements, placedStatement_of_writable s n h.1]
      exact placedStatements_of_writable s rest h.2

end

end Edit

/-! ### New paths -/

namespace Node

theorem placeIdent_placeIdent (path path' : List Nat) (i : Ident) :
    placeIdent path (placeIdent path' i) = placeIdent path i := rfl

theorem placeIdents_placeIdents (path path' : List Nat) (k k' : Nat) (is : List Ident) :
    placeIdents path k (placeIdents path' k' is) = placeIdents path k is := by
  induction is generalizing k k' with
  | nil => rfl
  | cons i is ih => simp [placeIdents, placeIdent_placeIdent, ih]

theorem length_placeIdents (path : List Nat) (k : Nat) (is : List Ident) :
    (placeIdents path k is).length = is.length := by
  induction is generalizing k with
  | nil => rfl
  | cons i is ih => simp [placeIdents, ih]

mutual

/-- Paths given last count. -/
theorem place_place (path path' : List Nat) : (n : Node) →
    (n.place path').place path = n.place path
  | program _ body => by simp [place, placeAll_placeAll path path' 0 0 body]
  | declaration _ _ _ init => by simp [place, placeIdent_placeIdent, place_place _ _ init]
  | statement _ e | giveBack _ e | unary _ _ e => by simp [place, place_place _ _ e]
  | property _ _ e | member _ e _ => by simp [place, placeIdent_placeIdent, place_place _ _ e]
  | literal _ _ _ | identifier _ | hole _ => rfl
  | binary _ _ l r => by simp [place, place_place _ _ l, place_place _ _ r]
  | call _ _ args => by
      simp [place, placeIdent_placeIdent, placeAll_placeAll path path' 1 1 args]
  | array _ es => by simp [place, placeAll_placeAll path path' 0 0 es]
  | object _ ps => by simp [place, placeAll_placeAll path path' 0 0 ps]
  | index _ e key => by simp [place, place_place _ _ e, place_place _ _ key]
  | pipe _ stages => by simp [place, placeAll_placeAll path path' 0 0 stages]
  | function _ params body => by
      simp [place, placeIdents_placeIdents, length_placeIdents,
        placeAll_placeAll path path' params.length params.length body]

theorem placeAll_placeAll (path path' : List Nat) (k k' : Nat) : (ns : List Node) →
    placeAll path k (placeAll path' k' ns) = placeAll path k ns
  | [] => rfl
  | n :: rest => by
      simp [placeAll, place_place _ _ n, placeAll_placeAll path path' (k + 1) (k' + 1) rest]

end

end Node

namespace Edit

mutual

/-- New paths leave everything in place. -/
theorem placedExpression_place (path : List Nat) : (n : Node) →
    placedExpression (n.place path) = placedExpression n
  | .literal _ _ _ | .identifier _ | .hole _ | .program _ _ | .declaration _ _ _ _ | .statement _ _
  | .giveBack _ _ | .property _ _ _ => rfl
  | .binary _ _ l r | .index _ l r => by
      simp only [Node.place, placedExpression, placedExpression_place _ l, placedExpression_place _ r]
  | .unary _ _ e | .member _ e _ => placedExpression_place _ e
  | .call _ _ ns | .array _ ns | .pipe _ ns => placedExpressions_placeAll path _ ns
  | .object _ ps => placedProperties_placeAll path _ ps
  | .function _ _ body => placedStatements_placeAll path _ body

theorem placedExpressions_placeAll (path : List Nat) (k : Nat) : (ns : List Node) →
    placedExpressions (Node.placeAll path k ns) = placedExpressions ns
  | [] => rfl
  | n :: rest => by
      simp only [Node.placeAll, placedExpressions, placedExpression_place _ n,
        placedExpressions_placeAll path (k + 1) rest]

theorem placedProperties_placeAll (path : List Nat) (k : Nat) : (ps : List Node) →
    placedProperties (Node.placeAll path k ps) = placedProperties ps
  | [] => rfl
  | n :: rest => by
      cases n with
      | property m key e =>
          simp only [Node.placeAll, Node.place, placedProperties, placedExpression_place _ e,
            placedProperties_placeAll path (k + 1) rest]
      | _ => rfl

theorem placedStatement_place (path : List Nat) : (n : Node) →
    placedStatement (n.place path) = placedStatement n
  | .declaration _ _ _ e | .statement _ e | .giveBack _ e => placedExpression_place _ e
  | .program _ _ | .literal _ _ _ | .identifier _ | .binary _ _ _ _ | .unary _ _ _ | .call _ _ _
  | .array _ _ | .object _ _ | .property _ _ _ | .member _ _ _ | .index _ _ _ | .pipe _ _ | .hole _
  | .function _ _ _ => rfl

theorem placedStatements_placeAll (path : List Nat) (k : Nat) : (ns : List Node) →
    placedStatements (Node.placeAll path k ns) = placedStatements ns
  | [] => rfl
  | n :: rest => by
      simp only [Node.placeAll, placedStatements, placedStatement_place _ n,
        placedStatements_placeAll path (k + 1) rest]

end

end Edit

end PartScript
