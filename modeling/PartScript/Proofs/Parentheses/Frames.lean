import PartScript.Proofs.Parentheses.Printed
import PartScript.Proofs.Parentheses.Seams

/-!
Nodes with a part taken out. A part of a tree is reached through nodes that each have one part missing, and
the text of the tree is what these print in front of the missing part and behind it, whatever is put in its
place.
-/

namespace PartScript

open PartScript.Parser (Setting)

namespace Node

/-! ### Frames -/

/-- A node with one of its parts missing. -/
inductive Frame where
  | initial (mark : Mark) (word : Declarator) (name : Ident)
  | alone (mark : Mark)
  | result (mark : Mark)
  | left (mark : Mark) (op : BinaryOp) (right : Node)
  | right (mark : Mark) (op : BinaryOp) (left : Node)
  | signed (mark : Mark) (op : UnaryOp)
  | argument (mark : Mark) (callee : Ident) (before after : List Node)
  | element (mark : Mark) (before after : List Node)
  | entry (mark : Mark) (before after : List Node)
  | value (mark : Mark) (key : Ident)
  | owner (mark : Mark) (label : Ident)
  | indexed (mark : Mark) (key : Node)
  | key (mark : Mark) (target : Node)
  | first (mark : Mark) (second : Node) (more : List Node)
  | stage (mark : Mark) (first : Node) (before after : List Node)
  | line (mark : Mark) (params : List Ident) (before after : List Node)

namespace Frame

/-- The node with a part put in. -/
def plug : Frame → Node → Node
  | .initial m word name, e => .declaration m word name e
  | .alone m, e => .statement m e
  | .result m, e => .giveBack m e
  | .left m op r, e => .binary m op e r
  | .right m op l, e => .binary m op l e
  | .signed m op, e => .unary m op e
  | .argument m callee before after, e => .call m callee (before ++ e :: after)
  | .element m before after, e => .array m (before ++ e :: after)
  | .entry m before after, e => .object m (before ++ e :: after)
  | .value m i, e => .property m i e
  | .owner m label, e => .member m e label
  | .indexed m k, e => .index m e k
  | .key m target, e => .index m target e
  | .first m second more, e => .pipe m (e :: second :: more)
  | .stage m start before after, e => .pipe m (start :: (before ++ e :: after))
  | .line m params before after, e => .function m params (before ++ e :: after)

/-- How tightly the missing part has to hold together to stand without parentheses: that is asked of operands,
of the targets of members and of the first element of a pipe. -/
def strength : Frame → Nat
  | .left _ op _ => op.strength?.getD 0
  | .right _ op _ => op.strength?.getD 0 + 1
  | .signed _ _ => Printer.signStrength
  | .owner _ _ | .indexed _ _ => Printer.atomStrength
  | .first _ _ _ => Printer.looseStrength + 1
  | _ => 0

theorem strength_le (f : Frame) : f.strength ≤ Printer.atomStrength := by
  cases f with
  | left _ op _ => exact Nat.le_trans (Printer.strength_le op) (by decide)
  | right _ op _ => exact Nat.le_trans (Nat.succ_le_succ (Printer.strength_le op)) (by decide)
  | _ => simp [strength, Printer.signStrength, Printer.atomStrength, Printer.looseStrength]

/-- The role of the missing part. -/
def role : Frame → Role
  | .entry _ _ _ => .entry
  | .stage _ _ _ _ => .stage
  | .line _ _ _ _ => .statement
  | _ => .expression

/-- The surroundings of the missing part, if these are those of the node. -/
def inside (s : Setting) : Frame → Setting
  | .stage _ _ _ _ => { s with inStage := true }
  | .line _ _ _ _ => ⟨false, true⟩
  | _ => s

theorem role_ne_script (f : Frame) : f.role ≠ .script := by
  cases f <;> simp [role]

/-- Only expressions may need parentheses. -/
theorem role_eq_expression {f : Frame} (hf : 0 < f.strength) : f.role = .expression := by
  cases f with
  | entry | stage | line => cases hf
  | _ => rfl

end Frame

/-- A node put in the innermost of some frames, the outermost of which comes first. -/
def plugAll (outer : List Frame) (e : Node) : Node := outer.foldr Frame.plug e

@[simp] theorem plugAll_nil (e : Node) : plugAll [] e = e := rfl

@[simp] theorem plugAll_cons (f : Frame) (outer : List Frame) (e : Node) :
    plugAll (f :: outer) e = f.plug (plugAll outer e) := rfl

/-! ### What can be put in -/

theorem writableAll_middle {role : Role} {s : Setting} {before after : List Node} {e : Node} :
    WritableAll role s (before ++ e :: after) ↔
      WritableAll role s before ∧ Writable role s e ∧ WritableAll role s after := by
  induction before with
  | nil => simp [WritableAll]
  | cons n before ih => simp only [List.cons_append, WritableAll, ih, and_assoc]

/-- What can be written in a frame can be replaced by anything that can be written there. -/
theorem Frame.writable (f : Frame) {role : Role} {s : Setting} {x : Node} (h : Writable role s (f.plug x)) :
    Writable f.role (f.inside s) x ∧
      ∀ e, Writable f.role (f.inside s) e → Writable role s (f.plug e) := by
  cases f with
  | alone =>
      cases role <;> simp only [plug, Writable] at h ⊢
      exact ⟨h, fun _ he => he⟩
  | result | signed | value | key =>
      cases role <;> simp only [plug, Writable] at h ⊢
      exact ⟨h.2, fun _ he => ⟨h.1, he⟩⟩
  | owner | indexed | first =>
      cases role <;> simp only [plug, Writable] at h ⊢
      exact ⟨h.1, fun _ he => ⟨he, h.2⟩⟩
  | initial | right =>
      cases role <;> simp only [plug, Writable] at h ⊢
      exact ⟨h.2.2, fun _ he => ⟨h.1, h.2.1, he⟩⟩
  | left | element | entry =>
      cases role <;> simp only [plug, Writable, writableAll_middle] at h ⊢
      exact ⟨h.2.1, fun _ he => ⟨h.1, he, h.2.2⟩⟩
  | argument | line =>
      cases role <;> simp only [plug, Writable, writableAll_middle] at h ⊢ <;>
        exact ⟨h.2.2.1, fun _ he => ⟨h.1, h.2.1, he, h.2.2.2⟩⟩
  | stage =>
      cases role <;> simp only [plug, Writable, writableAll_middle] at h ⊢
      exact ⟨h.2.2.2.1, fun _ he => ⟨h.1, by simp, h.2.2.1, he, h.2.2.2.2⟩⟩

theorem writable_plugAll {outer : List Frame} {role : Role} {s : Setting} {x : Node}
    (h : Writable role s (plugAll outer x)) :
    ∃ role' s', Writable role' s' x ∧
      ∀ e, Writable role' s' e → Writable role s (plugAll outer e) := by
  induction outer generalizing role s with
  | nil => exact ⟨role, s, h, fun _ he => he⟩
  | cons f outer ih =>
      obtain ⟨hx, hput⟩ := f.writable h
      obtain ⟨role', s', hx', hput'⟩ := ih hx
      exact ⟨role', s', hx', fun e he => hput _ (hput' e he)⟩

/-! ### Every part stands in frames -/

/-- A child that is no name is what is put into the node with this child missing. -/
theorem exists_plug_of_mem_children {role : Role} {s : Setting} {n c : Node} (h : Writable role s n)
    (hrole : role ≠ .script) (hc : c ∈ n.children) :
    (∃ i, c = .identifier i) ∨ ∃ f : Frame, n = f.plug c := by
  have hrow {es : List Node} (hes : c ∈ es) : ∃ before after, es = before ++ c :: after :=
    List.append_of_mem hes
  cases n with
  | literal _ _ _ | identifier _ | hole _ => cases hc
  | program _ _ => cases role <;> first | exact absurd rfl hrole | simp only [Writable] at h
  | declaration m word name e =>
      simp only [children, List.mem_cons, List.not_mem_nil, or_false] at hc
      exact hc.imp (fun hc => ⟨name, hc⟩) fun hc => ⟨.initial m word name, by rw [hc]; rfl⟩
  | statement m e =>
      obtain rfl := List.mem_singleton.1 hc
      exact .inr ⟨.alone m, rfl⟩
  | giveBack m e =>
      obtain rfl := List.mem_singleton.1 hc
      exact .inr ⟨.result m, rfl⟩
  | unary m op e =>
      obtain rfl := List.mem_singleton.1 hc
      exact .inr ⟨.signed m op, rfl⟩
  | binary m op l r =>
      simp only [children, List.mem_cons, List.not_mem_nil, or_false] at hc
      rcases hc with rfl | rfl
      · exact .inr ⟨.left m op r, rfl⟩
      · exact .inr ⟨.right m op l, rfl⟩
  | property m i e =>
      simp only [children, List.mem_cons, List.not_mem_nil, or_false] at hc
      exact hc.imp (fun hc => ⟨i, hc⟩) fun hc => ⟨.value m i, by rw [hc]; rfl⟩
  | member m e label =>
      simp only [children, List.mem_cons, List.not_mem_nil, or_false] at hc
      exact hc.symm.imp (fun hc => ⟨label, hc⟩) fun hc => ⟨.owner m label, by rw [hc]; rfl⟩
  | index m e k =>
      simp only [children, List.mem_cons, List.not_mem_nil, or_false] at hc
      rcases hc with rfl | rfl
      · exact .inr ⟨.indexed m k, rfl⟩
      · exact .inr ⟨.key m e, rfl⟩
  | call m callee args =>
      refine (List.mem_cons.1 hc).imp (fun hc => ⟨callee, hc⟩) fun hc => ?_
      obtain ⟨before, after, rfl⟩ := hrow hc
      exact ⟨.argument m callee before after, rfl⟩
  | array m es =>
      obtain ⟨before, after, rfl⟩ := hrow hc
      exact .inr ⟨.element m before after, rfl⟩
  | object m es =>
      obtain ⟨before, after, rfl⟩ := hrow hc
      exact .inr ⟨.entry m before after, rfl⟩
  | pipe m stages =>
      cases stages with
      | nil => cases hc
      | cons start more =>
          cases role <;> simp only [Writable] at h
          obtain ⟨second, rest, rfl⟩ := List.exists_cons_of_ne_nil h.2.1
          rcases List.mem_cons.1 hc with rfl | hc
          · exact .inr ⟨.first m second rest, rfl⟩
          · obtain ⟨before, after, heq⟩ := hrow hc
            exact .inr ⟨.stage m start before after, by rw [heq]; rfl⟩
  | function m params body =>
      rcases List.mem_append.1 hc with hc | hc
      · obtain ⟨i, -, hi⟩ := List.mem_map.1 hc
        exact .inl ⟨i, hi.symm⟩
      · obtain ⟨before, after, rfl⟩ := hrow hc
        exact .inr ⟨.line m params before after, rfl⟩

/-- Everything in a statement but names is reached through frames. -/
theorem exists_plugAll_of_mem_walk {role : Role} {s : Setting} {n x : Node} (h : Writable role s n)
    (hrole : role ≠ .script) (hx : x ∈ n.walk) : (∃ i, x = .identifier i) ∨ ∃ outer, n = plugAll outer x := by
  rw [walk_eq_cons, List.mem_cons, List.mem_flatMap] at hx
  rcases hx with rfl | ⟨c, hc, hx⟩
  · exact .inr ⟨[], rfl⟩
  · have hlt := length_walk_lt hc
    rcases exists_plug_of_mem_children h hrole hc with ⟨i, rfl⟩ | ⟨f, rfl⟩
    · exact .inl ⟨i, List.mem_singleton.1 hx⟩
    · refine (exists_plugAll_of_mem_walk (f.writable h).1 f.role_ne_script hx).imp id ?_
      rintro ⟨outer, rfl⟩
      exact ⟨f :: outer, rfl⟩
termination_by n.walk.length

/-- Everything in a script but names and the script itself is reached through frames in one of its
statements. -/
theorem exists_plugAll_of_mem_script {s : Setting} {p x : Node} (h : p.Writable .script s) (hx : x ∈ p.walk)
    (hname : ∀ i, x ≠ .identifier i) (hscript : ∀ m body, x ≠ .program m body) :
    ∃ m before outer after, p = .program m (before ++ plugAll outer x :: after) := by
  obtain ⟨m, body, rfl, hbody⟩ := exists_program h
  rw [walk, List.mem_cons, walkAll_eq_flatMap, List.mem_flatMap] at hx
  rcases hx with rfl | ⟨n, hn, hx⟩
  · exact absurd rfl (hscript m body)
  · obtain ⟨before, after, rfl⟩ := List.append_of_mem hn
    have hwritable := (writableAll_middle.1 hbody).2.1
    rcases exists_plugAll_of_mem_walk hwritable (by decide) hx with ⟨i, hi⟩ | ⟨outer, rfl⟩
    · exact absurd hi (hname i)
    · exact ⟨m, before, outer, after, rfl⟩

end Node

end PartScript
