import PartScript.Proofs.Rename.Meaning

/-!
Renaming back. A new name that is not in use stands, after renaming, exactly where the old one was renamed,
and nothing hides it there: parameters and declarations in functions keep their names. So renaming in the other
direction needs no knowledge of what was hidden, and gives the script back.
-/

namespace PartScript

open List (Forall₂)
open Edit (Renaming)

/-! ### Names in use -/

namespace Node

mutual

/-- The names that are referred to, called or declared in a tree and those of parameters. Labels are not
among them. -/
def names : Node → List String
  | program _ body => namesAll body
  | declaration _ _ name init => name.name :: names init
  | statement _ e => names e
  | giveBack _ e => names e
  | literal _ _ _ => []
  | identifier i => [i.name]
  | binary _ _ l r => names l ++ names r
  | unary _ _ e => names e
  | call _ callee args => callee.name :: namesAll args
  | array _ es => namesAll es
  | object _ ps => namesAll ps
  | property _ _ e => names e
  | member _ e _ => names e
  | index _ e key => names e ++ names key
  | pipe _ stages => namesAll stages
  | hole _ => []
  | function _ params body => params.map (·.name) ++ namesAll body

/-- The names in use in a row of trees. -/
def namesAll : List Node → List String
  | [] => []
  | n :: rest => names n ++ namesAll rest

end

/-- A statement declares no name that is not in use in it. -/
theorem declares_eq_false {name : String} {n : Node} (h : name ∉ n.names) : n.declares name = false := by
  cases n with
  | declaration m word i init =>
      rw [names, List.mem_cons, not_or] at h
      exact beq_eq_false_iff_ne.2 (Ne.symm h.1)
  | _ => rfl

end Node

/-! ### Trees with new names -/

/-- The second name stands where the first one does, and is the same or the new one for the old. -/
def Ident.Respelled (old new : String) (i j : Ident) : Prop :=
  j = i ∨ i.name = old ∧ j = { i with name := new }

/-- The second tree is the first one with a new name in the place of the old one for some references, callees
and declared names. Everything else is the same, with all marks. -/
inductive Node.Respelled (old new : String) : Node → Node → Prop
  | program {m body body'} : Forall₂ (Respelled old new) body body' →
      Respelled old new (.program m body) (.program m body')
  | declaration {m word i i' e e'} : i.Respelled old new i' → Respelled old new e e' →
      Respelled old new (.declaration m word i e) (.declaration m word i' e')
  | statement {m e e'} : Respelled old new e e' → Respelled old new (.statement m e) (.statement m e')
  | giveBack {m e e'} : Respelled old new e e' → Respelled old new (.giveBack m e) (.giveBack m e')
  | literal {m value raw} : Respelled old new (.literal m value raw) (.literal m value raw)
  | identifier {i i'} : i.Respelled old new i' → Respelled old new (.identifier i) (.identifier i')
  | binary {m op l l' r r'} : Respelled old new l l' → Respelled old new r r' →
      Respelled old new (.binary m op l r) (.binary m op l' r')
  | unary {m op e e'} : Respelled old new e e' → Respelled old new (.unary m op e) (.unary m op e')
  | call {m i i' args args'} : i.Respelled old new i' → Forall₂ (Respelled old new) args args' →
      Respelled old new (.call m i args) (.call m i' args')
  | array {m es es'} : Forall₂ (Respelled old new) es es' →
      Respelled old new (.array m es) (.array m es')
  | object {m ps ps'} : Forall₂ (Respelled old new) ps ps' →
      Respelled old new (.object m ps) (.object m ps')
  | property {m key e e'} : Respelled old new e e' →
      Respelled old new (.property m key e) (.property m key e')
  | member {m e e' label} : Respelled old new e e' →
      Respelled old new (.member m e label) (.member m e' label)
  | index {m e e' key key'} : Respelled old new e e' → Respelled old new key key' →
      Respelled old new (.index m e key) (.index m e' key')
  | pipe {m stages stages'} : Forall₂ (Respelled old new) stages stages' →
      Respelled old new (.pipe m stages) (.pipe m stages')
  | hole {m} : Respelled old new (.hole m) (.hole m)
  | function {m params body body'} : Forall₂ (Respelled old new) body body' →
      Respelled old new (.function m params body) (.function m params body')

namespace Edit.Renaming

variable (r : Renaming)

theorem respelled_ident (hidden : Bool) (i : Ident) : i.Respelled r.old r.new (r.ident hidden i) := by
  unfold ident
  split
  · rename_i h
    rw [Bool.and_eq_true, beq_iff_eq] at h
    exact .inr ⟨h.1, rfl⟩
  · exact .inl rfl

theorem respelled_callee (hidden : Bool) (i : Ident) : i.Respelled r.old r.new (r.callee hidden i) := by
  unfold callee
  split
  · exact r.respelled_ident hidden i
  · exact .inl rfl

mutual

theorem respelled_tree (inFunction hidden : Bool) :
    (n : Node) → n.Respelled r.old r.new (r.tree inFunction hidden n)
  | .program _ body => by
      rw [tree]
      exact .program (respelled_bodyOf inFunction hidden body)
  | .declaration _ _ i init => by
      rw [tree]
      refine .declaration ?_ (respelled_tree inFunction hidden init)
      split
      · exact .inl rfl
      · exact r.respelled_ident hidden i
  | .statement _ e => by
      rw [tree]
      exact .statement (respelled_tree inFunction hidden e)
  | .giveBack _ e => by
      rw [tree]
      exact .giveBack (respelled_tree inFunction hidden e)
  | .literal _ _ _ => .literal
  | .identifier i => by
      rw [tree]
      exact .identifier (r.respelled_ident hidden i)
  | .binary _ _ l e => by
      rw [tree]
      exact .binary (respelled_tree inFunction hidden l) (respelled_tree inFunction hidden e)
  | .unary _ _ e => by
      rw [tree]
      exact .unary (respelled_tree inFunction hidden e)
  | .call _ i args => by
      rw [tree]
      exact .call (r.respelled_callee hidden i) (respelled_trees inFunction hidden args)
  | .array _ es => by
      rw [tree]
      exact .array (respelled_trees inFunction hidden es)
  | .object _ ps => by
      rw [tree]
      exact .object (respelled_trees inFunction hidden ps)
  | .property _ _ e => by
      rw [tree]
      exact .property (respelled_tree inFunction hidden e)
  | .member _ e _ => by
      rw [tree]
      exact .member (respelled_tree inFunction hidden e)
  | .index _ e key => by
      rw [tree]
      exact .index (respelled_tree inFunction hidden e) (respelled_tree inFunction hidden key)
  | .pipe _ stages => by
      rw [tree]
      exact .pipe (respelled_trees inFunction hidden stages)
  | .hole _ => .hole
  | .function _ params body => by
      rw [tree]
      exact .function (respelled_bodyOf true _ body)

theorem respelled_trees (inFunction hidden : Bool) :
    (ns : List Node) → Forall₂ (Node.Respelled r.old r.new) ns (r.trees inFunction hidden ns)
  | [] => .nil
  | n :: rest => .cons (respelled_tree inFunction hidden n) (respelled_trees inFunction hidden rest)

theorem respelled_bodyOf (inFunction hidden : Bool) :
    (ns : List Node) → Forall₂ (Node.Respelled r.old r.new) ns (r.bodyOf inFunction hidden ns)
  | [] => .nil
  | n :: rest => .cons (respelled_tree inFunction hidden n) (respelled_bodyOf inFunction _ rest)

end

/-! ### Renaming back -/

/-- The renaming in the other direction. -/
def back : Renaming := ⟨r.new, r.old, r.declared⟩

variable {r}

/-- Where a name that is not the new one was renamed, it is renamed back, and elsewhere it is left alone. -/
theorem back_ident {hidden : Bool} {i : Ident} (h : r.new ≠ i.name) :
    r.back.ident false (r.ident hidden i) = i := by
  unfold ident
  split
  · rename_i hold
    rw [Bool.and_eq_true, beq_iff_eq] at hold
    rw [if_pos (by simp [back])]
    cases i
    cases hold.1
    rfl
  · exact if_neg (by simpa [back] using Ne.symm h)

theorem back_callee {hidden : Bool} {i : Ident} (h : r.new ≠ i.name) :
    r.back.callee false (r.callee hidden i) = i := by
  unfold callee
  rw [show r.back.declared = r.declared from rfl]
  split
  · exact back_ident h
  · rfl

/-- A statement in a function declares the name that it declared before. -/
theorem declares_tree_inFunction (name : String) (hidden : Bool) (n : Node) :
    (r.tree true hidden n).declares name = n.declares name := by
  cases n <;> rfl

/-- No parameter has the new name if it is not in use. -/
theorem any_params_eq_false {params : List Ident} {rest : List String}
    (h : r.new ∉ params.map (·.name) ++ rest) : params.any (·.name == r.back.old) = false := by
  rw [List.any_eq_false]
  intro i hi heq
  refine h (List.mem_append_left _ (List.mem_map.2 ⟨i, hi, ?_⟩))
  exact beq_iff_eq.1 heq

mutual

/-- Renaming a tree back. What was hidden the first time keeps the old name, and is not looked at again; the
new name is never hidden. -/
theorem back_tree (inFunction hidden : Bool) : (n : Node) → r.new ∉ n.names →
    r.back.tree inFunction false (r.tree inFunction hidden n) = n
  | .program _ body, h => by
      rw [tree, tree, back_bodyOf inFunction hidden body h]
  | .declaration _ _ _ init, h => by
      rw [Node.names, List.mem_cons, not_or] at h
      rw [tree, tree, back_tree inFunction hidden init h.2]
      cases inFunction with
      | true => rfl
      | false => exact congrArg (Node.declaration _ _ · _) (back_ident h.1)
  | .statement _ e, h | .giveBack _ e, h | .unary _ _ e, h | .property _ _ e, h | .member _ e _, h => by
      rw [tree, tree, back_tree inFunction hidden e h]
  | .literal _ _ _, _ | .hole _, _ => rfl
  | .identifier _, h => by
      rw [Node.names, List.mem_singleton] at h
      rw [tree, tree, back_ident h]
  | .binary _ _ l e, h => by
      rw [Node.names, List.mem_append, not_or] at h
      rw [tree, tree, back_tree inFunction hidden l h.1, back_tree inFunction hidden e h.2]
  | .index _ e key, h => by
      rw [Node.names, List.mem_append, not_or] at h
      rw [tree, tree, back_tree inFunction hidden e h.1, back_tree inFunction hidden key h.2]
  | .call _ _ args, h => by
      rw [Node.names, List.mem_cons, not_or] at h
      rw [tree, tree, back_callee h.1, back_trees inFunction hidden args h.2]
  | .array _ es, h | .object _ es, h | .pipe _ es, h => by
      rw [tree, tree, back_trees inFunction hidden es h]
  | .function _ params body, h => by
      rw [Node.names] at h
      have hbody : r.new ∉ Node.namesAll body := fun hmem => h (List.mem_append_right _ hmem)
      rw [tree, tree, any_params_eq_false h]
      exact congrArg (Node.function _ params) (back_bodyOf true _ body hbody)

theorem back_trees (inFunction hidden : Bool) : (ns : List Node) → r.new ∉ Node.namesAll ns →
    r.back.trees inFunction false (r.trees inFunction hidden ns) = ns
  | [], _ => rfl
  | n :: rest, h => by
      rw [Node.namesAll, List.mem_append, not_or] at h
      rw [trees, trees, back_tree inFunction hidden n h.1, back_trees inFunction hidden rest h.2]

theorem back_bodyOf (inFunction hidden : Bool) : (ns : List Node) → r.new ∉ Node.namesAll ns →
    r.back.bodyOf inFunction false (r.bodyOf inFunction hidden ns) = ns
  | [], _ => rfl
  | n :: rest, h => by
      rw [Node.namesAll, List.mem_append, not_or] at h
      have hhidden : (inFunction && (r.tree inFunction hidden n).declares r.back.old) = false := by
        cases inFunction with
        | false => rfl
        | true => exact (declares_tree_inFunction _ hidden n).trans (Node.declares_eq_false h.1)
      rw [bodyOf, bodyOf, hhidden, back_tree inFunction hidden n h.1, Bool.or_false,
        back_bodyOf inFunction _ rest h.2]

end

/-- A statement of the script declares the new name if it declared the old one. -/
theorem declares_tree_script {n : Node} (h : r.new ∉ n.names) :
    (r.tree false false n).declares r.new = n.declares r.old := by
  cases n with
  | declaration m word i init =>
      rw [Node.names, List.mem_cons, not_or] at h
      by_cases hname : i.name = r.old
      · simp [tree, Node.declares, ident, hname]
      · simp [tree, Node.declares, ident, hname, Ne.symm h.1]
  | _ => rfl

/-- The new name is declared in the renamed script if the old one was declared before. -/
theorem any_declares_bodyOf : {body : List Node} → r.new ∉ Node.namesAll body →
    (r.bodyOf false false body).any (·.declares r.new) = body.any (·.declares r.old)
  | [], _ => rfl
  | n :: rest, h => by
      rw [Node.namesAll, List.mem_append, not_or] at h
      rw [bodyOf, Bool.false_and, Bool.or_false, List.any_cons, List.any_cons, declares_tree_script h.1,
        any_declares_bodyOf h.2]

/-- No statement of the renamed script declares the old name if the new one is another. -/
theorem declares_bodyOf_eq_false (h : r.old ≠ r.new) :
    (body : List Node) → ∀ n ∈ r.bodyOf false false body, n.declares r.old = false
  | [], _, hn => absurd hn List.not_mem_nil
  | n :: rest, k, hk => by
      rw [bodyOf, Bool.false_and, Bool.or_false] at hk
      rcases List.mem_cons.1 hk with rfl | hk
      · cases n with
        | declaration m word i init =>
            by_cases hname : i.name = r.old <;> simp [tree, Node.declares, ident, hname, Ne.symm h]
        | _ => rfl
      · exact declares_bodyOf_eq_false h rest k hk

/-- What is to be renamed back in the renamed script. -/
theorem ofScript_back {old new : String} {m : Mark} {body : List Node} (h : new ∉ Node.namesAll body)
    (hr : r = ofScript old new (.program m body)) :
    ofScript new old (r.tree false false (.program m body)) = r.back := by
  subst hr
  have hdeclared := any_declares_bodyOf (r := ofScript old new (.program m body)) h
  rw [← List.isSome_find?, ← List.isSome_find?] at hdeclared
  exact congrArg (Renaming.mk new old) hdeclared

end Edit.Renaming

/-! ### Scripts -/

/-- A script is renamed, and renamed back. Let a script be read from a text, let the old and the new name be
different ones that can be used, and let the new one not be in use in it; as a label it may occur. Then
nothing changes but some of the references, callees and declared names that are the old one, which get the new
one in their place, and the script itself does not declare the old one any more. The script comes back from
that by renaming the new name to the old one, with all spans and paths. -/
theorem rename_back {source : String} {file : Option String} {script : Node}
    (hscript : parse source file = .ok script) {old new : String} (hold : Edit.isName old = true)
    (hnew : Edit.isName new = true) (hdistinct : old ≠ new) (hunused : new ∉ script.names) :
    ∃ renamed, Edit.rename old new script = .ok renamed ∧ script.Respelled old new renamed ∧
      renamed.declarationOf? old = none ∧ Edit.rename new old renamed = .ok script := by
  have hwritable := writable_of_parse hscript
  have hpaths := Node.withPaths_of_parse hscript
  obtain ⟨m, body, rfl, -⟩ := exists_program hwritable
  obtain ⟨r, hr⟩ : ∃ r, r = Renaming.ofScript old new (.program m body) := ⟨_, rfl⟩
  obtain rfl : r.old = old := by rw [hr, Renaming.ofScript]
  obtain rfl : r.new = new := by rw [hr, Renaming.ofScript]
  have hrenamed : (r.tree false false (.program m body)).Writable .script .outside :=
    Node.writable_tree (writtenName_of_isName hnew) false false .script _ _ hwritable
  have hplaced : (r.tree false false (.program m body)).withPaths = r.tree false false (.program m body) :=
    (r.place_tree false false [] _).trans (congrArg _ hpaths)
  refine ⟨_, hr ▸ Edit.rename_of_parse hscript hnew r.old, r.respelled_tree false false _, ?_, ?_⟩
  · refine List.find?_eq_none.2 fun n hn => ?_
    simp [Renaming.declares_bodyOf_eq_false hdistinct body n hn]
  · rw [Edit.rename_of_writable hrenamed hplaced hold r.new, Renaming.ofScript_back hunused hr,
      Renaming.back_tree false false _ hunused]

/-- A function is renamed to a name that occurs as a label. One parameter and one declaration in a function
have the old name and keep it, with what is called by it there. -/
theorem rename_back_shadowed :
    ∃ source script renamed,
      source = "fn a = (k) => \x7breturn k\x7d\nfn f = (a) => \x7breturn a(1)\x7d\nfn g = (k) => \x7b\n" ++
        "  const b = a(k)\n  const a = \x7ba: b, z: k\x7d\n  return a.z\n\x7d\nshow(a(2), \x7bz: a\x7d.z)" ∧
      parse source none = .ok script ∧ Edit.isName "a" = true ∧ Edit.isName "z" = true ∧
      "a" ≠ "z" ∧ "z" ∉ script.names ∧ Edit.rename "a" "z" script = .ok renamed ∧
      renamed.names = ["z", "k", "k", "f", "a", "a", "g", "k", "b", "z", "k", "a", "b", "k", "a",
        "show", "z", "z"] ∧
      script.Respelled "a" "z" renamed ∧ renamed.declarationOf? "a" = none ∧
      Edit.rename "z" "a" renamed = .ok script := by
  obtain ⟨source, hsource⟩ : ∃ source, source =
      "fn a = (k) => \x7breturn k\x7d\nfn f = (a) => \x7breturn a(1)\x7d\nfn g = (k) => \x7b\n" ++
        "  const b = a(k)\n  const a = \x7ba: b, z: k\x7d\n  return a.z\n\x7d\nshow(a(2), \x7bz: a\x7d.z)" :=
    ⟨_, rfl⟩
  have hchecked : ((parse source none).toOption.any fun script => decide ("z" ∉ script.names) &&
      (Edit.rename "a" "z" script).toOption.any fun renamed =>
        decide (renamed.names = ["z", "k", "k", "f", "a", "a", "g", "k", "b", "z", "k", "a", "b", "k", "a",
          "show", "z", "z"])) = true := by
    rw [hsource]
    decide +kernel
  have hold : Edit.isName "a" = true := by decide +kernel
  have hnew : Edit.isName "z" = true := by decide +kernel
  have hdistinct : "a" ≠ "z" := by decide
  obtain ⟨script, hscript, hchecked⟩ := exists_of_any_toOption hchecked
  obtain ⟨hunused, hchecked⟩ := Bool.and_eq_true_iff.1 hchecked
  have hunused := of_decide_eq_true hunused
  obtain ⟨renamed, hrenamed, hnames⟩ := exists_of_any_toOption hchecked
  obtain ⟨other, hother, hsame, hgone, hback⟩ := rename_back hscript hold hnew hdistinct hunused
  obtain rfl : other = renamed := Except.ok.inj (hother.symm.trans hrenamed)
  exact ⟨source, script, other, hsource, hscript, hold, hnew, hdistinct, hunused, hrenamed,
    of_decide_eq_true hnames, hsame, hgone, hback⟩

end PartScript
