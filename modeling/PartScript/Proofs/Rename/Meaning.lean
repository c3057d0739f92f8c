import PartScript.Proofs.Edit.Placement
import PartScript.Proofs.Pass.Upkeep
import PartScript.Proofs.Rename.Evaluate

/-!
Renaming keeps what a script does. A script whose references by the old name are settled and the
renamed one are run with the same text and library from an empty root: they succeed or fail together,
show and send the same, and bind the same in the root except for the new name. Where a reference is not
settled they can differ.
-/

namespace PartScript

open Edit (Renaming Sight)

/-! ### Paths -/

namespace Node

theorem withPaths_of_parse {source : String} {file : Option String} {script : Node}
    (h : parse source file = .ok script) : script.withPaths = script := by
  obtain ⟨tokens, htokens, hscript⟩ := bind_eq_ok h
  obtain ⟨ts, finish, rfl⟩ := tokenize_eq_ok htokens
  obtain ⟨n, bare, -, -, -, rfl⟩ := Grammar.script_eq_ok_iff.1 (parseTokens_eq_ok_iff.1 hscript)
  exact place_place [] [] bare

theorem declares_place (name : String) (path : List Nat) (n : Node) :
    (n.place path).declares name = n.declares name := by
  cases n <;> rfl

end Node

namespace Edit.Renaming

variable (r : Renaming)

theorem placeIdent_ident (hidden : Bool) (path : List Nat) (i : Ident) :
    Node.placeIdent path (r.ident hidden i) = r.ident hidden (Node.placeIdent path i) := by
  unfold ident
  rw [show (Node.placeIdent path i).name = i.name from rfl]
  split <;> rfl

theorem placeIdent_callee (hidden : Bool) (path : List Nat) (i : Ident) :
    Node.placeIdent path (r.callee hidden i) = r.callee hidden (Node.placeIdent path i) := by
  unfold callee
  split
  · exact r.placeIdent_ident hidden path i
  · rfl

theorem any_placeIdents (path : List Nat) (k : Nat) (is : List Ident) :
    (Node.placeIdents path k is).any (·.name == r.old) = is.any (·.name == r.old) := by
  induction is generalizing k with
  | nil => rfl
  | cons i is ih => simp [Node.placeIdents, Node.placeIdent, ih]

mutual

/-- Giving paths and renaming do not interfere. -/
theorem place_tree (inFunction hidden : Bool) (path : List Nat) : (n : Node) →
    (r.tree inFunction hidden n).place path = r.tree inFunction hidden (n.place path)
  | .program _ body => by simp [tree, Node.place, place_bodyOf inFunction hidden path 0 body]
  | .declaration _ _ _ init => by
      simp only [tree, Node.place, place_tree _ _ _ init]
      split
      · rfl
      · rw [placeIdent_ident]
  | .statement _ e | .giveBack _ e | .unary _ _ e | .property _ _ e | .member _ e _ => by
      simp [tree, Node.place, place_tree _ _ _ e]
  | .literal _ _ _ | .hole _ => rfl
  | .identifier i => by simp [tree, Node.place, placeIdent_ident]
  | .binary _ _ l e => by simp [tree, Node.place, place_tree _ _ _ l, place_tree _ _ _ e]
  | .call _ _ args => by
      simp [tree, Node.place, placeIdent_callee, place_trees inFunction hidden path 1 args]
  | .array _ es => by simp [tree, Node.place, place_trees inFunction hidden path 0 es]
  | .object _ ps => by simp [tree, Node.place, place_trees inFunction hidden path 0 ps]
  | .index _ e key => by simp [tree, Node.place, place_tree _ _ _ e, place_tree _ _ _ key]
  | .pipe _ stages => by simp [tree, Node.place, place_trees inFunction hidden path 0 stages]
  | .function _ params body => by
      simp [tree, Node.place, any_placeIdents, place_bodyOf true _ path params.length body]

theorem place_trees (inFunction hidden : Bool) (path : List Nat) (k : Nat) : (ns : List Node) →
    Node.placeAll path k (r.trees inFunction hidden ns) =
      r.trees inFunction hidden (Node.placeAll path k ns)
  | [] => rfl
  | n :: rest => by
      simp [trees, Node.placeAll, place_tree _ _ _ n, place_trees _ _ path (k + 1) rest]

theorem place_bodyOf (inFunction hidden : Bool) (path : List Nat) (k : Nat) : (ns : List Node) →
    Node.placeAll path k (r.bodyOf inFunction hidden ns) =
      r.bodyOf inFunction hidden (Node.placeAll path k ns)
  | [] => rfl
  | n :: rest => by
      simp [bodyOf, Node.placeAll, Node.declares_place, place_tree _ _ _ n,
        place_bodyOf _ _ path (k + 1) rest]

end

end Edit.Renaming

/-! ### Scripts that can be renamed -/

namespace Edit

open PartScript.Parser (Setting)

/-- A script that can be written and has paths is renamed. -/
theorem rename_of_writable {script : Node} {s : Setting} (hwritable : script.Writable .script s)
    (hpaths : script.withPaths = script) {new : String} (hnew : isName new = true) (old : String) :
    rename old new script = .ok ((Renaming.ofScript old new script).tree false false script) := by
  obtain ⟨m, body, rfl, hbody⟩ := exists_program hwritable
  have hplaced : placed (.program m body) = .ok () := placedStatements_of_writable _ body hbody
  have hrename : rename old new (.program m body) =
      apply ((Renaming.ofScript old new (.program m body)).tree false false) (.program m body) := by
    simp only [rename, hnew]
    rfl
  rw [hrename, apply, hplaced]
  exact congrArg Except.ok (((Renaming.place_tree _ _ _ [] _)).trans (congrArg _ hpaths))

/-- A script that was read from a text is renamed. -/
theorem rename_of_parse {source : String} {file : Option String} {script : Node}
    (h : parse source file = .ok script) {new : String} (hnew : isName new = true) (old : String) :
    rename old new script = .ok ((Renaming.ofScript old new script).tree false false script) :=
  rename_of_writable (writable_of_parse h) (Node.withPaths_of_parse h) hnew old

end Edit

/-! ### Outcomes -/

/-- The scopes before a run that starts from nothing: an empty root. -/
def Store.emptyRoot : Store := (Store.empty.openRoot "root").1

/-- The outcomes are the same up to the name of one binding of the root: both succeed or both fail, the
last values, the values shown and the values bound look the same, in the same order, and the commands
are the same. -/
structure Outcome.SameBut (old new : String) (o o' : Outcome) : Prop where
  succeeds : (∃ v, o.result = .ok v) ↔ ∃ v, o'.result = .ok v
  last : o.last?.map Value.toPlain = o'.last?.map Value.toPlain
  shown : o.shown.map Value.toPlain = o'.shown.map Value.toPlain
  sent : o.sent = o'.sent
  bound : ((o.store.localBindings 0).map fun b => (if b.1 = old then new else b.1, b.2.toPlain)) =
    (o'.store.localBindings 0).map fun b => (b.1, b.2.toPlain)

section

variable {r : Renaming} {library : Library} {o : Outlook}

theorem Closure.Renamed.length_params {c c' : Closure} (h : c.Renamed r o c') :
    c.params.length = c'.params.length := by
  rw [h.params]

theorem Store.Renamed.bound {s t : Store} (h : s.Renamed r library o t) :
    ((s.localBindings 0).map fun b => (if b.1 = r.old then r.new else b.1, b.2.toPlain)) =
      (t.localBindings 0).map fun b => (b.1, b.2.toPlain) := by
  unfold Store.localBindings
  rcases h.scope_cases 0 with ⟨hs, ht⟩ | ⟨a, b, hs, ht, hab, -⟩
  · rw [hs, ht]
    rfl
  · rw [hs, ht]
    have hbindings := hab.bindings
    simp only [Option.map_some, Option.getD_some]
    generalize a.bindings = bs at hbindings
    generalize b.bindings = cs at hbindings
    induction hbindings with
    | nil => rfl
    | @cons b c _ _ hbc _ ih =>
        have hname : c.1 = if b.1 = r.old then r.new else b.1 := by
          rw [hbc.1, boundName]
          simp only [true_and]
        rw [List.map_cons, List.map_cons, ih, ← hname,
          hbc.2.toPlain fun _ _ => Closure.Renamed.length_params]

theorem EndsBoth.exists_ok_iff {α β : Type} {rel : α → β → Prop} {x : Except Stop α}
    {y : Except Stop β} (h : EndsBoth rel x y) : (∃ a, x = .ok a) ↔ ∃ b, y = .ok b := by
  cases h with
  | ok _ => exact ⟨fun _ => ⟨_, rfl⟩, fun _ => ⟨_, rfl⟩⟩
  | stop => exact ⟨nofun, nofun⟩

theorem EndsBoth.last {x y : Except Stop (Option Value)}
    (h : EndsBoth (Option.Rel (Value.Renamed r o)) x y) :
    x.toOption.join.map Value.toPlain = y.toOption.join.map Value.toPlain := by
  cases h with
  | stop => rfl
  | ok h =>
      cases h with
      | none => rfl
      | some hv => exact congrArg some (hv.toPlain fun _ _ => Closure.Renamed.length_params)

/-- Nothing is known at first but that the root is clear. -/
theorem Store.renamed_emptyRoot (r : Renaming) (library : Library) :
    Store.emptyRoot.Renamed r library
      ⟨fun id => if id = 0 then some .clear else none, (library.find? r.old).isNone⟩ .emptyRoot := by
  refine ⟨rfl, fun id hid => if_neg (Nat.ne_of_gt hid), fun id => ?_⟩
  cases id with
  | zero =>
      refine .some ⟨⟨rfl, .nil, fun b hb => absurd hb List.not_mem_nil⟩, ?_⟩
      exact .root rfl rfl (fun _ => rfl) fun h => .inl (Option.isNone_iff_eq_none.1 h)
  | succ id => exact .none

end

/-- Let a script be read from a text, and let a name be renamed in it to one that can be used, occurs
nowhere in the script and is no function of the library. If all references by the old name are settled,
then the script and the renamed one have the same outcome up to the name of the binding, whatever text
they are said to come from. -/
theorem Pass.run_renamed (p : Pass) {source : String} {file : Option String} {script : Node}
    (hscript : parse source file = .ok script) {old new : String} (hnew : Edit.isName new = true)
    (hlacks : script.Lacks new) (hlibrary : p.library.find? new = none)
    (hsettled : Edit.isSettled p.library old new script = true) :
    ∃ renamed, Edit.rename old new script = .ok renamed ∧
      Outcome.SameBut old new (p.run .emptyRoot 0 script) (p.run .emptyRoot 0 renamed) := by
  refine ⟨_, Edit.rename_of_parse hscript hnew old, ?_⟩
  obtain ⟨m, body, rfl, -⟩ := exists_program (writable_of_parse hscript)
  generalize hr : Renaming.ofScript old new (.program m body) = r
  obtain rfl : r.old = old := by rw [← hr, Renaming.ofScript]
  obtain rfl : r.new = new := by rw [← hr, Renaming.ofScript]
  have hdeclared (n : Node) (hn : n ∈ body) (hdeclares : n.declares r.old = true) :
      r.declared = true := by
    rw [← hr]
    exact List.find?_isSome.2 ⟨n, hn, hdeclares⟩
  rw [Edit.isSettled, hr] at hsettled
  have hstart : World.Renamed r p.library _ ⟨0, [], [], .emptyRoot⟩ ⟨0, [], [], .emptyRoot⟩ :=
    ⟨rfl, rfl, .nil, Store.renamed_emptyRoot r p.library⟩
  obtain ⟨o, -, hworld, hends⟩ := runScript_abreast hlibrary hdeclared hsettled
    (fun n hn => hlacks.child hn) rfl id .none _ _ hstart
  rw [Renaming.tree]
  refine ⟨?_, ?_, hworld.shown.map_toPlain fun _ _ => Closure.Renamed.length_params, hworld.sent,
    hworld.store.bound⟩
  · exact exists_mapError_eq_ok.trans (hends.exists_ok_iff.trans exists_mapError_eq_ok.symm)
  · rw [last?_run, last?_run]
    exact hends.last

/-- A function of the script that has the name of a library function is renamed. One function calls it
before it declares the name itself; behind the declaration the name is a number, and a call by it is one
of the library. -/
theorem Pass.run_renamed_overridden :
    ∃ source script renamed,
      source = "fn max = (n) => \x7breturn [n, 1]\x7d\nfn f = (k) => \x7b\n  const a = max(k)\n" ++
        "  const max = 5\n  return [a, max(k, 7), max]\n\x7d\nshow(max(2))\nf(3)" ∧
      parse source none = .ok script ∧ Edit.isName "pair" = true ∧ script.Lacks "pair" ∧
      Library.standard.find? "pair" = none ∧
      Edit.isSettled .standard "max" "pair" script = true ∧
      Edit.rename "max" "pair" script = .ok renamed ∧
      ((Pass.under .standard .standard source).run .emptyRoot 0 script).last?.map
        (·.toPlain.shown) = some "[[3, 1], 7, 5]" ∧
      Outcome.SameBut "max" "pair" ((Pass.under .standard .standard source).run .emptyRoot 0 script)
        ((Pass.under .standard .standard source).run .emptyRoot 0 renamed) := by
  obtain ⟨source, hsource⟩ : ∃ source, source =
      "fn max = (n) => \x7breturn [n, 1]\x7d\nfn f = (k) => \x7b\n  const a = max(k)\n" ++
        "  const max = 5\n  return [a, max(k, 7), max]\n\x7d\nshow(max(2))\nf(3)" := ⟨_, rfl⟩
  have hchecked : ((parse source none).toOption.any fun script =>
      decide (script.Lacks "pair" ∧ Edit.isSettled .standard "max" "pair" script = true ∧
        ((Pass.under .standard .standard source).run .emptyRoot 0 script).last?.map
          (·.toPlain.shown) = some "[[3, 1], 7, 5]")) = true := by
    rw [hsource]
    decide +kernel
  have hnew : Edit.isName "pair" = true := by decide +kernel
  have hlibrary : Library.standard.find? "pair" = none := by decide +kernel
  obtain ⟨script, hscript, hchecked⟩ := exists_of_any_toOption hchecked
  obtain ⟨hlacks, hsettled, hlast⟩ := of_decide_eq_true hchecked
  obtain ⟨renamed, hrenamed, hsame⟩ := Pass.run_renamed (.under .standard .standard source) hscript
    hnew hlacks hlibrary hsettled
  exact ⟨source, script, renamed, hsource, hscript, hnew, hlacks, hlibrary, hsettled, hrenamed, hlast,
    hsame⟩

/-- A function that is made before the name is declared around it finds the declaration when it is
called, but is renamed as if it did not. -/
example : ((parse ("const a = 1\nfn f = () => \x7b\n  const g = () => \x7breturn a\x7d\n" ++
      "  const a = 2\n  return g()\n\x7d\nf()") none).toOption.any fun script =>
    (Edit.rename "a" "b" script).toOption.any fun renamed =>
    [script, renamed].map (fun n => ((Pass.under .standard .standard "").run .emptyRoot 0 n).last?.map
      (·.toPlain.shown)) == [some "2", some "1"]) = true := by
  decide +kernel

/-- A call by a name that is bound to a number is one of the library, but is renamed with the
number. -/
example : ((parse "const max = 1\nmax(2, 3)" none).toOption.any fun script =>
    (Edit.rename "max" "b" script).toOption.any fun renamed =>
    [script, renamed].map (fun n => ((Pass.under .standard .standard "").run .emptyRoot 0 n).last?.map
      (·.toPlain.shown)) == [some "3", none]) = true := by
  decide +kernel

end PartScript
