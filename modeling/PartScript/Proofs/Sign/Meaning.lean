import PartScript.Proofs.Pipe.Meaning
import PartScript.Proofs.Rename.Meaning
import PartScript.Proofs.Sign.Evaluate

/-!
Simpler signs mean the same. A script that succeeds succeeds with the same outcome once its signs have
been simplified, under any rules, with any limits and from any scopes, and it takes no more steps.
-/

namespace PartScript

/-! ### Scripts with simpler signs -/

/-- A script that was read from a text gets simpler signs. -/
theorem Edit.normalize_of_parse (rules : NegationRules) {source : String} {file : Option String}
    {script : Node} (h : parse source file = .ok script) :
    normalize rules script = .ok (simplifyAll rules script).withPaths := by
  obtain ⟨m, body, rfl, hbody⟩ := exists_program (writable_of_parse h)
  have hplaced : placed (.program m body) = .ok () := placedStatements_of_writable _ body hbody
  rw [normalize, apply, hplaced]
  rfl

/-- New paths leave all minus signs where they are. -/
theorem Node.unpairs_withPaths (n : Node) : n.Unpairs n.withPaths :=
  unpairs_of_bare_eq (bare_withPaths n).symm (calls_place [] n).symm

/-! ### Runs -/

theorem World.unpairs_start (store : Store) :
    World.Unpairs ⟨0, [], [], store⟩ ⟨0, [], [], store⟩ :=
  ⟨Nat.le_refl _, rfl, .nil, store.matches_self (Value.serves_self Closure.unpairs_self)⟩

theorem Value.Unpairs.toPlain {v v' : Value} (h : v.Unpairs v') : v.toPlain = v'.toPlain :=
  Value.Serves.toPlain (fun _ _ => Closure.Unpairs.length_params) h

theorem Outcome.SameSuccess.trans {o o' o'' : Outcome} (h : o.SameSuccess o')
    (h' : o'.SameSuccess o'') : o.SameSuccess o'' := by
  obtain ⟨v, v', hv, hv', hlast⟩ := h.last
  obtain ⟨_, v'', hsame, hv'', hlast'⟩ := h'.last
  obtain rfl := Except.ok.inj (hv'.symm.trans hsame)
  exact ⟨⟨v, v'', hv, hv'', hlast.trans hlast'⟩, h.shown.trans h'.shown, h.sent.trans h'.sent,
    fun id => (h.bound id).trans (h'.bound id)⟩

namespace Pass

/-- A script that succeeds, and the same one without some pairs of minus signs. -/
theorem run_unpairs (p : Pass) (store : Store) (scope : Nat) {script script' : Node}
    (h : script.Unpairs script') {v : Option Value}
    (hv : (p.run store scope script).result = .ok v) :
    Outcome.SameSuccess (p.run store scope script) (p.run store scope script') ∧
      (p.run store scope script').steps ≤ (p.run store scope script).steps := by
  cases h with
  | program hbody =>
      rw [run_program] at hv ⊢
      rw [run_program]
      have hok := mapError_eq_ok.1 hv
      generalize hrun : (p.runScript scope _ none).run ⟨0, [], [], store⟩ = r at hok
      obtain ⟨result, w⟩ := r
      obtain rfl : result = .ok v := hok
      obtain ⟨v', u, hrun', hworld, hresult⟩ := runScript_tracks p scope hbody .none _ _ _ _ hrun
        (World.unpairs_start store)
      rw [hrun']
      refine ⟨⟨⟨v, v', rfl, rfl, ?_⟩, ?_, hworld.sent, ?_⟩, hworld.steps⟩
      · cases hresult with
        | none => rfl
        | some hvalue => exact congrArg some hvalue.toPlain
      · rw [← List.forall₂_eq_eq_eq]
        exact List.rel_map (fun _ _ hv => hv.toPlain) hworld.shown
      · exact hworld.store.bound fun _ _ hv => hv.toPlain
  | _ => cases hv

/-- Simpler signs mean the same. Let a script be read from a text, and let its run succeed, from any
scopes and under any limits. Its signs can be simplified by any rules, and then it succeeds in no more
steps: the last value, the values shown and the values bound under each name look the same, in the same
order, and the commands are the same, with their identifiers and ranges. -/
theorem run_normalized (p : Pass) {source : String} {file : Option String} {script : Node}
    (hscript : parse source file = .ok script) (rules : Edit.NegationRules) (store : Store)
    (scope : Nat) {v : Option Value} (hv : (p.run store scope script).result = .ok v) :
    ∃ simpler, Edit.normalize rules script = .ok simpler ∧
      Outcome.SameSuccess (p.run store scope script) (p.run store scope simpler) ∧
      (p.run store scope simpler).steps ≤ (p.run store scope script).steps := by
  refine ⟨_, Edit.normalize_of_parse rules hscript, ?_⟩
  have hunpairs := Node.unpairs_simplifyAll rules .script _ script (writable_of_parse hscript)
  obtain ⟨hsame, hsteps⟩ := p.run_unpairs store scope hunpairs hv
  obtain ⟨_, v', -, hv', -⟩ := hsame.last
  obtain ⟨hsame', hsteps'⟩ := p.run_unpairs store scope (Node.unpairs_withPaths _) hv'
  exact ⟨hsame.trans hsame', Nat.le_trans hsteps' hsteps⟩

/-- A drawing with a number that comes from outside. Pairs of minus signs stand before it in a point, in a
stage, in an argument and in the body of a function; without them what is shown is still from outside. -/
theorem run_normalized_drawing :
    ∃ source script simpler store,
      source = "fn both = (n) => \x7breturn [-(-n), -(-(-n))]\x7d\n" ++
        "const b = startSketchAt([0, -(-a)]) |> line([-(-(-a)), 1], %) |> close(%)\n" ++
        "show(-(-a), both(a))\nb |> extrude(-(-a), %)" ∧
      store = (⟨#[⟨none, "root", [("a", .mk (.host (.number (.int 3))) [])]⟩]⟩ : Store) ∧
      parse source none = .ok script ∧ Edit.normalize .all script = .ok simpler ∧
      ((Pass.under .standard .standard source).run store 0 script).sent.length = 4 ∧
      ((Pass.under .standard .standard source).run store 0 script).shown.map Value.kind =
        [.number, .array] ∧
      ((Pass.under .standard .standard source).run store 0 simpler).shown.map Value.kind =
        [.host, .array] ∧
      Outcome.SameSuccess ((Pass.under .standard .standard source).run store 0 script)
        ((Pass.under .standard .standard source).run store 0 simpler) := by
  obtain ⟨source, hsource⟩ : ∃ source, source =
      "fn both = (n) => \x7breturn [-(-n), -(-(-n))]\x7d\n" ++
        "const b = startSketchAt([0, -(-a)]) |> line([-(-(-a)), 1], %) |> close(%)\n" ++
        "show(-(-a), both(a))\nb |> extrude(-(-a), %)" := ⟨_, rfl⟩
  obtain ⟨store, hstore⟩ : ∃ store : Store,
      store = ⟨#[⟨none, "root", [("a", .mk (.host (.number (.int 3))) [])]⟩]⟩ := ⟨_, rfl⟩
  have hchecked : ((parse source none).toOption.any fun script =>
      ((Edit.normalize .all script).toOption.any fun simpler => decide
        (((Pass.under .standard .standard source).run store 0 script).sent.length = 4 ∧
          ((Pass.under .standard .standard source).run store 0 script).shown.map Value.kind =
            [.number, .array] ∧
          ((Pass.under .standard .standard source).run store 0 simpler).shown.map Value.kind =
            [.host, .array] ∧
          ((Pass.under .standard .standard source).run store 0 script).result.toOption.isSome))) =
      true := by
    rw [hsource, hstore]
    decide +kernel
  obtain ⟨script, hscript, hchecked⟩ := exists_of_any_toOption hchecked
  obtain ⟨simpler, hsimpler, hchecked⟩ := exists_of_any_toOption hchecked
  obtain ⟨hsent, hshown, hshown', hresult⟩ := of_decide_eq_true hchecked
  obtain ⟨v, hv⟩ := exists_of_isSome_toOption hresult
  obtain ⟨other, hother, hsame, -⟩ :=
    run_normalized (.under .standard .standard source) hscript .all store 0 hv
  obtain rfl : other = simpler := Except.ok.inj (hother.symm.trans hsimpler)
  exact ⟨source, script, other, store, hsource, hstore, hscript, hsimpler, hsent, hshown, hshown', hsame⟩

end Pass

end PartScript
