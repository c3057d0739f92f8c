import PartScript.Proofs.Sign.Pass

/-!
Evaluation without pairs of minus signs. Expressions, functions and statements track those that have the
pairs: a pair takes two steps and goes two levels down, and all that comes of it is the number it started
from.
-/

namespace PartScript.Pass

open List (Forall₂)

variable {p : Pass} {enter : Enter} {f g : Frame}

/-! ### Expressions -/

mutual

theorem evaluate_tracks (henter : EntersTracking enter) {n n' : Node} {f g : Frame} :
    n.Unpairs n' → f.Unpairs g →
      Tracks Value.Unpairs (evaluate p enter f n) (evaluate p enter g n')
  | .literal, hf => by
      unfold evaluate
      exact opening_tracks hf _ _ fun f g hf => literal_tracks _ _ _
  | .identifier hname, hf => by
      unfold evaluate
      refine opening_tracks hf _ _ fun f g hf => ?_
      dsimp only
      rw [hf.scope, hname]
      exact lookup_tracks _ _ _ _
  | .binary hl hr, hf => by
      unfold evaluate
      refine opening_tracks hf _ _ fun f g hf => ?_
      refine (evaluate_tracks henter hl hf).bind fun v v' hv => ?_
      refine (evaluate_tracks henter hr hf).bind fun w w' hw => ?_
      exact operated_tracks _ _ (combine_serves _ hv hw)
  | .unary he, hf => by
      unfold evaluate
      refine opening_tracks hf _ _ fun f g hf => ?_
      refine (evaluate_tracks henter he hf).bind fun v v' hv => ?_
      exact operated_tracks _ _ (convert_serves _ hv)
  | .pair he, hf => by
      rw [evaluate]
      refine tracks_step_left (tracks_deeper_left hf fun f hf => ?_)
      dsimp only
      rw [evaluate]
      simp only [bind_assoc]
      refine tracks_step_left (tracks_deeper_left hf fun f hf => ?_)
      exact (evaluate_tracks henter he hf).bind_left fun v v' hv => minus_minus_tracks _ _ hv
  | .call hrange hname hargs, hf => by
      rw [evaluate_call, evaluate_call]
      refine opening_tracks hf _ _ fun f g hf => ?_
      rw [hf.scope]
      refine (callee_tracks p hname _).bind fun c c' hc => ?_
      refine (evaluateAll_tracks henter hargs hf).bind fun vs vs' hvs => ?_
      exact invoke_tracks henter hname hrange hf.hole hvs hc
  | .array hes, hf => by
      unfold evaluate
      refine opening_tracks hf _ _ fun f g hf => ?_
      refine (evaluateAll_tracks henter hes hf).bind fun vs vs' hvs => ?_
      exact tracks_pure (.mk (.array hvs))
  | .object hps, hf => by
      unfold evaluate
      refine opening_tracks hf _ _ fun f g hf => ?_
      refine (evaluateEntries_tracks henter hps hf).bind fun es es' hes => ?_
      exact tracks_pure (.mk (.host (.record (collectEntries_serves hes))))
  | .member he hname, hf => by
      unfold evaluate
      refine opening_tracks hf _ _ fun f g hf => ?_
      refine (evaluate_tracks henter he hf).bind fun v v' hv => ?_
      rw [hname]
      exact member_tracks _ _ hv _ _ _
  | .index he hkey, hf => by
      unfold evaluate
      refine opening_tracks hf _ _ fun f g hf => ?_
      refine (evaluate_tracks henter he hf).bind fun v v' hv => ?_
      refine (evaluate_tracks henter hkey hf).bind fun w w' hw => ?_
      refine (memberKey_tracks hw _ _).bind fun key key' hkey => ?_
      subst hkey
      exact member_tracks _ _ hv _ _ _
  | .pipe .nil, hf => by
      unfold evaluate
      exact opening_tracks hf _ _ fun f g hf => tracks_throw _ _
  | .pipe (.cons hfirst hmore), hf => by
      unfold evaluate
      refine opening_tracks hf _ _ fun f g hf => ?_
      refine (evaluate_tracks henter hfirst hf).bind fun v v' hv => ?_
      exact evaluateStages_tracks henter hmore hf hv
  | .hole, hf => by
      unfold evaluate
      refine opening_tracks hf _ _ fun f g hf => ?_
      have hhole := hf.hole
      dsimp only
      generalize f.hole = x at hhole
      generalize g.hole = y at hhole
      cases hhole with
      | none => exact tracks_mismatch _ _ _
      | some hv => exact tracks_pure hv
  | .function hparams hbody, hf => by
      unfold evaluate
      refine opening_tracks hf _ _ fun f g hf => ?_
      exact tracks_pure (.mk (.function ⟨hparams, hf.scope, hbody⟩))
  | .program .., hf | .declaration .., hf | .statement .., hf | .giveBack .., hf
  | .property .., hf => by
      unfold evaluate
      exact opening_tracks hf _ _ fun f g hf => tracks_mismatch _ _ _
termination_by sizeOf n

theorem evaluateAll_tracks (henter : EntersTracking enter) {ns ns' : List Node} {f g : Frame} :
    Forall₂ Node.Unpairs ns ns' → f.Unpairs g →
      Tracks (Forall₂ Value.Unpairs) (evaluateAll p enter f ns) (evaluateAll p enter g ns')
  | .nil, hf => by
      unfold evaluateAll
      exact tracks_pure .nil
  | .cons h hrest, hf => by
      unfold evaluateAll
      refine (evaluate_tracks henter h hf).bind fun v v' hv => ?_
      refine (evaluateAll_tracks henter hrest hf).bind fun vs vs' hvs => ?_
      exact tracks_pure (.cons hv hvs)
termination_by sizeOf ns

theorem evaluateEntries_tracks (henter : EntersTracking enter) {ns ns' : List Node} {f g : Frame} :
    Forall₂ Node.Unpairs ns ns' → f.Unpairs g →
      Tracks (Forall₂ (Host.ServesEntry Closure.Unpairs)) (evaluateEntries p enter f ns)
        (evaluateEntries p enter g ns')
  | .nil, hf => by
      unfold evaluateEntries
      exact tracks_pure .nil
  | .cons h hrest, hf => by
      cases h with
      | property hname he =>
          unfold evaluateEntries
          refine (evaluate_tracks henter he hf).bind fun v v' hv => ?_
          refine (evaluateEntries_tracks henter hrest hf).bind fun es es' hes => ?_
          rw [hname]
          exact tracks_pure (.cons (.mk (.value hv)) hes)
      | _ => exact tracks_throw _ _
termination_by sizeOf ns

theorem evaluateStages_tracks (henter : EntersTracking enter) {ns ns' : List Node} {f g : Frame}
    {v v' : Value} : Forall₂ Node.Unpairs ns ns' → f.Unpairs g → v.Unpairs v' →
      Tracks Value.Unpairs (evaluateStages p enter f ns v) (evaluateStages p enter g ns' v')
  | .nil, _, hv => by
      unfold evaluateStages
      exact tracks_pure hv
  | .cons h hrest, hf, hv => by
      unfold evaluateStages
      have hstage : Frame.Unpairs { f with hole := some v } { g with hole := some v' } :=
        ⟨hf.scope, .some hv, hf.room⟩
      refine (evaluate_tracks henter h hstage).bind fun w w' hw => ?_
      exact evaluateStages_tracks henter hrest hf hw
termination_by sizeOf ns

end

/-! ### Functions of the script -/

theorem execute_tracks (henter : EntersTracking enter) {n n' : Node} (h : n.Unpairs n')
    (hf : f.Unpairs g) :
    Tracks (Option.Rel Value.Unpairs) (execute p enter f n) (execute p enter g n') := by
  unfold execute
  refine (step_tracks p _ _).bind fun _ _ _ => ?_
  cases h with
  | declaration hname he =>
      refine (evaluate_tracks henter he hf).bind fun v v' hv => ?_
      rw [hf.scope, hname]
      exact (define_tracks _ _ hv _ _).bind fun _ _ _ => tracks_pure .none
  | statement he =>
      exact (evaluate_tracks henter he hf).bind fun v v' hv => tracks_pure (.some hv)
  | _ => exact tracks_mismatch _ _ _

theorem runBody_tracks (henter : EntersTracking enter) {ns ns' : List Node} {last last' : Option Value}
    (h : Forall₂ Node.Unpairs ns ns') (hf : f.Unpairs g)
    (hlast : Option.Rel Value.Unpairs last last') :
    Tracks (Option.Rel Value.Unpairs) (runBody p enter f ns last) (runBody p enter g ns' last') := by
  induction h generalizing last last' with
  | nil => exact tracks_pure hlast
  | @cons n n' ns ns' hn _ ih =>
      -- A `return` ends the function; any other statement is followed by the rest.
      have hnext : Tracks (Option.Rel Value.Unpairs) (execute p enter f n >>= runBody p enter f ns)
          (execute p enter g n' >>= runBody p enter g ns') :=
        (execute_tracks henter hn hf).bind fun _ _ hresult => ih hresult
      cases hn with
      | giveBack he =>
          refine (step_tracks p _ _).bind fun _ _ _ => ?_
          exact (evaluate_tracks henter he hf).bind fun v v' hv => tracks_pure (.some hv)
      | pair =>
          -- A minus sign starts no statement, so nothing goes on here.
          show Tracks _ ((p.step _ >>= fun _ => mismatch _ _) >>= runBody p enter f ns) _
          rw [bind_assoc]
          exact tracks_step_left (tracks_throw_bind _ _ _)
      | _ => exact hnext

theorem bindParams_tracks (scope : Nat) {params params' : List Ident} {args args' : List Value}
    (hparams : params.map (·.name) = params'.map (·.name)) (hargs : Forall₂ Value.Unpairs args args') :
    Tracks (fun _ _ => True) (bindParams scope params args) (bindParams scope params' args') := by
  induction params generalizing params' args args' with
  | nil =>
      cases params' with
      | nil => exact tracks_pure trivial
      | cons => cases hparams
  | cons i params ih =>
      cases params' with
      | nil => cases hparams
      | cons i' params' =>
          obtain ⟨hname, hparams⟩ := List.cons.inj hparams
          cases hargs with
          | nil => exact tracks_pure trivial
          | cons hv hrest =>
              simp only [bindParams, hname]
              exact (define_tracks _ _ hv _ _).bind fun _ _ _ => ih hparams hrest

theorem openScope_tracks (parent : Nat) (name : String) :
    Tracks (fun id id' => id = id') (openScope parent name) (openScope parent name) := by
  intro w u id w' hrun hw
  have hopen (w : World) : (openScope parent name).run w =
      (.ok w.store.scopes.size, { w with store := (w.store.openChild parent name).1 }) := rfl
  rw [hopen] at hrun
  cases hrun
  exact ⟨_, _, hopen u, ⟨hw.steps, hw.sent, hw.shown, hw.store.openChild parent name⟩, hw.store.size⟩

theorem entersTracking_enterScope (henter : EntersTracking enter) :
    EntersTracking (p.enterScope enter) := by
  intro inv inv' c c' args args' hname hhole hc hargs
  unfold enterScope
  rw [hname, ← hc.scope]
  refine (openScope_tracks _ _).bind fun scope scope' hscope => ?_
  subst hscope
  refine (bindParams_tracks scope hc.params hargs).bind fun _ _ _ => ?_
  have hf : Frame.Unpairs ⟨scope, inv.hole, p.limits.nesting⟩ ⟨scope, inv'.hole, p.limits.nesting⟩ :=
    ⟨rfl, hhole, .refl _⟩
  refine (runBody_tracks henter hc.body hf .none).bind fun result result' hresult => ?_
  cases hresult with
  | none => exact tracks_mismatch _ _ _
  | some hv => exact tracks_pure (hv.withTrail _ _)

/-- Calls of functions of which the second lacks some pairs, however many more may be nested. -/
theorem entersTracking_call (p : Pass) (left : Nat) : EntersTracking (p.call left) := by
  induction left with
  | zero =>
      intro inv inv' c c' args args' hname hhole hc hargs
      by_cases hlen : args.length = c.params.length
      · rw [call_zero hlen]
        exact tracks_throw _ _
      · rw [call_of_length_ne hlen]
        exact tracks_mismatch _ _ _
  | succ left ih =>
      intro inv inv' c c' args args' hname hhole hc hargs
      by_cases hlen : args.length = c.params.length
      · have hlen' : args'.length = c'.params.length := by
          rw [← hargs.length_eq, hlen, hc.length_params]
        rw [call_succ hlen, call_succ hlen']
        exact entersTracking_enterScope ih inv inv' c c' args args' hname hhole hc hargs
      · rw [call_of_length_ne hlen]
        exact tracks_mismatch _ _ _

/-! ### Statements of the script -/

/-- What succeeds is blamed on no statement. -/
theorem Tracks.blame {α β : Type} {rel : α → β → Prop} {x : Eval α} {y : Eval β}
    (h : Tracks rel x y) (span span' : Span) :
    Tracks rel
      (tryCatch x fun
        | .tooDeep => throw (.wrong (.exhausted .nesting) span)
        | stop => throw stop)
      (tryCatch y fun
        | .tooDeep => throw (.wrong (.exhausted .nesting) span')
        | stop => throw stop) := by
  intro w u a w' hrun hw
  have hx := (run_tryCatch_eq_ok fun stop => by cases stop <;> exact ⟨_, rfl⟩).1 hrun
  obtain ⟨b, u', hy, hmore⟩ := h w u a _ hx hw
  exact ⟨b, u', run_tryCatch_ok hy, hmore⟩

/-- The statements of scripts in the same scope. -/
theorem runScript_tracks (p : Pass) (scope : Nat) {ns ns' : List Node} {last last' : Option Value}
    (h : Forall₂ Node.Unpairs ns ns') (hlast : Option.Rel Value.Unpairs last last') :
    Tracks (Option.Rel Value.Unpairs) (p.runScript scope ns last) (p.runScript scope ns' last') := by
  induction h generalizing last last' with
  | nil => exact tracks_pure hlast
  | cons hn _ ih =>
      have hf : Frame.Unpairs ⟨scope, none, p.limits.nesting⟩ ⟨scope, none, p.limits.nesting⟩ :=
        ⟨rfl, .none, .refl _⟩
      have hstatement := execute_tracks (p := p) (entersTracking_call p p.limits.calls) hn hf
      rw [runScript, runScript]
      exact (hstatement.blame _ _).bind fun _ _ hresult => ih hresult

end PartScript.Pass
