import PartScript.Proofs.Twin.Pass

/-!
Twin scripts go in lockstep as wholes: expressions along their trees, functions of the script by
recursion on the calls that may still be nested, and then the statements of the scripts one by one.
-/

namespace PartScript.Pass

variable {R : Ranges} {code code' : String} {ids : Ids} {limits : Limits} {library : Library}
  {enter enter' : Enter}

/-! ### Expressions -/

/-- An expression starts with a step and goes one level deeper. -/
theorem opening_twin {rel : Ids → α → β → Prop} {f g : Frame} (hf : f.Twin R ids g)
    (span span' : Span) {k : Frame → Eval α} {k' : Frame → Eval β}
    (h : ∀ ids', ids.Le ids' → ∀ f g, f.Twin R ids' g →
      Lockstep R code code' ids' rel (k f) (k' g)) :
    Lockstep R code code' ids rel
      (step ⟨code, limits, library⟩ span >>= fun _ => deeper f >>= k)
      (step ⟨code', limits, library⟩ span' >>= fun _ => deeper g >>= k') := by
  refine (step_twin span span').bind fun ids₁ hle₁ _ _ _ => ?_
  exact (deeper_twin (hf.mono hle₁)).bind fun ids₂ hle₂ f g hf => h ids₂ (hle₁.trans hle₂) f g hf

mutual

theorem evaluate_twin (henter : EntersAlike R code code' enter enter') {ids : Ids} {n n' : Node}
    {f g : Frame} :
    Node.Twin R n n' → f.Twin R ids g →
      Lockstep R code code' ids (Value.Twin R) (evaluate ⟨code, limits, library⟩ enter f n)
        (evaluate ⟨code', limits, library⟩ enter' g n')
  | .literal, hf => by
      unfold evaluate
      exact opening_twin hf _ _ fun _ _ f g hf => literal_twin _ _ _
  | .identifier hname, hf => by
      unfold evaluate
      refine opening_twin hf _ _ fun _ _ f g hf => ?_
      dsimp only
      rw [hf.scope, hname]
      exact lookup_twin _ _ _ _
  | .binary hl hr, hf => by
      unfold evaluate
      refine opening_twin hf _ _ fun _ _ f g hf => ?_
      refine (evaluate_twin henter hl hf).bind fun _ hle v v' hv => ?_
      refine (evaluate_twin henter hr (hf.mono hle)).bind fun _ hle w w' hw => ?_
      exact operated_twin _ _ (combine_twin _ (hv.mono hle) hw)
  | .unary he, hf => by
      unfold evaluate
      refine opening_twin hf _ _ fun _ _ f g hf => ?_
      refine (evaluate_twin henter he hf).bind fun _ _ v v' hv => ?_
      exact operated_twin _ _ (convert_twin _ hv)
  | .call hrange hname hargs, hf => by
      unfold evaluate
      refine opening_twin hf _ _ fun _ _ f g hf => ?_
      dsimp only
      rw [hf.scope, hname]
      refine (closure?_twin _ _).bind fun _ hle c c' hc => ?_
      cases hc with
      | some hc =>
          refine (evaluateAll_twin henter hargs (hf.mono hle)).bind fun _ hle' vs ws hvs => ?_
          exact henter _ _ _ _ _ _ _ ⟨rfl, (hf.mono (hle.trans hle')).hole⟩ hc hvs
      | none =>
          refine (libraryEntry_twin hname).bind fun _ hle' entry _ hentry => ?_
          subst hentry
          refine (evaluateAll_twin henter hargs (hf.mono (hle.trans hle'))).bind fun _ _ vs ws hvs => ?_
          exact callLibrary_twin entry rfl hrange hvs
  | .array hes, hf => by
      unfold evaluate
      refine opening_twin hf _ _ fun _ _ f g hf => ?_
      refine (evaluateAll_twin henter hes hf).bind fun _ _ vs ws hvs => ?_
      exact lockstep_pure fun _ hle => .mk (.array (hvs.mono hle))
  | .object hps, hf => by
      unfold evaluate
      refine opening_twin hf _ _ fun _ _ f g hf => ?_
      refine (evaluateEntries_twin henter hps hf).bind fun _ _ es fs hes => ?_
      exact lockstep_pure fun _ hle => .mk (.host (.record (collectEntries_twin (hes.mono hle))))
  | .member he hname, hf => by
      unfold evaluate
      refine opening_twin hf _ _ fun _ _ f g hf => ?_
      refine (evaluate_twin henter he hf).bind fun _ _ v v' hv => ?_
      rw [hname]
      exact member_twin _ _ hv _ _ _
  | .index he hkey, hf => by
      unfold evaluate
      refine opening_twin hf _ _ fun _ _ f g hf => ?_
      refine (evaluate_twin henter he hf).bind fun _ hle v v' hv => ?_
      refine (evaluate_twin henter hkey (hf.mono hle)).bind fun _ hle w w' hw => ?_
      refine (memberKey_twin hw _ _).bind fun _ hle' key key' hkey => ?_
      subst hkey
      exact member_twin _ _ (hv.mono (hle.trans hle')) _ _ _
  | .pipe .nil, hf => by
      unfold evaluate
      exact opening_twin hf _ _ fun _ _ f g hf => lockstep_throw .fault
  | .pipe (.cons hfirst hmore), hf => by
      unfold evaluate
      refine opening_twin hf _ _ fun _ _ f g hf => ?_
      refine (evaluate_twin henter hfirst hf).bind fun _ hle v v' hv => ?_
      exact evaluateStages_twin henter hmore (hf.mono hle) hv
  | .hole, hf => by
      unfold evaluate
      refine opening_twin hf _ _ fun _ _ f g hf => ?_
      have hhole := hf.hole
      dsimp only
      generalize f.hole = x at hhole
      generalize g.hole = y at hhole
      cases hhole with
      | none => exact lockstep_mismatch _ _ _
      | some hv => exact lockstep_pure fun _ hle => hv.mono hle
  | .function hparams hbody, hf => by
      unfold evaluate
      refine opening_twin hf _ _ fun _ _ f g hf => ?_
      exact lockstep_pure fun _ _ => .mk (.function ⟨hparams, hbody, hf.scope⟩)
  | .program .., hf | .declaration .., hf | .statement .., hf | .giveBack .., hf
  | .property .., hf => by
      unfold evaluate
      exact opening_twin hf _ _ fun _ _ f g hf => lockstep_mismatch _ _ _
termination_by sizeOf n

theorem evaluateAll_twin (henter : EntersAlike R code code' enter enter') {ids : Ids}
    {ns ns' : List Node} {f g : Frame} :
    Node.TwinAll R ns ns' → f.Twin R ids g →
      Lockstep R code code' ids (Value.TwinAll R) (evaluateAll ⟨code, limits, library⟩ enter f ns)
        (evaluateAll ⟨code', limits, library⟩ enter' g ns')
  | .nil, hf => by
      unfold evaluateAll
      exact lockstep_pure fun _ _ => .nil
  | .cons h hrest, hf => by
      unfold evaluateAll
      refine (evaluate_twin henter h hf).bind fun _ hle v v' hv => ?_
      refine (evaluateAll_twin henter hrest (hf.mono hle)).bind fun _ hle vs ws hvs => ?_
      exact lockstep_pure fun _ hle' => .cons (hv.mono (hle.trans hle')) (hvs.mono hle')
termination_by sizeOf ns

theorem evaluateEntries_twin (henter : EntersAlike R code code' enter enter') {ids : Ids}
    {ns ns' : List Node} {f g : Frame} :
    Node.TwinAll R ns ns' → f.Twin R ids g →
      Lockstep R code code' ids (Host.TwinEntries R)
        (evaluateEntries ⟨code, limits, library⟩ enter f ns)
        (evaluateEntries ⟨code', limits, library⟩ enter' g ns')
  | .nil, hf => by
      unfold evaluateEntries
      exact lockstep_pure fun _ _ => .nil
  | .cons h hrest, hf => by
      cases h with
      | property hname he =>
          unfold evaluateEntries
          refine (evaluate_twin henter he hf).bind fun _ hle v v' hv => ?_
          refine (evaluateEntries_twin henter hrest (hf.mono hle)).bind fun _ hle es fs hes => ?_
          rw [hname]
          exact lockstep_pure fun _ hle' => .cons (.value (hv.mono (hle.trans hle'))) (hes.mono hle')
      | _ => exact lockstep_throw .fault
termination_by sizeOf ns

theorem evaluateStages_twin (henter : EntersAlike R code code' enter enter') {ids : Ids}
    {ns ns' : List Node} {f g : Frame} {v v' : Value} :
    Node.TwinAll R ns ns' → f.Twin R ids g → Value.Twin R ids v v' →
      Lockstep R code code' ids (Value.Twin R)
        (evaluateStages ⟨code, limits, library⟩ enter f ns v)
        (evaluateStages ⟨code', limits, library⟩ enter' g ns' v')
  | .nil, _, hv => by
      unfold evaluateStages
      exact lockstep_pure fun _ hle => hv.mono hle
  | .cons h hrest, hf, hv => by
      unfold evaluateStages
      have hstage : Frame.Twin R ids { f with hole := some v } { g with hole := some v' } :=
        ⟨hf.scope, .some hv, hf.room⟩
      refine (evaluate_twin henter h hstage).bind fun _ hle w w' hw => ?_
      exact evaluateStages_twin henter hrest (hf.mono hle) hw
termination_by sizeOf ns

end

/-! ### Functions of the script -/

/-- Both have a result, and the results are twins, or neither has. -/
abbrev ResultTwin (R : Ranges) (ids : Ids) : Option Value → Option Value → Prop :=
  Option.Rel (Value.Twin R ids)

theorem execute_twin (henter : EntersAlike R code code' enter enter') {n n' : Node} {f g : Frame}
    (h : Node.Twin R n n') (hf : f.Twin R ids g) :
    Lockstep R code code' ids (ResultTwin R) (execute ⟨code, limits, library⟩ enter f n)
      (execute ⟨code', limits, library⟩ enter' g n') := by
  unfold execute
  refine (step_twin _ _).bind fun _ hle _ _ _ => ?_
  have hkind := h.kindName
  cases h with
  | declaration hname he =>
      refine (evaluate_twin henter he (hf.mono hle)).bind fun _ _ v v' hv => ?_
      rw [hf.scope, hname]
      exact (define_twin _ _ hv _ _).bind fun _ _ _ _ _ => lockstep_pure fun _ _ => .none
  | statement he =>
      refine (evaluate_twin henter he (hf.mono hle)).bind fun _ _ v v' hv => ?_
      exact lockstep_pure fun _ hle => .some (hv.mono hle)
  | _ => exact lockstep_mismatch _ _ _

theorem runBody_twin (henter : EntersAlike R code code' enter enter') {ns ns' : List Node}
    {f g : Frame} {last last' : Option Value} (h : Node.TwinAll R ns ns') (hf : f.Twin R ids g)
    (hlast : ResultTwin R ids last last') :
    Lockstep R code code' ids (ResultTwin R) (runBody ⟨code, limits, library⟩ enter f ns last)
      (runBody ⟨code', limits, library⟩ enter' g ns' last') := by
  induction ns generalizing ns' ids last last' with
  | nil =>
      cases h
      exact lockstep_pure fun _ hle => rel_mono (fun _ _ => .mono hle) hlast
  | cons n ns ih =>
      cases h with
      | @cons _ n' _ _ hn hrest =>
          -- A `return` ends the function; any other statement is followed by the rest.
          have hnext : Lockstep R code code' ids (ResultTwin R)
              (execute ⟨code, limits, library⟩ enter f n >>=
                runBody ⟨code, limits, library⟩ enter f ns)
              (execute ⟨code', limits, library⟩ enter' g n' >>=
                runBody ⟨code', limits, library⟩ enter' g _) :=
            (execute_twin henter hn hf).bind fun _ hle _ _ hresult =>
              ih hrest (hf.mono hle) hresult
          cases hn with
          | giveBack he =>
              refine (step_twin _ _).bind fun _ hle _ _ _ => ?_
              refine (evaluate_twin henter he (hf.mono hle)).bind fun _ _ v v' hv => ?_
              exact lockstep_pure fun _ hle => .some (hv.mono hle)
          | _ => exact hnext

theorem bindParams_twin (scope : Nat) {params params' : List Ident} {args args' : List Value}
    (hparams : params.map (·.name) = params'.map (·.name)) (hargs : Value.TwinAll R ids args args') :
    Lockstep R code code' ids (fun _ _ _ => True) (bindParams scope params args)
      (bindParams scope params' args') := by
  induction params generalizing params' args args' ids with
  | nil =>
      cases params' with
      | nil => exact lockstep_pure fun _ _ => trivial
      | cons => cases hparams
  | cons i params ih =>
      cases params' with
      | nil => cases hparams
      | cons i' params' =>
          obtain ⟨hname, hparams⟩ := List.cons.inj hparams
          cases hargs with
          | nil => exact lockstep_pure fun _ _ => trivial
          | cons hv hrest =>
              simp only [bindParams, hname]
              exact (define_twin _ _ hv _ _).bind fun _ hle _ _ _ => ih hparams (hrest.mono hle)

theorem openScope_twin (parent : Nat) (name : String) :
    Lockstep R code code' ids (fun _ a b => a = b) (openScope parent name)
      (openScope parent name) := by
  intro w v hw _
  have hrun (w : World) : (openScope parent name).run w =
      (.ok w.store.scopes.size, { w with store := (w.store.openChild parent name).1 }) := rfl
  rw [hrun, hrun]
  have hstore := (hw.store.matches.openChild parent name).twin
  exact ⟨⟨hw.steps, hw.sent, hw.shown, hstore⟩, .refl _, .ok hw.store.size⟩

theorem entersAlike_enterScope (henter : EntersAlike R code code' enter enter') :
    EntersAlike R code code' (enterScope ⟨code, limits, library⟩ enter)
      (enterScope ⟨code', limits, library⟩ enter') := by
  intro ids inv inv' c c' args args' hinv hc hargs
  unfold enterScope
  rw [hinv.name, hc.scope]
  refine (openScope_twin _ _).bind fun _ hle₁ scope scope' hscope => ?_
  subst hscope
  refine (bindParams_twin scope hc.params (hargs.mono hle₁)).bind fun ids₂ hle₂ _ _ _ => ?_
  have hle := hle₁.trans hle₂
  have hf : Frame.Twin R ids₂ ⟨scope, inv.hole, limits.nesting⟩ ⟨scope, inv'.hole, limits.nesting⟩ :=
    ⟨rfl, rel_mono (fun _ _ => .mono hle) hinv.hole, rfl⟩
  refine (runBody_twin henter hc.body hf .none).bind fun _ _ result result' hresult => ?_
  cases hresult with
  | none => exact lockstep_mismatch _ _ _
  | some hv => exact lockstep_pure fun _ hle => (hv.mono hle).withTrail _ _

/-- Calls of twin functions go in lockstep, however many more may be nested. -/
theorem entersAlike_call (left : Nat) :
    EntersAlike R code code' (call ⟨code, limits, library⟩ left)
      (call ⟨code', limits, library⟩ left) := by
  induction left with
  | zero =>
      intro ids inv inv' c c' args args' hinv hc hargs
      simp only [call]
      rw [hargs.length_eq, hc.length_params, hinv.name]
      split
      · exact lockstep_throw_bind .wrong _ _
      · exact lockstep_throw .wrong
  | succ left ih =>
      intro ids inv inv' c c' args args' hinv hc hargs
      simp only [call]
      rw [hargs.length_eq, hc.length_params, hinv.name]
      split
      · exact lockstep_throw_bind .wrong _ _
      · exact entersAlike_enterScope ih _ _ _ _ _ _ _ hinv hc hargs

/-! ### Statements of the script -/

/-- Stops that are twins are still twins after nesting that is too deep has been blamed on a
statement. -/
theorem lockstep_blame {x : Eval α} {y : Eval β} {rel : Ids → α → β → Prop}
    (h : Lockstep R code code' ids rel x y) (span span' : Span) :
    Lockstep R code code' ids rel
      (tryCatch x fun
        | .tooDeep => throw (.wrong (.exhausted .nesting) span)
        | stop => throw stop)
      (tryCatch y fun
        | .tooDeep => throw (.wrong (.exhausted .nesting) span')
        | stop => throw stop) := by
  intro w v hw hle
  obtain ⟨htwin, hmore, hends⟩ := h w v hw hle
  cases hx : x.run w with
  | mk result w' =>
      cases hy : y.run v with
      | mk result' v' =>
          rw [hx, hy] at htwin hmore hends
          cases hends with
          | ok hab =>
              rw [run_tryCatch_ok hx, run_tryCatch_ok hy]
              exact ⟨htwin, hmore, .ok hab⟩
          | stop hs =>
              rw [run_tryCatch_error hx, run_tryCatch_error hy]
              cases hs with
              | wrong => exact ⟨htwin, hmore, .stop .wrong⟩
              | tooDeep => exact ⟨htwin, hmore, .stop .wrong⟩
              | fault => exact ⟨htwin, hmore, .stop .fault⟩

/-- Running twin statements in the same scope goes in lockstep. -/
theorem runScript_twin (scope : Nat) {ns ns' : List Node} {last last' : Option Value}
    (h : Node.TwinAll R ns ns') (hlast : ResultTwin R ids last last') :
    Lockstep R code code' ids (ResultTwin R) (runScript ⟨code, limits, library⟩ scope ns last)
      (runScript ⟨code', limits, library⟩ scope ns' last') := by
  induction ns generalizing ns' ids last last' with
  | nil =>
      cases h
      exact lockstep_pure fun _ hle => rel_mono (fun _ _ => .mono hle) hlast
  | cons n ns ih =>
      cases h with
      | cons hn hrest =>
          have hf : Frame.Twin R ids ⟨scope, none, limits.nesting⟩ ⟨scope, none, limits.nesting⟩ :=
            ⟨rfl, .none, rfl⟩
          rw [runScript, runScript]
          refine (lockstep_blame (execute_twin (entersAlike_call _) hn hf) _ _).bind ?_
          exact fun _ _ _ _ hresult => ih hrest hresult

end PartScript.Pass
