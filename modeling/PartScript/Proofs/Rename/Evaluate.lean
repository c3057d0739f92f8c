import PartScript.Proofs.Rename.Pass

/-!
A script whose references are settled and the renamed one go abreast: expressions by recursion along
their trees, functions of the script by recursion on the calls that may still be nested, and statements
one after another. The sight in the scope of a function is known when it is entered, and a statement
changes it only by declaring the name.
-/

namespace PartScript.Pass

open Edit (Renaming Sight)

/-- Entering functions that correspond with arguments that correspond goes abreast. -/
def EntersAbreast (r : Renaming) (library : Library) (enter enter' : Enter) : Prop :=
  ∀ o inv inv' c c' args args', Option.Rel (Value.Renamed r o) inv.hole inv'.hole →
    c.Renamed r o c' → Value.RenamedAll r o args args' →
    Abreast r library none o (Value.Renamed r) (enter inv c args) (enter' inv' c' args')

variable {r : Renaming} {p : Pass} {enter enter' : Enter} {o : Outlook} {calls : Bool} {σ : Sight}
  {f g : Frame}

/-! ### Expressions -/

/-- Every expression begins with a step, one level deeper. -/
theorem opening_abreast {α β : Type} {rel : Outlook → α → β → Prop} (hf : f.Renamed r o calls σ g)
    (span span' : Span) {k : Frame → Eval α} {k' : Frame → Eval β}
    (h : ∀ o', ∀ f g, f.Renamed r o' calls σ g → Abreast r p.library none o' rel (k f) (k' g)) :
    Abreast r p.library none o rel (step p span >>= fun _ => deeper f >>= k)
      (step p span' >>= fun _ => deeper g >>= k') := by
  refine (step_abreast span span').bind fun _ hle _ _ _ => ?_
  exact (deeper_abreast (hf.mono hle)).bind fun o' _ f g hf => h o' f g hf

mutual

theorem evaluate_abreast (hnew : p.library.find? r.new = none)
    (henter : EntersAbreast r p.library enter enter') (inFunction : Bool) {o : Outlook} {f g : Frame}
    (hf : f.Renamed r o calls σ g) : (n : Node) → r.settled calls σ n = true → n.Lacks r.new →
      Abreast r p.library none o (Value.Renamed r) (evaluate p enter f n)
        (evaluate p enter' g (r.tree inFunction σ.hides n))
  | .literal m value raw, _, _ => by
      unfold Renaming.tree evaluate
      exact opening_abreast hf _ _ fun _ f g hf => literal_abreast _ _
  | .identifier i, hsettled, hlacks => by
      unfold Renaming.tree evaluate
      refine opening_abreast hf _ _ fun _ f g hf => ?_
      dsimp only
      rw [← hf.scope]
      exact lookup_abreast (reads_ident hf.sight hlacks.name_ne hsettled) _ _
  | .binary m op l e, hsettled, hlacks => by
      obtain ⟨hl, he⟩ := (Bool.and_eq_true _ _).mp hsettled
      have hlacksl := hlacks.child (c := l) (by simp [Node.children])
      have hlackse := hlacks.child (c := e) (by simp [Node.children])
      unfold Renaming.tree evaluate
      refine opening_abreast hf _ _ fun _ f g hf => ?_
      refine (evaluate_abreast hnew henter inFunction hf l hl hlacksl).bind fun _ hle v v' hv => ?_
      refine (evaluate_abreast hnew henter inFunction (hf.mono hle) e he hlackse).bind ?_
      intro _ hle w w' hw
      rw [combine_like op (hv.mono hle) hw]
      exact operated_abreast _ fun _ => like_of_combine
  | .unary m op e, hsettled, hlacks => by
      have hlackse := hlacks.child (c := e) (by simp [Node.children])
      unfold Renaming.tree evaluate
      refine opening_abreast hf _ _ fun _ f g hf => ?_
      refine (evaluate_abreast hnew henter inFunction hf e hsettled hlackse).bind ?_
      intro _ _ v v' hv
      rw [convert_like op hv]
      exact operated_abreast _ fun _ => like_of_convert
  | .call m callee args, hsettled, hlacks => by
      obtain ⟨hcallee, hargs⟩ := (Bool.and_eq_true _ _).mp hsettled
      have hname := (hlacks.child (c := .identifier callee) (by simp [Node.children])).name_ne
      have hlacksargs (n : Node) (hn : n ∈ args) : n.Lacks r.new :=
        hlacks.child (by simp [Node.children, hn])
      unfold Renaming.tree evaluate
      refine opening_abreast hf _ _ fun _ f g hf => ?_
      dsimp only
      rw [← hf.scope]
      have hreads := readsCallee_callee hf.sight hf.calls hname hcallee
      refine (closure?_abreast hnew hreads).bind fun _ hle c c' hc => ?_
      -- Both runs call functions of the script, or both turn to the library for the same entry.
      obtain ⟨hc, hlibrary⟩ := hc
      cases hc with
      | some hc =>
          refine (evaluateAll_abreast hnew henter inFunction (hf.mono hle) args hargs
            hlacksargs).bind fun _ hle' vs ws hvs => ?_
          exact henter _ _ _ _ _ _ _ (hf.mono (hle.trans hle')).hole (hc.mono hle') hvs
      | none =>
          refine (libraryEntry_abreast (hlibrary rfl)).bind fun _ hle' entry _ hentry => ?_
          subst hentry
          refine (evaluateAll_abreast hnew henter inFunction (hf.mono (hle.trans hle')) args hargs
            hlacksargs).bind fun _ _ vs ws hvs => ?_
          exact callLibrary_abreast entry _ _ m hvs
  | .array m es, hsettled, hlacks => by
      have hlackses (n : Node) (hn : n ∈ es) : n.Lacks r.new :=
        hlacks.child (by simp [Node.children, hn])
      unfold Renaming.tree evaluate
      refine opening_abreast hf _ _ fun _ f g hf => ?_
      refine (evaluateAll_abreast hnew henter inFunction hf es hsettled hlackses).bind ?_
      exact fun _ _ vs ws hvs => abreast_pure (.mk (.array hvs))
  | .object m ps, hsettled, hlacks => by
      have hlacksps (n : Node) (hn : n ∈ ps) : n.Lacks r.new :=
        hlacks.child (by simp [Node.children, hn])
      unfold Renaming.tree evaluate
      refine opening_abreast hf _ _ fun _ f g hf => ?_
      refine (evaluateEntries_abreast hnew henter inFunction hf ps hsettled hlacksps).bind ?_
      exact fun _ _ es fs hes => abreast_pure (.mk (.host (.record (collectEntries_like hes))))
  | .member m e label, hsettled, hlacks => by
      have hlackse := hlacks.child (c := e) (by simp [Node.children])
      unfold Renaming.tree evaluate
      refine opening_abreast hf _ _ fun _ f g hf => ?_
      refine (evaluate_abreast hnew henter inFunction hf e hsettled hlackse).bind ?_
      exact fun _ _ v v' hv => member_abreast m hv _ _
  | .index m e key, hsettled, hlacks => by
      obtain ⟨he, hkey⟩ := (Bool.and_eq_true _ _).mp hsettled
      have hlackse := hlacks.child (c := e) (by simp [Node.children])
      have hlackskey := hlacks.child (c := key) (by simp [Node.children])
      unfold Renaming.tree evaluate
      refine opening_abreast hf _ _ fun _ f g hf => ?_
      refine (evaluate_abreast hnew henter inFunction hf e he hlackse).bind fun _ hle v v' hv => ?_
      refine (evaluate_abreast hnew henter inFunction (hf.mono hle) key hkey hlackskey).bind ?_
      intro _ hle w w' hw
      rw [memberKey_like hw, Renaming.span_tree]
      refine (memberKey_abreast w' _).bind fun _ hle' k _ hk => ?_
      subst hk
      exact member_abreast m (hv.mono (hle.trans hle')) _ _
  | .pipe m [], _, _ => by
      simp only [Renaming.tree, Renaming.trees]
      unfold evaluate
      exact opening_abreast hf _ _ fun _ f g hf => abreast_throw _ _
  | .pipe m (first :: more), hsettled, hlacks => by
      obtain ⟨hfirst, hmore⟩ := (Bool.and_eq_true _ _).mp hsettled
      have hlacksfirst := hlacks.child (c := first) (by simp [Node.children])
      have hlacksmore (n : Node) (hn : n ∈ more) : n.Lacks r.new :=
        hlacks.child (by simp [Node.children, hn])
      simp only [Renaming.tree, Renaming.trees]
      unfold evaluate
      refine opening_abreast hf _ _ fun _ f g hf => ?_
      refine (evaluate_abreast hnew henter inFunction hf first hfirst hlacksfirst).bind ?_
      intro _ hle v v' hv
      exact evaluateStages_abreast hnew henter inFunction (hf.mono hle) more hmore hlacksmore hv
  | .hole m, _, _ => by
      unfold Renaming.tree evaluate
      refine opening_abreast hf _ _ fun _ f g hf => ?_
      have hhole := hf.hole
      dsimp only
      generalize f.hole = x at hhole
      generalize g.hole = y at hhole
      cases hhole with
      | none => exact abreast_mismatch _ _ _ _
      | some hv => exact abreast_pure hv
  | .function m params body, hsettled, hlacks => by
      unfold Renaming.tree evaluate
      refine opening_abreast hf _ _ fun _ f g hf => ?_
      refine abreast_pure (.mk (.function ?_))
      refine ⟨rfl, hf.scope.symm, hlacks.function, σ, calls, Outlook.grants_of_sight hf.sight,
        hf.calls, hsettled, ?_⟩
      rw [Sight.hides_inside]
  | .program .., _, _ | .declaration .., _, _ | .statement .., _, _ | .giveBack .., _, _
  | .property .., _, _ => by
      unfold Renaming.tree evaluate
      exact opening_abreast hf _ _ fun _ f g hf => abreast_mismatch _ _ _ _

theorem evaluateAll_abreast (hnew : p.library.find? r.new = none)
    (henter : EntersAbreast r p.library enter enter') (inFunction : Bool) {o : Outlook} {f g : Frame}
    (hf : f.Renamed r o calls σ g) : (ns : List Node) → r.settledAll calls σ ns = true →
    (∀ n ∈ ns, n.Lacks r.new) →
      Abreast r p.library none o (Value.RenamedAll r) (evaluateAll p enter f ns)
        (evaluateAll p enter' g (r.trees inFunction σ.hides ns))
  | [], _, _ => by
      unfold Renaming.trees evaluateAll
      exact abreast_pure .nil
  | n :: rest, hsettled, hlacks => by
      obtain ⟨hn, hrest⟩ := (Bool.and_eq_true _ _).mp hsettled
      obtain ⟨hlacksn, hlacks⟩ := List.forall_mem_cons.1 hlacks
      unfold Renaming.trees evaluateAll
      refine (evaluate_abreast hnew henter inFunction hf n hn hlacksn).bind fun _ hle v v' hv => ?_
      refine (evaluateAll_abreast hnew henter inFunction (hf.mono hle) rest hrest hlacks).bind ?_
      exact fun _ hle vs ws hvs => abreast_pure (.cons (hv.mono hle) hvs)

theorem evaluateEntries_abreast (hnew : p.library.find? r.new = none)
    (henter : EntersAbreast r p.library enter enter') (inFunction : Bool) {o : Outlook} {f g : Frame}
    (hf : f.Renamed r o calls σ g) : (ns : List Node) → r.settledAll calls σ ns = true →
    (∀ n ∈ ns, n.Lacks r.new) →
      Abreast r p.library none o (fun o => Host.LikeEntries (Closure.Renamed r o))
        (evaluateEntries p enter f ns)
        (evaluateEntries p enter' g (r.trees inFunction σ.hides ns))
  | [], _, _ => by
      unfold Renaming.trees evaluateEntries
      exact abreast_pure .nil
  | .property m key e :: rest, hsettled, hlacks => by
      obtain ⟨he, hrest⟩ := (Bool.and_eq_true _ _).mp hsettled
      obtain ⟨hlacksn, hlacks⟩ := List.forall_mem_cons.1 hlacks
      have hlackse := hlacksn.child (c := e) (by simp [Node.children])
      simp only [Renaming.trees, Renaming.tree]
      unfold evaluateEntries
      refine (evaluate_abreast hnew henter inFunction hf e he hlackse).bind fun _ hle v v' hv => ?_
      refine (evaluateEntries_abreast hnew henter inFunction (hf.mono hle) rest hrest hlacks).bind ?_
      exact fun _ hle es fs hes => abreast_pure (.cons (.value (hv.mono hle)) hes)
  | .program .. :: _, _, _ | .declaration .. :: _, _, _ | .statement .. :: _, _, _
  | .giveBack .. :: _, _, _ | .literal .. :: _, _, _ | .identifier .. :: _, _, _
  | .binary .. :: _, _, _ | .unary .. :: _, _, _ | .call .. :: _, _, _ | .array .. :: _, _, _
  | .object .. :: _, _, _ | .member .. :: _, _, _ | .index .. :: _, _, _ | .pipe .. :: _, _, _
  | .hole .. :: _, _, _ | .function .. :: _, _, _ => by
      simp only [Renaming.trees, Renaming.tree]
      exact abreast_throw _ _

theorem evaluateStages_abreast (hnew : p.library.find? r.new = none)
    (henter : EntersAbreast r p.library enter enter') (inFunction : Bool) {o : Outlook} {f g : Frame}
    (hf : f.Renamed r o calls σ g) : (ns : List Node) → r.settledAll calls σ ns = true →
    (∀ n ∈ ns, n.Lacks r.new) → {v v' : Value} → v.Renamed r o v' →
      Abreast r p.library none o (Value.Renamed r) (evaluateStages p enter f ns v)
        (evaluateStages p enter' g (r.trees inFunction σ.hides ns) v')
  | [], _, _, _, _, hv => by
      unfold Renaming.trees evaluateStages
      exact abreast_pure hv
  | stage :: rest, hsettled, hlacks, v, v', hv => by
      obtain ⟨hstage, hrest⟩ := (Bool.and_eq_true _ _).mp hsettled
      obtain ⟨hlacksstage, hlacks⟩ := List.forall_mem_cons.1 hlacks
      unfold Renaming.trees evaluateStages
      have hinside : Frame.Renamed r o calls σ { f with hole := some v } { g with hole := some v' } :=
        ⟨hf.scope, hf.sight, hf.calls, .some hv, hf.room⟩
      refine (evaluate_abreast hnew henter inFunction hinside stage hstage hlacksstage).bind ?_
      intro _ hle w w' hw
      exact evaluateStages_abreast hnew henter inFunction (hf.mono hle) rest hrest hlacks hw

end

/-! ### Functions of the script -/

/-- Binding a name in the scope of a function. The old name is hidden from then on. -/
theorem define_abreast {library : Library} {id : Nat} (hid : id ≠ 0) (hσ : o.sight id = some σ)
    {name : String} (hnew : name ≠ r.new) (hclear : name = r.old → σ ≠ .clear) {v v' : Value}
    (hv : v.Renamed r o v') (span span' : Span) :
    Abreast r library (some id) o
      (fun o' _ _ => o'.sight id = some (if name = r.old then .hidden else σ))
      (define id name v span) (define id name v' span') := by
  intro w u hw
  have hlocal := hw.store.isLocal id hnew
  rw [show boundName r id name = name from if_neg fun hboth => hid hboth.1] at hlocal
  rw [run_define, run_define, ← hlocal]
  split
  · exact ⟨o, .refl _ o, hw, .stop⟩
  · by_cases hold : name = r.old
    · subst hold
      have hle := Outlook.le_hide hσ (hclear rfl)
      have hstore := hw.store.bind_hiding hid hσ (hclear rfl) hnew hv
      refine ⟨o.hide id, hle, ⟨hw.steps, hw.sent, hw.shown.mono hle, hstore⟩, .ok ?_⟩
      rw [if_pos rfl]
      exact if_pos rfl
    · have hstore := hw.store.bind_other hσ hnew hold hv
      refine ⟨o, .refl _ o, ⟨hw.steps, hw.sent, hw.shown, hstore⟩, .ok ?_⟩
      rw [if_neg hold]
      exact hσ

/-- A statement of a function. Its scope is not the root, and in a function that never declares the name
it does not declare it. -/
theorem execute_abreast (hnew : p.library.find? r.new = none)
    (henter : EntersAbreast r p.library enter enter') (hf : f.Renamed r o calls σ g)
    (hid : f.scope ≠ 0) {n : Node} (hclear : n.declares r.old = true → σ ≠ .clear)
    (hsettled : r.settled calls σ n = true) (hlacks : n.Lacks r.new) :
    Abreast r p.library (some f.scope) o
      (fun o' a b => o'.sight f.scope = some (σ.after r n) ∧ Option.Rel (Value.Renamed r o') a b)
      (execute p enter f n) (execute p enter' g (r.tree true σ.hides n)) := by
  cases n with
  | declaration m word i e =>
      have hname := (hlacks.child (c := .identifier i) (by simp [Node.children])).name_ne
      have hlackse := hlacks.child (c := e) (by simp [Node.children])
      have hdeclares : (Node.declaration m word i e).declares r.old = (i.name == r.old) := rfl
      rw [hdeclares, beq_iff_eq] at hclear
      have hafter : σ.after r (.declaration m word i e) =
          if i.name = r.old then Sight.hidden else σ := by
        simp only [Sight.after, hdeclares, beq_iff_eq]
      unfold Renaming.tree execute
      refine (step_abreast _ _).bind_any fun _ hle _ _ _ => ?_
      refine (evaluate_abreast hnew henter true (hf.mono hle) e hsettled hlackse).bind_any ?_
      intro _ hle' v v' hv
      -- Evaluating has hidden nothing; only the binding does.
      have hσ := ((hf.mono hle).mono hle').sight
      rw [← hf.scope, hafter]
      refine (define_abreast hid hσ hname hclear hv _ _).bind fun o' hle _ _ hsight => ?_
      exact abreast_pure ⟨hsight, .none⟩
  | statement m e =>
      have hlackse := hlacks.child (c := e) (by simp [Node.children])
      unfold Renaming.tree execute
      refine (step_abreast _ _).bind_any fun _ hle _ _ _ => ?_
      refine (evaluate_abreast hnew henter true (hf.mono hle) e hsettled hlackse).bind_any ?_
      intro _ hle' v v' hv
      exact abreast_pure ⟨((hf.mono hle).mono hle').sight, .some hv⟩
  | _ =>
      unfold Renaming.tree execute
      exact (step_abreast _ _).bind_any fun _ hle _ _ _ => abreast_mismatch _ _ _ _

/-- The statements of a function. -/
theorem runBody_abreast (hnew : p.library.find? r.new = none)
    (henter : EntersAbreast r p.library enter enter') (hid : f.scope ≠ 0) {ns : List Node}
    (hf : f.Renamed r o calls σ g) (hclear : σ = .clear → ∀ n ∈ ns, n.declares r.old = false)
    (hsettled : r.settledBody calls σ ns = true) (hlacks : ∀ n ∈ ns, n.Lacks r.new)
    {last last' : Option Value} (hlast : Option.Rel (Value.Renamed r o) last last') :
    Abreast r p.library (some f.scope) o (fun o' => Option.Rel (Value.Renamed r o'))
      (runBody p enter f ns last) (runBody p enter' g (r.bodyOf true σ.hides ns) last') := by
  induction ns generalizing σ o last last' with
  | nil => exact abreast_pure hlast
  | cons n ns ih =>
      obtain ⟨hn, hrest⟩ := (Bool.and_eq_true _ _).mp hsettled
      obtain ⟨hlacksn, hlacks⟩ := List.forall_mem_cons.1 hlacks
      have hhides : (σ.hides || (true && n.declares r.old)) = (σ.after r n).hides := by
        rw [Bool.true_and, Sight.hides_after]
      have hdeclares (hdeclares : n.declares r.old = true) : σ ≠ .clear := fun hσ => by
        rw [hclear hσ n List.mem_cons_self] at hdeclares
        cases hdeclares
      -- A `return` ends the function; any other statement is followed by the rest.
      have hnext : Abreast r p.library (some f.scope) o (fun o' => Option.Rel (Value.Renamed r o'))
          (execute p enter f n >>= runBody p enter f ns)
          (execute p enter' g (r.tree true σ.hides n) >>=
            runBody p enter' g (r.bodyOf true (σ.after r n).hides ns)) := by
        refine (execute_abreast hnew henter hf hid hdeclares hn hlacksn).bind ?_
        intro o' hle a b hab
        have hframe : f.Renamed r o' calls (σ.after r n) g :=
          ⟨hf.scope, hab.1, fun hc => hle.calls (hf.calls hc),
            rel_mono (fun _ _ => .mono hle) hf.hole, hf.room⟩
        refine ih hframe (fun hσ m hm => ?_) hrest hlacks hab.2
        refine hclear ?_ m (List.mem_cons_of_mem _ hm)
        unfold Sight.after at hσ
        split at hσ
        · cases hσ
        · exact hσ
      rw [Renaming.bodyOf, hhides]
      cases n with
      | giveBack m e =>
          have hlackse := hlacksn.child (c := e) (by simp [Node.children])
          rw [Renaming.tree]
          refine (step_abreast _ _).bind_any fun _ hle _ _ _ => ?_
          refine (evaluate_abreast hnew henter true (hf.mono hle) e hn hlackse).bind_any ?_
          exact fun _ _ v v' hv => abreast_pure (.some hv)
      | _ =>
          rw [Renaming.tree] at hnext ⊢
          exact hnext

/-- The parameters of a function. -/
theorem bindParams_abreast {library : Library} {id : Nat} (hid : id ≠ 0) {params : List Ident}
    (hlacks : ∀ i ∈ params, i.name ≠ r.new) (hσ : o.sight id = some σ)
    (hclear : params.any (·.name == r.old) = true → σ ≠ .clear) {args args' : List Value}
    (hlength : args.length = params.length) (hargs : Value.RenamedAll r o args args') :
    Abreast r library (some id) o
      (fun o' _ _ => o'.sight id = some (if params.any (·.name == r.old) then .hidden else σ))
      (bindParams id params args) (bindParams id params args') := by
  induction params generalizing args args' o σ with
  | nil =>
      cases hargs with
      | nil => exact abreast_pure hσ
      | cons => cases hlength
  | cons i params ih =>
      obtain ⟨hi, hlacks⟩ := List.forall_mem_cons.1 hlacks
      cases hargs with
      | nil => cases hlength
      | cons hv hargs =>
          -- A parameter by the old name hides it, and the others leave the sight as it is.
          have hold (h : i.name = r.old) : σ ≠ .clear := hclear (by simp [h])
          refine (define_abreast hid hσ hi hold hv _ _).bind fun o' hle _ _ hsight => ?_
          have hlater (h : params.any (·.name == r.old) = true) :
              (if i.name = r.old then Sight.hidden else σ) ≠ .clear := by
            split
            · exact Sight.noConfusion
            · exact hclear (by simp [h])
          have hparams := ih hlacks hsight hlater (Nat.succ.inj hlength) (Value.RenamedAll.mono hle hargs)
          have hboth : (if params.any (·.name == r.old) then Sight.hidden
              else if i.name = r.old then .hidden else σ) =
              if (i :: params).any (·.name == r.old) then .hidden else σ := by
            simp only [List.any_cons, Bool.or_eq_true, beq_iff_eq]
            split <;> split <;> simp_all
          rw [hboth] at hparams
          exact hparams

/-- The sight in the scope of a function before its parameters are bound. -/
def startSight (r : Renaming) (c : Closure) (σ : Sight) : Sight :=
  if c.params.any (·.name == r.old) then .unsettled else σ.inside r c.params c.body

/-- Once the parameters are bound the sight is that at the beginning of the function. -/
theorem startSight_bound (r : Renaming) (c : Closure) (σ : Sight) :
    (if c.params.any (·.name == r.old) then Sight.hidden else startSight r c σ) =
      σ.inside r c.params c.body := by
  unfold startSight
  split
  · next h => rw [Sight.inside, h, Bool.or_true, if_pos rfl]
  · rfl

/-- A new scope of a function bears out the sight it starts with. -/
theorem stands_start {library : Library} {id : Nat} {c : Closure} (hgrants : o.Grants c.scope σ)
    (hlt : c.scope < id) (name : String) :
    Scope.Stands r library (o.opened id (startSight r c σ)) ⟨some c.scope, name, []⟩ id := by
  have hid : id ≠ 0 := Nat.ne_of_gt (Nat.zero_lt_of_lt hlt)
  have hself : (o.opened id (startSight r c σ)).sight id = some (startSight r c σ) := if_pos rfl
  have hother : (o.opened id (startSight r c σ)).sight c.scope = o.sight c.scope :=
    if_neg (Nat.ne_of_lt hlt)
  cases hparams : c.params.any (·.name == r.old) with
  | true => exact .unsettled hid (hself.trans (by simp [startSight, hparams]))
  | false =>
      have hstart : startSight r c σ = σ.inside r c.params c.body := by simp [startSight, hparams]
      rw [hstart] at hself hother ⊢
      cases σ with
      | hidden =>
          refine .shaded hid (hself.trans ?_) rfl (hother.trans hgrants)
          simp [Sight.inside, Sight.hides]
      | clear =>
          refine .below ?_ rfl hlt (hother.trans hgrants) rfl
          rw [hself]
          cases hbody : c.body.any (·.declares r.old) <;>
            simp [Sight.inside, Sight.hides, hparams, hbody]
      | passing | unsettled =>
          refine .unsettled hid (hself.trans ?_)
          simp [Sight.inside, Sight.hides, hparams]

/-- A new scope is opened in the same place of both stores. What is done in it is seen from outside as
if no scope had come to hide the name. -/
theorem openScope_abreast {α β : Type} {library : Library} {rel : Outlook → α → β → Prop}
    {c : Closure} (hgrants : o.Grants c.scope σ) (name name' : String) {k : Nat → Eval α}
    {k' : Nat → Eval β}
    (h : ∀ id, id ≠ 0 → o.Le none (o.opened id (startSight r c σ)) →
      Abreast r library (some id) (o.opened id (startSight r c σ)) rel (k id) (k' id)) :
    Abreast r library none o rel (openScope c.scope name >>= k) (openScope c.scope name' >>= k') := by
  intro w v hw
  have hrun (name : String) (w : World) : (openScope c.scope name).run w =
      (.ok w.store.scopes.size, { w with store := (w.store.openChild c.scope name).1 }) := rfl
  obtain ⟨τ, hτ⟩ : ∃ τ, o.sight c.scope = some τ := by
    cases σ with
    | clear | hidden => exact ⟨_, hgrants⟩
    | passing | unsettled => exact hgrants
  have hlt : c.scope < w.store.scopes.size := by
    obtain ⟨a, -, ha, -⟩ := hw.store.exists_scope hτ
    exact scope?_lt ha
  have hfresh := hw.store.fresh _ (Nat.le_refl _)
  have hle := Outlook.le_opened hfresh (startSight r c σ)
  have hopened : World.Renamed r library (o.opened w.store.scopes.size (startSight r c σ))
      { w with store := (w.store.openChild c.scope name).1 }
      { v with store := (v.store.openChild c.scope name').1 } :=
    ⟨hw.steps, hw.sent, hw.shown.mono hle,
      hw.store.openChild c.scope name name' (stands_start hgrants hlt name)⟩
  rw [run_bind_ok k (hrun name w), run_bind_ok k' (hrun name' v), ← hw.store.size]
  obtain ⟨o', hle', hworld, hends⟩ := h _ (Nat.ne_of_gt (Nat.zero_lt_of_lt hlt)) hle _ _ hopened
  -- Only the new scope may have come to hide the name, and nothing was known of it before.
  refine ⟨o', ⟨fun id ρ hρ => .inl ?_, fun hc => hle'.calls (hle.calls hc)⟩, hworld, hends⟩
  rcases hle'.sight id ρ (hle.same hρ) with hsame | ⟨hown, -⟩
  · exact hsame
  · rw [← Option.some.inj hown, hfresh] at hρ
    cases hρ

theorem enterScope_abreast (hnew : p.library.find? r.new = none)
    (henter : EntersAbreast r p.library enter enter') {inv inv' : Invocation} {c c' : Closure}
    {args args' : List Value} (hhole : Option.Rel (Value.Renamed r o) inv.hole inv'.hole)
    (hc : c.Renamed r o c') (hargs : Value.RenamedAll r o args args')
    (hlength : args.length = c.params.length) :
    Abreast r p.library none o (Value.Renamed r) (enterScope p enter inv c args)
      (enterScope p enter' inv' c' args') := by
  obtain ⟨σ, calls, hgrants, hcalls, hsettled, hbody⟩ := hc.body
  unfold enterScope
  rw [hc.scope, hc.params, hbody]
  refine openScope_abreast hgrants _ _ fun id hid hle => ?_
  have hstart : (o.opened id (startSight r c σ)).sight id = some (startSight r c σ) := if_pos rfl
  have hclear (h : c.params.any (·.name == r.old) = true) : startSight r c σ ≠ .clear := by
    simp [startSight, h]
  refine (bindParams_abreast hid hc.lacks.1 hstart hclear hlength
    (Value.RenamedAll.mono hle hargs)).bind fun o' hle' _ _ hsight => ?_
  -- The body runs under the sight that it was renamed by.
  rw [startSight_bound] at hsight
  have hframe : Frame.Renamed r o' calls (σ.inside r c.params c.body)
      ⟨id, inv.hole, p.limits.nesting⟩ ⟨id, inv'.hole, p.limits.nesting⟩ :=
    ⟨rfl, hsight, fun h => hle'.calls (hle.calls (hcalls h)),
      rel_mono (fun _ _ h => (Value.Renamed.mono hle h).mono hle') hhole, rfl⟩
  refine (runBody_abreast hnew henter hid hframe Sight.declares_of_inside_eq_clear hsettled
    hc.lacks.2 .none).bind fun _ _ result result' hresult => ?_
  cases hresult with
  | none => exact abreast_mismatch _ _ _ _
  | some hv => exact abreast_pure (hv.withTrail _ _)

/-- Calls of functions that correspond go abreast, however many more may be nested. -/
theorem entersAbreast_call (hnew : p.library.find? r.new = none) (left : Nat) :
    EntersAbreast r p.library (call p left) (call p left) := by
  induction left with
  | zero =>
      intro o inv inv' c c' args args' hhole hc hargs
      simp only [call]
      rw [hargs.length_eq, hc.params]
      split
      · exact abreast_throw_bind _ _ _ _
      · exact abreast_throw _ _
  | succ left ih =>
      intro o inv inv' c c' args args' hhole hc hargs
      simp only [call]
      rw [← hargs.length_eq, hc.params]
      split
      · exact abreast_throw_bind _ _ _ _
      · next hlength =>
        exact enterScope_abreast hnew ih hhole hc hargs (Decidable.not_not.1 hlength)

/-! ### Statements of the script -/

/-- Binding a name in the root, where the second run binds the new name in place of the old one. -/
theorem define_root_abreast {library : Library} (hσ : o.sight 0 = some .clear) {name : String}
    (hnew : name ≠ r.new) (hdeclared : name = r.old → r.declared = true) {v v' : Value}
    (hle : o.calls = true → calls = true)
    (hcalls : calls = true → o.calls = true ∨ name = r.old ∧ ∃ c trail, v = .mk (.function c) trail)
    (hv : v.Renamed r { o with calls := calls } v') (span span' : Span) :
    Abreast r library none o (fun o' _ _ => calls = true → o'.calls = true)
      (define 0 name v span) (define 0 (boundName r 0 name) v' span') := by
  intro w u hw
  have hlocal := hw.store.isLocal 0 hnew
  have hlater : o.Le none { o with calls := calls } := ⟨fun _ _ h => .inl h, hle⟩
  rw [run_define, run_define, ← hlocal]
  split
  · exact ⟨o, .refl _ o, hw, .stop⟩
  · next hfree =>
    by_cases hold : name = r.old
    · subst hold
      have hstore := hw.store.bind_script (hdeclared rfl) hσ hnew (Bool.eq_false_iff.2 hfree) hle
        (fun hc => (hcalls hc).imp_right And.right) hv
      rw [show boundName r 0 r.old = r.new from if_pos ⟨rfl, rfl⟩]
      exact ⟨_, hlater, ⟨hw.steps, hw.sent, hw.shown.mono hlater, hstore⟩, .ok fun hc => hc⟩
    · obtain rfl : calls = o.calls :=
        Bool.eq_iff_iff.2 ⟨fun hc => (hcalls hc).resolve_right fun h => hold h.1, hle⟩
      have hstore := hw.store.bind_other hσ hnew hold hv
      rw [show boundName r 0 name = name from if_neg fun hboth => hold hboth.2]
      exact ⟨o, .refl _ o, ⟨hw.steps, hw.sent, hw.shown, hstore⟩, .ok fun hc => hc⟩

theorem name_ident_root (r : Renaming) (i : Ident) :
    (r.ident false i).name = boundName r 0 i.name := by
  by_cases hold : i.name = r.old
  · rw [Renaming.name_ident hold, boundName, if_pos ⟨rfl, hold⟩]
  · rw [Renaming.ident_of_ne hold, boundName, if_neg fun hboth => hold hboth.2]

/-- What a declaration of the script binds. A function that the old name is bound to may call itself by
it, since it is not called before it is bound. -/
theorem evaluate_init_abreast (hnew : p.library.find? r.new = none)
    (henter : EntersAbreast r p.library enter enter') (hf : f.Renamed r o calls .clear g) {m : Mark}
    {word : Declarator} {i : Ident} {e : Node} {b : Bool}
    (hb : r.bindsFunction (.declaration m word i e) = b)
    (hsettled : r.settled (calls || b) .clear e = true) (hlacks : e.Lacks r.new) :
    Abreast r p.library none o
      (fun o' v v' => v.Renamed r { o' with calls := o'.calls || b } v' ∧
        (b = true → i.name = r.old ∧ ∃ c trail, v = .mk (.function c) trail))
      (evaluate p enter f e) (evaluate p enter' g (r.tree false false e)) := by
  cases b with
  | false =>
      rw [Bool.or_false] at hsettled
      refine (evaluate_abreast hnew henter false hf e hsettled hlacks).imp fun o' v v' hv => ?_
      rw [Bool.or_false]
      exact ⟨hv, fun hfalse => absurd hfalse Bool.false_ne_true⟩
  | true =>
      cases e with
      | function m params body =>
          rw [Bool.or_true] at hsettled
          have hname : i.name = r.old := beq_iff_eq.1 hb
          unfold Renaming.tree evaluate
          refine opening_abreast hf _ _ fun o' f g hf => ?_
          refine abreast_pure ⟨.mk (.function ?_), fun _ => ⟨hname, _, _, rfl⟩⟩
          refine ⟨rfl, hf.scope.symm, hlacks.function, .clear, true, hf.sight,
            fun _ => Bool.or_true _, hsettled, ?_⟩
          rw [Sight.hides_inside]
          rfl
      | _ => cases hb

/-- A statement of the script. If it binds the name to a function, the binding may be called from then
on. -/
theorem execute_script_abreast (hnew : p.library.find? r.new = none)
    (henter : EntersAbreast r p.library enter enter') (hf : f.Renamed r o calls .clear g)
    (hroot : f.scope = 0) {n : Node} (hdeclared : n.declares r.old = true → r.declared = true)
    (hsettled : r.settled (calls || r.bindsFunction n) .clear n = true) (hlacks : n.Lacks r.new) :
    Abreast r p.library none o
      (fun o' a b => ((calls || r.bindsFunction n) = true → o'.calls = true) ∧
        Option.Rel (Value.Renamed r o') a b)
      (execute p enter f n) (execute p enter' g (r.tree false false n)) := by
  cases n with
  | declaration m word i e =>
      have hname := (hlacks.child (c := .identifier i) (by simp [Node.children])).name_ne
      have hlackse := hlacks.child (c := e) (by simp [Node.children])
      generalize hb : r.bindsFunction (.declaration m word i e) = b at hsettled ⊢
      unfold Renaming.tree execute
      refine (step_abreast _ _).bind fun _ hle _ _ _ => ?_
      have hf₁ := hf.mono hle
      refine (evaluate_init_abreast hnew henter hf₁ hb hsettled hlackse).bind ?_
      intro o' hle' v v' hv
      have hf₂ := hf₁.mono hle'
      obtain ⟨hv, hfunction⟩ := hv
      have hsight : o'.sight 0 = some .clear := hroot ▸ hf₂.sight
      have hcalls (hc : (o'.calls || b) = true) : o'.calls = true ∨
          i.name = r.old ∧ ∃ c trail, v = .mk (.function c) trail :=
        ((Bool.or_eq_true _ _).mp hc).imp_right hfunction
      rw [← hf.scope, hroot, if_neg Bool.false_ne_true, name_ident_root]
      refine (define_root_abreast hsight hname (fun hold => hdeclared (beq_iff_eq.2 hold))
        (fun hc => by rw [hc, Bool.true_or]) hcalls hv _ _).bind fun o'' hle'' _ _ hlater => ?_
      refine abreast_pure ⟨fun hc => hlater ?_, .none⟩
      rcases (Bool.or_eq_true _ _).mp hc with hc | hc
      · rw [hf₂.calls hc, Bool.true_or]
      · rw [hc, Bool.or_true]
  | statement m e =>
      have hlackse := hlacks.child (c := e) (by simp [Node.children])
      have hb : (calls || r.bindsFunction (.statement m e)) = calls := Bool.or_false _
      rw [hb] at hsettled ⊢
      unfold Renaming.tree execute
      refine (step_abreast _ _).bind fun _ hle _ _ _ => ?_
      refine (evaluate_abreast hnew henter false (hf.mono hle) e hsettled hlackse).bind ?_
      intro _ hle' v v' hv
      exact abreast_pure ⟨((hf.mono hle).mono hle').calls, .some hv⟩
  | _ =>
      unfold Renaming.tree execute
      exact (step_abreast _ _).bind fun _ _ _ _ _ => abreast_mismatch _ _ _ _

/-- Blaming nesting that is too deep on a statement does not make a stop a success. -/
theorem abreast_blame {α β : Type} {library : Library} {own : Option Nat}
    {rel : Outlook → α → β → Prop} {x : Eval α} {y : Eval β} (h : Abreast r library own o rel x y)
    (span span' : Span) :
    Abreast r library own o rel
      (tryCatch x fun
        | .tooDeep => throw (.wrong (.exhausted .nesting) span)
        | stop => throw stop)
      (tryCatch y fun
        | .tooDeep => throw (.wrong (.exhausted .nesting) span')
        | stop => throw stop) := by
  intro w v hw
  obtain ⟨o', hle, hworld, hends⟩ := h w v hw
  cases hx : x.run w with
  | mk result w' =>
      cases hy : y.run v with
      | mk result' v' =>
          rw [hx, hy] at hworld hends
          cases hends with
          | ok hab =>
              rw [run_tryCatch_ok hx, run_tryCatch_ok hy]
              exact ⟨o', hle, hworld, .ok hab⟩
          | @stop s s' =>
              rw [run_tryCatch_error hx, run_tryCatch_error hy]
              cases s <;> cases s' <;> exact ⟨o', hle, hworld, .stop⟩

/-- The statements of a script whose references are settled, and those of the renamed one. -/
theorem runScript_abreast (hnew : p.library.find? r.new = none) {ns : List Node}
    (hdeclared : ∀ n ∈ ns, n.declares r.old = true → r.declared = true)
    (hsettled : r.settledScript calls ns = true) (hlacks : ∀ n ∈ ns, n.Lacks r.new)
    (hσ : o.sight 0 = some .clear) (hcalls : calls = true → o.calls = true)
    {last last' : Option Value} (hlast : Option.Rel (Value.Renamed r o) last last') :
    Abreast r p.library none o (fun o' => Option.Rel (Value.Renamed r o')) (runScript p 0 ns last)
      (runScript p 0 (r.bodyOf false false ns) last') := by
  induction ns generalizing calls o last last' with
  | nil => exact abreast_pure hlast
  | cons n ns ih =>
      obtain ⟨hn, hrest⟩ := (Bool.and_eq_true _ _).mp hsettled
      obtain ⟨hlacksn, hlacks⟩ := List.forall_mem_cons.1 hlacks
      obtain ⟨hdeclaredn, hdeclared⟩ := List.forall_mem_cons.1 hdeclared
      have hf : Frame.Renamed r o calls .clear ⟨0, none, p.limits.nesting⟩
          ⟨0, none, p.limits.nesting⟩ := ⟨rfl, hσ, hcalls, .none, rfl⟩
      rw [Renaming.bodyOf, Bool.false_and, Bool.or_false, runScript, runScript]
      refine (abreast_blame (execute_script_abreast hnew (entersAbreast_call hnew _) hf rfl hdeclaredn
        hn hlacksn) _ _).bind fun o' hle a b hab => ?_
      exact ih hdeclared hrest hlacks (hle.clear hσ) hab.1 hab.2

end PartScript.Pass
