import PartScript.Proofs.Pass.Budgets
import PartScript.Proofs.Scratch
import PartScript.Proofs.Scratch.Evaluate
import PartScript.Proofs.Store.Visible

/-!
Evaluation from scratch against evaluation on the spot. The copy of what a scope sees and an empty scope
inside that one have the same outlook, and functions look at the scopes they were made in, which are the same
for both. So the declaration of a result has the same value in both, or it fails for the same reason.
-/

namespace PartScript

/-! ### The copy of what a scope sees -/

namespace Store

variable {s : Store}

theorem Whole.snapshot (h : s.Whole) (id : Nat) : (s.snapshot id none).1.Whole where
  linked := h.linked.push nofun
  made := by
    have hparts : ∀ part ∈ (s.snapshot id none).1.parts, part ∈ s.parts :=
      fun _ hpart => @Scratch.mem_parts_of_snapshot s (some id) none _ hpart
    refine (h.made.subset hparts).mono ?_
    simp [Store.snapshot, push]

/-- The copy of what a scope sees has the same outlook as an empty scope inside that one. -/
theorem Whole.mirrors_snapshot (h : s.Whole) {id : Nat} (hid : id < s.scopes.size) (name : String) :
    (s.snapshot id none).1.Mirrors s.scopes.size (s.openChild id name).1 := by
  have hs := h.snapshot id
  have ht := h.linked.openChild hid name
  refine ⟨?_, fun place hplace => ?_, fun x => ?_, ?_, hs, ht⟩
  · simp [Store.snapshot, Store.openChild, push]
  · rw [Store.snapshot, Store.openChild, scope?_push_of_ne hplace, scope?_push_of_ne hplace]
  · have hparent : (s.openChild id name).1.get? id x = s.get? id x :=
      ht.get?_congr h.linked (fun place hle => scope?_push_of_ne (by omega)) x
    rw [hs.linked.get?_eq (scope?_push_self s _), ht.get?_eq (scope?_push_self s _),
      get?_visibleBindings, Option.bind_none, Option.or_none]
    show _ = (none : Option Value).or ((s.openChild id name).1.get? id x)
    rw [hparent, Option.none_or]
  · simp [Store.snapshot, push]

end Store

/-! ### The declaration of a result -/

namespace Pass

variable {p : Pass} {n : Nat} {m : Mark} {word : Declarator} {i : Ident} {init : Node}

theorem execute_declaration (p : Pass) (enter : Enter) (f : Frame) (m : Mark) (word : Declarator)
    (i : Ident) (init : Node) :
    execute p enter f (.declaration m word i init) =
      (p.step m.span >>= fun _ => evaluate p enter f init) >>= fun v =>
        define f.scope i.name v m.span >>= fun _ => pure none := by
  simp [execute, Node.span, Node.mark]

/-- A name that is not bound in the scope yet is bound to the value that was found. -/
theorem execute_declaration_ok {enter : Enter} {f : Frame} {w w' : World} {v : Value} {s : Scope}
    (hvalue : (p.step m.span >>= fun _ => evaluate p enter f init).run w = (.ok v, w'))
    (hs : w'.store.scope? f.scope = some s) (hfree : s.get? i.name = none) :
    (execute p enter f (.declaration m word i init)).run w =
      (.ok none, { w' with store := w'.store.bind f.scope i.name v }) := by
  have hlocal : w'.store.isLocal f.scope i.name = false := by
    rw [Store.isLocal, hs, Option.bind_some, hfree]
    rfl
  have hdefine : (define f.scope i.name v m.span).run w' =
      (.ok (), { w' with store := w'.store.bind f.scope i.name v }) := by
    rw [run_define, hlocal]
    rfl
  rw [execute_declaration, run_bind_ok _ hvalue, run_bind_ok _ hdefine]
  rfl

/-- Where no value is found nothing is bound. -/
theorem execute_declaration_error {enter : Enter} {f : Frame} {w w' : World} {stop : Stop}
    (hvalue : (p.step m.span >>= fun _ => evaluate p enter f init).run w = (.error stop, w')) :
    (execute p enter f (.declaration m word i init)).run w = (.error stop, w') := by
  rw [execute_declaration, run_bind_error _ hvalue]

theorem get?_bind_self {store : Store} {id : Nat} {s : Scope} {name : String}
    (hs : store.scope? id = some s) (hfree : s.get? name = none) (v : Value) :
    (store.bind id name v).get? id name = some v := by
  have hbound : (s.append [(name, v)]).get? name = some v := by
    rw [Scope.get?, Option.map_eq_none_iff] at hfree
    simp [Scope.get?, Scope.append, List.find?_append, hfree]
  simp [Store.get?, Store.view, Store.chain, Store.chainWithin, scope?_bind_self name v hs, hbound]

/-- A statement that stops for the same reason in two worlds ends a run for the same reason. -/
theorem runScript_singleton_error {e : Node} {stop : Stop} {w w' u u' : World}
    (hw : (execute p (p.call p.limits.calls) ⟨n, none, p.limits.nesting⟩ e).run w = (.error stop, w'))
    (hu : (execute p (p.call p.limits.calls) ⟨n, none, p.limits.nesting⟩ e).run u = (.error stop, u')) :
    ∃ stop', ((p.runScript n [e] none).run w).1 = .error stop' ∧
      ((p.runScript n [e] none).run u).1 = .error stop' := by
  obtain ⟨stop', hhandled⟩ : ∃ stop', ∀ {w w' : World},
      (execute p (p.call p.limits.calls) ⟨n, none, p.limits.nesting⟩ e).run w = (.error stop, w') →
        (p.runScript n [e] none).run w = (.error stop', w') := by
    cases stop with
    | tooDeep =>
        refine ⟨.wrong (.exhausted .nesting) e.span, fun h => ?_⟩
        rw [runScript, run_bind_error _ ((run_tryCatch_error h).trans rfl)]
    | wrong cause span =>
        refine ⟨.wrong cause span, fun h => ?_⟩
        rw [runScript, run_bind_error _ ((run_tryCatch_error h).trans rfl)]
    | fault f =>
        refine ⟨.fault f, fun h => ?_⟩
        rw [runScript, run_bind_error _ ((run_tryCatch_error h).trans rfl)]
  exact ⟨stop', by rw [hhandled hw], by rw [hhandled hu]⟩

/-- A declaration that is run in two worlds with the same outlook, in the scope in which they differ and where
neither binds the name yet, fails for the same reason or binds the name to the same value. -/
theorem run_declaration_mirrored {w u : World} (hw : World.Mirrors n w u) {s t : Scope}
    (hs : w.store.scope? n = some s) (ht : u.store.scope? n = some t)
    (hfree : s.get? i.name = none) (hfree' : t.get? i.name = none) :
    ((∃ stop, ((p.runScript n [.declaration m word i init] none).run w).1 = .error stop ∧
        ((p.runScript n [.declaration m word i init] none).run u).1 = .error stop)) ∨
    ∃ v, ((p.runScript n [.declaration m word i init] none).run w).1 = .ok none ∧
      ((p.runScript n [.declaration m word i init] none).run u).1 = .ok none ∧
      ((p.runScript n [.declaration m word i init] none).run w).2.store.get? n i.name = some v ∧
      ((p.runScript n [.declaration m word i init] none).run u).2.store.get? n i.name = some v := by
  have hframe : Frame.Within (n + 1) ⟨n, none, p.limits.nesting⟩ := ⟨Nat.lt_succ_self n, made_nil⟩
  have hfront := ((mirrored_step p m.span).bind fun _ hb _ _ =>
    mirrored_evaluate (p := p) (entersMirrored_call p p.limits.calls) init (hframe.mono hb)) w u hw
      hw.store.lt
  have hnone : WritesNone (p.step m.span >>= fun _ =>
      evaluate p (p.call p.limits.calls) ⟨n, none, p.limits.nesting⟩ init) :=
    WritesOnly.bind (writesNone_step _ _) fun _ =>
      writesNone_evaluate (entersCleanly_call p p.limits.calls) _ _
  cases hrun : (p.step m.span >>= fun _ =>
      evaluate p (p.call p.limits.calls) ⟨n, none, p.limits.nesting⟩ init).run w with
  | mk result w' =>
      cases hrun' : (p.step m.span >>= fun _ =>
          evaluate p (p.call p.limits.calls) ⟨n, none, p.limits.nesting⟩ init).run u with
      | mk result' u' =>
          have hresult := hfront.result
          rw [hrun, hrun'] at hresult
          obtain rfl : result = result' := hresult
          cases result with
          | error stop =>
              exact .inl (runScript_singleton_error (execute_declaration_error hrun)
                (execute_declaration_error hrun'))
          | ok v =>
              have hs' := hnone.scope? hs hrun
              have ht' := hnone.scope? ht hrun'
              rw [runScript_cons_ok [] none (execute_declaration_ok hrun hs' hfree),
                runScript_cons_ok [] none (execute_declaration_ok hrun' ht' hfree')]
              exact .inr ⟨v, rfl, rfl, get?_bind_self hs' hfree v, get?_bind_self ht' hfree' v⟩

end Pass

/-! ### Previews -/

namespace Scratch

variable (config : Config) (store : Store) (scope : Nat) (name expression : String)

/-- The run of a script in a new scope inside one of a store. -/
def live (script : Node) : Outcome :=
  (Pass.under config .standard (code expression)).run (store.openChild scope name).1 store.scopes.size
    script

/-- The run of the declaration of a result in the copy of what a scope sees ends as it does in a new scope
inside that one. -/
theorem trial_mirrors_live {store : Store} {scope : Nat} (hstore : store.Whole)
    (hscope : scope < store.scopes.size) (hfree : store.get? scope resultName = none) {m m' : Mark}
    {word : Declarator} {i : Ident} {init script : Node}
    (hscript : script = .program m [.declaration m' word i init]) (hname : i.name = resultName) :
    (∃ failure, (trial config store (some scope) none expression script).result = .error failure ∧
      (live config store scope name expression script).result = .error failure) ∨
    ∃ v, (trial config store (some scope) none expression script).result = .ok none ∧
      (live config store scope name expression script).result = .ok none ∧
      (trial config store (some scope) none expression script).store.get? store.scopes.size resultName =
        some v ∧
      (live config store scope name expression script).store.get? store.scopes.size resultName =
        some v := by
  subst hscript
  have hw : World.Mirrors store.scopes.size ⟨0, [], [], (store.snapshot scope none).1⟩
      ⟨0, [], [], (store.openChild scope name).1⟩ :=
    ⟨rfl, rfl, rfl, hstore.mirrors_snapshot hscope name⟩
  have hcopy : Scope.get? ⟨none, "snapshot", store.visibleBindings scope none⟩ i.name = none := by
    rw [Store.get?_visibleBindings, hname, hfree]
  have hrun := @Pass.run_declaration_mirrored (Pass.under config .standard (code expression)) _ m' word i
    init _ _ hw _ _ (Store.scope?_push_self _ _) (Store.scope?_push_self _ _) hcopy rfl
  rw [hname] at hrun
  refine hrun.imp ?_ ?_
  · rintro ⟨stop, htrial, hlive⟩
    refine ⟨stop.failure (Text.linesOf (code expression)), ?_, ?_⟩
    · show Except.mapError _ _ = _
      exact congrArg (Except.mapError (Stop.failure (Text.linesOf (code expression)))) htrial
    · show Except.mapError _ _ = _
      exact congrArg (Except.mapError (Stop.failure (Text.linesOf (code expression)))) hlive
  · rintro ⟨v, htrial, hlive, hget, hget'⟩
    exact ⟨v, congrArg (Except.mapError _) htrial, congrArg (Except.mapError _) hlive, hget, hget'⟩

/-- The run of a script in the copy of what a scope sees changes no scope that was there. -/
theorem scope?_trial {store : Store} {scope : Nat} (script : Node) {id : Nat} (hid : id < store.scopes.size) :
    (trial config store (some scope) none expression script).store.scope? id = store.scope? id := by
  have hcopied : (store.snapshot scope none).1.scope? id = store.scope? id :=
    Store.scope?_push_of_ne (Nat.ne_of_lt hid)
  cases script with
  | program m body =>
      have hkept := Pass.writesOnly_runScript (Pass.under config .standard (code expression))
        store.scopes.size body none ⟨0, [], [], (store.snapshot scope none).1⟩
      have hlt : id < (store.snapshot scope none).1.scopes.size := by
        simp only [Store.snapshot, Store.push, Array.size_push]
        omega
      exact (hkept.same id hlt (Nat.ne_of_lt hid)).trans hcopied
  | _ => exact hcopied

/-- An evaluation changes no scope that was there. -/
theorem scope?_evaluate {store : Store} {scope : Nat} {o : Outcome}
    (ho : (evaluate config store (some scope) none expression).outcome = some o) {id : Nat}
    (hid : id < store.scopes.size) : o.store.scope? id = store.scope? id := by
  obtain ⟨failure, -, heq⟩ | ⟨d, heq⟩ | ⟨m, m', word, i, init, script, -, -, -, heq⟩ :=
    evaluate_cases config store (some scope) none expression
  · rw [heq] at ho
    cases ho
  · rw [heq] at ho
    cases ho
  · rw [heq] at ho
    cases ho
    exact scope?_trial config expression script hid

/-- The result of an evaluation is that of the run of its script. -/
theorem result_evaluate {store : Store} {scope : Nat} {m m' : Mark} {word : Declarator} {i : Ident}
    {init : Node}
    (h : parse (code expression) none = .ok (.program m [.declaration m' word i init])) :
    (evaluate config store (some scope) none expression).result =
      resultOf store.scopes.size (trial config store (some scope) none expression
        (.program m [.declaration m' word i init])) := by
  simp only [evaluate, h, declared, trial]
  rfl

/-- An expression that is evaluated against what a scope sees changes no scope that is there; what it sends is
known from its own run alone. If its script is a single statement then it fails exactly if that statement
fails in a new scope inside the one that is looked from, with the same failure, and otherwise its value is
the one that the statement binds there. Functions may have been made in any scope of the store. -/
theorem evaluate_eq_live {store : Store} {scope : Nat} (hstore : store.Whole)
    (hscope : scope < store.scopes.size) (hfree : store.get? scope resultName = none) :
    (∀ o, (evaluate config store (some scope) none expression).outcome = some o →
      ∀ id < store.scopes.size, o.store.scope? id = store.scope? id) ∧
    ∀ m d, parse (code expression) none = .ok (.program m [d]) →
      (∀ failure, (evaluate config store (some scope) none expression).result = .error failure ↔
        (live config store scope name expression (.program m [d])).result = .error failure) ∧
      ∀ v, (evaluate config store (some scope) none expression).result = .ok v ↔
        (∃ last, (live config store scope name expression (.program m [d])).result = .ok last) ∧
          (live config store scope name expression (.program m [d])).store.get? store.scopes.size
            resultName = some v := by
  refine ⟨fun o ho id hid => scope?_evaluate config expression ho hid, fun m d hparse => ?_⟩
  obtain ⟨_, m', word, i, init, more, hscript, hname⟩ := exists_declaration hparse
  cases hscript
  rw [result_evaluate config expression hparse]
  obtain ⟨failure, htrial, hlive⟩ | ⟨v, htrial, hlive, hget, hget'⟩ :=
    trial_mirrors_live config name expression hstore hscope hfree rfl hname
  · rw [resultOf_of_error htrial, hlive]
    refine ⟨fun failure' => ?_, fun v => ⟨fun hv => ?_, fun hv => ?_⟩⟩
    · rw [Except.error.injEq, Except.error.injEq]
    · cases hv
    · obtain ⟨⟨last, hlast⟩, -⟩ := hv
      cases hlast
  · have hresult : resultOf store.scopes.size (trial config store (some scope) none expression
        (.program m [.declaration m' word i init])) = .ok v := by
      rw [resultOf, htrial, ok_bind, hget]
      rfl
    rw [hresult, hlive, hget']
    refine ⟨fun failure => ⟨fun hv => ?_, fun hv => ?_⟩, fun v' => ⟨fun hv => ?_, fun hv => ?_⟩⟩
    · cases hv
    · cases hv
    · cases hv
      exact ⟨⟨none, rfl⟩, rfl⟩
    · cases hv.2
      rfl

/-- Is the script a single statement? -/
def isSingle : Node → Bool
  | .program _ [_] => true
  | _ => false

theorem exists_of_isSingle {script : Node} (h : isSingle script = true) :
    ∃ m d, script = .program m [d] := by
  unfold isSingle at h
  split at h
  · exact ⟨_, _, rfl⟩
  · cases h

/-- Two scopes that both bind `a`, each with a function that gives it. -/
def shadowing : Store :=
  let giver (scope : Nat) : Value :=
    .mk (.function ⟨[], [.statement default (.identifier ⟨default, "a"⟩)], scope⟩) []
  ⟨#[⟨none, "outer", [("a", .ofNumber (.int 1) []), ("f", giver 0)]⟩,
    ⟨some 0, "inner", [("a", .ofNumber (.int 2) []), ("g", giver 1)]⟩]⟩

theorem whole_shadowing : shadowing.Whole where
  linked := Store.linked_pair _ _ _ _
  made c hc := by
    have hmem : Part.function c ∈ [Part.number (.int 1), .function ⟨_, _, 0⟩, .number (.int 2),
      .function ⟨_, _, 1⟩] := hc
    simp only [List.mem_cons, Part.function.injEq, reduceCtorEq, List.not_mem_nil, false_or, or_false]
      at hmem
    rcases hmem with rfl | rfl
    · exact Nat.zero_lt_two
    · exact Nat.one_lt_two

/-- The function that was made in the outer scope sees the outer binding, though the copy has the inner
one. -/
theorem evaluate_eq_live_shadowing :
    ∃ script v, parse (code "f() * 10 + g()") none = .ok script ∧
      (evaluate .standard shadowing (some 1) none "f() * 10 + g()").result = .ok v ∧
      v.number? = some (.int 12) ∧
      (live .standard shadowing 1 "child" "f() * 10 + g()" script).store.get? 2 resultName = some v := by
  have hchecked : (parse (code "f() * 10 + g()") none).toOption.any (fun script =>
      isSingle script &&
        (evaluate .standard shadowing (some 1) none "f() * 10 + g()").result.toOption.any fun v =>
          decide (v.number? = some (.int 12))) = true := by
    decide +kernel
  obtain ⟨script, hparse, hchecked⟩ := exists_of_any_toOption hchecked
  obtain ⟨hsingle, hchecked⟩ := Bool.and_eq_true_iff.1 hchecked
  obtain ⟨v, hresult, hnumber⟩ := exists_of_any_toOption hchecked
  obtain ⟨m, d, rfl⟩ := exists_of_isSingle hsingle
  have hsame := evaluate_eq_live .standard "child" "f() * 10 + g()" whole_shadowing Nat.one_lt_two rfl
  have hbound := (((hsame.2 m d hparse).2 v).1 hresult).2
  exact ⟨_, v, hparse, hresult, of_decide_eq_true hnumber, hbound⟩

end Scratch

end PartScript
