import PartScript.Proofs.Pass.Frame

/-!
What more budget changes. Two passes over one script that differ in their limits do the same, step by
step, until the one with less has used up a budget that the other has more of. What was shown, sent and
bound until then is never taken back, so a shortage of budget only cuts a run short. Every step is
counted before it is taken, which bounds the length of a run.
-/

namespace PartScript

/-! ### Limits and worlds in order -/

/-- One room for nesting is at most another, where no number means no limit. -/
def Limits.RoomLe : Option Nat → Option Nat → Prop
  | _, none => True
  | some room, some room' => room ≤ room'
  | none, some _ => False

/-- Every limit is at most the other one. -/
structure Limits.Le (l l' : Limits) : Prop where
  steps : l.steps ≤ l'.steps
  calls : l.calls ≤ l'.calls
  nesting : RoomLe l.nesting l'.nesting

theorem Limits.RoomLe.refl (room : Option Nat) : RoomLe room room := by
  cases room with
  | none => trivial
  | some room => exact Nat.le_refl room

theorem Limits.Le.refl (l : Limits) : l.Le l :=
  ⟨Nat.le_refl _, Nat.le_refl _, .refl _⟩

/-- Nothing that was shown, sent or bound is gone. -/
structure World.Le (w w' : World) : Prop where
  shown : w.shown <+: w'.shown
  sent : w.sent <+: w'.sent
  scopes : ∀ id s, w.store.scope? id = some s →
    ∃ added, w'.store.scope? id = some (s.append added)

theorem World.Le.refl (w : World) : w.Le w :=
  ⟨List.prefix_rfl, List.prefix_rfl, fun _ s h => ⟨[], by rw [h, Scope.append_nil]⟩⟩

theorem World.Le.trans {a b c : World} (h : a.Le b) (h' : b.Le c) : a.Le c := by
  refine ⟨h.shown.trans h'.shown, h.sent.trans h'.sent, fun id s hs => ?_⟩
  obtain ⟨added, hadded⟩ := h.scopes id s hs
  obtain ⟨more, hmore⟩ := h'.scopes id _ hadded
  exact ⟨added ++ more, by rw [hmore, Scope.append_append]⟩

theorem World.Le.localBindings {w w' : World} (h : w.Le w') (id : Nat) :
    w.store.localBindings id <+: w'.store.localBindings id := by
  cases hs : w.store.scope? id with
  | none =>
      rw [Store.localBindings, hs]
      exact List.nil_prefix
  | some s =>
      obtain ⟨added, hadded⟩ := h.scopes id s hs
      rw [Store.localBindings, Store.localBindings, hs, hadded]
      exact List.prefix_append _ _

/-- A world with the same scopes in which more has been shown and sent. -/
theorem World.le_of_store {w w' : World} (hshown : w.shown <+: w'.shown)
    (hsent : w.sent <+: w'.sent) (h : w'.store = w.store) : w.Le w' :=
  ⟨hshown, hsent, fun _ s hs => ⟨[], by rw [h, hs, Scope.append_nil]⟩⟩

namespace Pass

/-- The stops by which a pass with one set of limits ends before a pass with another one. -/
inductive Shortage (l l' : Limits) : Stop → Prop
  | steps (h : l.steps < l'.steps) (span : Span) :
      Shortage l l' (.wrong (.exhausted (.steps l.steps)) span)
  | calls (h : l.calls < l'.calls) (span : Span) :
      Shortage l l' (.wrong (.exhausted (.calls l.calls)) span)
  | tooDeep (h : l.nesting ≠ l'.nesting) : Shortage l l' .tooDeep
  | nesting (h : l.nesting ≠ l'.nesting) (span : Span) :
      Shortage l l' (.wrong (.exhausted .nesting) span)

variable {α β : Type} {l l' : Limits}

/-- How two computations end that start alike: in the same way within the steps of the first, or the
first is cut short. -/
inductive Ends (l l' : Limits) : Except Stop α × World → Except Stop α × World → Prop
  | ok (a : α) {w : World} (h : w.steps ≤ l.steps) : Ends l l' (.ok a, w) (.ok a, w)
  | stop (stop : Stop) {w : World} (h : w.steps ≤ l.steps + 1) :
      Ends l l' (.error stop, w) (.error stop, w)
  | short {stop : Stop} {w : World} {r : Except Stop α × World} (hshort : Shortage l l' stop)
      (hle : w.Le r.2) (h : w.steps ≤ l.steps + 1) : Ends l l' (.error stop, w) r

/-- The first computation does what the second does or is cut short, and the second takes nothing
back. -/
structure Cuts (l l' : Limits) (x y : Eval α) : Prop where
  grows : ∀ w : World, w.Le (y.run w).2
  ends : ∀ w, w.steps ≤ l.steps → Ends l l' (x.run w) (y.run w)

/-- A computation that takes no steps and takes nothing back does the same under all limits. -/
theorem cuts_self {x : Eval α} (hgrows : ∀ w : World, w.Le (x.run w).2)
    (hsteps : ∀ w, (x.run w).2.steps = w.steps) : Cuts l l' x x := by
  refine ⟨hgrows, fun w hw => ?_⟩
  have hsteps := hsteps w
  cases hrun : x.run w with
  | mk result w' =>
      rw [hrun] at hsteps
      cases result with
      | ok a => exact .ok a (hsteps ▸ hw)
      | error stop => exact .stop stop (Nat.le_succ_of_le (hsteps ▸ hw))

theorem ReadOnly.cuts {x : Eval α} (h : ReadOnly x) : Cuts l l' x x := by
  refine cuts_self (fun w => ?_) fun w => by rw [h w]
  rw [h w]
  exact World.Le.refl w

theorem grows_bind {y : Eval α} {g : α → Eval β} (hy : ∀ w : World, w.Le (y.run w).2)
    (hg : ∀ a (w : World), w.Le ((g a).run w).2) (w : World) :
    (y.run w).2.Le ((y >>= g).run w).2 ∧ w.Le ((y >>= g).run w).2 := by
  have hle := hy w
  cases hrun : y.run w with
  | mk result w' =>
      rw [hrun] at hle
      cases result with
      | error stop =>
          rw [run_bind_error g hrun]
          exact ⟨World.Le.refl w', hle⟩
      | ok a =>
          rw [run_bind_ok g hrun]
          exact ⟨hg a w', hle.trans (hg a w')⟩

theorem Cuts.bind {x y : Eval α} {f g : α → Eval β} (hxy : Cuts l l' x y)
    (hfg : ∀ a, Cuts l l' (f a) (g a)) : Cuts l l' (x >>= f) (y >>= g) := by
  have hgrows := grows_bind hxy.grows fun a => (hfg a).grows
  refine ⟨fun w => (hgrows w).2, fun w hw => ?_⟩
  have hends := hxy.ends w hw
  have hmore := (hgrows w).1
  generalize hx : x.run w = r at hends
  generalize hy : y.run w = r' at hends hmore
  cases hends with
  | ok a h =>
      rw [run_bind_ok f hx, run_bind_ok g hy]
      exact (hfg a).ends _ h
  | stop stop h =>
      rw [run_bind_error f hx, run_bind_error g hy]
      exact .stop stop h
  | short hshort hle h =>
      rw [run_bind_error f hx]
      exact .short hshort (hle.trans hmore) h

/-! ### Steps, levels and scopes -/

variable {p : Pass}

theorem cuts_step (hl : p.limits.Le l') (span : Span) :
    Cuts p.limits l' (p.step span) ({ p with limits := l' }.step span) := by
  refine ⟨fun w => ?_, fun w hw => ?_⟩
  · rw [run_step]
    exact World.le_of_store List.prefix_rfl List.prefix_rfl rfl
  · rw [run_step, run_step]
    rcases Nat.lt_or_eq_of_le hl.steps with hlt | heq
    · -- The pass with more steps can take this one.
      by_cases hout : p.limits.steps < w.steps + 1
      · rw [if_pos hout]
        exact .short (.steps hlt span) (World.Le.refl _) (by simpa using hw)
      · rw [if_neg hout, if_neg (by simp only; omega)]
        exact .ok () (by simp only; omega)
    · simp only [← heq]
      split
      · exact .stop _ (by simpa using hw)
      · exact .ok () (by simp only; omega)

/-- Frames that differ in their room alone, and only if the limits do. -/
structure Wider (l l' : Limits) (f f' : Frame) : Prop where
  scope : f.scope = f'.scope
  hole : f.hole = f'.hole
  room : Limits.RoomLe f.room f'.room
  same : l.nesting = l'.nesting → f.room = f'.room

/-- Going one level deeper leads to such frames again, or the first pass has no room left. -/
theorem cuts_deeper {f f' : Frame} {k k' : Frame → Eval α} (hf : Wider l l' f f')
    (hk : ∀ g g', Wider l l' g g' → Cuts l l' (k g) (k' g')) :
    Cuts l l' (deeper f >>= k) (deeper f' >>= k') := by
  obtain ⟨scope, hole, room⟩ := f
  obtain ⟨scope', hole', room'⟩ := f'
  obtain ⟨rfl, rfl, hroom, hsame⟩ := hf
  match room, room', hroom, hsame with
  | none, none, _, _ => exact hk _ _ ⟨rfl, rfl, trivial, fun _ => rfl⟩
  | some (room + 1), none, _, hsame =>
      exact hk _ _ ⟨rfl, rfl, trivial, fun h => nomatch hsame h⟩
  | some (room + 1), some (room' + 1), hroom, hsame =>
      refine hk _ _ ⟨rfl, rfl, Nat.le_of_succ_le_succ hroom, fun h => ?_⟩
      have heq : some (room + 1) = some (room' + 1) := hsame h
      simpa using heq
  | some 0, some 0, _, _ => exact ReadOnly.cuts (readOnly_throw .tooDeep)
  | some 0, none, _, hsame =>
      have hwide := hk ⟨scope, hole, none⟩ ⟨scope, hole, none⟩ ⟨rfl, rfl, trivial, fun _ => rfl⟩
      exact ⟨hwide.grows, fun w hw =>
        .short (.tooDeep fun h => nomatch hsame h) (hwide.grows w) (Nat.le_succ_of_le hw)⟩
  | some 0, some (room' + 1), _, hsame =>
      have hwide := hk ⟨scope, hole, some room'⟩ ⟨scope, hole, some room'⟩
        ⟨rfl, rfl, .refl _, fun _ => rfl⟩
      exact ⟨hwide.grows, fun w hw =>
        .short (.tooDeep fun h => nomatch hsame h) (hwide.grows w) (Nat.le_succ_of_le hw)⟩

/-- An expression starts with a step and goes one level deeper. -/
theorem cuts_opening (hl : p.limits.Le l') {f f' : Frame} (span : Span) {k k' : Frame → Eval α}
    (hf : Wider p.limits l' f f')
    (hk : ∀ g g', Wider p.limits l' g g' → Cuts p.limits l' (k g) (k' g')) :
    Cuts p.limits l' (p.step span >>= fun _ => deeper f >>= k)
      ({ p with limits := l' }.step span >>= fun _ => deeper f' >>= k') :=
  (cuts_step hl span).bind fun _ => cuts_deeper hf hk

theorem le_bind (w : World) (id : Nat) (name : String) (v : Value) :
    w.Le { w with store := w.store.bind id name v } := by
  refine ⟨List.prefix_rfl, List.prefix_rfl, fun other s hs => ?_⟩
  by_cases heq : other = id
  · subst heq
    exact ⟨[(name, v)], scope?_bind_self name v hs⟩
  · have hkeep := (keeps_bind w.store id name v).same other (scope?_lt hs) heq
    exact ⟨[], by rw [Scope.append_nil, hkeep, hs]⟩

theorem cuts_define (scope : Nat) (name : String) (v : Value) (span : Span) :
    Cuts l l' (define scope name v span) (define scope name v span) := by
  refine readOnly_get.cuts.bind fun w => ?_
  have hbind : Cuts l l' (modify fun w => { w with store := w.store.bind scope name v } : Eval Unit)
      (modify fun w => { w with store := w.store.bind scope name v }) :=
    cuts_self (fun w => le_bind w scope name v) fun _ => rfl
  split
  · exact (readOnly_throw _).cuts.bind fun _ => hbind
  · exact hbind

theorem cuts_openScope (parent : Nat) (name : String) :
    Cuts l l' (openScope parent name) (openScope parent name) := by
  refine cuts_self (fun w => ?_) fun _ => rfl
  refine ⟨List.prefix_rfl, List.prefix_rfl, fun id s hs => ⟨[], ?_⟩⟩
  rw [Scope.append_nil, ← hs]
  exact scope?_push_of_lt (scope?_lt hs)

theorem cuts_perform (e : Effect) : Cuts l l' (perform e) (perform e) := by
  refine cuts_self (fun w => ?_) fun _ => rfl
  exact World.le_of_store (List.prefix_append _ _) (List.prefix_append _ _) rfl

theorem cuts_callLibrary (entry : LibraryEntry) (name : String) (m : Mark) (args : List Value) :
    Cuts l l' (p.callLibrary entry name m args) (p.callLibrary entry name m args) := by
  unfold callLibrary
  split
  · split
    · exact cuts_perform _
    · exact (blind_mismatch _ _).readOnly.cuts
    · exact (readOnly_throw _).cuts
  · exact (blind_mismatch _ _).readOnly.cuts

/-! ### Evaluation -/

/-- Every call of a function of the script does what the other handler does or is cut short. -/
def CutsCalls (l l' : Limits) (enter enter' : Enter) : Prop :=
  ∀ inv c args, Cuts l l' (enter inv c args) (enter' inv c args)

section

variable {enter enter' : Enter}

mutual

theorem cuts_evaluate (hl : p.limits.Le l') (henter : CutsCalls p.limits l' enter enter') :
    ∀ (n : Node) {f f' : Frame}, Wider p.limits l' f f' →
      Cuts p.limits l' (evaluate p enter f n) (evaluate { p with limits := l' } enter' f' n)
  | .literal m value _, _, _, hf => by
      unfold evaluate
      exact cuts_opening hl _ hf fun _ _ _ => (blind_literal m value).readOnly.cuts
  | .identifier i, _, _, hf => by
      unfold evaluate
      refine cuts_opening hl _ hf fun f f' hf => ?_
      simp only [hf.scope]
      exact (readOnly_lookup _ _ _).cuts
  | .binary m op left right, _, _, hf => by
      unfold evaluate
      refine cuts_opening hl _ hf fun f f' hf => ?_
      refine (cuts_evaluate hl henter left hf).bind fun _ => ?_
      exact (cuts_evaluate hl henter right hf).bind fun _ => (blind_operated _ _).readOnly.cuts
  | .unary m op e, _, _, hf => by
      unfold evaluate
      refine cuts_opening hl _ hf fun f f' hf => ?_
      exact (cuts_evaluate hl henter e hf).bind fun _ => (blind_operated _ _).readOnly.cuts
  | .call m callee args, _, _, hf => by
      unfold evaluate
      refine cuts_opening hl _ hf fun f f' hf => ?_
      have hargs := cuts_evaluateAll hl henter args hf
      simp only [hf.scope, hf.hole]
      refine (readOnly_closure? _ _).cuts.bind fun c => ?_
      cases c with
      | some c => exact hargs.bind fun _ => henter _ _ _
      | none =>
          refine Cuts.bind (blind_libraryEntry p callee).readOnly.cuts fun entry => ?_
          exact hargs.bind fun args => cuts_callLibrary _ _ _ _
  | .array m es, _, _, hf => by
      unfold evaluate
      refine cuts_opening hl _ hf fun f f' hf => ?_
      exact (cuts_evaluateAll hl henter es hf).bind fun _ => (readOnly_pure _).cuts
  | .object m ps, _, _, hf => by
      unfold evaluate
      refine cuts_opening hl _ hf fun f f' hf => ?_
      exact (cuts_evaluateEntries hl henter ps hf).bind fun _ => (readOnly_pure _).cuts
  | .member m e label, _, _, hf => by
      unfold evaluate
      refine cuts_opening hl _ hf fun f f' hf => ?_
      exact (cuts_evaluate hl henter e hf).bind fun _ => (blind_member _ _ _ _).readOnly.cuts
  | .index m e key, _, _, hf => by
      unfold evaluate
      refine cuts_opening hl _ hf fun f f' hf => ?_
      refine (cuts_evaluate hl henter e hf).bind fun _ => ?_
      refine (cuts_evaluate hl henter key hf).bind fun _ => ?_
      exact (blind_memberKey _ _).readOnly.cuts.bind fun _ => (blind_member _ _ _ _).readOnly.cuts
  | .pipe m [], _, _, hf => by
      unfold evaluate
      exact cuts_opening hl _ hf fun f f' hf => (readOnly_throw _).cuts
  | .pipe m (first :: more), _, _, hf => by
      unfold evaluate
      refine cuts_opening hl _ hf fun f f' hf => ?_
      exact (cuts_evaluate hl henter first hf).bind fun v => cuts_evaluateStages hl henter more v hf
  | .hole m, _, _, hf => by
      unfold evaluate
      refine cuts_opening hl _ hf fun f f' hf => ?_
      simp only [hf.hole]
      split
      · exact (readOnly_pure _).cuts
      · exact (blind_mismatch _ _).readOnly.cuts
  | .function m params body, _, _, hf => by
      unfold evaluate
      refine cuts_opening hl _ hf fun f f' hf => ?_
      simp only [hf.scope]
      exact (readOnly_pure _).cuts
  | .program .., _, _, hf | .declaration .., _, _, hf | .statement .., _, _, hf
  | .giveBack .., _, _, hf | .property .., _, _, hf => by
      unfold evaluate
      exact cuts_opening hl _ hf fun f f' hf => (blind_mismatch _ _).readOnly.cuts

theorem cuts_evaluateAll (hl : p.limits.Le l') (henter : CutsCalls p.limits l' enter enter') :
    ∀ (ns : List Node) {f f' : Frame}, Wider p.limits l' f f' →
      Cuts p.limits l' (evaluateAll p enter f ns)
        (evaluateAll { p with limits := l' } enter' f' ns)
  | [], _, _, _ => by
      unfold evaluateAll
      exact (readOnly_pure _).cuts
  | n :: ns, _, _, hf => by
      unfold evaluateAll
      refine (cuts_evaluate hl henter n hf).bind fun _ => ?_
      exact (cuts_evaluateAll hl henter ns hf).bind fun _ => (readOnly_pure _).cuts

theorem cuts_evaluateEntries (hl : p.limits.Le l') (henter : CutsCalls p.limits l' enter enter') :
    ∀ (ns : List Node) {f f' : Frame}, Wider p.limits l' f f' →
      Cuts p.limits l' (evaluateEntries p enter f ns)
        (evaluateEntries { p with limits := l' } enter' f' ns)
  | [], _, _, _ => by
      unfold evaluateEntries
      exact (readOnly_pure _).cuts
  | n :: ns, _, _, hf => by
      have hrest := cuts_evaluateEntries hl henter ns hf
      cases n with
      | property m key e =>
          unfold evaluateEntries
          refine (cuts_evaluate hl henter e hf).bind fun _ => ?_
          exact hrest.bind fun _ => (readOnly_pure _).cuts
      | _ => exact (readOnly_throw _).cuts

theorem cuts_evaluateStages (hl : p.limits.Le l') (henter : CutsCalls p.limits l' enter enter') :
    ∀ (ns : List Node) (v : Value) {f f' : Frame}, Wider p.limits l' f f' →
      Cuts p.limits l' (evaluateStages p enter f ns v)
        (evaluateStages { p with limits := l' } enter' f' ns v)
  | [], _, _, _, _ => by
      unfold evaluateStages
      exact (readOnly_pure _).cuts
  | n :: ns, v, _, _, hf => by
      unfold evaluateStages
      refine Cuts.bind ?_ fun v => cuts_evaluateStages hl henter ns v hf
      exact cuts_evaluate hl henter n ⟨hf.scope, rfl, hf.room, hf.same⟩

end

/-! ### Functions of the script -/

theorem cuts_execute (hl : p.limits.Le l') (henter : CutsCalls p.limits l' enter enter') (n : Node)
    {f f' : Frame} (hf : Wider p.limits l' f f') :
    Cuts p.limits l' (execute p enter f n) (execute { p with limits := l' } enter' f' n) := by
  unfold execute
  refine (cuts_step hl _).bind fun _ => ?_
  split
  · refine (cuts_evaluate hl henter _ hf).bind fun v => ?_
    rw [hf.scope]
    exact (cuts_define _ _ _ _).bind fun _ => (readOnly_pure _).cuts
  · exact (cuts_evaluate hl henter _ hf).bind fun _ => (readOnly_pure _).cuts
  · exact (blind_mismatch _ _).readOnly.cuts
  · exact (blind_mismatch _ _).readOnly.cuts

theorem cuts_runBody (hl : p.limits.Le l') (henter : CutsCalls p.limits l' enter enter')
    {f f' : Frame} (hf : Wider p.limits l' f f') (body : List Node) (last : Option Value) :
    Cuts p.limits l' (runBody p enter f body last)
      (runBody { p with limits := l' } enter' f' body last) := by
  induction body generalizing last with
  | nil => exact (readOnly_pure _).cuts
  | cons n rest ih =>
      cases n with
      | giveBack m e =>
          unfold runBody
          refine (cuts_step hl _).bind fun _ => ?_
          exact (cuts_evaluate hl henter e hf).bind fun _ => (readOnly_pure _).cuts
      | _ => exact (cuts_execute hl henter _ hf).bind fun result => ih result

theorem cuts_bindParams (scope : Nat) (params : List Ident) (args : List Value) :
    Cuts l l' (bindParams scope params args) (bindParams scope params args) := by
  fun_induction bindParams scope params args with
  | case1 i params v args ih => exact (cuts_define _ _ _ _).bind fun _ => ih
  | case2 => exact (readOnly_pure _).cuts

theorem cutsCalls_enterScope (hl : p.limits.Le l') (henter : CutsCalls p.limits l' enter enter') :
    CutsCalls p.limits l' (p.enterScope enter) ({ p with limits := l' }.enterScope enter') := by
  intro inv c args
  refine (cuts_openScope _ _).bind fun scope => ?_
  refine (cuts_bindParams _ _ _).bind fun _ => ?_
  have hframe : Wider p.limits l' ⟨scope, inv.hole, p.limits.nesting⟩
      ⟨scope, inv.hole, l'.nesting⟩ := ⟨rfl, rfl, hl.nesting, fun h => h⟩
  have hbody := cuts_runBody hl henter hframe c.body none
  refine hbody.bind fun result => ?_
  cases result with
  | none => exact (blind_mismatch _ _).readOnly.cuts
  | some v => exact (readOnly_pure _).cuts

/-- A call with the wrong number of arguments fails before anything else is looked at. -/
theorem call_of_length_ne {left : Nat} {inv : Invocation} {c : Closure} {args : List Value}
    (h : args.length ≠ c.params.length) :
    p.call left inv c args =
      mismatch (.argumentCount inv.name (toString c.params.length) args.length) inv.mark.span := by
  cases left <;> · rw [call, if_pos h]; rfl

theorem call_zero {inv : Invocation} {c : Closure} {args : List Value}
    (h : args.length = c.params.length) :
    p.call 0 inv c args = throw (.wrong (.exhausted (.calls p.limits.calls)) inv.mark.span) := by
  rw [call, if_neg (not_not_intro h)]

theorem call_succ {left : Nat} {inv : Invocation} {c : Closure} {args : List Value}
    (h : args.length = c.params.length) :
    p.call (left + 1) inv c args = p.enterScope (p.call left) inv c args := by
  rw [call, if_neg (not_not_intro h)]

theorem cutsCalls_call_self (left : Nat) : CutsCalls p.limits p.limits (p.call left) (p.call left) := by
  induction left with
  | zero =>
      intro inv c args
      by_cases hlen : args.length = c.params.length
      · rw [call_zero hlen]
        exact (readOnly_throw _).cuts
      · rw [call_of_length_ne hlen]
        exact (blind_mismatch _ _).readOnly.cuts
  | succ left ih =>
      intro inv c args
      by_cases hlen : args.length = c.params.length
      · rw [call_succ hlen]
        exact cutsCalls_enterScope (.refl _) ih inv c args
      · rw [call_of_length_ne hlen]
        exact (blind_mismatch _ _).readOnly.cuts

/-- The other pass may nest as many more calls as its limit is higher. -/
theorem cutsCalls_call (hl : p.limits.Le l') {extra : Nat} (hextra : l'.calls = p.limits.calls + extra)
    (left : Nat) :
    CutsCalls p.limits l' (p.call left) ({ p with limits := l' }.call (left + extra)) := by
  induction left with
  | zero =>
      intro inv c args
      by_cases hlen : args.length = c.params.length
      · rw [call_zero hlen, Nat.zero_add]
        cases extra with
        | zero =>
            rw [call_zero hlen]
            simp only [hextra, Nat.add_zero]
            exact (readOnly_throw _).cuts
        | succ extra =>
            have hgrows := (cutsCalls_call_self (p := { p with limits := l' }) (extra + 1) inv c
              args).grows
            exact ⟨hgrows, fun w hw =>
              .short (.calls (by omega) _) (hgrows w) (Nat.le_succ_of_le hw)⟩
      · rw [call_of_length_ne hlen, call_of_length_ne hlen]
        exact (blind_mismatch _ _).readOnly.cuts
  | succ left ih =>
      intro inv c args
      by_cases hlen : args.length = c.params.length
      · rw [Nat.succ_add, call_succ hlen, call_succ hlen]
        exact cutsCalls_enterScope hl ih inv c args
      · rw [call_of_length_ne hlen, call_of_length_ne hlen]
        exact (blind_mismatch _ _).readOnly.cuts

end

/-! ### Scripts -/

/-- Blaming nesting that is too deep on a statement makes no difference between the two. -/
theorem Cuts.blame {x y : Eval α} (h : Cuts l l' x y) (span : Span) :
    Cuts l l'
      (tryCatch x fun
        | .tooDeep => throw (.wrong (.exhausted .nesting) span)
        | stop => throw stop)
      (tryCatch y fun
        | .tooDeep => throw (.wrong (.exhausted .nesting) span)
        | stop => throw stop) := by
  have hworld (w : World) : ((tryCatch y fun
      | .tooDeep => throw (.wrong (.exhausted .nesting) span)
      | stop => throw stop).run w).2 = (y.run w).2 := by
    cases hy : y.run w with
    | mk result w' =>
        cases result with
        | ok a => rw [run_tryCatch_ok hy]
        | error stop => cases stop <;> · rw [run_tryCatch_error hy]; rfl
  refine ⟨fun w => by rw [hworld]; exact h.grows w, fun w hw => ?_⟩
  have hworld := hworld w
  have hends := h.ends w hw
  generalize hx : x.run w = r at hends
  generalize hy : y.run w = r' at hends hworld
  cases hends with
  | ok a hle =>
      rw [run_tryCatch_ok hx, run_tryCatch_ok hy]
      exact .ok a hle
  | stop stop hle =>
      rw [run_tryCatch_error hx, run_tryCatch_error hy]
      cases stop <;> exact .stop _ hle
  | short hshort hprefix hle =>
      rw [run_tryCatch_error hx]
      rw [← hworld] at hprefix
      cases hshort with
      | tooDeep hne => exact .short (.nesting hne span) hprefix hle
      | steps hlt at_ => exact .short (.steps hlt at_) hprefix hle
      | calls hlt at_ => exact .short (.calls hlt at_) hprefix hle
      | nesting hne at_ => exact .short (.nesting hne at_) hprefix hle

theorem cuts_runScript (hl : p.limits.Le l') (scope : Nat) (body : List Node)
    (last : Option Value) :
    Cuts p.limits l' (p.runScript scope body last)
      ({ p with limits := l' }.runScript scope body last) := by
  obtain ⟨extra, hextra⟩ := Nat.le.dest hl.calls
  have hcalls := cutsCalls_call hl hextra.symm p.limits.calls
  rw [hextra] at hcalls
  induction body generalizing last with
  | nil => exact (readOnly_pure _).cuts
  | cons n rest ih =>
      rw [runScript, runScript]
      refine Cuts.bind (Cuts.blame (cuts_execute hl hcalls n ?_) _) fun result => ih result
      exact ⟨rfl, rfl, hl.nesting, fun h => h⟩

/-- A script never ends without saying which statement is nested too deeply. -/
theorem runScript_ne_tooDeep (scope : Nat) (body : List Node) (last : Option Value) (w : World) :
    ((p.runScript scope body last).run w).1 ≠ .error .tooDeep := by
  induction body generalizing last w with
  | nil =>
      intro h
      cases h
  | cons n rest ih =>
      cases hrun : (execute p (p.call p.limits.calls) ⟨scope, none, p.limits.nesting⟩ n).run w with
      | mk result w' =>
          cases result with
          | ok value =>
              rw [runScript_cons_ok rest last hrun]
              exact ih value w'
          | error stop =>
              rw [runScript]
              cases stop <;>
                · rw [run_bind_error _ ((run_tryCatch_error hrun).trans rfl)]
                  intro h
                  cases h

/-! ### Runs -/

/-- The outcome that the end of a script amounts to. -/
def outcome (lines : List String) (r : Except Stop (Option Value) × World) : Outcome :=
  ⟨r.1.mapError (Stop.failure lines), r.2.shown, r.2.sent, r.2.steps, r.2.store⟩

theorem run_program (p : Pass) (store : Store) (scope : Nat) (mark : Mark) (body : List Node) :
    p.run store scope (.program mark body) =
      outcome (Text.linesOf p.code) ((p.runScript scope body none).run ⟨0, [], [], store⟩) := rfl

/-- With more budget a run ends in the same way, or it had ended because a budget was used up that it
has more of now. -/
theorem run_eq_or_short (p : Pass) (hl : p.limits.Le l') (store : Store) (scope : Nat)
    (script : Node) :
    { p with limits := l' }.run store scope script = p.run store scope script ∨
      ∃ stop, Shortage p.limits l' stop ∧ stop ≠ .tooDeep ∧
        (p.run store scope script).result = .error (stop.failure (Text.linesOf p.code)) := by
  cases script with
  | program mark body =>
      have hends := (cuts_runScript hl scope body none).ends ⟨0, [], [], store⟩ (Nat.zero_le _)
      have hdeep := runScript_ne_tooDeep (p := p) scope body none ⟨0, [], [], store⟩
      rw [run_program, run_program]
      generalize (p.runScript scope body none).run ⟨0, [], [], store⟩ = r at hends hdeep ⊢
      generalize ({ p with limits := l' }.runScript scope body none).run ⟨0, [], [], store⟩ = r'
        at hends ⊢
      cases hends with
      | ok a h => exact .inl rfl
      | stop stop h => exact .inl rfl
      | @short stop w r hshort hle h =>
          exact .inr ⟨stop, hshort, fun heq => hdeep (heq ▸ rfl), rfl⟩
  | _ => exact .inl rfl

/-- With more budget a run shows, sends and binds at least what it did before, in the same order. -/
theorem run_extends (p : Pass) (hl : p.limits.Le l') (store : Store) (scope : Nat)
    (script : Node) :
    (p.run store scope script).shown <+: ({ p with limits := l' }.run store scope script).shown ∧
    (p.run store scope script).sent <+: ({ p with limits := l' }.run store scope script).sent ∧
    ∀ id, (p.run store scope script).store.localBindings id <+:
      ({ p with limits := l' }.run store scope script).store.localBindings id := by
  cases script with
  | program mark body =>
      have hends := (cuts_runScript hl scope body none).ends ⟨0, [], [], store⟩ (Nat.zero_le _)
      have hle : ((p.runScript scope body none).run ⟨0, [], [], store⟩).2.Le
          (({ p with limits := l' }.runScript scope body none).run ⟨0, [], [], store⟩).2 := by
        generalize (p.runScript scope body none).run ⟨0, [], [], store⟩ = r at hends ⊢
        generalize ({ p with limits := l' }.runScript scope body none).run ⟨0, [], [], store⟩ = r'
          at hends ⊢
        cases hends with
        | ok a h => exact World.Le.refl _
        | stop stop h => exact World.Le.refl _
        | short hshort hle h => exact hle
      exact ⟨hle.shown, hle.sent, fun id => hle.localBindings id⟩
  | _ => exact ⟨List.prefix_rfl, List.prefix_rfl, fun _ => List.prefix_rfl⟩

/-- A run takes at most one step more than its limit, and no such step if it succeeds. -/
theorem run_steps_le (p : Pass) (store : Store) (scope : Nat) (script : Node) :
    (p.run store scope script).steps ≤ p.limits.steps + 1 ∧
      ∀ v, (p.run store scope script).result = .ok v →
        (p.run store scope script).steps ≤ p.limits.steps := by
  cases script with
  | program mark body =>
      have hends := (cuts_runScript (p := p) (.refl _) scope body none).ends ⟨0, [], [], store⟩
        (Nat.zero_le _)
      rw [run_program]
      generalize (p.runScript scope body none).run ⟨0, [], [], store⟩ = r at hends ⊢
      cases hends with
      | ok a h => exact ⟨Nat.le_succ_of_le h, fun _ _ => h⟩
      | stop stop h => exact ⟨h, fun _ hv => by cases hv⟩
      | short hshort hle h => exact ⟨h, fun _ hv => by cases hv⟩
  | _ => exact ⟨Nat.zero_le _, fun _ hv => by cases hv⟩

end Pass

/-- Did the run end because a budget was used up? -/
def Failure.isExhaustion : Failure → Bool
  | .diagnostic d => d.cause.family == .exhausted
  | .fault _ => false

theorem Pass.Shortage.isExhaustion {l l' : Limits} {stop : Stop} (h : Shortage l l' stop)
    (hdeep : stop ≠ .tooDeep) (lines : List String) : (stop.failure lines).isExhaustion = true := by
  cases h with
  | tooDeep => exact absurd rfl hdeep
  | steps | calls | nesting => rfl

/-- Budgets only cut a run short. Raise the limits on steps and on nested calls: a run that succeeds
or fails for any other reason than a used up budget has the same outcome afterwards, and in every case
what it showed, sent and bound comes first in what is shown, sent and bound afterwards. A run takes at
most one step more than its limit. -/
theorem run_of_larger_budgets (c c' : Config) (hsteps : c.maxSteps ≤ c'.maxSteps)
    (hcalls : c.maxCallDepth ≤ c'.maxCallDepth) (library : Library) (code : String) (store : Store)
    (scope : Nat) (script : Node) :
    let before := (Pass.under c library code).run store scope script
    let after := (Pass.under c' library code).run store scope script
    (∀ v, before.result = .ok v → after = before) ∧
    (∀ failure, before.result = .error failure → failure.isExhaustion = false → after = before) ∧
    before.shown <+: after.shown ∧
    before.sent <+: after.sent ∧
    before.store.localBindings scope <+: after.store.localBindings scope ∧
    before.steps ≤ c.maxSteps + 1 := by
  intro before after
  have hle : (Pass.under c library code).limits.Le c'.limits := ⟨hsteps, hcalls, .refl _⟩
  obtain ⟨hshown, hsent, hbindings⟩ :=
    (Pass.under c library code).run_extends hle store scope script
  have hbound := ((Pass.under c library code).run_steps_le store scope script).1
  have hcases := (Pass.under c library code).run_eq_or_short hle store scope script
  refine ⟨fun v hv => ?_, fun failure hfailure hother => ?_, hshown, hsent, hbindings scope, hbound⟩
  · rcases hcases with heq | ⟨stop, hshort, hdeep, hstop⟩
    · exact heq
    · exact nomatch hv.symm.trans hstop
  · rcases hcases with heq | ⟨stop, hshort, hdeep, hstop⟩
    · exact heq
    · obtain rfl := Except.error.inj (hfailure.symm.trans hstop)
      rw [hshort.isExhaustion hdeep] at hother
      exact nomatch hother

/-- A function that calls itself without end shows its argument once more if one more call may be
nested. -/
theorem run_of_larger_budgets_endless :
    ∃ code script, code = "fn f = (n) => \x7breturn f(show(n))\x7d\nf(1)" ∧
      parse code none = .ok script ∧
      let before := (Pass.under ⟨40, 2, true, true⟩ .standard code).run
        ⟨#[⟨none, "root", []⟩]⟩ 0 script
      let after := (Pass.under ⟨50, 3, true, true⟩ .standard code).run
        ⟨#[⟨none, "root", []⟩]⟩ 0 script
      before.shown.length = 2 ∧ after.shown.length = 3 ∧ before.shown <+: after.shown ∧
        before.steps ≤ 41 := by
  obtain ⟨code, hcode⟩ : ∃ code, code = "fn f = (n) => \x7breturn f(show(n))\x7d\nf(1)" :=
    ⟨_, rfl⟩
  have hchecked : ((parse code none).toOption.any fun script => decide
      (((Pass.under ⟨40, 2, true, true⟩ .standard code).run
          ⟨#[⟨none, "root", []⟩]⟩ 0 script).shown.length = 2 ∧
        ((Pass.under ⟨50, 3, true, true⟩ .standard code).run
          ⟨#[⟨none, "root", []⟩]⟩ 0 script).shown.length = 3)) = true := by
    rw [hcode]
    decide +kernel
  obtain ⟨script, hscript, hchecked⟩ := exists_of_any_toOption hchecked
  obtain ⟨hbefore, hafter⟩ := of_decide_eq_true hchecked
  obtain ⟨-, -, hshown, -, -, hsteps⟩ := run_of_larger_budgets ⟨40, 2, true, true⟩
    ⟨50, 3, true, true⟩ (by decide) (by decide) .standard code ⟨#[⟨none, "root", []⟩]⟩ 0 script
  exact ⟨code, script, hcode, hscript, hbefore, hafter, hshown, hsteps⟩

end PartScript
