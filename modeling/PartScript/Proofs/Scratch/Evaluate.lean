import PartScript.Proofs.Pass.Upkeep
import PartScript.Proofs.Pipe.Pass
import PartScript.Proofs.Scratch.Outlook

/-!
Evaluation in two worlds with the same outlook. A pass asks a store what is seen from a scope, and it opens
scopes and writes to those it has opened. So in two worlds whose stores have the same outlook it does the
same: it has the same result or stops for the same reason, with the same values shown and commands sent. The
functions in its results were made in scopes that are there.
-/

namespace PartScript

/-- The worlds have the same outlook, and the same has happened in them. -/
structure World.Mirrors (n : Nat) (w u : World) : Prop where
  steps : w.steps = u.steps
  shown : w.shown = u.shown
  sent : w.sent = u.sent
  store : w.store.Mirrors n u.store

namespace Pass

variable {α β : Type} {n b : Nat}

/-- How a computation ends in two worlds, started from scopes as many as in the first of them: with the same
result, and in worlds with the same outlook. No scope is gone, and a result is good for the number of
scopes. -/
structure EndsMirrored (n : Nat) (good : Nat → α → Prop) (w : World)
    (r r' : Except Stop α × World) : Prop where
  result : r.1 = r'.1
  world : World.Mirrors n r.2 r'.2
  size : w.store.scopes.size ≤ r.2.store.scopes.size
  good : ∀ a, r.1 = .ok a → good r.2.store.scopes.size a

/-- The computation ends in the same way in two worlds with the same outlook and at least `b` scopes. -/
def Mirrored (n b : Nat) (good : Nat → α → Prop) (x : Eval α) : Prop :=
  ∀ w u, World.Mirrors n w u → b ≤ w.store.scopes.size → EndsMirrored n good w (x.run w) (x.run u)

section

variable {good : Nat → α → Prop} {good' : Nat → β → Prop}

theorem mirrored_pure {a : α} (h : ∀ b', b ≤ b' → good b' a) : Mirrored n b good (pure a) := by
  intro w u hw hb
  refine ⟨rfl, hw, Nat.le_refl _, fun a' ha => ?_⟩
  cases ha
  exact h _ hb

theorem mirrored_throw (stop : Stop) : Mirrored n b good (throw stop : Eval α) :=
  fun _ _ hw _ => ⟨rfl, hw, Nat.le_refl _, nofun⟩

theorem mirrored_mismatch (what : Mismatch) (span : Span) :
    Mirrored n b good (mismatch what span : Eval α) :=
  mirrored_throw _

theorem mirrored_throw_bind (stop : Stop) (f : β → Eval α) :
    Mirrored n b good (throw stop >>= f) :=
  fun _ _ hw _ => ⟨rfl, hw, Nat.le_refl _, nofun⟩

theorem Mirrored.bind {x : Eval α} {f : α → Eval β} (hx : Mirrored n b good x)
    (hf : ∀ b', b ≤ b' → ∀ a, good b' a → Mirrored n b' good' (f a)) :
    Mirrored n b good' (x >>= f) := by
  intro w u hw hb
  have hends := hx w u hw hb
  cases hxw : x.run w with
  | mk result w₁ =>
      cases hxu : x.run u with
      | mk result' u₁ =>
          rw [hxw, hxu] at hends
          obtain ⟨heq, hw₁, hsize, hgood⟩ := hends
          obtain rfl : result = result' := heq
          cases result with
          | error stop =>
              rw [run_bind_error f hxw, run_bind_error f hxu]
              exact ⟨rfl, hw₁, hsize, nofun⟩
          | ok a =>
              rw [run_bind_ok f hxw, run_bind_ok f hxu]
              have hmore := hf _ (Nat.le_trans hb hsize) a (hgood a rfl) w₁ u₁ hw₁ (Nat.le_refl _)
              exact ⟨hmore.result, hmore.world, Nat.le_trans hsize hmore.size, hmore.good⟩

/-- A computation that does not look at the world. -/
theorem mirrored_blind {x : Eval α} (h : Blind x) : Mirrored n b (fun _ _ => True) x := by
  obtain ⟨result, hrun⟩ := h
  intro w u hw _
  rw [hrun, hrun]
  exact ⟨rfl, hw, Nat.le_refl _, fun _ _ => trivial⟩

end

/-! ### Steps and names -/

theorem mirrored_step (p : Pass) (span : Span) : Mirrored n b (fun _ _ => True) (p.step span) := by
  intro w u hw _
  rw [run_step, run_step, ← hw.steps]
  exact ⟨rfl, ⟨rfl, hw.shown, hw.sent, hw.store⟩, Nat.le_refl _, fun _ _ => trivial⟩

/-- The frame is in the same scope, and the same value comes in. -/
theorem mirrored_deeper (f : Frame) :
    Mirrored n b (fun _ f' => f'.scope = f.scope ∧ f'.hole = f.hole) (deeper f) := by
  unfold deeper
  split
  · exact mirrored_pure fun _ _ => ⟨rfl, rfl⟩
  · exact mirrored_throw _
  · exact mirrored_pure fun _ _ => ⟨rfl, rfl⟩

theorem mirrored_lookup (scope : Nat) (name : String) (span : Span) :
    Mirrored n b (fun b' v => Made b' v.parts) (lookup scope name span) := by
  intro w u hw _
  rw [run_lookup, run_lookup, ← hw.store.get?]
  refine ⟨rfl, hw, Nat.le_refl _, fun v hv => ?_⟩
  cases hget : w.store.get? scope name with
  | none =>
      rw [hget] at hv
      cases hv
  | some v' =>
      rw [hget] at hv
      cases hv
      exact hw.store.whole.made.subset fun _ => Store.mem_parts_of_get? hget

theorem mirrored_closure? (scope : Nat) (name : String) :
    Mirrored n b (fun b' c => ∀ f ∈ c, f.scope < b') (closure? scope name) := by
  intro w u hw _
  rw [run_closure?, run_closure?, ← hw.store.get?]
  refine ⟨rfl, hw, Nat.le_refl _, fun c hc f hf => ?_⟩
  cases hc
  obtain ⟨v, hget, hfunction⟩ := Option.bind_eq_some_iff.1 hf
  refine hw.store.whole.made f (Store.mem_parts_of_get? hget ?_)
  obtain ⟨d, trail⟩ := v
  cases d <;> cases hfunction
  exact List.mem_singleton_self _

/-- A name is bound in a scope that is younger than the one in which the stores differ. -/
theorem mirrored_define {scope : Nat} (hscope : n < scope) (name : String) {v : Value}
    (hv : Made b v.parts) (span : Span) :
    Mirrored n b (fun _ _ => True) (define scope name v span) := by
  intro w u hw hb
  rw [run_define, run_define, ← hw.store.isLocal hscope name]
  split
  · exact ⟨rfl, hw, Nat.le_refl _, fun _ _ => trivial⟩
  · refine ⟨rfl, ⟨hw.steps, hw.shown, hw.sent, hw.store.bind hscope name (hv.mono hb)⟩, ?_,
      fun _ _ => trivial⟩
    exact Nat.le_of_eq (Store.size_bind _ _ _ _).symm

/-! ### Literals, operators and members -/

theorem made_of_numbers {parts : List Part} (h : ∀ part ∈ parts, ∃ n, part = .number n) :
    Made b parts := by
  intro c hc
  obtain ⟨n, hn⟩ := h _ hc
  cases hn

theorem mirrored_literal (m : Mark) (value : Plain) :
    Mirrored n b (fun b' v => Made b' v.parts) (literal m value) := by
  unfold literal
  split
  · exact mirrored_pure fun _ _ => made_nil
  · split
    · exact mirrored_pure fun _ _ => made_of_numbers (List.forall_mem_singleton.2 ⟨_, rfl⟩)
    · exact (mirrored_blind (blind_shown _)).bind fun _ _ _ _ => mirrored_mismatch _ _
  · exact mirrored_pure fun _ _ => made_nil
  · exact mirrored_mismatch _ _

theorem mirrored_operated (m : Mark) {result : Except Mismatch Data}
    (h : ∀ data, result = .ok data →
      ∀ part ∈ data.parts, ∃ n : Number, part = .number n ∧ n.isFinite = true) :
    Mirrored n b (fun b' v => Made b' v.parts) (operated m result) := by
  cases result with
  | ok data =>
      refine mirrored_pure fun _ _ => made_of_numbers fun part hpart => ?_
      obtain ⟨n, hn, -⟩ := h data rfl part hpart
      exact ⟨n, hn⟩
  | error what => exact mirrored_mismatch _ _

theorem mirrored_element {items : List Host} (h : Made b (Host.partsOf items)) (key : MemberKey)
    (span : Span) : Mirrored n b (fun b' item => Made b' item.parts) (element items key span) := by
  unfold element
  split
  · exact mirrored_mismatch _ _
  · split
    · exact (mirrored_blind (blind_shown _)).bind fun _ _ _ _ => mirrored_mismatch _ _
    · split
      · rename_i item hitem
        have hmem : item ∈ items := by
          split at hitem
          · cases hitem
          · exact List.mem_of_getElem? hitem
        refine mirrored_pure fun _ hb => (h.mono hb).subset fun _ hpart => ?_
        exact Host.mem_partsOf.2 ⟨item, hmem, hpart⟩
      · exact mirrored_throw _

theorem mirrored_entry {entries : List (Key × Host)} (h : Made b (Host.entryParts entries))
    (key : MemberKey) (span : Span) :
    Mirrored n b (fun b' item => Made b' item.parts) (entry entries key span) := by
  unfold entry
  split
  · exact (mirrored_blind (blind_shown _)).bind fun _ _ _ _ => mirrored_mismatch _ _
  · split
    · rename_i item hitem
      refine mirrored_pure fun _ hb => (h.mono hb).subset fun _ hpart => ?_
      exact Host.mem_entryParts_of_itemAt? hitem hpart
    · exact mirrored_throw _

theorem mirrored_member (m : Mark) {target : Value} (h : Made b target.parts) (key : MemberKey)
    (span : Span) : Mirrored n b (fun b' v => Made b' v.parts) (member m target key span) := by
  rw [← parts_unwrapped] at h
  unfold member
  dsimp only
  generalize unwrapped target = source at h
  obtain ⟨data, trail⟩ := source
  -- The item found is made a value and gets a trail, which leaves its parts alone.
  have hitem : ∀ {x : Eval Host}, Mirrored n b (fun b' item => Made b' item.parts) x →
      Mirrored n b (fun b' v => Made b' v.parts) (x >>= fun item =>
        pure ((item.toValue []).withTrail (mergeTrails m.origin [item.toValue [], ⟨data, trail⟩]))) := by
    intro x hx
    refine hx.bind fun b' _ item hitem => mirrored_pure fun _ hb => ?_
    rw [Value.parts_withTrail, Host.parts_toValue]
    exact hitem.mono hb
  dsimp only [Value.data]
  split
  · refine hitem (mirrored_element ?_ key span)
    rw [Host.partsOf_values]
    exact h
  · exact hitem (mirrored_element h key span)
  · exact hitem (mirrored_element h key span)
  · exact hitem (mirrored_entry h key span)
  · exact hitem (mirrored_mismatch _ _)

/-! ### Calls of the library -/

/-- The library makes no functions. -/
theorem made_of_does {site : CallSite} {args : List Value} {e : Effect} (h : Builtin.Does site args e)
    (hargs : Made b (Value.partsOf args)) : Made b e.value.parts := by
  cases h with
  | calculates => exact made_of_numbers (List.forall_mem_singleton.2 ⟨_, rfl⟩)
  | shows hlist =>
      subst hlist
      exact (made_append.1 hargs).1
  | starts | draws | closes | extrudes =>
      intro c hc
      cases List.mem_singleton.1 hc
  | finds =>
      refine made_of_numbers fun part hpart => ?_
      obtain ⟨n, -, hn⟩ := Builtin.number_of_mem_place hpart
      exact ⟨n, hn⟩

theorem mirrored_callLibrary (p : Pass) (entry : LibraryEntry) (name : String) (m : Mark)
    {args : List Value} (hargs : Made b (Value.partsOf args)) :
    Mirrored n b (fun b' v => Made b' v.parts) (p.callLibrary entry name m args) := by
  unfold callLibrary
  split
  · cases heffect : entry.builtin.run ⟨p.code, m⟩ args with
    | ok e =>
        intro w u hw hb
        have hmade := made_of_does (Builtin.does_of_run heffect) hargs
        refine ⟨rfl, ⟨hw.steps, ?_, ?_, hw.store⟩, Nat.le_refl _, fun v hv => ?_⟩
        · show w.shown ++ e.shown = u.shown ++ e.shown
          rw [hw.shown]
        · show w.sent ++ e.sent.toList = u.sent ++ e.sent.toList
          rw [hw.sent]
        · cases hv
          exact hmade.mono hb
    | error refusal =>
        cases refusal with
        | mismatch what => exact mirrored_mismatch _ _
        | fault f => exact mirrored_throw _
  · exact mirrored_mismatch _ _

/-! ### Expressions -/

/-- Functions that were made in scopes that are there do the same when they are called. -/
def EntersMirrored (n : Nat) (enter : Enter) : Prop :=
  ∀ b inv c args, Made b (Value.partsOf inv.hole.toList) → c.scope < b →
    Made b (Value.partsOf args) → Mirrored n b (fun b' v => Made b' v.parts) (enter inv c args)

/-- The frame is in a scope that is there, and the functions in the value that comes in were made in such
scopes. -/
structure Frame.Within (b : Nat) (f : Frame) : Prop where
  scope : f.scope < b
  hole : Made b (Value.partsOf f.hole.toList)

theorem Frame.Within.mono {f : Frame} {b' : Nat} (hb : b ≤ b') (h : Frame.Within b f) :
    Frame.Within b' f :=
  ⟨Nat.lt_of_lt_of_le h.scope hb, h.hole.mono hb⟩

theorem made_some {v : Value} (h : Made b v.parts) : Made b (Value.partsOf (some v).toList) :=
  h.subset fun part hpart => by simpa [Value.partsOf] using hpart

/-- An expression starts with a step and goes one level deeper. -/
theorem mirrored_opening (p : Pass) {f : Frame} (hf : Frame.Within b f) (span : Span)
    {good : Nat → α → Prop} {k : Frame → Eval α}
    (h : ∀ b', b ≤ b' → ∀ f', Frame.Within b' f' → f'.hole = f.hole → Mirrored n b' good (k f')) :
    Mirrored n b good (p.step span >>= fun _ => deeper f >>= k) := by
  refine (mirrored_step p span).bind fun b₁ hb₁ _ _ => ?_
  refine (mirrored_deeper f).bind fun b₂ hb₂ f' hf' => ?_
  have hb := Nat.le_trans hb₁ hb₂
  refine h b₂ hb f' ⟨?_, ?_⟩ hf'.2
  · rw [hf'.1]
    exact (hf.mono hb).scope
  · rw [hf'.2]
    exact (hf.mono hb).hole

section

variable {p : Pass} {enter : Enter}

mutual

theorem mirrored_evaluate (henter : EntersMirrored n enter) :
    (e : Node) → {b : Nat} → {f : Frame} → Frame.Within b f →
      Mirrored n b (fun b' v => Made b' v.parts) (evaluate p enter f e)
  | .literal m value _, _, _, hf => by
      unfold evaluate
      exact mirrored_opening p hf _ fun _ _ _ _ _ => mirrored_literal m value
  | .identifier i, _, _, hf => by
      unfold evaluate
      exact mirrored_opening p hf _ fun _ _ _ _ _ => mirrored_lookup _ _ _
  | .binary m op l r, _, _, hf => by
      unfold evaluate
      refine mirrored_opening p hf _ fun _ _ f hf _ => ?_
      refine (mirrored_evaluate henter l hf).bind fun _ hb v _ => ?_
      refine (mirrored_evaluate henter r (hf.mono hb)).bind fun _ _ w _ => ?_
      exact mirrored_operated m fun _ => isFinite_of_combine
  | .unary m op e, _, _, hf => by
      unfold evaluate
      refine mirrored_opening p hf _ fun _ _ f hf _ => ?_
      refine (mirrored_evaluate henter e hf).bind fun _ _ v _ => ?_
      exact mirrored_operated m fun _ => isFinite_of_convert
  | .call m callee args, _, _, hf => by
      unfold evaluate
      refine mirrored_opening p hf _ fun _ _ f hf _ => ?_
      refine (mirrored_closure? _ _).bind fun _ hb c hc => ?_
      have hf := hf.mono hb
      cases c with
      | some c =>
          refine (mirrored_evaluateAll henter args hf).bind fun _ hb vs hvs => ?_
          exact henter _ _ _ _ (hf.mono hb).hole (Nat.lt_of_lt_of_le (hc c rfl) hb) hvs
      | none =>
          refine (mirrored_blind (blind_libraryEntry p callee)).bind fun _ hb entry _ => ?_
          refine (mirrored_evaluateAll henter args (hf.mono hb)).bind fun _ _ vs hvs => ?_
          exact mirrored_callLibrary p entry _ m hvs
  | .array m es, _, _, hf => by
      unfold evaluate
      refine mirrored_opening p hf _ fun _ _ f hf _ => ?_
      refine (mirrored_evaluateAll henter es hf).bind fun _ _ vs hvs => ?_
      exact mirrored_pure fun _ hb => hvs.mono hb
  | .object m ps, _, _, hf => by
      unfold evaluate
      refine mirrored_opening p hf _ fun _ _ f hf _ => ?_
      refine (mirrored_evaluateEntries henter ps hf).bind fun _ _ es hes => ?_
      exact mirrored_pure fun _ hb => (hes.mono hb).subset fun _ => Host.mem_entryParts_collectEntries
  | .member m e label, _, _, hf => by
      unfold evaluate
      refine mirrored_opening p hf _ fun _ _ f hf _ => ?_
      refine (mirrored_evaluate henter e hf).bind fun _ _ v hv => ?_
      exact mirrored_member m hv _ _
  | .index m e key, _, _, hf => by
      unfold evaluate
      refine mirrored_opening p hf _ fun _ _ f hf _ => ?_
      refine (mirrored_evaluate henter e hf).bind fun _ hb v hv => ?_
      refine (mirrored_evaluate henter key (hf.mono hb)).bind fun _ hb w _ => ?_
      refine (mirrored_blind (blind_memberKey w _)).bind fun _ hb' k _ => ?_
      exact mirrored_member m (hv.mono (Nat.le_trans hb hb')) k _
  | .pipe _ [], _, _, hf => by
      unfold evaluate
      exact mirrored_opening p hf _ fun _ _ _ _ _ => mirrored_throw _
  | .pipe _ (first :: more), _, _, hf => by
      unfold evaluate
      refine mirrored_opening p hf _ fun _ _ f hf _ => ?_
      refine (mirrored_evaluate henter first hf).bind fun _ hb v hv => ?_
      exact mirrored_evaluateStages henter more (hf.mono hb) hv
  | .hole m, _, _, hf => by
      unfold evaluate
      refine mirrored_opening p hf _ fun _ _ f hf _ => ?_
      dsimp only
      cases hhole : f.hole with
      | none => exact mirrored_mismatch _ _
      | some v =>
          refine mirrored_pure fun _ hb => (hf.hole.mono hb).subset fun part hpart => ?_
          simpa [hhole, Value.partsOf] using hpart
  | .function m params body, _, _, hf => by
      unfold evaluate
      refine mirrored_opening p hf _ fun _ _ f hf _ => mirrored_pure fun _ hb c hc => ?_
      cases List.mem_singleton.1 hc
      exact (hf.mono hb).scope
  | .program _ _, _, _, hf | .declaration _ _ _ _, _, _, hf | .statement _ _, _, _, hf
  | .giveBack _ _, _, _, hf | .property _ _ _, _, _, hf => by
      unfold evaluate
      exact mirrored_opening p hf _ fun _ _ _ _ _ => mirrored_mismatch _ _

theorem mirrored_evaluateAll (henter : EntersMirrored n enter) :
    (es : List Node) → {b : Nat} → {f : Frame} → Frame.Within b f →
      Mirrored n b (fun b' vs => Made b' (Value.partsOf vs)) (evaluateAll p enter f es)
  | [], _, _, _ => by
      unfold evaluateAll
      exact mirrored_pure fun _ _ => made_nil
  | e :: rest, _, _, hf => by
      unfold evaluateAll
      refine (mirrored_evaluate henter e hf).bind fun _ hb v hv => ?_
      refine (mirrored_evaluateAll henter rest (hf.mono hb)).bind fun _ hb vs hvs => ?_
      exact mirrored_pure fun _ hb' =>
        made_append.2 ⟨hv.mono (Nat.le_trans hb hb'), hvs.mono hb'⟩

theorem mirrored_evaluateEntries (henter : EntersMirrored n enter) :
    (es : List Node) → {b : Nat} → {f : Frame} → Frame.Within b f →
      Mirrored n b (fun b' entries => Made b' (Host.entryParts entries)) (evaluateEntries p enter f es)
  | [], _, _, _ => by
      unfold evaluateEntries
      exact mirrored_pure fun _ _ => made_nil
  | .property _ key e :: rest, _, _, hf => by
      unfold evaluateEntries
      refine (mirrored_evaluate henter e hf).bind fun _ hb v hv => ?_
      refine (mirrored_evaluateEntries henter rest (hf.mono hb)).bind fun _ hb es hes => ?_
      exact mirrored_pure fun _ hb' =>
        made_append.2 ⟨hv.mono (Nat.le_trans hb hb'), hes.mono hb'⟩
  | .program _ _ :: _, _, _, _ | .declaration _ _ _ _ :: _, _, _, _ | .statement _ _ :: _, _, _, _
  | .giveBack _ _ :: _, _, _, _ | .literal _ _ _ :: _, _, _, _ | .identifier _ :: _, _, _, _
  | .binary _ _ _ _ :: _, _, _, _ | .unary _ _ _ :: _, _, _, _ | .call _ _ _ :: _, _, _, _
  | .array _ _ :: _, _, _, _ | .object _ _ :: _, _, _, _ | .member _ _ _ :: _, _, _, _
  | .index _ _ _ :: _, _, _, _ | .pipe _ _ :: _, _, _, _ | .hole _ :: _, _, _, _
  | .function _ _ _ :: _, _, _, _ => by
      unfold evaluateEntries
      exact mirrored_throw _

theorem mirrored_evaluateStages (henter : EntersMirrored n enter) :
    (es : List Node) → {b : Nat} → {f : Frame} → Frame.Within b f → {v : Value} → Made b v.parts →
      Mirrored n b (fun b' v => Made b' v.parts) (evaluateStages p enter f es v)
  | [], _, _, _, _, hv => by
      unfold evaluateStages
      exact mirrored_pure fun _ hb => hv.mono hb
  | e :: rest, _, f, hf, v, hv => by
      unfold evaluateStages
      have hstage : Frame.Within _ { f with hole := some v } := ⟨hf.scope, made_some hv⟩
      refine (mirrored_evaluate henter e hstage).bind fun _ hb w hw => ?_
      exact mirrored_evaluateStages henter rest (hf.mono hb) hw

end

/-! ### Functions and statements -/

/-- Statements of a function are run in a scope that is younger than the one in which the stores differ. -/
theorem mirrored_execute (henter : EntersMirrored n enter) {f : Frame} (hf : Frame.Within b f)
    (hscope : n < f.scope) (e : Node) :
    Mirrored n b (fun b' v => Made b' (Value.partsOf v.toList)) (execute p enter f e) := by
  unfold execute
  refine (mirrored_step p _).bind fun _ hb _ _ => ?_
  have hf := hf.mono hb
  split
  · refine (mirrored_evaluate henter _ hf).bind fun _ _ v hv => ?_
    exact (mirrored_define hscope _ hv _).bind fun _ _ _ _ => mirrored_pure fun _ _ => made_nil
  · refine (mirrored_evaluate henter _ hf).bind fun _ _ v hv => ?_
    exact mirrored_pure fun _ hb => made_some (hv.mono hb)
  · exact mirrored_mismatch _ _
  · exact mirrored_mismatch _ _

theorem mirrored_runBody (henter : EntersMirrored n enter) {f : Frame} (hscope : n < f.scope)
    (body : List Node) (last : Option Value) {b : Nat} (hf : Frame.Within b f)
    (hlast : Made b (Value.partsOf last.toList)) :
    Mirrored n b (fun b' v => Made b' (Value.partsOf v.toList)) (runBody p enter f body last) := by
  fun_induction runBody p enter f body last generalizing b with
  | case1 last => exact mirrored_pure fun _ hb => hlast.mono hb
  | case2 last m e rest =>
      refine (mirrored_step p _).bind fun _ hb _ _ => ?_
      refine (mirrored_evaluate henter _ (hf.mono hb)).bind fun _ _ v hv => ?_
      exact mirrored_pure fun _ hb => made_some (hv.mono hb)
  | case3 e rest last _ ih =>
      exact (mirrored_execute henter hf hscope e).bind fun _ hb v hv => ih v (hf.mono hb) hv

theorem mirrored_bindParams {scope : Nat} (hscope : n < scope) (params : List Ident)
    (args : List Value) {b : Nat} (hargs : Made b (Value.partsOf args)) :
    Mirrored n b (fun _ _ => True) (bindParams scope params args) := by
  fun_induction bindParams scope params args generalizing b with
  | case1 i params v args ih =>
      obtain ⟨hv, hrest⟩ := made_append.1 hargs
      exact (mirrored_define hscope _ hv _).bind fun _ hb _ _ => ih (hrest.mono hb)
  | case2 => exact mirrored_pure fun _ _ => trivial

/-- A scope that is opened is younger than all that are there. -/
theorem mirrored_openScope {parent : Nat} (hparent : parent < b) (name : String) :
    Mirrored n b (fun b' scope => n < scope ∧ scope < b') (openScope parent name) := by
  intro w u hw hb
  have hrun (w : World) : (openScope parent name).run w =
      (.ok w.store.scopes.size, { w with store := (w.store.openChild parent name).1 }) := rfl
  have hstore := hw.store.openChild (Nat.lt_of_lt_of_le hparent hb) name
  rw [hrun, hrun, ← hw.store.size]
  refine ⟨rfl, ⟨hw.steps, hw.shown, hw.sent, hstore⟩, ?_, fun scope hscope => ?_⟩
  · simp [Store.openChild, Store.push]
  · cases hscope
    exact ⟨hw.store.lt, by simp [Store.openChild, Store.push]⟩

theorem entersMirrored_enterScope (henter : EntersMirrored n enter) :
    EntersMirrored n (p.enterScope enter) := by
  intro b inv c args hhole hc hargs
  unfold enterScope
  refine (mirrored_openScope hc _).bind fun _ hb scope hscope => ?_
  refine (mirrored_bindParams hscope.1 c.params args (hargs.mono hb)).bind fun _ hb' _ _ => ?_
  have hframe : Frame.Within _ ⟨scope, inv.hole, p.limits.nesting⟩ :=
    ⟨Nat.lt_of_lt_of_le hscope.2 hb', hhole.mono (Nat.le_trans hb hb')⟩
  refine (mirrored_runBody henter hscope.1 c.body none hframe made_nil).bind fun _ _ result hresult => ?_
  cases result with
  | none => exact mirrored_mismatch _ _
  | some v =>
      refine mirrored_pure fun _ hb => (hresult.mono hb).subset fun part hpart => ?_
      rw [Value.parts_withTrail] at hpart
      simpa [Value.partsOf] using hpart

end

/-- Calls of functions do the same, however many more may be nested. -/
theorem entersMirrored_call (p : Pass) (left : Nat) : EntersMirrored n (p.call left) := by
  induction left with
  | zero =>
      intro b inv c args _ _ _
      simp only [call]
      split
      · exact mirrored_throw_bind _ _
      · exact mirrored_throw _
  | succ left ih =>
      intro b inv c args hhole hc hargs
      simp only [call]
      split
      · exact mirrored_throw_bind _ _
      · exact entersMirrored_enterScope ih b inv c args hhole hc hargs

end Pass

end PartScript
