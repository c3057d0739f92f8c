import PartScript.Proofs.Library.Serves
import PartScript.Proofs.Number.Sign
import PartScript.Proofs.Pipe.Pass
import PartScript.Proofs.Sign.Pairs

/-!
A script and the same one without some pairs of minus signs, run one after the other. The second run
tracks the first one: whenever a part of the first succeeds, the corresponding part of the second
succeeds as well, in no more steps, sends the same commands, and shows, binds and gives values that serve
in the place of the first one's. A pair of minus signs makes a number of whatever stands for one, and the
second run goes on with what stands for it.
-/

namespace PartScript

open List (Forall₂)

/-- The second function is the first one without some pairs of minus signs, made in the same scope. -/
structure Closure.Unpairs (c c' : Closure) : Prop where
  params : c.params.map (·.name) = c'.params.map (·.name)
  scope : c.scope = c'.scope
  body : Forall₂ Node.Unpairs c.body c'.body

theorem Closure.unpairs_self (c : Closure) : c.Unpairs c :=
  ⟨rfl, rfl, List.forall₂_same.2 fun _ _ => Node.unpairs_of_bare_eq rfl rfl⟩

theorem Closure.Unpairs.length_params {c c' : Closure} (h : c.Unpairs c') :
    c.params.length = c'.params.length := by
  simpa using congrArg List.length h.params

/-- The second value serves in the place of the first one, with functions that lack pairs of minus signs. -/
abbrev Value.Unpairs : Value → Value → Prop := Value.Serves Closure.Unpairs

/-- The worlds of the two runs. The second one has not taken more steps. -/
structure World.Unpairs (w u : World) : Prop where
  steps : u.steps ≤ w.steps
  sent : w.sent = u.sent
  shown : Forall₂ Value.Unpairs w.shown u.shown
  store : w.store.Matches Value.Unpairs u.store

/-- The frames are in the same scope, the second one has as much room, and what comes in serves. -/
structure Frame.Unpairs (f g : Frame) : Prop where
  scope : f.scope = g.scope
  hole : Option.Rel Value.Unpairs f.hole g.hole
  room : Limits.RoomLe f.room g.room

namespace Pass

/-- Whenever the first computation succeeds the second one does so, from a world that corresponds, with a
related result. -/
def Tracks {α β : Type} (rel : α → β → Prop) (x : Eval α) (y : Eval β) : Prop :=
  ∀ w u a w', x.run w = (.ok a, w') → w.Unpairs u →
    ∃ b u', y.run u = (.ok b, u') ∧ w'.Unpairs u' ∧ rel a b

section

variable {α β γ δ : Type} {rel : α → β → Prop}

theorem tracks_pure {a : α} {b : β} (h : rel a b) : Tracks rel (pure a) (pure b) := by
  intro w u _ _ hrun hw
  rw [run_pure] at hrun
  cases hrun
  exact ⟨b, u, rfl, hw, h⟩

/-- Nothing has to track what stops. -/
theorem tracks_throw (stop : Stop) (y : Eval β) : Tracks rel (throw stop) y := by
  intro w u a w' hrun
  rw [run_throw] at hrun
  cases hrun

theorem tracks_mismatch (what : Mismatch) (span : Span) (y : Eval β) :
    Tracks rel (mismatch what span) y :=
  tracks_throw _ _

theorem tracks_throw_bind (stop : Stop) (f : γ → Eval α) (y : Eval β) :
    Tracks rel (throw stop >>= f) y := by
  intro w u a w' hrun
  rw [run_bind_error f (run_throw stop w)] at hrun
  cases hrun

theorem Tracks.bind {rel' : γ → δ → Prop} {x : Eval α} {y : Eval β} {f : α → Eval γ} {g : β → Eval δ}
    (h : Tracks rel x y) (hf : ∀ a b, rel a b → Tracks rel' (f a) (g b)) :
    Tracks rel' (x >>= f) (y >>= g) := by
  intro w u c w₂ hrun hw
  obtain ⟨a, w₁, hx, hfa⟩ := run_bind_eq_ok hrun
  obtain ⟨b, u₁, hy, hw₁, hab⟩ := h w u a w₁ hx hw
  obtain ⟨d, u₂, hgb, hw₂, hcd⟩ := hf a b hab w₁ u₁ c w₂ hfa hw₁
  exact ⟨d, u₂, by rw [run_bind_ok g hy, hgb], hw₂, hcd⟩

/-- Something that the second run does not do. -/
theorem Tracks.bind_left {rel' : γ → β → Prop} {x : Eval α} {y : Eval β} {f : α → Eval γ}
    (h : Tracks rel x y) (hf : ∀ a b, rel a b → Tracks rel' (f a) (pure b)) :
    Tracks rel' (x >>= f) y := by
  have hbind := h.bind (g := pure) hf
  rw [bind_pure] at hbind
  exact hbind

/-- Computations that read the stores. -/
theorem tracks_of_run {x : Eval α} {y : Eval β} {result : World → Except Stop α}
    {result' : World → Except Stop β} (hx : ∀ w, x.run w = (result w, w))
    (hy : ∀ u, y.run u = (result' u, u))
    (h : ∀ w u, w.Unpairs u → Carries rel (result w) (result' u)) : Tracks rel x y := by
  intro w u a w' hrun hw
  rw [hx] at hrun
  obtain ⟨hresult, rfl⟩ := Prod.mk.inj hrun
  obtain ⟨b, hb, hab⟩ := h w u hw a hresult
  exact ⟨b, u, by rw [hy, hb], hw, hab⟩

end

variable {p : Pass} {f g : Frame}

/-! ### Steps and levels -/

theorem step_tracks (p : Pass) (span span' : Span) :
    Tracks (fun _ _ => True) (p.step span) (p.step span') := by
  intro w u a w' hrun hw
  obtain ⟨hlimit, rfl⟩ := run_step_eq_ok hrun
  have hsteps := hw.steps
  refine ⟨(), { u with steps := u.steps + 1 }, ?_, ?_, trivial⟩
  · rw [run_step, if_neg (by omega)]
  · exact ⟨Nat.succ_le_succ hsteps, hw.sent, hw.shown, hw.store⟩

/-- A step that the second run does not take. -/
theorem tracks_step_left {α β : Type} {rel : α → β → Prop} {span : Span} {x : Eval α} {y : Eval β}
    (h : Tracks rel x y) : Tracks rel (p.step span >>= fun _ => x) y := by
  intro w u a w' hrun hw
  obtain ⟨_, w₁, hstep, hx⟩ := run_bind_eq_ok hrun
  obtain ⟨-, rfl⟩ := run_step_eq_ok hstep
  exact h _ u a w' hx ⟨Nat.le_succ_of_le hw.steps, hw.sent, hw.shown, hw.store⟩

theorem deeper_tracks (hf : f.Unpairs g) : Tracks Frame.Unpairs (deeper f) (deeper g) := by
  obtain ⟨scope, hole, room⟩ := f
  obtain ⟨scope', hole', room'⟩ := g
  obtain ⟨rfl, hhole, hroom⟩ := hf
  match room, room', hroom with
  | none, none, hroom => exact tracks_pure ⟨rfl, hhole, hroom⟩
  | some 0, _, _ => exact tracks_throw _ _
  | some (n + 1), none, hroom => exact tracks_pure ⟨rfl, hhole, trivial⟩
  | some (n + 1), some 0, hroom => exact absurd hroom (Nat.not_succ_le_zero n)
  | some (n + 1), some (n' + 1), hroom => exact tracks_pure ⟨rfl, hhole, Nat.le_of_succ_le_succ hroom⟩

/-- A level that the second run does not go down. -/
theorem tracks_deeper_left {α β : Type} {rel : α → β → Prop} (hf : f.Unpairs g) {x : Frame → Eval α}
    {y : Eval β} (h : ∀ f : Frame, f.Unpairs g → Tracks rel (x f) y) :
    Tracks rel (deeper f >>= x) y := by
  obtain ⟨scope, hole, room⟩ := f
  match room, hf with
  | none, hf => exact h _ hf
  | some 0, _ => exact tracks_throw_bind _ _ _
  | some (n + 1), hf =>
      refine h _ ⟨hf.scope, hf.hole, ?_⟩
      have hroom := hf.room
      match g.room, hroom with
      | none, _ => trivial
      | some n', hroom => exact Nat.le_of_succ_le hroom

/-- An expression starts with a step and goes one level deeper. -/
theorem opening_tracks {α β : Type} {rel : α → β → Prop} (hf : f.Unpairs g) (span span' : Span)
    {x : Frame → Eval α} {y : Frame → Eval β}
    (h : ∀ f g : Frame, f.Unpairs g → Tracks rel (x f) (y g)) :
    Tracks rel (p.step span >>= fun _ => deeper f >>= x) (p.step span' >>= fun _ => deeper g >>= y) :=
  (step_tracks p span span').bind fun _ _ _ => (deeper_tracks hf).bind h

/-! ### Names -/

theorem lookup_tracks (id : Nat) (name : String) (span span' : Span) :
    Tracks Value.Unpairs (lookup id name span) (lookup id name span') := by
  refine tracks_of_run (run_lookup id name span) (run_lookup id name span') fun w u hw => ?_
  have hget := hw.store.get? id name
  generalize w.store.get? id name = x at hget
  generalize u.store.get? id name = y at hget
  cases hget with
  | none => exact carries_error _ _
  | some h => exact carries_ok h

/-- The same library function, or a function of the script and one without some pairs. -/
inductive Callee.Unpairs : Callee → Callee → Prop
  | script {c c' : Closure} (h : c.Unpairs c') : Callee.Unpairs (.script c) (.script c')
  | library {entry} : Callee.Unpairs (.library entry) (.library entry)

/-- What stands for a number is no function. -/
theorem function?_of_number? {v : Value} {n : Number} (h : v.number? = some n) : function? v = none := by
  obtain ⟨d, t⟩ := v
  cases d with
  | function => cases h
  | number | text | boolean | array | sketch | extrusion | host => rfl

theorem function?_unpairs {v v' : Value} (h : v.Unpairs v') :
    Option.Rel Closure.Unpairs (function? v) (function? v') := by
  cases hn : v.number? with
  | some n =>
      rw [function?_of_number? hn, function?_of_number? (h.number?.symm.trans hn)]
      exact .none
  | none =>
      obtain ⟨hd⟩ := h
      cases hd with
      | function hc => exact .some hc
      | number => cases hn
      | text | boolean | array | sketch | extrusion | host => exact .none

theorem closure?_tracks (id : Nat) (name : String) :
    Tracks (Option.Rel Closure.Unpairs) (closure? id name) (closure? id name) := by
  refine tracks_of_run (run_closure? id name) (run_closure? id name) fun w u hw => carries_ok ?_
  have hget := hw.store.get? id name
  generalize w.store.get? id name = x at hget
  generalize u.store.get? id name = y at hget
  cases hget with
  | none => exact .none
  | some h => exact function?_unpairs h

theorem callee_tracks (p : Pass) {i j : Ident} (h : i.name = j.name) (scope : Nat) :
    Tracks Callee.Unpairs (p.callee scope i) (p.callee scope j) := by
  unfold callee libraryEntry
  rw [← h]
  refine (closure?_tracks scope i.name).bind fun c c' hc => ?_
  cases hc with
  | some hc => exact tracks_pure (.script hc)
  | none =>
      dsimp only
      cases p.library.find? i.name with
      | none => exact tracks_throw_bind _ _ _
      | some entry => exact tracks_pure .library

/-! ### Literals, operators and members -/

/-- What fails after a number has been shown fails in any case. -/
theorem tracks_mismatch_shown {α β : Type} {rel : α → β → Prop} (n : Number)
    (what : String → Mismatch) (span : Span) (y : Eval β) :
    Tracks rel (shown n >>= fun s => mismatch (what s) span) y := by
  unfold shown
  cases shownNumber n with
  | ok s => exact tracks_mismatch _ _ _
  | error e => exact tracks_throw_bind _ _ _

theorem literal_tracks (m m' : Mark) (value : Plain) :
    Tracks Value.Unpairs (literal m value) (literal m' value) := by
  unfold literal
  split
  · exact tracks_pure (.mk .boolean)
  · split
    · exact tracks_pure (.mk (.number rfl))
    · exact tracks_mismatch_shown _ _ _ _
  · exact tracks_pure (.mk .text)
  · exact tracks_mismatch _ _ _

theorem operated_tracks (m m' : Mark) {x y : Except Mismatch Data}
    (h : Carries (fun d d' => d = d') x y) :
    Tracks Value.Unpairs (operated m x) (operated m' y) := by
  cases x with
  | error what => exact tracks_mismatch _ _ _
  | ok d =>
      obtain ⟨_, rfl, rfl⟩ := h d rfl
      exact tracks_pure (.mk (Data.serves_self Closure.unpairs_self d))

/-- What comes out of two minus signs is the number that went in. Whatever stands for it serves. -/
theorem minus_minus_tracks (m m' : Mark) {v v' : Value} (hv : v.Unpairs v') :
    Tracks Value.Unpairs
      (operated m' (convert .minus v) >>= fun x => operated m (convert .minus x)) (pure v') := by
  have hnumber := hv.number?
  simp only [convert]
  cases hn : v.number? with
  | none => exact tracks_throw_bind _ _ _
  | some n =>
      dsimp only
      split
      · next hfinite =>
        have hneg := Number.isFinite_neg hfinite
        simp only [operated, pure_bind, Value.number?, Data.number?, hneg, if_true, Number.neg_neg]
        obtain ⟨d, t⟩ := v'
        exact tracks_pure (.mk (.number (hnumber.symm.trans hn)))
      · exact tracks_throw_bind _ _ _

theorem memberKey_tracks {v v' : Value} (h : v.Unpairs v') (span span' : Span) :
    Tracks (fun key key' => key = key') (memberKey v span) (memberKey v' span') := by
  cases hn : v.number? with
  | some n =>
      rw [memberKey_number hn, memberKey_number (h.number?.symm.trans hn)]
      exact tracks_pure rfl
  | none =>
      obtain ⟨hd⟩ := h
      cases hd with
      | text => exact tracks_pure rfl
      | number => cases hn
      | boolean | array | sketch | extrusion | function | host =>
          unfold memberKey
          dsimp only [Value.data]
          rw [hn]
          exact tracks_mismatch _ _ _

theorem element_tracks {gs hs : List Host} (h : Forall₂ (Host.Serves Closure.Unpairs) gs hs)
    (key : MemberKey) (span span' : Span) :
    Tracks (Host.Serves Closure.Unpairs) (element gs key span) (element hs key span') := by
  unfold element
  split
  · exact tracks_mismatch _ _ _
  · split
    · exact tracks_mismatch_shown _ _ _ _
    · next i _ =>
      have hitem := rel_ite_none (p := i < 0) (getElem?_serves h i.toNat)
      generalize (if i < 0 then none else gs[i.toNat]?) = x at hitem
      generalize (if i < 0 then none else hs[i.toNat]?) = y at hitem
      cases hitem with
      | none => exact tracks_throw _ _
      | some hh => exact tracks_pure hh

theorem entry_tracks {es fs : List (Key × Host)} (h : Forall₂ (Host.ServesEntry Closure.Unpairs) es fs)
    (key : MemberKey) (span span' : Span) :
    Tracks (Host.Serves Closure.Unpairs) (entry es key span) (entry fs key span') := by
  unfold entry
  split
  · exact tracks_mismatch_shown _ _ _ _
  · next name =>
    have hitem := itemAt?_serves name h
    generalize itemAt? name es = x at hitem
    generalize itemAt? name fs = y at hitem
    cases hitem with
    | none => exact tracks_throw _ _
    | some hh => exact tracks_pure hh

theorem member_tracks (m m' : Mark) {v v' : Value} (h : v.Unpairs v') (key : MemberKey)
    (span span' : Span) :
    Tracks Value.Unpairs (member m v key span) (member m' v' key span') := by
  have hsource := (unwrapped_serves v h).data
  unfold member
  dsimp only
  generalize unwrapped v = source at hsource
  generalize unwrapped v' = source' at hsource
  -- The item found is made a value, and gets a trail.
  have hitem {x y : Eval Host} (hxy : Tracks (Host.Serves Closure.Unpairs) x y) :
      Tracks Value.Unpairs
        (x >>= fun item => pure ((item.toValue []).withTrail
          (mergeTrails m.origin [item.toValue [], source])))
        (y >>= fun item => pure ((item.toValue []).withTrail
          (mergeTrails m'.origin [item.toValue [], source']))) :=
    hxy.bind fun _ _ hg => tracks_pure ((hg.toValue [] []).withTrail _ _)
  generalize source.data = d at hsource
  generalize source'.data = d' at hsource
  cases hsource with
  | array hitems =>
      exact hitem (element_tracks (List.rel_map (fun _ _ hv => .value hv) hitems) key span span')
  | host hh =>
      cases hh with
      | list hitems => exact hitem (element_tracks hitems key span span')
      | tuple hitems => exact hitem (element_tracks hitems key span span')
      | record hentries => exact hitem (entry_tracks hentries key span span')
      | null | bool | number | text | value | sketch | extrusion | segment | wall | opaqueItem =>
          exact hitem (tracks_mismatch _ _ _)
  | number | text | boolean | sketch | extrusion | function => exact tracks_throw_bind _ _ _

/-! ### Calls -/

theorem perform_tracks {e e' : Effect} (h : e.Serves Closure.Unpairs e') :
    Tracks Value.Unpairs (perform e) (perform e') := by
  intro w u a w' hrun hw
  have hperform (w : World) (e : Effect) : (perform e).run w =
      (.ok e.value, { w with shown := w.shown ++ e.shown, sent := w.sent ++ e.sent.toList }) := rfl
  rw [hperform] at hrun
  cases hrun
  refine ⟨_, _, hperform u e', ⟨hw.steps, ?_, List.rel_append hw.shown h.shown, hw.store⟩, h.value⟩
  show w.sent ++ e.sent.toList = u.sent ++ e'.sent.toList
  rw [hw.sent, h.sent]

theorem callLibrary_tracks (p : Pass) (entry : LibraryEntry) (name name' : String) {m m' : Mark}
    (hrange : m.span.range = m'.span.range) {args args' : List Value}
    (h : Forall₂ Value.Unpairs args args') :
    Tracks Value.Unpairs (p.callLibrary entry name m args) (p.callLibrary entry name' m' args') := by
  unfold callLibrary
  rw [h.length_eq]
  split
  · have hsite : CallSite.Like ⟨p.code, m⟩ ⟨p.code, m'⟩ := ⟨rfl, hrange⟩
    have heffect := entry.builtin.run_serves hsite h
    cases hrun : entry.builtin.run ⟨p.code, m⟩ args with
    | ok e =>
        obtain ⟨e', hrun', he⟩ := heffect e hrun
        rw [hrun']
        exact perform_tracks he
    | error refusal =>
        cases refusal with
        | mismatch what => exact tracks_mismatch _ _ _
        | fault f => exact tracks_throw _ _
  · exact tracks_mismatch _ _ _

/-- Entering a function and one without some pairs, with arguments that serve. -/
def EntersTracking (enter : Enter) : Prop :=
  ∀ inv inv' c c' args args', inv.name = inv'.name → Option.Rel Value.Unpairs inv.hole inv'.hole →
    c.Unpairs c' → Forall₂ Value.Unpairs args args' →
    Tracks Value.Unpairs (enter inv c args) (enter inv' c' args')

theorem invoke_tracks {enter : Enter} (henter : EntersTracking enter) {inv inv' : Invocation}
    (hname : inv.name = inv'.name) (hrange : inv.mark.span.range = inv'.mark.span.range)
    (hhole : Option.Rel Value.Unpairs inv.hole inv'.hole) {args args' : List Value}
    (hargs : Forall₂ Value.Unpairs args args') {c c' : Callee} (hc : c.Unpairs c') :
    Tracks Value.Unpairs (p.invoke enter inv args c) (p.invoke enter inv' args' c') := by
  cases hc with
  | script hc => exact henter inv inv' _ _ args args' hname hhole hc hargs
  | library => exact callLibrary_tracks p _ _ _ hrange hargs

/-! ### Bindings -/

theorem define_tracks (id : Nat) (name : String) {v v' : Value} (hv : v.Unpairs v')
    (span span' : Span) :
    Tracks (fun _ _ => True) (define id name v span) (define id name v' span') := by
  intro w u a w' hrun hw
  have hlocal := hw.store.isLocal id name
  rw [run_define] at hrun
  split at hrun
  · cases hrun
  · next hfree =>
    cases hrun
    refine ⟨(), { u with store := u.store.bind id name v' }, ?_, ?_, trivial⟩
    · rw [run_define, ← hlocal, if_neg hfree]
    · exact ⟨hw.steps, hw.sent, hw.shown, hw.store.bind id name hv⟩

end Pass

end PartScript
