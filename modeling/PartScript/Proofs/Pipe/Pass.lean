import PartScript.Proofs.Pipe.World

/-!
The small parts of the evaluator, in a run with pipes and in one with nested calls: steps and levels,
names, operators, members, calls of the library, and bindings.
-/

namespace PartScript.Pass

/-- The passes differ in the room for nesting alone, of which the second one has `K` levels more. -/
structure Wide (K : Nat) (p q : Pass) : Prop where
  code : p.code = q.code
  library : p.library = q.library
  steps : p.limits.steps = q.limits.steps
  calls : p.limits.calls = q.limits.calls
  nesting : Limits.RoomLe (p.limits.nesting.map (· + K)) q.limits.nesting

variable {L K b k : Nat} {p q : Pass} {inStage : Bool} {f g : Frame}

/-! ### Steps and levels -/

/-- A step that is taken. -/
theorem run_step_eq_ok {span : Span} {w w' : World} {a : Unit}
    (h : (p.step span).run w = (.ok a, w')) :
    w.steps + 1 ≤ p.limits.steps ∧ w' = { w with steps := w.steps + 1 } := by
  rw [run_step] at h
  split at h
  · cases h
  · cases h
    exact ⟨by omega, rfl⟩

theorem step_follows (hpq : Wide K p q) (span span' : Span) :
    Follows p.limits.steps K b (fun _ _ _ => True) (p.step span) (q.step span') := by
  intro w u a w' hrun hw hb
  obtain ⟨hlimit, rfl⟩ := run_step_eq_ok hrun
  refine ⟨⟨Nat.le_succ _, Nat.le_refl _, .inr hlimit⟩, fun hleft => ?_⟩
  simp only [Nat.add_sub_cancel_left] at hleft ⊢
  refine ⟨(), { u with steps := u.steps + 1 }, ?_, hw.withSteps _ _, trivial, Nat.le_refl _⟩
  rw [run_step, if_neg (by rw [← hpq.steps]; omega)]

/-- A step that the second run does not take. -/
theorem follows_step_left {α β : Type} {rel : Nat → α → β → Prop} {span : Span} {x : Eval α}
    {y : Eval β} (h : Follows p.limits.steps K b rel x y) :
    Follows p.limits.steps K b rel (p.step span >>= fun _ => x) y := by
  intro w u a w' hrun hw hb
  obtain ⟨_, w₁, hstep, hx⟩ := run_bind_eq_ok hrun
  obtain ⟨hlimit, rfl⟩ := run_step_eq_ok hstep
  obtain ⟨hadvances, hsucceeds⟩ := h _ u a w' hx (hw.withSteps _ _) hb
  have hsteps := hadvances.steps
  have hmost := hadvances.limit
  simp only at hsteps hmost hsucceeds
  refine ⟨⟨by omega, hadvances.scopes, .inr (by omega)⟩, fun hleft => ?_⟩
  obtain ⟨a', u', hy, hw', hrel, hcost⟩ := hsucceeds (by omega)
  exact ⟨a', u', hy, hw', hrel, by omega⟩

/-- One level deeper the second frame still has room for as many more levels. -/
theorem deeper_follows (hf : f.Nests K b inStage k g) :
    Follows L K b (fun b' f g => f.Nests K b' inStage k g) (deeper f) (deeper g) := by
  obtain ⟨scope, hole, room⟩ := f
  obtain ⟨scope', hole', room'⟩ := g
  obtain ⟨rfl, hlt, hhole, hroom⟩ := hf
  have hinner {r r' : Option Nat} (h : Limits.RoomLe (r.map (· + k)) r') (b' : Nat) (hb : b ≤ b') :
      Frame.Nests K b' inStage k ⟨scope, hole, r⟩ ⟨scope, hole', r'⟩ :=
    Frame.Nests.mono hb ⟨rfl, hlt, hhole, h⟩
  match room, room', hroom with
  | none, none, hroom => exact follows_pure (hinner hroom)
  | some 0, _, _ => exact follows_throw _ _
  | some (n + 1), none, hroom => exact follows_pure (hinner trivial)
  | some (n + 1), some 0, hroom => exact absurd hroom (by simp [Limits.RoomLe])
  | some (n + 1), some (n' + 1), hroom =>
      have hle : n + 1 + k ≤ n' + 1 := hroom
      refine follows_pure (hinner ?_)
      show n + k ≤ n'
      omega

/-- A level that the second run does not go down. -/
theorem follows_deeper_left {α β : Type} {rel : Nat → α → β → Prop} {x : Frame → Eval α} {y : Eval β}
    (h : ∀ room, Limits.RoomLe room f.room → Follows L K b rel (x { f with room := room }) y) :
    Follows L K b rel (deeper f >>= x) y := by
  obtain ⟨scope, hole, room⟩ := f
  match room with
  | none => exact h none trivial
  | some 0 => exact follows_throw_bind _ _ _
  | some (n + 1) => exact h (some n) (Nat.le_succ n)

/-- The frame of a stage and that of the call that it becomes. What is filled into the call stood in the
frame of the pipe. -/
theorem deeper_stage_follows (hf : f.Nests K b inStage (k + 1) g) (hole : Option Value) :
    Follows L K b
      (fun b' f' g' => f'.hole = hole ∧ f'.Nests K b' false k g' ∧ f.Nests K b' inStage k g')
      (deeper { f with hole := hole }) (deeper g) := by
  obtain ⟨scope, hole₀, room⟩ := f
  obtain ⟨scope', hole', room'⟩ := g
  obtain ⟨rfl, hlt, hhole, hroom⟩ := hf
  have hinner {r r' : Option Nat} (h : Limits.RoomLe (r.map (· + k)) r')
      (h' : Limits.RoomLe (room.map (· + k)) r') (b' : Nat) (hb : b ≤ b') :
      hole = hole ∧ Frame.Nests K b' false k ⟨scope, hole, r⟩ ⟨scope, hole', r'⟩ ∧
        Frame.Nests K b' inStage k ⟨scope, hole₀, room⟩ ⟨scope, hole', r'⟩ :=
    ⟨rfl, .mono hb (Frame.nests_outside hlt h _ _), .mono hb ⟨rfl, hlt, hhole, h'⟩⟩
  match room, room', hroom, @hinner with
  | none, none, hroom, hinner => exact follows_pure (hinner hroom hroom)
  | some 0, _, _, _ => exact follows_throw _ _
  | some (n + 1), none, hroom, hinner => exact follows_pure (hinner trivial trivial)
  | some (n + 1), some 0, hroom, _ => exact absurd hroom (by simp [Limits.RoomLe])
  | some (n + 1), some (n' + 1), hroom, hinner =>
      have hle : n + 1 + (k + 1) ≤ n' + 1 := hroom
      have hstage : Limits.RoomLe (some (n + k)) (some n') := by
        show n + k ≤ n'
        omega
      have hpipe : Limits.RoomLe (some (n + 1 + k)) (some n') := by
        show n + 1 + k ≤ n'
        omega
      exact follows_pure (hinner hstage hpipe)

/-- An expression starts with a step and goes one level deeper. -/
theorem opening_follows (hpq : Wide K p q) {α β : Type} {rel : Nat → α → β → Prop}
    (hf : f.Nests K b inStage k g) (span span' : Span) {x : Frame → Eval α} {y : Frame → Eval β}
    (h : ∀ b', b ≤ b' → ∀ f g, f.Nests K b' inStage k g →
      Follows p.limits.steps K b' rel (x f) (y g)) :
    Follows p.limits.steps K b rel (p.step span >>= fun _ => deeper f >>= x)
      (q.step span' >>= fun _ => deeper g >>= y) := by
  refine (step_follows hpq span span').bind fun b₁ hb₁ _ _ _ => ?_
  exact (deeper_follows (hf.mono hb₁)).bind fun b₂ hb₂ f g hf => h b₂ (Nat.le_trans hb₁ hb₂) f g hf

/-! ### Names -/

theorem run_lookup (id : Nat) (name : String) (span : Span) (w : World) :
    (lookup id name span).run w =
      (match w.store.get? id name with
        | some v => .ok v
        | none => .error (.wrong (.undefinedName name) span), w) := by
  have hget : (get : Eval World).run w = (.ok w, w) := rfl
  rw [lookup, run_bind_ok _ hget]
  cases w.store.get? id name <;> rfl

theorem lookup_follows (id : Nat) (name : String) (span span' : Span) :
    Follows L K b (Value.Nests K) (lookup id name span) (lookup id name span') := by
  refine follows_readOnly (readOnly_lookup _ _ _) (readOnly_lookup _ _ _) fun w u v hw _ hv => ?_
  have hget := hw.store.get? id name
  rw [run_lookup] at hv ⊢
  generalize w.store.get? id name = x at hget hv
  generalize u.store.get? id name = y at hget ⊢
  cases hget with
  | none => cases hv
  | some h =>
      obtain rfl := Except.ok.inj hv
      exact ⟨_, rfl, h⟩

/-- What a call calls: a function of the script or one of the library. -/
inductive Callee where
  | script (c : Closure)
  | library (entry : LibraryEntry)

/-- What a name calls, seen from a scope. -/
def callee (p : Pass) (scope : Nat) (i : Ident) : Eval Callee := do
  match ← closure? scope i.name with
  | some c => return .script c
  | none => return .library (← p.libraryEntry i)

/-- Call something with values. -/
def invoke (p : Pass) (enter : Enter) (inv : Invocation) (args : List Value) : Callee → Eval Value
  | .script c => enter inv c args
  | .library entry => p.callLibrary entry inv.name inv.mark args

/-- A call finds what it calls before it looks at its arguments. -/
theorem evaluate_call (p : Pass) (enter : Enter) (f : Frame) (m : Mark) (i : Ident)
    (args : List Node) :
    evaluate p enter f (.call m i args) =
      p.step m.span >>= fun _ => deeper f >>= fun f => p.callee f.scope i >>= fun c =>
        evaluateAll p enter f args >>= fun vs => p.invoke enter ⟨i.name, m, f.hole⟩ vs c := by
  unfold evaluate
  simp only [callee, bind_assoc]
  refine bind_congr fun _ => bind_congr fun f => bind_congr fun c => ?_
  cases c with
  | some c => simp [invoke]
  | none => simp [invoke]

/-- The same library function, or functions of the script that correspond. -/
inductive Callee.Nests (K b : Nat) : Callee → Callee → Prop
  | script {c c'} (h : c.Nests K b c') : Callee.Nests K b (.script c) (.script c')
  | library {entry} : Callee.Nests K b (.library entry) (.library entry)

theorem Callee.Nests.mono {b' : Nat} (hb : b ≤ b') {c c' : Callee} (h : c.Nests K b c') :
    c.Nests K b' c' := by
  cases h with
  | script h => exact .script (h.mono hb)
  | library => exact .library

/-- The function that a value is. -/
def function? : Value → Option Closure
  | .mk (.function c) _ => some c
  | _ => none

theorem run_closure? (id : Nat) (name : String) (w : World) :
    (closure? id name).run w = (.ok ((w.store.get? id name).bind function?), w) := by
  have hget : (get : Eval World).run w = (.ok w, w) := rfl
  rw [closure?, run_bind_ok _ hget]
  cases w.store.get? id name with
  | none => rfl
  | some v =>
      obtain ⟨d, trail⟩ := v
      cases d <;> rfl

theorem function?_nests {v v' : Value} (h : Value.Nests K b v v') :
    Option.Rel (Closure.Nests K b) (function? v) (function? v') := by
  obtain ⟨hd⟩ := h
  cases hd with
  | function hc => exact .some hc
  | number | text | boolean | array | sketch | extrusion | host => exact .none

theorem closure?_follows (id : Nat) (name : String) :
    Follows L K b (fun b' => Option.Rel (Closure.Nests K b')) (closure? id name)
      (closure? id name) := by
  refine follows_readOnly (readOnly_closure? _ _) (readOnly_closure? _ _) fun w u c hw _ hc => ?_
  have hget := hw.store.get? id name
  rw [run_closure?] at hc ⊢
  obtain rfl := Except.ok.inj hc
  refine ⟨_, rfl, ?_⟩
  generalize w.store.get? id name = x at hget
  generalize u.store.get? id name = y at hget
  cases hget with
  | none => exact .none
  | some h => exact function?_nests h

theorem libraryEntry_follows (hpq : Wide K p q) {i j : Ident} (h : i.name = j.name) :
    Follows L K b (fun _ a a' => a = a') (p.libraryEntry i) (q.libraryEntry j) := by
  unfold libraryEntry
  rw [← hpq.library, ← h]
  cases p.library.find? i.name with
  | none => exact follows_throw _ _
  | some entry => exact follows_pure fun _ _ => rfl

theorem callee_follows (hpq : Wide K p q) {i j : Ident} (h : i.name = j.name) (scope : Nat) :
    Follows L K b (Callee.Nests K) (p.callee scope i) (q.callee scope j) := by
  unfold callee
  rw [← h]
  refine (closure?_follows scope i.name).bind fun b' hb c c' hc => ?_
  cases hc with
  | some hc => exact follows_pure fun _ hle => .script (hc.mono hle)
  | none =>
      refine (libraryEntry_follows hpq h).bind fun _ _ entry entry' heq => ?_
      subst heq
      exact follows_pure fun _ _ => .library

/-! ### Literals, operators and members -/

/-- What fails after a number has been shown fails in any case. -/
theorem mismatch_shown_follows {α β : Type} {rel : Nat → α → β → Prop} (n : Number)
    (what : String → Mismatch) (span : Span) (y : Eval β) :
    Follows L K b rel (shown n >>= fun s => mismatch (what s) span) y := by
  unfold shown
  cases shownNumber n with
  | ok s => exact follows_mismatch _ _ _
  | error e => exact follows_throw_bind _ _ _

theorem literal_follows (m m' : Mark) (value : Plain) :
    Follows L K b (Value.Nests K) (literal m value) (literal m' value) := by
  unfold literal
  split
  · exact follows_pure fun _ _ => .mk .boolean
  · split
    · exact follows_pure fun _ _ => .mk .number
    · exact mismatch_shown_follows _ _ _ _
  · exact follows_pure fun _ _ => .mk .text
  · exact follows_mismatch _ _ _

theorem operated_follows (m m' : Mark) {x : Except Mismatch Data}
    (h : ∀ d, x = .ok d → ∀ b', Data.Like (Closure.Nests K b') d d) :
    Follows L K b (Value.Nests K) (operated m x) (operated m' x) := by
  cases x with
  | ok d => exact follows_pure fun b' _ => .mk (h d rfl b')
  | error what => exact follows_mismatch _ _ _

theorem memberKey_follows {v v' : Value} (h : Value.Nests K b v v') (span span' : Span) :
    Follows L K b (fun _ key key' => key = key') (memberKey v span) (memberKey v' span') := by
  rw [memberKey_like h]
  unfold memberKey
  split
  · exact follows_pure fun _ _ => rfl
  · split
    · exact follows_pure fun _ _ => rfl
    · exact follows_mismatch _ _ _

theorem element_follows {gs hs : List Host} (h : Host.LikeAll (Closure.Nests K b) gs hs)
    (key : MemberKey) (span span' : Span) :
    Follows L K b (Host.Nests K) (element gs key span) (element hs key span') := by
  unfold element
  split
  · exact follows_mismatch _ _ _
  · split
    · exact mismatch_shown_follows _ _ _ _
    · next i _ =>
      have hitem := rel_ite_none (p := i < 0) (h.getElem? i.toNat)
      generalize (if i < 0 then none else gs[i.toNat]?) = x at hitem
      generalize (if i < 0 then none else hs[i.toNat]?) = y at hitem
      cases hitem with
      | none => exact follows_throw _ _
      | some hh => exact follows_pure fun _ hb => Host.Nests.mono hb hh

theorem entry_follows {es fs : List (Key × Host)} (h : Host.LikeEntries (Closure.Nests K b) es fs)
    (key : MemberKey) (span span' : Span) :
    Follows L K b (Host.Nests K) (entry es key span) (entry fs key span') := by
  unfold entry
  split
  · exact mismatch_shown_follows _ _ _ _
  · next name =>
    have hitem := itemAt?_like name h
    generalize itemAt? name es = x at hitem
    generalize itemAt? name fs = y at hitem
    cases hitem with
    | none => exact follows_throw _ _
    | some hh => exact follows_pure fun _ hb => Host.Nests.mono hb hh

theorem member_follows (m m' : Mark) {v v' : Value} (h : Value.Nests K b v v') (key : MemberKey)
    (span span' : Span) :
    Follows L K b (Value.Nests K) (member m v key span) (member m' v' key span') := by
  have hsource := (unwrapped_like v h).data
  unfold member
  dsimp only
  generalize unwrapped v = source at hsource
  generalize unwrapped v' = source' at hsource
  -- The item found is made a value, and gets a trail.
  have hitem {x y : Eval Host} (hxy : Follows L K b (Host.Nests K) x y) :
      Follows L K b (Value.Nests K)
        (x >>= fun item => pure ((item.toValue []).withTrail
          (mergeTrails m.origin [item.toValue [], source])))
        (y >>= fun item => pure ((item.toValue []).withTrail
          (mergeTrails m'.origin [item.toValue [], source']))) :=
    hxy.bind fun _ _ g g' hg => follows_pure fun _ hb =>
      (Host.Like.toValue [] [] (hg.mono hb)).withTrail _ _
  generalize source.data = d at hsource
  generalize source'.data = d' at hsource
  cases hsource with
  | array hitems => exact hitem (element_follows hitems.values key span span')
  | host hh =>
      cases hh with
      | list hitems => exact hitem (element_follows hitems key span span')
      | tuple hitems => exact hitem (element_follows hitems key span span')
      | record hentries => exact hitem (entry_follows hentries key span span')
      | null | bool | number | text | value | sketch | extrusion | segment | wall | opaqueItem =>
          exact hitem (follows_mismatch _ _ _)
  | number | text | boolean | sketch | extrusion | function =>
      exact hitem (follows_mismatch _ _ _)

/-! ### Calls -/

theorem perform_follows {e e' : Effect} (h : e.Like (Closure.Nests K b) e') :
    Follows L K b (Value.Nests K) (perform e) (perform e') := by
  intro w u a w' hrun hw hb
  have hperform (w : World) (e : Effect) : (perform e).run w =
      (.ok e.value, { w with shown := w.shown ++ e.shown, sent := w.sent ++ e.sent.toList }) := rfl
  rw [hperform] at hrun
  cases hrun
  have hshown := Value.NestsAll.mono hb h.shown
  refine ⟨⟨Nat.le_refl _, Nat.le_refl _, .inl rfl⟩, fun _ => ⟨_, _, hperform u e', ?_, ?_, ?_⟩⟩
  · refine ⟨?_, hw.shown.append hshown, hw.store, hw.linked⟩
    show w.sent ++ e.sent.toList = u.sent ++ e'.sent.toList
    rw [hw.sent, h.sent]
  · exact Value.Nests.mono hb h.value
  · exact Nat.le_add_right _ _

theorem callLibrary_follows (hpq : Wide K p q) (entry : LibraryEntry) (name name' : String)
    {m m' : Mark} (hrange : m.span.range = m'.span.range) {args args' : List Value}
    (h : Value.NestsAll K b args args') :
    Follows L K b (Value.Nests K) (p.callLibrary entry name m args)
      (q.callLibrary entry name' m' args') := by
  unfold callLibrary
  rw [h.length_eq]
  split
  · have hsite : CallSite.Like ⟨p.code, m⟩ ⟨q.code, m'⟩ := ⟨hpq.code, hrange⟩
    have heffect := entry.builtin.run_like hsite h
    generalize entry.builtin.run ⟨p.code, m⟩ args = x at heffect
    generalize entry.builtin.run ⟨q.code, m'⟩ args' = y at heffect
    cases heffect with
    | ok he => exact perform_follows he
    | error e =>
        cases e with
        | mismatch what => exact follows_mismatch _ _ _
        | fault f => exact follows_throw _ _
  · exact follows_mismatch _ _ _

/-- Entering functions that correspond, with arguments that do. The value of the stage around the call
does not matter. -/
def EntersFollowing (L K : Nat) (enter enter' : Enter) : Prop :=
  ∀ b inv inv' c c' args args', inv.name = inv'.name → c.Nests K b c' →
    Value.NestsAll K b args args' →
    Follows L K b (Value.Nests K) (enter inv c args) (enter' inv' c' args')

theorem invoke_follows (hpq : Wide K p q) {enter enter' : Enter}
    (henter : EntersFollowing L K enter enter') {inv inv' : Invocation} (hname : inv.name = inv'.name)
    (hrange : inv.mark.span.range = inv'.mark.span.range) {args args' : List Value}
    (hargs : Value.NestsAll K b args args') {c c' : Callee} (hc : c.Nests K b c') :
    Follows L K b (Value.Nests K) (p.invoke enter inv args c) (q.invoke enter' inv' args' c') := by
  cases hc with
  | script hc => exact henter b inv inv' _ _ args args' hname hc hargs
  | library => exact callLibrary_follows hpq _ _ _ hrange hargs

/-! ### Bindings -/

end PartScript.Pass
