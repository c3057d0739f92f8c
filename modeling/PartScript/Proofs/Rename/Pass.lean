import PartScript.Proofs.Rename.World

/-!
The small parts of the evaluator. References that mean the same find values that correspond, and what
is done with such values apart from calling functions in them is the same in both runs.
-/

namespace PartScript

open Edit (Renaming Sight)

/-- The frames are in the same scope, where the old name has some sight, equally deep, and values that
correspond come in. The flag says whether the script's binding may be called. -/
structure Frame.Renamed (r : Renaming) (o : Outlook) (calls : Bool) (σ : Sight) (f g : Frame) :
    Prop where
  scope : f.scope = g.scope
  sight : o.sight f.scope = some σ
  calls : calls = true → o.calls = true
  hole : Option.Rel (Value.Renamed r o) f.hole g.hole
  room : f.room = g.room

theorem Frame.Renamed.mono {r : Renaming} {o o' : Outlook} {calls : Bool} {σ : Sight}
    (hle : o.Le none o') {f g : Frame} (h : f.Renamed r o calls σ g) : f.Renamed r o' calls σ g :=
  ⟨h.scope, hle.same h.sight, fun hc => hle.calls (h.calls hc),
    rel_mono (fun _ _ => .mono hle) h.hole, h.room⟩

namespace Pass

variable {r : Renaming} {p : Pass} {library : Library} {own : Option Nat} {o : Outlook} {σ : Sight}
  {calls : Bool} {f g : Frame}

/-! ### Steps and names -/

theorem step_abreast (span span' : Span) :
    Abreast r library own o (fun _ _ _ => True) (step p span) (step p span') := by
  have hcount : Abreast r library own o (fun _ _ _ => True)
      (modify fun w => { w with steps := w.steps + 1 } : Eval Unit)
      (modify fun w => { w with steps := w.steps + 1 } : Eval Unit) := by
    refine abreast_modify fun w v hw => ⟨o, .refl own o, ?_, trivial⟩
    exact ⟨congrArg (· + 1) hw.steps, hw.sent, hw.shown, hw.store⟩
  refine hcount.bind fun o' _ _ _ _ => abreast_get fun w v hw => ?_
  rw [hw.steps]
  split
  · exact abreast_throw _ _
  · exact abreast_pure trivial

theorem deeper_abreast (h : f.Renamed r o calls σ g) :
    Abreast r library own o (fun o' f g => f.Renamed r o' calls σ g) (deeper f) (deeper g) := by
  unfold deeper
  rw [h.room]
  split
  · exact abreast_pure h
  · exact abreast_throw _ _
  · exact abreast_pure ⟨h.scope, h.sight, h.calls, h.hole, rfl⟩

theorem lookup_abreast {id : Nat} {x y : String} (h : o.Reads r id x y) (span span' : Span) :
    Abreast r library own o (Value.Renamed r) (lookup id x span) (lookup id y span') := by
  refine abreast_get fun w v hw => ?_
  have hget := hw.store.seek (id + 1) h
  rw [← Store.get?_eq_seek, ← Store.get?_eq_seek] at hget
  generalize w.store.get? id x = a at hget
  generalize v.store.get? id y = b at hget
  cases hget with
  | none => exact abreast_throw _ _
  | some hv => exact abreast_pure hv

/-- The name of a callee in the first run and in the second mean the same in a scope. A callee that is
renamed is one that may be called. -/
structure ReadsCallee (r : Renaming) (o : Outlook) (id : Nat) (x y : String) : Prop where
  reads : o.Reads r id x y
  calls : x ≠ y → o.calls = true ∧ x = r.old ∧ y = r.new ∧
    (o.sight id = some .clear ∨ o.sight id = some .passing)

/-- The names are bound to functions that correspond, or to none in either run. Then they are the same,
or the library has neither. -/
theorem closure?_abreast (hnew : library.find? r.new = none) {id : Nat} {x y : String}
    (h : ReadsCallee r o id x y) :
    Abreast r library own o
      (fun o' c c' => Option.Rel (Closure.Renamed r o') c c' ∧
        (c = none → x = y ∨ library.find? x = none ∧ library.find? y = none))
      (closure? id x) (closure? id y) := by
  refine abreast_get fun w v hw => ?_
  have hget := hw.store.seek (id + 1) h.reads
  rw [← Store.get?_eq_seek, ← Store.get?_eq_seek] at hget
  -- A name that is not bound to a function is looked up in the library.
  have hlibrary (hother : ∀ c trail, w.store.get? id x ≠ some (.mk (.function c) trail)) :
      x = y ∨ library.find? x = none ∧ library.find? y = none := by
    by_cases hxy : x = y
    · exact .inl hxy
    · obtain ⟨hcalls, rfl, rfl, hsight⟩ := h.calls hxy
      rcases hw.store.function_of_calls hcalls hsight with hnone | ⟨c, trail, hsome⟩
      · exact .inr ⟨hnone, hnew⟩
      · exact absurd hsome (hother c trail)
  generalize w.store.get? id x = a at hget hlibrary
  generalize v.store.get? id y = b at hget
  cases hget with
  | none => exact abreast_pure ⟨.none, fun _ => hlibrary (by simp)⟩
  | some hv =>
      obtain ⟨hdata⟩ := hv
      cases hdata with
      | function hc => exact abreast_pure ⟨.some hc, by simp⟩
      | number | text | boolean | array | sketch | extrusion | host =>
          exact abreast_pure ⟨.none, fun _ => hlibrary (by simp)⟩

theorem libraryEntry_abreast {i j : Ident} (h : i.name = j.name ∨
    p.library.find? i.name = none ∧ p.library.find? j.name = none) :
    Abreast r library own o (fun _ a b => a = b) (libraryEntry p i) (libraryEntry p j) := by
  unfold libraryEntry
  rcases h with hname | ⟨hi, hj⟩
  · rw [hname]
    split
    · exact abreast_pure rfl
    · exact abreast_throw _ _
  · rw [hi, hj]
    exact abreast_throw _ _

/-! ### Literals, operators and members -/

/-- What fails after a number has been shown fails in any case. -/
theorem mismatch_shown_abreast {α β : Type} {rel : Outlook → α → β → Prop} (n : Number)
    (what : String → Mismatch) (span : Span) :
    Abreast r library own o rel (shown n >>= fun s => mismatch (what s) span)
      (shown n >>= fun s => mismatch (what s) span) := by
  unfold shown
  cases shownNumber n with
  | ok s => exact abreast_mismatch _ _ _ _
  | error e => exact abreast_throw_bind _ _ _ _

theorem literal_abreast (m : Mark) (value : Plain) :
    Abreast r library own o (Value.Renamed r) (literal m value) (literal m value) := by
  unfold literal
  split
  · exact abreast_pure (.mk .boolean)
  · split
    · exact abreast_pure (.mk .number)
    · exact mismatch_shown_abreast _ _ _
  · exact abreast_pure (.mk .text)
  · exact abreast_mismatch _ _ _ _

/-- Data without functions that an operator has made. -/
theorem operated_abreast (m : Mark) {x : Except Mismatch Data}
    (h : ∀ d, x = .ok d → Data.Like (Closure.Renamed r o) d d) :
    Abreast r library own o (Value.Renamed r) (operated m x) (operated m x) := by
  cases x with
  | ok d => exact abreast_pure (.mk (h d rfl))
  | error what => exact abreast_mismatch _ _ _ _

theorem memberKey_abreast (v : Value) (span : Span) :
    Abreast r library own o (fun _ a b => a = b) (memberKey v span) (memberKey v span) := by
  unfold memberKey
  split
  · exact abreast_pure rfl
  · split
    · exact abreast_pure rfl
    · exact abreast_mismatch _ _ _ _

theorem element_abreast {gs hs : List Host} (h : Host.LikeAll (Closure.Renamed r o) gs hs)
    (key : MemberKey) (span : Span) :
    Abreast r library own o (Host.Renamed r) (element gs key span) (element hs key span) := by
  unfold element
  split
  · exact abreast_mismatch _ _ _ _
  · split
    · exact mismatch_shown_abreast _ _ _
    · next i _ =>
      have hitem := rel_ite_none (p := i < 0) (h.getElem? i.toNat)
      generalize (if i < 0 then none else gs[i.toNat]?) = x at hitem
      generalize (if i < 0 then none else hs[i.toNat]?) = y at hitem
      cases hitem with
      | none => exact abreast_throw _ _
      | some hh => exact abreast_pure hh

theorem entry_abreast {es fs : List (Key × Host)} (h : Host.LikeEntries (Closure.Renamed r o) es fs)
    (key : MemberKey) (span : Span) :
    Abreast r library own o (Host.Renamed r) (entry es key span) (entry fs key span) := by
  unfold entry
  split
  · exact mismatch_shown_abreast _ _ _
  · next name =>
    have hitem := itemAt?_like name h
    generalize itemAt? name es = x at hitem
    generalize itemAt? name fs = y at hitem
    cases hitem with
    | none => exact abreast_throw _ _
    | some hh => exact abreast_pure hh

theorem member_abreast (m : Mark) {v v' : Value} (h : v.Renamed r o v') (key : MemberKey)
    (span : Span) :
    Abreast r library own o (Value.Renamed r) (member m v key span) (member m v' key span) := by
  have hsource := (unwrapped_like v h).data
  unfold member
  dsimp only
  generalize unwrapped v = source at hsource
  generalize unwrapped v' = source' at hsource
  -- The item found is made a value, and gets a trail.
  have hitem {x y : Eval Host} (hxy : Abreast r library own o (Host.Renamed r) x y) :
      Abreast r library own o (Value.Renamed r)
        (x >>= fun item => pure ((item.toValue []).withTrail
          (mergeTrails m.origin [item.toValue [], source])))
        (y >>= fun item => pure ((item.toValue []).withTrail
          (mergeTrails m.origin [item.toValue [], source']))) :=
    hxy.bind fun _ _ g g' hg => abreast_pure ((Host.Like.toValue [] [] hg).withTrail _ _)
  generalize source.data = d at hsource
  generalize source'.data = d' at hsource
  cases hsource with
  | array hitems => exact hitem (element_abreast hitems.values key span)
  | host hh =>
      cases hh with
      | list hitems => exact hitem (element_abreast hitems key span)
      | tuple hitems => exact hitem (element_abreast hitems key span)
      | record hentries => exact hitem (entry_abreast hentries key span)
      | null | bool | number | text | value | sketch | extrusion | segment | wall | opaqueItem =>
          exact hitem (abreast_mismatch _ _ _ _)
  | number | text | boolean | sketch | extrusion | function =>
      exact hitem (abreast_mismatch _ _ _ _)

/-! ### Calls of the library -/

theorem perform_abreast {e e' : Effect} (h : e.Like (Closure.Renamed r o) e') :
    Abreast r library own o (Value.Renamed r) (perform e) (perform e') := by
  intro w v hw
  refine ⟨o, .refl own o, ⟨hw.steps, ?_, hw.shown.append h.shown, hw.store⟩, .ok h.value⟩
  change w.sent ++ e.sent.toList = v.sent ++ e'.sent.toList
  rw [hw.sent, h.sent]

theorem callLibrary_abreast (entry : LibraryEntry) (name name' : String) (m : Mark)
    {args args' : List Value} (h : Value.RenamedAll r o args args') :
    Abreast r library own o (Value.Renamed r) (callLibrary p entry name m args)
      (callLibrary p entry name' m args') := by
  unfold callLibrary
  rw [h.length_eq]
  split
  · have heffect := entry.builtin.run_like (.refl ⟨p.code, m⟩) h
    generalize entry.builtin.run ⟨p.code, m⟩ args = x at heffect
    generalize entry.builtin.run ⟨p.code, m⟩ args' = y at heffect
    cases heffect with
    | ok he => exact perform_abreast he
    | error e =>
        cases e with
        | mismatch what => exact abreast_mismatch _ _ _ _
        | fault f => exact abreast_throw _ _
  · exact abreast_mismatch _ _ _ _

/-! ### Renamed references -/

theorem script_in_sight {id : Nat} (hsight : o.sight id = some σ) (hhides : σ.hides = false)
    (hsettled : σ ≠ .unsettled) : o.sight id = some .clear ∨ o.sight id = some .passing := by
  cases σ with
  | clear => exact .inl hsight
  | passing => exact .inr hsight
  | hidden => cases hhides
  | unsettled => exact absurd rfl hsettled

theorem reads_ident {id : Nat} (hsight : o.sight id = some σ) {i : Ident} (hnew : i.name ≠ r.new)
    (hsettled : (i.name != r.old || σ != .unsettled) = true) :
    o.Reads r id i.name (r.ident σ.hides i).name := by
  by_cases hold : i.name = r.old
  · have hne : σ ≠ .unsettled := by simpa [hold] using hsettled
    cases hhides : σ.hides with
    | true =>
        rw [Renaming.ident_hidden, hold]
        exact .hidden (Sight.hides_eq_true.1 hhides ▸ hsight)
    | false =>
        rw [Renaming.name_ident hold, hold]
        exact .renamed (script_in_sight hsight hhides hne)
  · rw [Renaming.ident_of_ne hold]
    exact .other hold hnew

theorem readsCallee_callee {id : Nat} (hsight : o.sight id = some σ)
    (hcalls : calls = true → o.calls = true) {i : Ident} (hnew : i.name ≠ r.new)
    (hsettled : r.settledCallee calls σ i = true) :
    ReadsCallee r o id i.name (r.callee σ.hides i).name := by
  by_cases hold : i.name = r.old
  · cases hdeclared : r.declared with
    | false =>
        -- A name that the script does not declare is kept.
        rw [Renaming.callee, hdeclared, if_neg Bool.false_ne_true, hold]
        exact ⟨.undeclared hdeclared, fun hne => absurd rfl hne⟩
    | true =>
        rw [Renaming.callee, hdeclared, if_pos rfl]
        cases hhides : σ.hides with
        | true =>
            rw [Renaming.ident_hidden, hold]
            exact ⟨.hidden (Sight.hides_eq_true.1 hhides ▸ hsight), fun hne => absurd rfl hne⟩
        | false =>
            -- The script's binding is meant, so it may be called.
            obtain ⟨hne, hc⟩ : σ ≠ .unsettled ∧ calls = true := by
              simpa [Renaming.settledCallee, hdeclared, hold, hhides] using hsettled
            have hscript := script_in_sight hsight hhides hne
            rw [Renaming.name_ident hold, hold]
            exact ⟨.renamed hscript, fun _ => ⟨hcalls hc, rfl, rfl, hscript⟩⟩
  · have hkept : r.callee σ.hides i = i := by
      rw [Renaming.callee, Renaming.ident_of_ne hold, ite_self]
    rw [hkept]
    exact ⟨.other hold hnew, fun hne => absurd rfl hne⟩

end Pass

end PartScript
