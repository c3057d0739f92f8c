import PartScript.Proofs.Twin.World

/-!
Twin scripts go in lockstep. No part of the evaluator looks at where something stands or at an
identifier, so each takes the same way on twins: first the small parts, then expressions along their
trees, functions of the script by recursion on the calls that may still be nested, and statements.
-/

namespace PartScript

open List (Forall₂)

/-! ### Records -/

section

variable {R : Ranges} {ids : Ids}

theorem putEntry_twin (key : Key) {h h' : Host} (hh : Host.Twin R ids h h')
    {es fs : List (Key × Host)} (hes : Host.TwinEntries R ids es fs) :
    Host.TwinEntries R ids (putEntry key h es) (putEntry key h' fs) := by
  induction es generalizing fs with
  | nil =>
      cases hes
      exact .cons hh .nil
  | cons e es ih =>
      cases hes with
      | cons he hrest =>
          simp only [putEntry]
          split
          · exact .cons hh hrest
          · exact .cons he (ih hrest)

theorem collectEntries_twin {es fs : List (Key × Host)} (hes : Host.TwinEntries R ids es fs) :
    Host.TwinEntries R ids (collectEntries es) (collectEntries fs) := by
  have hfold (done done' : List (Key × Host)) (hdone : Host.TwinEntries R ids done done') :
      Host.TwinEntries R ids (es.foldl (fun done (k, item) => putEntry k item done) done)
        (fs.foldl (fun done (k, item) => putEntry k item done) done') := by
    induction es generalizing fs done done' with
    | nil =>
        cases hes
        exact hdone
    | cons e es ih =>
        cases hes with
        | cons he hrest => exact ih hrest _ _ (putEntry_twin _ he hdone)
  exact hfold [] [] .nil

theorem itemAt?_twin (name : String) {es fs : List (Key × Host)}
    (hes : Host.TwinEntries R ids es fs) :
    Option.Rel (Host.Twin R ids) (itemAt? name es) (itemAt? name fs) := by
  unfold itemAt?
  induction es generalizing fs with
  | nil =>
      cases hes
      exact .none
  | cons e es ih =>
      cases hes with
      | @cons k _ _ _ _ he hrest =>
          simp only [List.find?_cons]
          cases k == Key.text name with
          | true => exact .some he
          | false => exact ih hrest

theorem Host.TwinAll.getElem? {gs hs : List Host} (h : Host.TwinAll R ids gs hs) (i : Nat) :
    Option.Rel (Host.Twin R ids) gs[i]? hs[i]? := by
  induction gs generalizing hs i with
  | nil =>
      cases h
      exact .none
  | cons g gs ih =>
      cases h with
      | cons hg hrest =>
          cases i with
          | zero => exact .some hg
          | succ i => exact ih hrest i

end

/-! ### Frames and calls -/

/-- The frames are in the same scope, equally deep, with twins coming in. -/
structure Frame.Twin (R : Ranges) (ids : Ids) (f g : Frame) : Prop where
  scope : f.scope = g.scope
  hole : Option.Rel (Value.Twin R ids) f.hole g.hole
  room : f.room = g.room

theorem Frame.Twin.mono {R : Ranges} {ids ids' : Ids} (hle : ids.Le ids') {f g : Frame}
    (h : f.Twin R ids g) : f.Twin R ids' g :=
  ⟨h.scope, rel_mono (fun _ _ => .mono hle) h.hole, h.room⟩

/-- The calls are by the same name, with twins coming in. -/
structure Invocation.Twin (R : Ranges) (ids : Ids) (i j : Invocation) : Prop where
  name : i.name = j.name
  hole : Option.Rel (Value.Twin R ids) i.hole j.hole

namespace Pass

variable {R : Ranges} {code code' : String} {ids : Ids} {limits : Limits} {library : Library}

/-- Entering twin functions with twin arguments goes in lockstep. -/
def EntersAlike (R : Ranges) (code code' : String) (enter enter' : Enter) : Prop :=
  ∀ ids inv inv' c c' args args', Invocation.Twin R ids inv inv' → Closure.Twin R c c' →
    Value.TwinAll R ids args args' →
    Lockstep R code code' ids (Value.Twin R) (enter inv c args) (enter' inv' c' args')

/-! ### Steps and names -/

theorem step_twin (span span' : Span) :
    Lockstep R code code' ids (fun _ _ _ => True) (step ⟨code, limits, library⟩ span)
      (step ⟨code', limits, library⟩ span') := by
  have hcount : Lockstep R code code' ids (fun _ _ _ => True)
      (modify fun w => { w with steps := w.steps + 1 } : Eval Unit)
      (modify fun w => { w with steps := w.steps + 1 } : Eval Unit) := by
    refine lockstep_modify (fun _ => rfl) (fun _ => rfl) fun w v hw _ => ?_
    exact ⟨congrArg (· + 1) hw.steps, hw.sent, hw.shown, hw.store⟩
  refine hcount.bind fun ids' _ _ _ _ => lockstep_get fun w v hw _ => ?_
  rw [hw.steps]
  split
  · exact lockstep_throw .wrong
  · exact lockstep_pure fun _ _ => trivial

theorem deeper_twin {f g : Frame} (h : f.Twin R ids g) :
    Lockstep R code code' ids (Frame.Twin R) (deeper f) (deeper g) := by
  unfold deeper
  rw [h.room]
  split
  · exact lockstep_pure fun ids' hle => h.mono hle
  · exact lockstep_throw .tooDeep
  · exact lockstep_pure fun ids' hle => ⟨h.scope, (h.mono hle).hole, rfl⟩

theorem define_twin (scope : Nat) (name : String) {v w : Value} (h : Value.Twin R ids v w)
    (span span' : Span) :
    Lockstep R code code' ids (fun _ _ _ => True) (define scope name v span)
      (define scope name w span') := by
  refine lockstep_get fun u u' hu hle => ?_
  rw [hu.store.matches.isLocal]
  split
  · exact lockstep_throw_bind .wrong _ _
  · refine lockstep_modify (fun _ => rfl) (fun _ => rfl) fun u u' hu hle' => ?_
    have hstore := (hu.store.matches.bind scope name (h.mono (hle.trans hle'))).twin
    exact ⟨hu.steps, hu.sent, hu.shown, hstore⟩

theorem lookup_twin (scope : Nat) (name : String) (span span' : Span) :
    Lockstep R code code' ids (Value.Twin R) (lookup scope name span) (lookup scope name span') := by
  refine lockstep_get fun u u' hu _ => ?_
  have hget := hu.store.matches.get? scope name
  generalize u.store.get? scope name = x at hget
  generalize u'.store.get? scope name = y at hget
  cases hget with
  | none => exact lockstep_throw .wrong
  | some hv => exact lockstep_pure fun _ hle => hv.mono hle

/-- A name is bound to twin functions, or to no function in either pass. -/
theorem closure?_twin (scope : Nat) (name : String) :
    Lockstep R code code' ids (fun _ => Option.Rel (Closure.Twin R)) (closure? scope name)
      (closure? scope name) := by
  refine lockstep_get fun u u' hu _ => ?_
  have hget := hu.store.matches.get? scope name
  generalize u.store.get? scope name = x at hget
  generalize u'.store.get? scope name = y at hget
  cases hget with
  | none => exact lockstep_pure fun _ _ => .none
  | some hv =>
      obtain ⟨hdata⟩ := hv
      cases hdata with
      | function hc => exact lockstep_pure fun _ _ => .some hc
      | number | text | boolean | array | sketch | extrusion | host =>
          exact lockstep_pure fun _ _ => .none

theorem libraryEntry_twin {i i' : Ident} (h : i.name = i'.name) :
    Lockstep R code code' ids (fun _ a b => a = b) (libraryEntry ⟨code, limits, library⟩ i)
      (libraryEntry ⟨code', limits, library⟩ i') := by
  unfold libraryEntry
  dsimp only
  rw [h]
  split
  · exact lockstep_pure fun _ _ => rfl
  · exact lockstep_throw .wrong

/-! ### Literals, operators and members -/

theorem shown_twin (n : Number) :
    Lockstep R code code' ids (fun _ a b => a = b) (shown n) (shown n) := by
  unfold shown
  split
  · exact lockstep_pure fun _ _ => rfl
  · exact lockstep_throw .fault

/-- A message that shows a number is the same in both passes. -/
theorem mismatch_shown_twin {rel : Ids → α → β → Prop} (n : Number) (what : String → Mismatch)
    (span span' : Span) :
    Lockstep R code code' ids rel (shown n >>= fun s => mismatch (what s) span)
      (shown n >>= fun s => mismatch (what s) span') :=
  (shown_twin n).bind fun _ _ s _ hs => hs ▸ lockstep_mismatch (what s) span span'

theorem literal_twin (m m' : Mark) (value : Plain) :
    Lockstep R code code' ids (Value.Twin R) (literal m value) (literal m' value) := by
  unfold literal
  split
  · exact lockstep_pure fun _ _ => .mk .boolean
  · split
    · exact lockstep_pure fun _ _ => .mk .number
    · exact mismatch_shown_twin _ _ _ _
  · exact lockstep_pure fun _ _ => .mk .text
  · exact lockstep_mismatch _ _ _

theorem combine_number_twin (op : BinaryOp) {v v' w w' : Value} (hv : Value.Twin R ids v v')
    (hw : Value.Twin R ids w w') :
    Agree (Data.Twin R ids)
      (match v.number?, w.number? with
        | some a, some b => (calculate op a b).map .number
        | _, _ => .error (.operands op.text v.kind w.kind))
      (match v'.number?, w'.number? with
        | some a, some b => (calculate op a b).map .number
        | _, _ => .error (.operands op.text v'.kind w'.kind)) := by
  rw [hv.number?, hw.number?, hv.kind, hw.kind]
  split
  · cases calculate op _ _ with
    | ok n => exact .ok .number
    | error what => exact .error what
  · exact .error _

theorem combine_twin (op : BinaryOp) {v v' w w' : Value} (hv : Value.Twin R ids v v')
    (hw : Value.Twin R ids w w') :
    Agree (Data.Twin R ids) (combine op v w) (combine op v' w') := by
  have hnumber := combine_number_twin op hv hw
  -- Two texts are joined; anything else is taken for numbers.
  obtain ⟨hd⟩ := hv
  obtain ⟨he⟩ := hw
  cases op with
  | add =>
      cases hd with
      | text =>
          cases he with
          | text => exact .ok .text
          | number | boolean | array | sketch | extrusion | function | host => exact hnumber
      | number | boolean | array | sketch | extrusion | function | host => exact hnumber
  | sub | mul | div | rem | other => exact hnumber

theorem convert_twin (op : UnaryOp) {v v' : Value} (hv : Value.Twin R ids v v') :
    Agree (Data.Twin R ids) (convert op v) (convert op v') := by
  cases op with
  | minus =>
      simp only [convert, hv.number?, hv.kind]
      split
      · exact .error _
      · split
        · exact .ok .number
        · exact .error _
  | not =>
      obtain ⟨hd⟩ := hv
      cases hd with
      | boolean => exact .ok .boolean
      | number | text | array | sketch | extrusion | function | host => exact .error _
  | other text => exact .error _

theorem operated_twin (m m' : Mark) {x y : Except Mismatch Data} (h : Agree (Data.Twin R ids) x y) :
    Lockstep R code code' ids (Value.Twin R) (operated m x) (operated m' y) := by
  cases h with
  | ok hd => exact lockstep_pure fun _ hle => .mk (hd.mono hle)
  | error what => exact lockstep_mismatch what _ _

theorem memberKey_twin {v v' : Value} (hv : Value.Twin R ids v v') (span span' : Span) :
    Lockstep R code code' ids (fun _ a b => a = b) (memberKey v span) (memberKey v' span') := by
  have hnumber := hv.number?
  have hkind := hv.kind
  obtain ⟨hd⟩ := hv
  unfold memberKey
  cases hd with
  | text => exact lockstep_pure fun _ _ => rfl
  | number | boolean | array | sketch | extrusion | function | host =>
      dsimp only [Value.data]
      rw [hnumber, hkind]
      split
      · exact lockstep_pure fun _ _ => rfl
      · exact lockstep_mismatch _ _ _

theorem unwrapped_twin {v v' : Value} (h : Value.Twin R ids v v') :
    Value.Twin R ids (unwrapped v) (unwrapped v') := by
  fun_induction unwrapped v generalizing v' with
  | case1 v trail ih =>
      cases h with
      | mk h =>
          cases h with
          | host h =>
              cases h with
              | value h =>
                  have hinner := ih h
                  exact hinner
  | case2 v hother =>
      have hsame := h
      cases h with
      | mk h =>
          cases h with
          | number | text | boolean | array | sketch | extrusion | function => exact hsame
          | host h =>
              cases h with
              | value => exact absurd rfl (hother _ _)
              | null | bool | number | text | list | tuple | record | sketch | extrusion | segment
              | wall | opaqueItem => exact hsame

theorem element_twin {gs hs : List Host} (h : Host.TwinAll R ids gs hs) (key : MemberKey)
    (span span' : Span) :
    Lockstep R code code' ids (Host.Twin R) (element gs key span) (element hs key span') := by
  unfold element
  split
  · exact lockstep_mismatch _ _ _
  · split
    · exact mismatch_shown_twin _ _ _ _
    · next i _ =>
      rw [h.length_eq]
      have hitem := rel_ite_none (p := i < 0) (h.getElem? i.toNat)
      generalize (if i < 0 then none else gs[i.toNat]?) = x at hitem
      generalize (if i < 0 then none else hs[i.toNat]?) = y at hitem
      cases hitem with
      | none => exact lockstep_throw .wrong
      | some hh => exact lockstep_pure fun _ hle => hh.mono hle

theorem entry_twin {es fs : List (Key × Host)} (h : Host.TwinEntries R ids es fs)
    (key : MemberKey) (span span' : Span) :
    Lockstep R code code' ids (Host.Twin R) (entry es key span) (entry fs key span') := by
  unfold entry
  split
  · exact mismatch_shown_twin _ _ _ _
  · next name =>
    have hitem := itemAt?_twin name h
    generalize itemAt? name es = x at hitem
    generalize itemAt? name fs = y at hitem
    cases hitem with
    | none => exact lockstep_throw .wrong
    | some hh => exact lockstep_pure fun _ hle => hh.mono hle

theorem member_twin (m m' : Mark) {v v' : Value} (h : Value.Twin R ids v v') (key : MemberKey)
    (span span' : Span) :
    Lockstep R code code' ids (Value.Twin R) (member m v key span) (member m' v' key span') := by
  have hsource := (unwrapped_twin h).data
  have hkind := hsource.kind
  unfold member
  dsimp only
  generalize unwrapped v = source at hsource hkind
  generalize unwrapped v' = source' at hsource hkind
  -- The item found is made a value, and gets a trail.
  have hitem {x y : Eval Host} (hxy : Lockstep R code code' ids (Host.Twin R) x y) :
      Lockstep R code code' ids (Value.Twin R)
        (x >>= fun item => pure ((item.toValue []).withTrail
          (mergeTrails m.origin [item.toValue [], source])))
        (y >>= fun item => pure ((item.toValue []).withTrail
          (mergeTrails m'.origin [item.toValue [], source']))) :=
    hxy.bind fun _ _ g g' hg => lockstep_pure fun _ hle =>
      ((hg.mono hle).toValue [] []).withTrail _ _
  generalize source.data = d at hsource
  generalize source'.data = d' at hsource
  cases hsource with
  | array hitems => exact hitem (element_twin hitems.values key span span')
  | host hh =>
      cases hh with
      | list hitems => exact hitem (element_twin hitems key span span')
      | tuple hitems => exact hitem (element_twin hitems key span span')
      | record hentries => exact hitem (entry_twin hentries key span span')
      | null | bool | number | text | value | sketch | extrusion | segment | wall | opaqueItem =>
          exact hitem (lockstep_mismatch _ _ _)
  | number | text | boolean | sketch | extrusion | function =>
      exact hitem (lockstep_mismatch _ _ _)

/-! ### Calls of the library -/

/-- Twin effects extend twin worlds to twin worlds. -/
theorem perform_twin {e e' : Effect} (h : Effect.Twin R code code' ids e e') :
    Lockstep R code code' ids (Value.Twin R) (perform e) (perform e') := by
  intro w v hw hle
  have hrun (e : Effect) (w : World) : (perform e).run w =
      (.ok e.value, { w with shown := w.shown ++ e.shown, sent := w.sent ++ e.sent.toList }) := rfl
  rw [hrun, hrun]
  cases h.mono hle with
  | quiet hvalue hshown =>
      simp only [Option.toList_none, List.append_nil]
      exact ⟨⟨hw.steps, hw.sent, hw.shown.append hshown, hw.store⟩, .refl _, .ok hvalue⟩
  | @sending a a' c c' hsent hvalue =>
      simp only [Option.toList_some, List.append_nil]
      have hlength := hw.sent.length_eq
      have hmore := paired_le_snoc c c' hlength
      have hadd : (Ids.add (paired w.sent v.sent) c.id c'.id).Le
          (paired (w.sent ++ [c]) (v.sent ++ [c'])) :=
        fun a b hab => (paired_snoc hlength a b).2 hab
      exact ⟨⟨hw.steps, .snoc hw.sent hsent, hw.shown.mono hmore, hw.store.mono hmore⟩, hmore,
        .ok (hvalue.mono hadd)⟩

theorem callLibrary_twin (entry : LibraryEntry) {name name' : String} (hname : name = name')
    {m m' : Mark} (hrange : R m.span.range m'.span.range) {args args' : List Value}
    (h : Value.TwinAll R ids args args') :
    Lockstep R code code' ids (Value.Twin R)
      (callLibrary ⟨code, limits, library⟩ entry name m args)
      (callLibrary ⟨code', limits, library⟩ entry name' m' args') := by
  unfold callLibrary
  rw [hname, h.length_eq]
  split
  · have heffect : Agree (Effect.Twin R code code' ids) (entry.builtin.run ⟨code, m⟩ args)
        (entry.builtin.run ⟨code', m'⟩ args') := Builtin.run_twin hrange entry.builtin h
    generalize entry.builtin.run ⟨code, m⟩ args = x at heffect
    generalize entry.builtin.run ⟨code', m'⟩ args' = y at heffect
    cases heffect with
    | ok he => exact perform_twin he
    | error e =>
        cases e with
        | mismatch what => exact lockstep_mismatch what _ _
        | fault f => exact lockstep_throw .fault
  · exact lockstep_mismatch _ _ _

end Pass

end PartScript
