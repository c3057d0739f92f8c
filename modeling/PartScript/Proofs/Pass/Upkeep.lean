import PartScript.Proofs.Library.Effects
import PartScript.Proofs.Node.Calls
import PartScript.Proofs.Pass.Frame

/-!
What a pass keeps up. Values are moved around in many ways, but new parts come up in few places:
literals and operators make numbers, a function expression makes a function, and the library makes
shapes when it sends commands. So a property of parts and of the commands sent so far is kept by a
whole pass if the library keeps it. Besides, a call that stands in no function of the script is made
once at most, which accounts for all commands but those sent from functions.
-/

namespace PartScript

/-! ### Calls in and outside functions -/

namespace Node

mutual

/-- The ranges of the calls in a tree that stand in no function, in the order in which they end. -/
def outerCalls : Node → List Range
  | program _ body => outerCallsAll body
  | declaration _ _ _ init => outerCalls init
  | statement _ e => outerCalls e
  | giveBack _ e => outerCalls e
  | literal _ _ _ => []
  | identifier _ => []
  | binary _ _ l r => outerCalls l ++ outerCalls r
  | unary _ _ e => outerCalls e
  | call m _ args => outerCallsAll args ++ [m.span.range]
  | array _ es => outerCallsAll es
  | object _ ps => outerCallsAll ps
  | property _ _ e => outerCalls e
  | member _ e _ => outerCalls e
  | index _ e key => outerCalls e ++ outerCalls key
  | pipe _ stages => outerCallsAll stages
  | hole _ => []
  | function _ _ _ => []

/-- The same for trees in a row. -/
def outerCallsAll : List Node → List Range
  | [] => []
  | n :: rest => outerCalls n ++ outerCallsAll rest

end

mutual

/-- The ranges of the calls that stand in the functions of a tree. -/
def innerCalls : Node → List Range
  | program _ body => innerCallsAll body
  | declaration _ _ _ init => innerCalls init
  | statement _ e => innerCalls e
  | giveBack _ e => innerCalls e
  | literal _ _ _ => []
  | identifier _ => []
  | binary _ _ l r => innerCalls l ++ innerCalls r
  | unary _ _ e => innerCalls e
  | call _ _ args => innerCallsAll args
  | array _ es => innerCallsAll es
  | object _ ps => innerCallsAll ps
  | property _ _ e => innerCalls e
  | member _ e _ => innerCalls e
  | index _ e key => innerCalls e ++ innerCalls key
  | pipe _ stages => innerCallsAll stages
  | hole _ => []
  | function _ _ body => callsAll body

/-- The same for trees in a row. -/
def innerCallsAll : List Node → List Range
  | [] => []
  | n :: rest => innerCalls n ++ innerCallsAll rest

end

mutual

theorem outerCalls_sublist : (n : Node) → n.outerCalls.Sublist n.calls
  | program _ body => outerCallsAll_sublist body
  | declaration _ _ _ e | statement _ e | giveBack _ e | unary _ _ e | property _ _ e
  | member _ e _ => outerCalls_sublist e
  | literal _ _ _ | identifier _ | hole _ => .refl _
  | binary _ _ l r => (outerCalls_sublist l).append (outerCalls_sublist r)
  | call _ _ args => (outerCallsAll_sublist args).append (.refl _)
  | array _ es => outerCallsAll_sublist es
  | object _ ps => outerCallsAll_sublist ps
  | index _ e key => (outerCalls_sublist e).append (outerCalls_sublist key)
  | pipe _ stages => outerCallsAll_sublist stages
  | function _ _ _ => List.nil_sublist _

theorem outerCallsAll_sublist : (ns : List Node) → (outerCallsAll ns).Sublist (callsAll ns)
  | [] => .refl _
  | n :: rest => (outerCalls_sublist n).append (outerCallsAll_sublist rest)

end

mutual

theorem innerCalls_subset : (n : Node) → n.innerCalls ⊆ n.calls
  | program _ body => innerCallsAll_subset body
  | declaration _ _ _ e | statement _ e | giveBack _ e | unary _ _ e | property _ _ e
  | member _ e _ => innerCalls_subset e
  | literal _ _ _ | identifier _ | hole _ => List.Subset.refl _
  | binary _ _ l r => List.append_subset.2
      ⟨List.subset_append_of_subset_left _ (innerCalls_subset l),
        List.subset_append_of_subset_right _ (innerCalls_subset r)⟩
  | call _ _ args => List.subset_append_of_subset_left _ (innerCallsAll_subset args)
  | array _ es => innerCallsAll_subset es
  | object _ ps => innerCallsAll_subset ps
  | index _ e key => List.append_subset.2
      ⟨List.subset_append_of_subset_left _ (innerCalls_subset e),
        List.subset_append_of_subset_right _ (innerCalls_subset key)⟩
  | pipe _ stages => innerCallsAll_subset stages
  | function _ _ _ => List.Subset.refl _

theorem innerCallsAll_subset : (ns : List Node) → innerCallsAll ns ⊆ callsAll ns
  | [] => List.Subset.refl _
  | n :: rest => List.append_subset.2
      ⟨List.subset_append_of_subset_left _ (innerCalls_subset n),
        List.subset_append_of_subset_right _ (innerCallsAll_subset rest)⟩

end

end Node

/-! ### Properties to keep up -/

/-- What is to be kept up: a property of the commands sent so far, one of every part of a value given
those commands, and the ranges from which functions may send. -/
structure Upkeep where
  log : List Command → Prop
  part : List Command → Part → Prop
  inner : Range → Bool

namespace Upkeep

/-- All of some parts have the property. -/
def Fits (u : Upkeep) (log : List Command) (parts : List Part) : Prop :=
  ∀ part ∈ parts, u.part log part

/-- The commands sent have their property, and all parts of what is bound and shown have theirs. -/
structure Holds (u : Upkeep) (w : World) : Prop where
  log : u.log w.sent
  store : u.Fits w.sent w.store.parts
  shown : u.Fits w.sent (Value.partsOf w.shown)

/-- What makes the properties worth keeping up in a pass over a text: they are not lost when more
commands are sent, finite numbers have them, functions have them if they send from the given ranges
only, and the library keeps them. -/
structure Lawful (u : Upkeep) (code : String) : Prop where
  later : ∀ {log part}, u.part log part → ∀ more, u.part (log ++ more) part
  number : ∀ {n : Number}, n.isFinite = true →
    ∀ log, u.part log (.number n) ∧ u.part log (.number n.neg)
  function : ∀ {log c}, u.part log (.function c) ↔ ∀ r ∈ Node.callsAll c.body, u.inner r = true
  run : ∀ {mark log args e}, u.log log → u.Fits log (Value.partsOf args) →
    Builtin.Does ⟨code, mark⟩ args e →
    u.log (log ++ e.sent.toList) ∧
      u.Fits (log ++ e.sent.toList) (e.value.parts ++ Value.partsOf e.shown)

/-- The ranges of those commands that are not sent from functions. -/
def outer (u : Upkeep) (sent : List Command) : List Range :=
  (sent.map (·.range)).filter fun r => !u.inner r

/-- Started in a world where the properties hold and some commands have been sent, the computation
leads to such a world, whether it succeeds or stops. What it sends is accounted for by some calls, and
its result is as it should be. -/
def Kept {α : Type} (u : Upkeep) (log : List Command) (calls : List Range)
    (good : List Command → α → Prop) (x : Eval α) : Prop :=
  ∀ w, log <+: w.sent → u.Holds w →
    u.Holds (x.run w).2 ∧
      (∃ new, (x.run w).2.sent = w.sent ++ new ∧ (u.outer new).Sublist calls) ∧
      ∀ a, (x.run w).1 = .ok a → good (x.run w).2.sent a

/-- All parts of a value have the property. -/
abbrev Good (u : Upkeep) (log : List Command) (v : Value) : Prop := u.Fits log v.parts

/-- The same for values in a row. -/
abbrev GoodAll (u : Upkeep) (log : List Command) (vs : List Value) : Prop :=
  u.Fits log (Value.partsOf vs)

/-- The same for host data. -/
abbrev GoodHost (u : Upkeep) (log : List Command) (h : Host) : Prop := u.Fits log h.parts

section

variable {u : Upkeep} {code : String} {log log' : List Command} {parts parts' : List Part}

theorem fits_append :
    u.Fits log (parts ++ parts') ↔ u.Fits log parts ∧ u.Fits log parts' := by
  simp only [Fits, List.mem_append, or_imp, forall_and]

theorem fits_nil : u.Fits log [] := fun _ hpart => absurd hpart List.not_mem_nil

theorem goodAll_none (u : Upkeep) (log : List Command) :
    u.GoodAll log (none : Option Value).toList := fits_nil

theorem Fits.subset (h : u.Fits log parts) (hsub : ∀ part ∈ parts', part ∈ parts) :
    u.Fits log parts' :=
  fun part hpart => h part (hsub part hpart)

theorem Fits.later (hu : u.Lawful code) (h : u.Fits log parts) (hlog : log <+: log') :
    u.Fits log' parts := by
  obtain ⟨more, rfl⟩ := hlog
  exact fun part hpart => hu.later (h part hpart) more

theorem fits_number (hu : u.Lawful code) {n : Number} (h : n.isFinite = true) :
    u.Fits log [.number n] := by
  intro part hpart
  rw [List.mem_singleton.1 hpart]
  exact (hu.number h log).1

theorem outer_append (u : Upkeep) (sent sent' : List Command) :
    u.outer (sent ++ sent') = u.outer sent ++ u.outer sent' := by
  simp [outer]

/-! ### Computations put together -/

variable {α β : Type} {calls calls' : List Range} {good : List Command → α → Prop}
  {good' : List Command → β → Prop}

theorem kept_pure {a : α} (h : ∀ log', log <+: log' → good log' a) :
    u.Kept log calls good (pure a) := by
  intro w hlog hw
  refine ⟨hw, ⟨[], (List.append_nil _).symm, List.nil_sublist _⟩, fun b hb => ?_⟩
  cases hb
  exact h _ hlog

theorem kept_throw (stop : Stop) : u.Kept log calls good (throw stop : Eval α) :=
  fun _ _ hw => ⟨hw, ⟨[], (List.append_nil _).symm, List.nil_sublist _⟩, nofun⟩

theorem kept_mismatch (what : Mismatch) (span : Span) :
    u.Kept log calls good (Pass.mismatch what span : Eval α) := kept_throw _

theorem Kept.bind {x : Eval α} {f : α → Eval β} (h : u.Kept log calls good x)
    (hf : ∀ log', log <+: log' → ∀ a, good log' a → u.Kept log' calls' good' (f a)) :
    u.Kept log (calls ++ calls') good' (x >>= f) := by
  intro w hlog hw
  obtain ⟨hholds, ⟨new, hnew, hcalls⟩, hgood⟩ := h w hlog hw
  cases hx : x.run w with
  | mk result w' =>
      rw [hx] at hholds hnew hgood
      have hmore : w.sent <+: w'.sent := ⟨new, hnew.symm⟩
      cases result with
      | error stop =>
          rw [Pass.run_bind_error f hx]
          exact ⟨hholds, ⟨new, hnew, hcalls.trans (List.sublist_append_left _ _)⟩, nofun⟩
      | ok a =>
          rw [Pass.run_bind_ok f hx]
          obtain ⟨hlast, ⟨new', hnew', hcalls'⟩, hgood'⟩ :=
            hf w'.sent (hlog.trans hmore) a (hgood a rfl) w' (List.prefix_refl _) hholds
          refine ⟨hlast, ⟨new ++ new', ?_, ?_⟩, hgood'⟩
          · rw [hnew', hnew, List.append_assoc]
          · rw [outer_append]
            exact hcalls.append hcalls'

/-- The same for a first part that makes no calls. -/
theorem Kept.bind_quiet {x : Eval α} {f : α → Eval β} (h : u.Kept log [] good x)
    (hf : ∀ log', log <+: log' → ∀ a, good log' a → u.Kept log' calls good' (f a)) :
    u.Kept log calls good' (x >>= f) :=
  Kept.bind h hf

/-- The same for a second part that makes no calls. -/
theorem Kept.then_quiet {x : Eval α} {f : α → Eval β} (h : u.Kept log calls good x)
    (hf : ∀ log', log <+: log' → ∀ a, good log' a → u.Kept log' [] good' (f a)) :
    u.Kept log calls good' (x >>= f) := by
  have hboth := Kept.bind h hf
  rwa [List.append_nil] at hboth

theorem Kept.more {x : Eval α} (h : u.Kept log calls good x) (hcalls : calls.Sublist calls') :
    u.Kept log calls' good x := by
  intro w hlog hw
  obtain ⟨hholds, ⟨new, hnew, hnewCalls⟩, hgood⟩ := h w hlog hw
  exact ⟨hholds, ⟨new, hnew, hnewCalls.trans hcalls⟩, hgood⟩

/-- Calls made from functions need no account. -/
theorem Kept.inside {x : Eval α} (h : u.Kept log calls good x)
    (hcalls : ∀ r ∈ calls, u.inner r = true) : u.Kept log [] good x := by
  intro w hlog hw
  obtain ⟨hholds, ⟨new, hnew, hnewCalls⟩, hgood⟩ := h w hlog hw
  refine ⟨hholds, ⟨new, hnew, ?_⟩, hgood⟩
  have hnone : u.outer new = [] := by
    refine List.eq_nil_iff_forall_not_mem.2 fun r hr => ?_
    have hinner := hcalls r (hnewCalls.subset hr)
    have houter := (List.mem_filter.1 hr).2
    rw [hinner] at houter
    cases houter
  exact List.sublist_nil.2 hnone

theorem kept_get {f : World → Eval α}
    (h : ∀ w, log <+: w.sent → u.Holds w → u.Kept w.sent calls good (f w)) :
    u.Kept log calls good (get >>= f) := by
  intro w hlog hw
  have hrun : (get >>= f).run w = (f w).run w := rfl
  rw [hrun]
  exact h w hlog hw w (List.prefix_refl _) hw

/-- A change of the world that sends nothing and keeps the properties. -/
theorem kept_modify {f : World → World} (hsent : ∀ w, (f w).sent = w.sent)
    (h : ∀ w, log <+: w.sent → u.Holds w → u.Holds (f w)) :
    u.Kept log [] (fun _ _ => True) (modify f : Eval Unit) := by
  intro w hlog hw
  refine ⟨h w hlog hw, ⟨[], ?_, .refl _⟩, fun _ _ => trivial⟩
  rw [List.append_nil]
  exact hsent w

/-- Nothing goes on behind a stop. -/
theorem kept_throw_bind (stop : Stop) (f : β → Eval α) :
    u.Kept log calls good (throw stop >>= f) :=
  fun _ _ hw => ⟨hw, ⟨[], (List.append_nil _).symm, List.nil_sublist _⟩, nofun⟩

/-- What holds behind a computation still holds after nesting that is too deep has been blamed on a
statement. -/
theorem Kept.blamed {x : Eval α} (h : u.Kept log calls good x) (span : Span) :
    u.Kept log calls good (tryCatch x fun
      | .tooDeep => throw (.wrong (.exhausted .nesting) span)
      | stop => throw stop) := by
  intro w hlog hw
  obtain ⟨hholds, hnew, hgood⟩ := h w hlog hw
  cases hx : x.run w with
  | mk result w' =>
      rw [hx] at hholds hnew hgood
      cases result with
      | ok a =>
          rw [Pass.run_tryCatch_ok hx]
          exact ⟨hholds, hnew, hgood⟩
      | error stop =>
          rw [Pass.run_tryCatch_error hx]
          cases stop with
          | tooDeep | wrong | fault => exact ⟨hholds, hnew, nofun⟩

end

end Upkeep

/-! ### Parts of the evaluator -/

namespace Pass

variable {u : Upkeep} {code : String} {log : List Command}

theorem kept_step (p : Pass) (span : Span) : u.Kept log [] (fun _ _ => True) (p.step span) := by
  have hcount : u.Kept log [] (fun _ _ => True)
      (modify fun w => { w with steps := w.steps + 1 } : Eval Unit) :=
    Upkeep.kept_modify (fun _ => rfl) fun w _ hw => ⟨hw.log, hw.store, hw.shown⟩
  refine hcount.bind_quiet fun _ _ _ _ => Upkeep.kept_get fun w _ _ => ?_
  split
  · exact Upkeep.kept_throw _
  · exact Upkeep.kept_pure fun _ _ => trivial

/-- The frame is in the same scope, and the same value comes in. -/
theorem kept_deeper (f : Frame) :
    u.Kept log [] (fun _ g => g.scope = f.scope ∧ g.hole = f.hole) (deeper f) := by
  unfold deeper
  split
  · exact Upkeep.kept_pure fun _ _ => ⟨rfl, rfl⟩
  · exact Upkeep.kept_throw _
  · exact Upkeep.kept_pure fun _ _ => ⟨rfl, rfl⟩

theorem kept_define (hu : u.Lawful code) (scope : Nat) (name : String) {v : Value}
    (h : u.Good log v) (span : Span) :
    u.Kept log [] (fun _ _ => True) (define scope name v span) := by
  refine Upkeep.kept_get fun w hlog _ => ?_
  split
  · exact Upkeep.kept_throw_bind _ _
  · refine Upkeep.kept_modify (fun _ => rfl) fun w' hlog' hw' => ⟨hw'.log, ?_, hw'.shown⟩
    intro part hpart
    rcases Store.mem_parts_bind hpart with hpart | hpart
    · exact hw'.store part hpart
    · exact h.later hu (hlog.trans hlog') part hpart

theorem kept_lookup (hu : u.Lawful code) (scope : Nat) (name : String) (span : Span) :
    u.Kept log [] u.Good (lookup scope name span) := by
  refine Upkeep.kept_get fun w _ hw => ?_
  cases hget : w.store.get? scope name with
  | none => exact Upkeep.kept_throw _
  | some v =>
      have hv : u.Good w.sent v := hw.store.subset fun _ => Store.mem_parts_of_get? hget
      exact Upkeep.kept_pure fun _ hlog => hv.later hu hlog

theorem kept_closure? (hu : u.Lawful code) (scope : Nat) (name : String) :
    u.Kept log [] (fun _ c => ∀ f ∈ c, ∀ r ∈ Node.callsAll f.body, u.inner r = true)
      (closure? scope name) := by
  refine Upkeep.kept_get fun w _ hw => ?_
  split
  · rename_i f trail hget
    refine Upkeep.kept_pure fun _ _ g hg => ?_
    cases hg
    have hpart : Part.function f ∈ w.store.parts := Store.mem_parts_of_get? hget (.head _)
    exact hu.function.1 (hw.store _ hpart)
  · exact Upkeep.kept_pure fun _ _ => nofun

theorem kept_libraryEntry (p : Pass) (callee : Ident) :
    u.Kept log [] (fun _ _ => True) (p.libraryEntry callee) := by
  unfold libraryEntry
  split
  · exact Upkeep.kept_pure fun _ _ => trivial
  · exact Upkeep.kept_throw _

theorem kept_shown (n : Number) : u.Kept log [] (fun _ _ => True) (shown n) := by
  unfold shown
  split
  · exact Upkeep.kept_pure fun _ _ => trivial
  · exact Upkeep.kept_throw _

theorem kept_literal (hu : u.Lawful code) (m : Mark) (value : Plain) :
    u.Kept log [] u.Good (literal m value) := by
  unfold literal
  split
  · exact Upkeep.kept_pure fun _ _ => Upkeep.fits_nil
  · split
    · rename_i hfinite
      exact Upkeep.kept_pure fun _ _ => Upkeep.fits_number hu hfinite
    · exact (kept_shown _).bind_quiet fun _ _ _ _ => Upkeep.kept_mismatch _ _
  · exact Upkeep.kept_pure fun _ _ => Upkeep.fits_nil
  · exact Upkeep.kept_mismatch _ _

/-- What an operator calculates is finite. -/
theorem isFinite_of_calculate {op : BinaryOp} {a b n : Number} (h : calculate op a b = .ok n) :
    n.isFinite = true := by
  unfold calculate at h
  split at h
  · cases h
  · split at h
    · cases h
    · split at h
      · rename_i hn
        cases h
        exact (Option.filter_eq_some_iff.1 hn).2
      · cases h

/-- What an operator makes of two values is a text or a finite number. -/
theorem isFinite_of_combine {op : BinaryOp} {v w : Value} {data : Data}
    (h : combine op v w = .ok data) :
    ∀ part ∈ data.parts, ∃ n : Number, part = .number n ∧ n.isFinite = true := by
  unfold combine at h
  split at h
  · cases h
    exact fun part hpart => absurd hpart List.not_mem_nil
  · split at h
    · obtain ⟨n, hn, rfl⟩ := map_eq_ok h
      exact List.forall_mem_singleton.2 ⟨n, rfl, isFinite_of_calculate hn⟩
    · cases h

/-- What an operator makes of one value is a truth value or a finite number. -/
theorem isFinite_of_convert {op : UnaryOp} {v : Value} {data : Data} (h : convert op v = .ok data) :
    ∀ part ∈ data.parts, ∃ n : Number, part = .number n ∧ n.isFinite = true := by
  unfold convert at h
  split at h
  · split at h
    · cases h
    · split at h
      · rename_i n _ hfinite
        cases h
        exact List.forall_mem_singleton.2 ⟨_, rfl, Number.isFinite_neg hfinite⟩
      · cases h
  · split at h
    · cases h
      exact fun part hpart => absurd hpart List.not_mem_nil
    · cases h
  · cases h

theorem kept_operated (hu : u.Lawful code) (m : Mark) {result : Except Mismatch Data}
    (h : ∀ data, result = .ok data →
      ∀ part ∈ data.parts, ∃ n : Number, part = .number n ∧ n.isFinite = true) :
    u.Kept log [] u.Good (operated m result) := by
  cases result with
  | ok data =>
      refine Upkeep.kept_pure fun log' _ part hpart => ?_
      obtain ⟨n, rfl, hfinite⟩ := h data rfl part hpart
      exact (hu.number hfinite log').1
  | error what => exact Upkeep.kept_mismatch _ _

theorem kept_memberKey (v : Value) (span : Span) :
    u.Kept log [] (fun _ _ => True) (memberKey v span) := by
  unfold memberKey
  split
  · exact Upkeep.kept_pure fun _ _ => trivial
  · split
    · exact Upkeep.kept_pure fun _ _ => trivial
    · exact Upkeep.kept_mismatch _ _

theorem kept_element (hu : u.Lawful code) {items : List Host} (h : u.Fits log (Host.partsOf items))
    (key : MemberKey) (span : Span) : u.Kept log [] u.GoodHost (element items key span) := by
  unfold element
  split
  · exact Upkeep.kept_mismatch _ _
  · split
    · exact (kept_shown _).bind_quiet fun _ _ _ _ => Upkeep.kept_mismatch _ _
    · split
      · rename_i item hitem
        have hmem : item ∈ items := by
          split at hitem
          · cases hitem
          · exact List.mem_of_getElem? hitem
        have hgood : u.GoodHost log item :=
          h.subset fun _ hpart => Host.mem_partsOf.2 ⟨item, hmem, hpart⟩
        exact Upkeep.kept_pure fun _ hlog => hgood.later hu hlog
      · exact Upkeep.kept_throw _

theorem kept_entry (hu : u.Lawful code) {entries : List (Key × Host)}
    (h : u.Fits log (Host.entryParts entries)) (key : MemberKey) (span : Span) :
    u.Kept log [] u.GoodHost (entry entries key span) := by
  unfold entry
  split
  · exact (kept_shown _).bind_quiet fun _ _ _ _ => Upkeep.kept_mismatch _ _
  · split
    · rename_i item hitem
      have hgood : u.GoodHost log item :=
        h.subset fun _ hpart => Host.mem_entryParts_of_itemAt? hitem hpart
      exact Upkeep.kept_pure fun _ hlog => hgood.later hu hlog
    · exact Upkeep.kept_throw _

theorem kept_member (hu : u.Lawful code) (m : Mark) {target : Value} (h : u.Good log target)
    (key : MemberKey) (span : Span) : u.Kept log [] u.Good (member m target key span) := by
  have hsource : u.Good log (unwrapped target) := by
    rw [Upkeep.Good, parts_unwrapped]
    exact h
  unfold member
  dsimp only
  generalize unwrapped target = source at hsource
  obtain ⟨data, trail⟩ := source
  -- The item found is made a value and gets a trail, which leaves its parts alone.
  have hitem : ∀ {x : Eval Host}, u.Kept log [] u.GoodHost x →
      u.Kept log [] u.Good (x >>= fun item =>
        pure ((item.toValue []).withTrail (mergeTrails m.origin [item.toValue [], ⟨data, trail⟩]))) := by
    intro x hx
    refine hx.bind_quiet fun _ _ item hitem => Upkeep.kept_pure fun _ hlog => ?_
    rw [Upkeep.Good, Value.parts_withTrail, Host.parts_toValue]
    exact hitem.later hu hlog
  dsimp only [Value.data]
  split
  · refine hitem (kept_element hu ?_ key span)
    rw [Host.partsOf_values]
    exact hsource
  · exact hitem (kept_element hu hsource key span)
  · exact hitem (kept_element hu hsource key span)
  · exact hitem (kept_entry hu hsource key span)
  · exact hitem (Upkeep.kept_mismatch _ _)

/-- Letting an effect happen is accounted for by the range of its command. -/
theorem kept_perform (hu : u.Lawful code) {m : Mark} {args : List Value} {e : Effect}
    (hargs : u.GoodAll log args) (h : Builtin.Does ⟨code, m⟩ args e) :
    u.Kept log [m.span.range] u.Good (perform e) := by
  intro w hlog hw
  have hrun : (perform e).run w =
      (.ok e.value, { w with shown := w.shown ++ e.shown, sent := w.sent ++ e.sent.toList }) := rfl
  obtain ⟨hsent, hparts⟩ := hu.run hw.log (hargs.later hu hlog) h
  obtain ⟨hvalue, hshown⟩ := Upkeep.fits_append.1 hparts
  have hmore : w.sent <+: w.sent ++ e.sent.toList := List.prefix_append _ _
  rw [hrun]
  refine ⟨⟨hsent, hw.store.later hu hmore, ?_⟩, ⟨e.sent.toList, rfl, ?_⟩, fun v hv => ?_⟩
  · rw [Value.partsOf_append]
    exact Upkeep.fits_append.2 ⟨hw.shown.later hu hmore, hshown⟩
  · cases hc : e.sent with
    | none => exact List.nil_sublist _
    | some c =>
        have hrange : c.range = m.span.range := (h.sent hc).1
        have hranges : ([c].map (·.range)) = [m.span.range] := by rw [List.map_singleton, hrange]
        rw [Upkeep.outer, Option.toList_some, hranges]
        exact List.filter_sublist
  · cases hv
    exact hvalue

theorem kept_callLibrary (p : Pass) (hu : u.Lawful p.code) (entry : LibraryEntry) (name : String)
    (m : Mark) {args : List Value} (hargs : u.GoodAll log args) :
    u.Kept log [m.span.range] u.Good (p.callLibrary entry name m args) := by
  unfold callLibrary
  split
  · cases heffect : entry.builtin.run ⟨p.code, m⟩ args with
    | ok e => exact kept_perform hu hargs (Builtin.does_of_run heffect)
    | error refusal =>
        cases refusal with
        | mismatch what => exact Upkeep.kept_mismatch _ _
        | fault f => exact Upkeep.kept_throw _
  · exact Upkeep.kept_mismatch _ _

/-! ### Expressions -/

/-- Functions of the script that keep to the given ranges keep the properties when they are called. -/
def EntersKept (u : Upkeep) (enter : Enter) : Prop :=
  ∀ log inv c args, u.GoodAll log inv.hole.toList → (∀ r ∈ Node.callsAll c.body, u.inner r = true) →
    u.GoodAll log args → u.Kept log [] u.Good (enter inv c args)

/-- The functions of the tree keep to the given ranges. -/
def Confined (u : Upkeep) (calls : List Range) : Prop := ∀ r ∈ calls, u.inner r = true

theorem confined_append {calls calls' : List Range} :
    Confined u (calls ++ calls') ↔ Confined u calls ∧ Confined u calls' := by
  simp only [Confined, List.mem_append, or_imp, forall_and]

/-- An expression starts with a step and goes one level deeper. -/
theorem kept_opening {α : Type} (p : Pass) (f : Frame) (span : Span) {calls : List Range}
    {good : List Command → α → Prop} {k : Frame → Eval α}
    (h : ∀ log', log <+: log' → ∀ g : Frame, g.hole = f.hole → u.Kept log' calls good (k g)) :
    u.Kept log calls good (p.step span >>= fun _ => deeper f >>= k) := by
  refine (kept_step p span).bind_quiet fun log₁ h₁ _ _ => ?_
  exact (kept_deeper f).bind_quiet fun log₂ h₂ g hg => h log₂ (h₁.trans h₂) g hg.2

section

variable {p : Pass} {enter : Enter}

mutual

theorem kept_evaluate (hu : u.Lawful p.code) (henter : EntersKept u enter) {log : List Command}
    {f : Frame} (hf : u.GoodAll log f.hole.toList) :
    (n : Node) → Confined u n.innerCalls →
      u.Kept log n.outerCalls u.Good (evaluate p enter f n)
  | .literal m value _, _ => by
      unfold evaluate
      exact kept_opening p f _ fun _ _ g _ => kept_literal hu m value
  | .identifier i, _ => by
      unfold evaluate
      exact kept_opening p f _ fun _ _ g _ => kept_lookup hu _ _ _
  | .binary m op l r, hinner => by
      unfold evaluate
      obtain ⟨hl, hr⟩ := confined_append.1 hinner
      refine kept_opening p f _ fun _ hlog g hg => ?_
      have hf := hg ▸ hf.later hu hlog
      refine (kept_evaluate hu henter hf l hl).bind fun _ hlog v _ => ?_
      refine (kept_evaluate hu henter (hf.later hu hlog) r hr).then_quiet fun _ _ w _ => ?_
      exact kept_operated hu m fun _ => isFinite_of_combine
  | .unary m op e, hinner => by
      unfold evaluate
      refine kept_opening p f _ fun _ hlog g hg => ?_
      have hf := hg ▸ hf.later hu hlog
      refine (kept_evaluate hu henter hf e hinner).then_quiet fun _ _ v _ => ?_
      exact kept_operated hu m fun _ => isFinite_of_convert
  | .call m callee args, hinner => by
      unfold evaluate
      refine kept_opening p f _ fun _ hlog g hg => ?_
      have hf := hg ▸ hf.later hu hlog
      refine (kept_closure? hu _ _).bind_quiet fun _ hlog c hc => ?_
      have hf := hf.later hu hlog
      -- A function of the script sends from its own calls, the library from this one.
      cases c with
      | some c =>
          refine Upkeep.Kept.more ?_ (List.sublist_append_left _ _)
          refine (kept_evaluateAll hu henter hf args hinner).then_quiet fun _ hlog vs hvs => ?_
          exact henter _ _ _ _ (hf.later hu hlog) (hc c rfl) hvs
      | none =>
          refine (kept_libraryEntry p callee).bind_quiet fun _ hlog entry _ => ?_
          refine (kept_evaluateAll hu henter (hf.later hu hlog) args hinner).bind fun _ _ vs hvs => ?_
          exact kept_callLibrary p hu entry _ m hvs
  | .array m es, hinner => by
      unfold evaluate
      refine kept_opening p f _ fun _ hlog g hg => ?_
      have hf := hg ▸ hf.later hu hlog
      refine (kept_evaluateAll hu henter hf es hinner).then_quiet fun _ _ vs hvs => ?_
      exact Upkeep.kept_pure fun _ hlog => hvs.later hu hlog
  | .object m ps, hinner => by
      unfold evaluate
      refine kept_opening p f _ fun _ hlog g hg => ?_
      have hf := hg ▸ hf.later hu hlog
      refine (kept_evaluateEntries hu henter hf ps hinner).then_quiet fun _ _ es hes => ?_
      refine Upkeep.kept_pure fun _ hlog => (hes.later hu hlog).subset fun part hpart => ?_
      exact Host.mem_entryParts_collectEntries hpart
  | .member m e label, hinner => by
      unfold evaluate
      refine kept_opening p f _ fun _ hlog g hg => ?_
      have hf := hg ▸ hf.later hu hlog
      refine (kept_evaluate hu henter hf e hinner).then_quiet fun _ _ v hv => ?_
      exact kept_member hu m hv _ _
  | .index m e key, hinner => by
      unfold evaluate
      obtain ⟨he, hkey⟩ := confined_append.1 hinner
      refine kept_opening p f _ fun _ hlog g hg => ?_
      have hf := hg ▸ hf.later hu hlog
      refine (kept_evaluate hu henter hf e he).bind fun _ hlog v hv => ?_
      refine (kept_evaluate hu henter (hf.later hu hlog) key hkey).then_quiet fun _ hlog w _ => ?_
      refine (kept_memberKey w _).bind_quiet fun _ hlog' k _ => ?_
      exact kept_member hu m (hv.later hu (hlog.trans hlog')) k _
  | .pipe _ [], _ => by
      unfold evaluate
      exact kept_opening p f _ fun _ _ g _ => Upkeep.kept_throw _
  | .pipe _ (first :: more), hinner => by
      unfold evaluate
      obtain ⟨hfirst, hmore⟩ := confined_append.1 hinner
      refine kept_opening p f _ fun _ hlog g hg => ?_
      have hf := hg ▸ hf.later hu hlog
      refine (kept_evaluate hu henter hf first hfirst).bind fun _ _ v hv => ?_
      exact kept_evaluateStages hu henter hv more hmore
  | .hole m, _ => by
      unfold evaluate
      refine kept_opening p f _ fun _ hlog g hg => ?_
      dsimp only
      rw [hg]
      cases hhole : f.hole with
      | none => exact Upkeep.kept_mismatch _ _
      | some v =>
          have hv : u.Good log v :=
            hf.subset fun part hpart => by simpa [hhole, Value.partsOf] using hpart
          exact Upkeep.kept_pure fun _ hlog' => hv.later hu (hlog.trans hlog')
  | .function m params body, hinner => by
      unfold evaluate
      refine kept_opening p f _ fun _ _ g _ => Upkeep.kept_pure fun _ _ part hpart => ?_
      rw [List.mem_singleton.1 hpart]
      exact hu.function.2 hinner
  | .program _ _, _ | .declaration _ _ _ _, _ | .statement _ _, _ | .giveBack _ _, _
  | .property _ _ _, _ => by
      unfold evaluate
      exact kept_opening p f _ fun _ _ g _ => Upkeep.kept_mismatch _ _

theorem kept_evaluateAll (hu : u.Lawful p.code) (henter : EntersKept u enter) {log : List Command}
    {f : Frame} (hf : u.GoodAll log f.hole.toList) :
    (ns : List Node) → Confined u (Node.innerCallsAll ns) →
      u.Kept log (Node.outerCallsAll ns) u.GoodAll (evaluateAll p enter f ns)
  | [], _ => by
      unfold evaluateAll
      exact Upkeep.kept_pure fun _ _ => Upkeep.fits_nil
  | n :: rest, hinner => by
      unfold evaluateAll
      obtain ⟨hn, hrest⟩ := confined_append.1 hinner
      refine (kept_evaluate hu henter hf n hn).bind fun _ hlog v hv => ?_
      refine (kept_evaluateAll hu henter (hf.later hu hlog) rest hrest).then_quiet fun _ hlog vs hvs => ?_
      refine Upkeep.kept_pure fun _ hlog' => ?_
      exact Upkeep.fits_append.2 ⟨hv.later hu (hlog.trans hlog'), hvs.later hu hlog'⟩

theorem kept_evaluateEntries (hu : u.Lawful p.code) (henter : EntersKept u enter)
    {log : List Command} {f : Frame} (hf : u.GoodAll log f.hole.toList) :
    (ns : List Node) → Confined u (Node.innerCallsAll ns) →
      u.Kept log (Node.outerCallsAll ns) (fun log es => u.Fits log (Host.entryParts es))
        (evaluateEntries p enter f ns)
  | [], _ => by
      unfold evaluateEntries
      exact Upkeep.kept_pure fun _ _ => Upkeep.fits_nil
  | .property _ key e :: rest, hinner => by
      unfold evaluateEntries
      obtain ⟨he, hrest⟩ := confined_append.1 hinner
      refine (kept_evaluate hu henter hf e he).bind fun _ hlog v hv => ?_
      refine (kept_evaluateEntries hu henter (hf.later hu hlog) rest hrest).then_quiet
        fun _ hlog es hes => ?_
      refine Upkeep.kept_pure fun _ hlog' => ?_
      exact Upkeep.fits_append.2 ⟨hv.later hu (hlog.trans hlog'), hes.later hu hlog'⟩
  | .program _ _ :: _, _ | .declaration _ _ _ _ :: _, _ | .statement _ _ :: _, _
  | .giveBack _ _ :: _, _ | .literal _ _ _ :: _, _ | .identifier _ :: _, _ | .binary _ _ _ _ :: _, _
  | .unary _ _ _ :: _, _ | .call _ _ _ :: _, _ | .array _ _ :: _, _ | .object _ _ :: _, _
  | .member _ _ _ :: _, _ | .index _ _ _ :: _, _ | .pipe _ _ :: _, _ | .hole _ :: _, _
  | .function _ _ _ :: _, _ => Upkeep.kept_throw _

theorem kept_evaluateStages (hu : u.Lawful p.code) (henter : EntersKept u enter)
    {log : List Command} {f : Frame} {v : Value} (hv : u.Good log v) :
    (ns : List Node) → Confined u (Node.innerCallsAll ns) →
      u.Kept log (Node.outerCallsAll ns) u.Good (evaluateStages p enter f ns v)
  | [], _ => by
      unfold evaluateStages
      exact Upkeep.kept_pure fun _ hlog => hv.later hu hlog
  | n :: rest, hinner => by
      unfold evaluateStages
      obtain ⟨hn, hrest⟩ := confined_append.1 hinner
      have hhole : u.GoodAll log [v] := hv.subset fun part hpart => by
        simpa [Value.partsOf] using hpart
      refine (kept_evaluate hu henter (f := { f with hole := some v }) hhole n hn).bind
        fun _ _ w hw => ?_
      exact kept_evaluateStages hu henter hw rest hrest

end

/-! ### Functions and statements -/

theorem kept_execute (hu : u.Lawful p.code) (henter : EntersKept u enter) {f : Frame}
    (hf : u.GoodAll log f.hole.toList) {n : Node} (hinner : Confined u n.innerCalls) :
    u.Kept log n.outerCalls (fun log v => u.GoodAll log v.toList) (execute p enter f n) := by
  unfold execute
  refine (kept_step p _).bind_quiet fun _ hlog _ _ => ?_
  have hf := hf.later hu hlog
  cases n with
  | declaration m word name init =>
      refine (kept_evaluate hu henter hf init hinner).then_quiet fun _ _ v hv => ?_
      refine (kept_define hu _ _ hv _).bind_quiet fun _ _ _ _ => ?_
      exact Upkeep.kept_pure fun _ _ => Upkeep.fits_nil
  | statement m e =>
      refine (kept_evaluate hu henter hf e hinner).then_quiet fun _ _ v hv => ?_
      refine Upkeep.kept_pure fun _ hlog => (hv.later hu hlog).subset fun part hpart => ?_
      simpa [Value.partsOf] using hpart
  | _ => exact Upkeep.kept_mismatch _ _

theorem kept_runBody (hu : u.Lawful p.code) (henter : EntersKept u enter) {f : Frame}
    (hf : u.GoodAll log f.hole.toList) {ns : List Node} (hinner : Confined u (Node.innerCallsAll ns))
    {last : Option Value} (hlast : u.GoodAll log last.toList) :
    u.Kept log (Node.outerCallsAll ns) (fun log v => u.GoodAll log v.toList)
      (runBody p enter f ns last) := by
  induction ns generalizing log last with
  | nil => exact Upkeep.kept_pure fun _ hlog => hlast.later hu hlog
  | cons n rest ih =>
      obtain ⟨hn, hrest⟩ := confined_append.1 hinner
      have hnext : u.Kept log (n.outerCalls ++ Node.outerCallsAll rest)
          (fun log v => u.GoodAll log v.toList)
          (execute p enter f n >>= runBody p enter f rest) :=
        (kept_execute hu henter hf hn).bind fun _ hlog _ hvalue => ih (hf.later hu hlog) hrest hvalue
      -- A `return` ends the function; any other statement is followed by the rest.
      cases n with
      | giveBack m e =>
          refine Upkeep.Kept.more ?_ (List.sublist_append_left _ _)
          refine (kept_step p _).bind_quiet fun _ hlog _ _ => ?_
          refine (kept_evaluate hu henter (hf.later hu hlog) e hn).then_quiet fun _ _ v hv => ?_
          refine Upkeep.kept_pure fun _ hlog => (hv.later hu hlog).subset fun part hpart => ?_
          simpa [Value.partsOf] using hpart
      | _ => exact hnext

theorem kept_bindParams (hu : u.Lawful code) (scope : Nat) (params : List Ident) {args : List Value}
    (hargs : u.GoodAll log args) :
    u.Kept log [] (fun _ _ => True) (bindParams scope params args) := by
  induction params generalizing args log with
  | nil => exact Upkeep.kept_pure fun _ _ => trivial
  | cons i params ih =>
      cases args with
      | nil => exact Upkeep.kept_pure fun _ _ => trivial
      | cons v args =>
          obtain ⟨hv, hrest⟩ := Upkeep.fits_append.1 hargs
          exact (kept_define hu scope i.name hv i.span).bind_quiet fun _ hlog _ _ =>
            ih (hrest.later hu hlog)

theorem kept_openScope (parent : Nat) (name : String) :
    u.Kept log [] (fun _ _ => True) (openScope parent name) := by
  intro w _ hw
  have hrun : (openScope parent name).run w =
      (.ok w.store.scopes.size, { w with store := (w.store.openChild parent name).1 }) := rfl
  rw [hrun]
  refine ⟨⟨hw.log, ?_, hw.shown⟩, ⟨[], (List.append_nil _).symm, .refl _⟩, fun _ _ => trivial⟩
  rw [Store.parts_openChild]
  exact hw.store

theorem entersKept_enterScope (hu : u.Lawful p.code) (henter : EntersKept u enter) :
    EntersKept u (p.enterScope enter) := by
  intro log inv c args hhole hbody hargs
  unfold enterScope
  refine (kept_openScope _ _).bind_quiet fun _ hlog scope _ => ?_
  refine (kept_bindParams hu scope c.params (hargs.later hu hlog)).bind_quiet fun _ hlog' _ _ => ?_
  have hhole := hhole.later hu (hlog.trans hlog')
  have hinner : Confined u (Node.innerCallsAll c.body) :=
    fun r hr => hbody r (Node.innerCallsAll_subset c.body hr)
  have hrun := (kept_runBody (p := p) (f := ⟨scope, inv.hole, p.limits.nesting⟩) hu henter hhole hinner
    (u.goodAll_none _)).inside
      fun r hr => hbody r ((Node.outerCallsAll_sublist c.body).subset hr)
  refine hrun.bind_quiet fun _ _ result hresult => ?_
  cases result with
  | none => exact Upkeep.kept_mismatch _ _
  | some v =>
      refine Upkeep.kept_pure fun _ hlog => (hresult.later hu hlog).subset fun part hpart => ?_
      simpa [Value.partsOf] using hpart

/-- Calls of functions keep the properties, however many more may be nested. -/
theorem entersKept_call (hu : u.Lawful p.code) (left : Nat) : EntersKept u (p.call left) := by
  induction left with
  | zero =>
      intro log inv c args _ _ _
      simp only [call]
      split
      · exact Upkeep.kept_throw_bind _ _
      · exact Upkeep.kept_throw _
  | succ left ih =>
      intro log inv c args hhole hbody hargs
      simp only [call]
      split
      · exact Upkeep.kept_throw_bind _ _
      · exact entersKept_enterScope hu ih log inv c args hhole hbody hargs

/-- A script keeps the properties, and what it sends is accounted for by its calls outside
functions. -/
theorem kept_runScript (hu : u.Lawful p.code) (scope : Nat) {ns : List Node}
    (hinner : Confined u (Node.innerCallsAll ns)) {last : Option Value}
    (hlast : u.GoodAll log last.toList) :
    u.Kept log (Node.outerCallsAll ns) (fun log v => u.GoodAll log v.toList)
      (p.runScript scope ns last) := by
  induction ns generalizing log last with
  | nil => exact Upkeep.kept_pure fun _ hlog => hlast.later hu hlog
  | cons n rest ih =>
      obtain ⟨hn, hrest⟩ := confined_append.1 hinner
      have henter := entersKept_call hu p.limits.calls
      have hstatement := (kept_execute (p := p) (f := ⟨scope, none, p.limits.nesting⟩) hu henter
        (u.goodAll_none log) hn).blamed n.span
      exact hstatement.bind fun _ hlog _ hvalue => ih hrest hvalue

end

end Pass

/-! ### Runs -/

/-- The value of the last statement, if the run succeeded with one. -/
def Outcome.last? (o : Outcome) : Option Value := o.result.toOption.join

/-- A run ends with a value if its statements do. -/
theorem Pass.last?_run (p : Pass) (store : Store) (scope : Nat) (m : Mark) (body : List Node) :
    (p.run store scope (.program m body)).last? =
      ((p.runScript scope body none).run ⟨0, [], [], store⟩).1.toOption.join := by
  have hresult : (p.run store scope (.program m body)).result =
      ((p.runScript scope body none).run ⟨0, [], [], store⟩).1.mapError
        (Stop.failure (Text.linesOf p.code)) := rfl
  rw [Outcome.last?, hresult]
  cases ((p.runScript scope body none).run ⟨0, [], [], store⟩).1 <;> rfl

/-- A run that starts with the properties ends with them: for what was sent, bound and shown, and for
the value of the last statement. The commands that were not sent from functions are accounted for by
the calls of the script outside functions. -/
theorem Pass.kept_run (p : Pass) {u : Upkeep} (hu : u.Lawful p.code) (hlog : u.log []) {store : Store}
    (hstore : u.Fits [] store.parts) (scope : Nat) {script : Node}
    (hinner : Confined u script.innerCalls) :
    u.log (p.run store scope script).sent ∧
      u.Fits (p.run store scope script).sent
        ((p.run store scope script).store.parts ++
          Value.partsOf ((p.run store scope script).shown ++
            (p.run store scope script).last?.toList)) ∧
      (u.outer (p.run store scope script).sent).Sublist script.outerCalls := by
  cases script with
  | program m body =>
      have hstart : u.Holds ⟨0, [], [], store⟩ := ⟨hlog, hstore, Upkeep.fits_nil⟩
      obtain ⟨hholds, ⟨new, hnew, hcalls⟩, hgood⟩ :=
        kept_runScript hu scope hinner (u.goodAll_none []) _ (List.prefix_refl _) hstart
      refine ⟨hholds.log, Upkeep.fits_append.2 ⟨hholds.store, ?_⟩, ?_⟩
      · rw [Value.partsOf_append]
        refine Upkeep.fits_append.2 ⟨hholds.shown, ?_⟩
        rw [last?_run]
        cases hresult : ((p.runScript scope body none).run ⟨0, [], [], store⟩).1 with
        | error stop => exact Upkeep.fits_nil
        | ok value => exact hgood value hresult
      · have hsent : (p.run store scope (.program m body)).sent = new := hnew
        rw [hsent]
        exact hcalls
  | _ =>
      -- What is no script is not run at all.
      exact ⟨hlog, Upkeep.fits_append.2 ⟨hstore, Upkeep.fits_nil⟩, List.nil_sublist _⟩

end PartScript
