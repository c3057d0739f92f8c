import PartScript.Proofs.Library.Faults
import PartScript.Proofs.Node.Runnable
import PartScript.Proofs.Pass.Budgets
import PartScript.Proofs.Pass.Upkeep

/-!
What can stop a pass. A pass stops because something in the script is wrong or a budget is used up, and
both have their place in the script. It may also stop by a fault, which has none. Faults come up in few
places: where a number is written into a message, where a tree is not what a text can say, and in the
library. So a guard says which numbers and which nodes may occur and which faults are accepted, and if the
faults in these places are accepted then no other one stops the pass.
-/

namespace PartScript

/-- The numbers and the nodes of trees that may occur, and the faults that are accepted. -/
structure Guard where
  number : Number → Prop
  node : Node → Prop
  fault : Fault → Prop

namespace Guard

/-- All nodes of a tree may occur. -/
def Tree (g : Guard) (n : Node) : Prop := ∀ m ∈ n.walk, g.node m

/-- All nodes of trees in a row may occur. -/
def Trees (g : Guard) (ns : List Node) : Prop := ∀ n ∈ ns, g.Tree n

/-- The part of a value may occur: the coordinates of a shape round to floats, a number may occur, and the
body of a function is of nodes that may occur. -/
structure Allows (g : Guard) (part : Part) : Prop where
  usable : part.Usable
  number : ∀ n, part = .number n → g.number n
  function : ∀ c, part = .function c → g.Trees c.body

/-- All of some parts may occur. -/
def Fits (g : Guard) (parts : List Part) : Prop := ∀ part ∈ parts, g.Allows part

/-- All numbers that round to floats may occur, and the faults that can come up are accepted: those of
writing a number, of running a node, and of calling a function of the library with a number of arguments
that only the name it is called by accepts. -/
structure Lawful (g : Guard) (library : Library) : Prop where
  rounds : ∀ {n}, n.Rounds → g.number n
  shown : ∀ {n f}, g.number n → Pass.shownNumber n = .error f → g.fault f
  literal : ∀ {m n raw}, g.node (.literal m (.number n) raw) → g.number n
  pipe : ∀ {m}, g.node (.pipe m []) → g.fault .runEmptyPipe
  object : ∀ {m ps}, g.node (.object m ps) → ∀ p ∈ ps, p.IsEntry ∨ g.fault .malformed
  library : ∀ entry ∈ library, ∀ count : Nat, entry.arity.accepts count = true →
    entry.builtin.arity.accepts count = false → ∀ f, Builtin.Misfit f → g.fault f

/-- A stop that is no fault, or an accepted one. -/
def Accepts (g : Guard) : Stop → Prop
  | .fault f => g.fault f
  | .wrong _ _ | .tooDeep => True

/-- Started where everything may occur, the computation leads to such a world, and it has a good result or
an accepted stop. -/
def Safe {α : Type} (g : Guard) (good : α → Prop) (x : Eval α) : Prop :=
  ∀ w, g.Fits w.store.parts → g.Fits (x.run w).2.store.parts ∧ Settles g.Accepts good (x.run w).1

/-- All parts of a value may occur. -/
abbrev Good (g : Guard) (v : Value) : Prop := g.Fits v.parts

/-- The same for values in a row. -/
abbrev GoodAll (g : Guard) (vs : List Value) : Prop := g.Fits (Value.partsOf vs)

section

variable {g : Guard} {library : Library} {parts parts' : List Part}

theorem fits_append : g.Fits (parts ++ parts') ↔ g.Fits parts ∧ g.Fits parts' := by
  simp only [Fits, List.mem_append, or_imp, forall_and]

theorem fits_nil : g.Fits [] := fun _ hpart => absurd hpart List.not_mem_nil

theorem Fits.subset (h : g.Fits parts) (hsub : ∀ part ∈ parts', part ∈ parts) : g.Fits parts' :=
  fun part hpart => h part (hsub part hpart)

theorem Tree.self {n : Node} (h : g.Tree n) : g.node n := h n n.mem_walk

theorem Tree.child {n child : Node} (h : g.Tree n) (hchild : child ∈ n.children) : g.Tree child :=
  fun m hm => h m (Node.walk_subset_of_mem_children hchild hm)

theorem trees_cons {n : Node} {ns : List Node} : g.Trees (n :: ns) ↔ g.Tree n ∧ g.Trees ns :=
  List.forall_mem_cons

theorem allows_number {n : Number} (h : g.number n) : g.Allows (.number n) where
  usable := trivial
  number m hm := by
    cases hm
    exact h
  function c hc := by cases hc

theorem good_number {n : Number} (h : g.number n) (trail : List Origin) : g.Good (.ofNumber n trail) :=
  List.forall_mem_singleton.2 (allows_number h)

theorem good_function {c : Closure} (h : g.Trees c.body) (trail : List Origin) :
    g.Good (.mk (.function c) trail) := by
  refine List.forall_mem_singleton.2 ⟨trivial, fun n hn => ?_, fun c' hc => ?_⟩
  · cases hn
  · cases hc
    exact h

theorem goodAll_none (g : Guard) : g.GoodAll (none : Option Value).toList := fits_nil

theorem goodAll_some {v : Value} (h : g.Good v) : g.GoodAll (some v).toList :=
  h.subset fun part hpart => by simpa [Value.partsOf] using hpart

/-! ### Computations put together -/

variable {α β : Type} {good : α → Prop} {good' : β → Prop}

theorem safe_pure {a : α} (h : good a) : g.Safe good (pure a) := fun _ hw => ⟨hw, h⟩

theorem safe_throw {stop : Stop} (h : g.Accepts stop) : g.Safe good (throw stop : Eval α) :=
  fun _ hw => ⟨hw, h⟩

theorem safe_mismatch (what : Mismatch) (span : Span) :
    g.Safe good (Pass.mismatch what span : Eval α) :=
  safe_throw trivial

theorem Safe.bind {x : Eval α} {f : α → Eval β} (h : g.Safe good x)
    (hf : ∀ a, good a → g.Safe good' (f a)) : g.Safe good' (x >>= f) := by
  intro w hw
  obtain ⟨hfits, hsettles⟩ := h w hw
  cases hx : x.run w with
  | mk result w' =>
      rw [hx] at hfits hsettles
      cases result with
      | error stop =>
          rw [Pass.run_bind_error f hx]
          exact ⟨hfits, hsettles⟩
      | ok a =>
          rw [Pass.run_bind_ok f hx]
          exact hf a hsettles w' hfits

theorem safe_get {f : World → Eval α} (h : ∀ w, g.Fits w.store.parts → g.Safe good (f w)) :
    g.Safe good (get >>= f) := by
  intro w hw
  have hrun : (get >>= f).run w = (f w).run w := rfl
  rw [hrun]
  exact h w hw w hw

/-- A change of the world that leaves in the store what may occur. -/
theorem safe_modify {f : World → World}
    (h : ∀ w, g.Fits w.store.parts → g.Fits (f w).store.parts) :
    g.Safe (fun _ => True) (modify f : Eval Unit) :=
  fun w hw => ⟨h w hw, trivial⟩

theorem safe_throw_bind {stop : Stop} (h : g.Accepts stop) (f : β → Eval α) :
    g.Safe good (throw stop >>= f) :=
  fun _ hw => ⟨hw, h⟩

/-- Nesting that is too deep may be blamed on a statement. -/
theorem Safe.blamed {x : Eval α} (h : g.Safe good x) (span : Span) :
    g.Safe good (tryCatch x fun
      | .tooDeep => throw (.wrong (.exhausted .nesting) span)
      | stop => throw stop) := by
  intro w hw
  obtain ⟨hfits, hsettles⟩ := h w hw
  cases hx : x.run w with
  | mk result w' =>
      rw [hx] at hfits hsettles
      cases result with
      | ok a =>
          rw [Pass.run_tryCatch_ok hx]
          exact ⟨hfits, hsettles⟩
      | error stop =>
          rw [Pass.run_tryCatch_error hx]
          cases stop with
          | tooDeep => exact ⟨hfits, trivial⟩
          | wrong | fault => exact ⟨hfits, hsettles⟩

end

end Guard

/-! ### Parts of the evaluator -/

namespace Pass

variable {g : Guard} {library : Library}

theorem safe_step (p : Pass) (span : Span) : g.Safe (fun _ => True) (p.step span) := by
  have hcount : g.Safe (fun _ => True)
      (modify fun w => { w with steps := w.steps + 1 } : Eval Unit) :=
    Guard.safe_modify fun _ hw => hw
  refine hcount.bind fun _ _ => Guard.safe_get fun w _ => ?_
  split
  · exact Guard.safe_throw trivial
  · exact Guard.safe_pure trivial

/-- The frame is in the same scope, and the same value comes in. -/
theorem safe_deeper (f : Frame) : g.Safe (fun f' => f'.hole = f.hole) (deeper f) := by
  unfold deeper
  split
  · exact Guard.safe_pure rfl
  · exact Guard.safe_throw trivial
  · exact Guard.safe_pure rfl

theorem safe_define (scope : Nat) (name : String) {v : Value} (h : g.Good v) (span : Span) :
    g.Safe (fun _ => True) (define scope name v span) := by
  refine Guard.safe_get fun w _ => ?_
  split
  · exact Guard.safe_throw_bind (show g.Accepts (.wrong _ _) from trivial) _
  · refine Guard.safe_modify fun w' hw' part hpart => ?_
    exact (Store.mem_parts_bind hpart).elim (hw' part) (h part)

theorem safe_lookup (scope : Nat) (name : String) (span : Span) :
    g.Safe g.Good (lookup scope name span) := by
  refine Guard.safe_get fun w hw => ?_
  cases hget : w.store.get? scope name with
  | none => exact Guard.safe_throw trivial
  | some v => exact Guard.safe_pure (hw.subset fun _ => Store.mem_parts_of_get? hget)

theorem safe_closure? (scope : Nat) (name : String) :
    g.Safe (fun c => ∀ f ∈ c, g.Trees f.body) (closure? scope name) := by
  refine Guard.safe_get fun w hw => ?_
  split
  · rename_i f trail hget
    have hpart : Part.function f ∈ w.store.parts := Store.mem_parts_of_get? hget (.head _)
    refine Guard.safe_pure fun f' hf => ?_
    cases hf
    exact (hw _ hpart).function f rfl
  · exact Guard.safe_pure fun f hf => by cases hf

theorem safe_libraryEntry (p : Pass) (callee : Ident) :
    g.Safe (fun entry => entry ∈ p.library) (p.libraryEntry callee) := by
  unfold libraryEntry
  split
  · rename_i entry hentry
    exact Guard.safe_pure (List.mem_of_find?_eq_some hentry)
  · exact Guard.safe_throw trivial

theorem safe_shown (hg : g.Lawful library) {n : Number} (h : g.number n) :
    g.Safe (fun _ => True) (shown n) := by
  unfold shown
  split
  · exact Guard.safe_pure trivial
  · rename_i f hf
    exact Guard.safe_throw (hg.shown h hf)

theorem safe_literal (hg : g.Lawful library) {m : Mark} {value : Plain} {raw : String}
    (h : g.node (.literal m value raw)) : g.Safe g.Good (literal m value) := by
  unfold literal
  split
  · exact Guard.safe_pure Guard.fits_nil
  · split
    · exact Guard.safe_pure (Guard.good_number (hg.literal h) _)
    · exact (safe_shown hg (hg.literal h)).bind fun _ _ => Guard.safe_mismatch _ _
  · exact Guard.safe_pure Guard.fits_nil
  · exact Guard.safe_mismatch _ _

theorem safe_operated (hg : g.Lawful library) (m : Mark) {result : Except Mismatch Data}
    (h : ∀ data, result = .ok data →
      ∀ part ∈ data.parts, ∃ n : Number, part = .number n ∧ n.isFinite = true) :
    g.Safe g.Good (operated m result) := by
  cases result with
  | ok data =>
      refine Guard.safe_pure fun part hpart => ?_
      obtain ⟨n, rfl, hfinite⟩ := h data rfl part hpart
      exact Guard.allows_number (hg.rounds (Number.rounds_of_isFinite hfinite))
  | error what => exact Guard.safe_mismatch _ _

/-- A number that is asked for may occur. -/
def GoodKey (g : Guard) (key : MemberKey) : Prop := ∀ n, key = .number n → g.number n

theorem safe_memberKey {v : Value} (h : g.Good v) (span : Span) :
    g.Safe (GoodKey g) (memberKey v span) := by
  unfold memberKey
  split
  · exact Guard.safe_pure fun n hn => by cases hn
  · split
    · rename_i n hn
      refine Guard.safe_pure fun m hm => ?_
      cases hm
      exact (h _ (Value.mem_parts_of_number? hn)).number n rfl
    · exact Guard.safe_mismatch _ _

theorem safe_element (hg : g.Lawful library) {items : List Host} (h : g.Fits (Host.partsOf items))
    {key : MemberKey} (hkey : GoodKey g key) (span : Span) :
    g.Safe (fun item => g.Fits item.parts) (element items key span) := by
  unfold element
  split
  · exact Guard.safe_mismatch _ _
  · split
    · exact (safe_shown hg (hkey _ rfl)).bind fun _ _ => Guard.safe_mismatch _ _
    · split
      · rename_i item hitem
        have hmem : item ∈ items := by
          split at hitem
          · cases hitem
          · exact List.mem_of_getElem? hitem
        exact Guard.safe_pure (h.subset fun _ hpart => Host.mem_partsOf.2 ⟨item, hmem, hpart⟩)
      · exact Guard.safe_throw trivial

theorem safe_entry (hg : g.Lawful library) {entries : List (Key × Host)}
    (h : g.Fits (Host.entryParts entries)) {key : MemberKey} (hkey : GoodKey g key) (span : Span) :
    g.Safe (fun item => g.Fits item.parts) (entry entries key span) := by
  unfold entry
  split
  · exact (safe_shown hg (hkey _ rfl)).bind fun _ _ => Guard.safe_mismatch _ _
  · split
    · rename_i item hitem
      exact Guard.safe_pure (h.subset fun _ hpart => Host.mem_entryParts_of_itemAt? hitem hpart)
    · exact Guard.safe_throw trivial

theorem safe_member (hg : g.Lawful library) (m : Mark) {target : Value} (h : g.Good target)
    {key : MemberKey} (hkey : GoodKey g key) (span : Span) :
    g.Safe g.Good (member m target key span) := by
  have hsource : g.Good (unwrapped target) := by
    rw [Guard.Good, parts_unwrapped]
    exact h
  unfold member
  dsimp only
  generalize unwrapped target = source at hsource
  obtain ⟨data, trail⟩ := source
  -- The item found is made a value and gets a trail, which leaves its parts alone.
  have hitem : ∀ {x : Eval Host}, g.Safe (fun item => g.Fits item.parts) x →
      g.Safe g.Good (x >>= fun item =>
        pure ((item.toValue []).withTrail (mergeTrails m.origin [item.toValue [], ⟨data, trail⟩]))) := by
    intro x hx
    refine hx.bind fun item hitem => Guard.safe_pure ?_
    rw [Guard.Good, Value.parts_withTrail, Host.parts_toValue]
    exact hitem
  dsimp only [Value.data]
  split
  · refine hitem (safe_element hg ?_ hkey span)
    rw [Host.partsOf_values]
    exact hsource
  · exact hitem (safe_element hg hsource hkey span)
  · exact hitem (safe_element hg hsource hkey span)
  · exact hitem (safe_entry hg hsource hkey span)
  · exact hitem (Guard.safe_mismatch _ _)

theorem safe_perform (hg : g.Lawful library) {site : CallSite} {args : List Value} {e : Effect}
    (hargs : g.GoodAll args) (h : Builtin.Does site args e) : g.Safe g.Good (perform e) := by
  refine Guard.Safe.bind (Guard.safe_modify fun w hw => hw) fun _ _ => Guard.safe_pure ?_
  intro part hpart
  rcases h.brings (fun part hpart => (hargs part hpart).usable) (List.mem_append_left _ hpart) with
    hpart | ⟨hround, hfunction⟩
  · exact hargs part hpart
  · refine ⟨Part.usable_of_round hround, fun n hn => ?_, fun c hc => absurd hc (hfunction c)⟩
    subst hn
    exact hg.rounds (Part.forall_number.1 hround)

/-- A call of the library is at fault only if its name accepts arguments that the function does not
take. -/
theorem safe_callLibrary (p : Pass) (hg : g.Lawful p.library) {entry : LibraryEntry}
    (hentry : entry ∈ p.library) (name : String) (m : Mark) {args : List Value}
    (hargs : g.GoodAll args) : g.Safe g.Good (p.callLibrary entry name m args) := by
  have hsettles := Builtin.run_settles ⟨p.code, m⟩ entry.builtin fun part hpart => (hargs part hpart).usable
  unfold callLibrary
  split
  · rename_i haccepts
    cases heffect : entry.builtin.run ⟨p.code, m⟩ args with
    | ok e => exact safe_perform hg hargs (Builtin.does_of_run heffect)
    | error refusal =>
        rw [heffect] at hsettles
        cases refusal with
        | mismatch what => exact Guard.safe_mismatch _ _
        | fault f => exact Guard.safe_throw (hg.library entry hentry _ haccepts hsettles.2 f hsettles.1)
  · exact Guard.safe_mismatch _ _

/-! ### Expressions -/

/-- Functions of the script whose nodes may occur are safe when they are called. -/
def EntersSafely (g : Guard) (enter : Enter) : Prop :=
  ∀ inv c args, g.GoodAll inv.hole.toList → g.Trees c.body → g.GoodAll args →
    g.Safe g.Good (enter inv c args)

/-- An expression starts with a step and goes one level deeper. -/
theorem safe_opening {α : Type} (p : Pass) (f : Frame) (span : Span) {good : α → Prop}
    {k : Frame → Eval α} (h : ∀ f' : Frame, f'.hole = f.hole → g.Safe good (k f')) :
    g.Safe good (p.step span >>= fun _ => deeper f >>= k) :=
  (safe_step p span).bind fun _ _ => (safe_deeper f).bind h

section

variable {p : Pass} {enter : Enter}

mutual

theorem safe_evaluate (hg : g.Lawful p.library) (henter : EntersSafely g enter) {f : Frame}
    (hf : g.GoodAll f.hole.toList) :
    (n : Node) → g.Tree n → g.Safe g.Good (evaluate p enter f n)
  | .literal m value _, hn => by
      unfold evaluate
      exact safe_opening p f _ fun _ _ => safe_literal hg hn.self
  | .identifier i, _ => by
      unfold evaluate
      exact safe_opening p f _ fun _ _ => safe_lookup _ _ _
  | .binary m op l r, hn => by
      unfold evaluate
      refine safe_opening p f _ fun f' hf' => ?_
      have hf := hf' ▸ hf
      refine (safe_evaluate hg henter hf l (hn.child List.mem_cons_self)).bind fun v _ => ?_
      have hr := hn.child (List.mem_cons_of_mem _ List.mem_cons_self)
      refine (safe_evaluate hg henter hf r hr).bind fun w _ => ?_
      exact safe_operated hg m fun _ => isFinite_of_combine
  | .unary m op e, hn => by
      unfold evaluate
      refine safe_opening p f _ fun f' hf' => ?_
      refine (safe_evaluate hg henter (hf' ▸ hf) e (hn.child List.mem_cons_self)).bind fun v _ => ?_
      exact safe_operated hg m fun _ => isFinite_of_convert
  | .call m callee args, hn => by
      unfold evaluate
      have hargs : g.Trees args := fun n h => hn.child (List.mem_cons_of_mem _ h)
      refine safe_opening p f _ fun f' hf' => ?_
      have hf := hf' ▸ hf
      refine (safe_closure? _ _).bind fun c hc => ?_
      cases c with
      | some c =>
          refine (safe_evaluateAll hg henter hf args hargs).bind fun vs hvs => ?_
          exact henter _ _ _ hf (hc c rfl) hvs
      | none =>
          refine (safe_libraryEntry p callee).bind fun entry hentry => ?_
          refine (safe_evaluateAll hg henter hf args hargs).bind fun vs hvs => ?_
          exact safe_callLibrary p hg hentry _ m hvs
  | .array m es, hn => by
      unfold evaluate
      refine safe_opening p f _ fun f' hf' => ?_
      refine (safe_evaluateAll hg henter (hf' ▸ hf) es fun _ => hn.child).bind fun vs hvs => ?_
      exact Guard.safe_pure hvs
  | .object m ps, hn => by
      unfold evaluate
      refine safe_opening p f _ fun f' hf' => ?_
      have hps := hg.object hn.self
      refine (safe_evaluateEntries hg henter (hf' ▸ hf) ps (fun _ => hn.child) hps).bind fun es hes => ?_
      exact Guard.safe_pure (hes.subset fun part => Host.mem_entryParts_collectEntries)
  | .member m e label, hn => by
      unfold evaluate
      refine safe_opening p f _ fun f' hf' => ?_
      refine (safe_evaluate hg henter (hf' ▸ hf) e (hn.child List.mem_cons_self)).bind fun v hv => ?_
      exact safe_member hg m hv (fun n hkey => by cases hkey) _
  | .index m e key, hn => by
      unfold evaluate
      refine safe_opening p f _ fun f' hf' => ?_
      have hf := hf' ▸ hf
      refine (safe_evaluate hg henter hf e (hn.child List.mem_cons_self)).bind fun v hv => ?_
      have hkey := hn.child (List.mem_cons_of_mem _ List.mem_cons_self)
      refine (safe_evaluate hg henter hf key hkey).bind fun w hw => ?_
      exact (safe_memberKey hw _).bind fun k hk => safe_member hg m hv hk _
  | .pipe _ [], hn => by
      unfold evaluate
      exact safe_opening p f _ fun _ _ => Guard.safe_throw (hg.pipe hn.self)
  | .pipe _ (first :: more), hn => by
      unfold evaluate
      refine safe_opening p f _ fun f' hf' => ?_
      have hfirst := hn.child List.mem_cons_self
      refine (safe_evaluate hg henter (hf' ▸ hf) first hfirst).bind fun v hv => ?_
      exact safe_evaluateStages hg henter hv more fun n h => hn.child (List.mem_cons_of_mem _ h)
  | .hole m, _ => by
      unfold evaluate
      refine safe_opening p f _ fun f' hf' => ?_
      dsimp only
      rw [hf']
      cases hhole : f.hole with
      | none => exact Guard.safe_mismatch _ _
      | some v =>
          exact Guard.safe_pure (hf.subset fun part hpart => by simpa [hhole, Value.partsOf] using hpart)
  | .function m params body, hn => by
      unfold evaluate
      refine safe_opening p f _ fun f' _ => Guard.safe_pure (Guard.good_function ?_ _)
      exact fun n h => hn.child (List.mem_append_right _ h)
  | .program _ _, _ | .declaration _ _ _ _, _ | .statement _ _, _ | .giveBack _ _, _
  | .property _ _ _, _ => by
      unfold evaluate
      exact safe_opening p f _ fun _ _ => Guard.safe_mismatch _ _

theorem safe_evaluateAll (hg : g.Lawful p.library) (henter : EntersSafely g enter) {f : Frame}
    (hf : g.GoodAll f.hole.toList) :
    (ns : List Node) → g.Trees ns → g.Safe g.GoodAll (evaluateAll p enter f ns)
  | [], _ => by
      unfold evaluateAll
      exact Guard.safe_pure Guard.fits_nil
  | n :: rest, hns => by
      unfold evaluateAll
      obtain ⟨hn, hrest⟩ := Guard.trees_cons.1 hns
      refine (safe_evaluate hg henter hf n hn).bind fun v hv => ?_
      refine (safe_evaluateAll hg henter hf rest hrest).bind fun vs hvs => ?_
      exact Guard.safe_pure (Guard.fits_append.2 ⟨hv, hvs⟩)

theorem safe_evaluateEntries (hg : g.Lawful p.library) (henter : EntersSafely g enter) {f : Frame}
    (hf : g.GoodAll f.hole.toList) :
    (ns : List Node) → g.Trees ns → (∀ n ∈ ns, n.IsEntry ∨ g.fault .malformed) →
      g.Safe (fun es => g.Fits (Host.entryParts es)) (evaluateEntries p enter f ns)
  | [], _, _ => by
      unfold evaluateEntries
      exact Guard.safe_pure Guard.fits_nil
  | .property _ key e :: rest, hns, hentries => by
      unfold evaluateEntries
      obtain ⟨hn, hrest⟩ := Guard.trees_cons.1 hns
      have he := hn.child (List.mem_cons_of_mem _ List.mem_cons_self)
      have hothers := fun n h => hentries n (List.mem_cons_of_mem _ h)
      refine (safe_evaluate hg henter hf e he).bind fun v hv => ?_
      refine (safe_evaluateEntries hg henter hf rest hrest hothers).bind fun es hes => ?_
      exact Guard.safe_pure (Guard.fits_append.2 ⟨hv, hes⟩)
  | .program _ _ :: _, _, hentries | .declaration _ _ _ _ :: _, _, hentries
  | .statement _ _ :: _, _, hentries | .giveBack _ _ :: _, _, hentries
  | .literal _ _ _ :: _, _, hentries | .identifier _ :: _, _, hentries
  | .binary _ _ _ _ :: _, _, hentries | .unary _ _ _ :: _, _, hentries
  | .call _ _ _ :: _, _, hentries | .array _ _ :: _, _, hentries | .object _ _ :: _, _, hentries
  | .member _ _ _ :: _, _, hentries | .index _ _ _ :: _, _, hentries | .pipe _ _ :: _, _, hentries
  | .hole _ :: _, _, hentries | .function _ _ _ :: _, _, hentries => by
      unfold evaluateEntries
      rcases hentries _ List.mem_cons_self with ⟨_, _, _, heq⟩ | hfault
      · cases heq
      · exact Guard.safe_throw hfault

theorem safe_evaluateStages (hg : g.Lawful p.library) (henter : EntersSafely g enter) {f : Frame}
    {v : Value} (hv : g.Good v) :
    (ns : List Node) → g.Trees ns → g.Safe g.Good (evaluateStages p enter f ns v)
  | [], _ => by
      unfold evaluateStages
      exact Guard.safe_pure hv
  | n :: rest, hns => by
      unfold evaluateStages
      obtain ⟨hn, hrest⟩ := Guard.trees_cons.1 hns
      refine (safe_evaluate hg henter (f := { f with hole := some v }) (Guard.goodAll_some hv) n hn).bind
        fun w hw => ?_
      exact safe_evaluateStages hg henter hw rest hrest

end

/-! ### Functions and statements -/

theorem safe_execute (hg : g.Lawful p.library) (henter : EntersSafely g enter) {f : Frame}
    (hf : g.GoodAll f.hole.toList) {n : Node} (hn : g.Tree n) :
    g.Safe (fun v => g.GoodAll v.toList) (execute p enter f n) := by
  unfold execute
  refine (safe_step p _).bind fun _ _ => ?_
  cases n with
  | declaration m word name init =>
      have hinit := hn.child (List.mem_cons_of_mem _ List.mem_cons_self)
      refine (safe_evaluate hg henter hf init hinit).bind fun v hv => ?_
      exact (safe_define _ _ hv _).bind fun _ _ => Guard.safe_pure Guard.fits_nil
  | statement m e =>
      refine (safe_evaluate hg henter hf e (hn.child List.mem_cons_self)).bind fun v hv => ?_
      exact Guard.safe_pure (Guard.goodAll_some hv)
  | _ => exact Guard.safe_mismatch _ _

theorem safe_runBody (hg : g.Lawful p.library) (henter : EntersSafely g enter) {f : Frame}
    (hf : g.GoodAll f.hole.toList) {ns : List Node} (hns : g.Trees ns) {last : Option Value}
    (hlast : g.GoodAll last.toList) :
    g.Safe (fun v => g.GoodAll v.toList) (runBody p enter f ns last) := by
  induction ns generalizing last with
  | nil => exact Guard.safe_pure hlast
  | cons n rest ih =>
      obtain ⟨hn, hrest⟩ := Guard.trees_cons.1 hns
      have hnext : g.Safe (fun v => g.GoodAll v.toList)
          (execute p enter f n >>= runBody p enter f rest) :=
        (safe_execute hg henter hf hn).bind fun _ hvalue => ih hrest hvalue
      -- A `return` ends the function; any other statement is followed by the rest.
      cases n with
      | giveBack m e =>
          refine (safe_step p _).bind fun _ _ => ?_
          refine (safe_evaluate hg henter hf e (hn.child List.mem_cons_self)).bind fun v hv => ?_
          exact Guard.safe_pure (Guard.goodAll_some hv)
      | _ => exact hnext

theorem safe_bindParams (scope : Nat) (params : List Ident) {args : List Value}
    (hargs : g.GoodAll args) : g.Safe (fun _ => True) (bindParams scope params args) := by
  induction params generalizing args with
  | nil => exact Guard.safe_pure trivial
  | cons i params ih =>
      cases args with
      | nil => exact Guard.safe_pure trivial
      | cons v args =>
          obtain ⟨hv, hrest⟩ := Guard.fits_append.1 hargs
          exact (safe_define scope i.name hv i.span).bind fun _ _ => ih hrest

theorem safe_openScope (parent : Nat) (name : String) :
    g.Safe (fun _ => True) (openScope parent name) := by
  intro w hw
  have hrun : (openScope parent name).run w =
      (.ok w.store.scopes.size, { w with store := (w.store.openChild parent name).1 }) := rfl
  rw [hrun]
  refine ⟨?_, trivial⟩
  rw [Store.parts_openChild]
  exact hw

theorem entersSafely_enterScope (hg : g.Lawful p.library) (henter : EntersSafely g enter) :
    EntersSafely g (p.enterScope enter) := by
  intro inv c args hhole hbody hargs
  unfold enterScope
  refine (safe_openScope _ _).bind fun scope _ => ?_
  refine (safe_bindParams scope c.params hargs).bind fun _ _ => ?_
  refine (safe_runBody (f := ⟨scope, inv.hole, p.limits.nesting⟩) hg henter hhole hbody
    g.goodAll_none).bind fun result hresult => ?_
  cases result with
  | none => exact Guard.safe_mismatch _ _
  | some v => exact Guard.safe_pure (hresult.subset fun part hpart => by simpa [Value.partsOf] using hpart)

/-- Calls of functions are safe, however many more may be nested. -/
theorem entersSafely_call (hg : g.Lawful p.library) (left : Nat) : EntersSafely g (p.call left) := by
  induction left with
  | zero =>
      intro inv c args _ _ _
      simp only [call]
      split
      · exact Guard.safe_throw_bind (show g.Accepts (.wrong _ _) from trivial) _
      · exact Guard.safe_throw trivial
  | succ left ih =>
      intro inv c args hhole hbody hargs
      simp only [call]
      split
      · exact Guard.safe_throw_bind (show g.Accepts (.wrong _ _) from trivial) _
      · exact entersSafely_enterScope hg ih inv c args hhole hbody hargs

theorem safe_runScript (hg : g.Lawful p.library) (scope : Nat) {ns : List Node} (hns : g.Trees ns)
    (last : Option Value) : g.Safe (fun _ => True) (p.runScript scope ns last) := by
  induction ns generalizing last with
  | nil => exact Guard.safe_pure trivial
  | cons n rest ih =>
      obtain ⟨hn, hrest⟩ := Guard.trees_cons.1 hns
      have henter := entersSafely_call hg p.limits.calls
      have hstatement := safe_execute (p := p) (f := ⟨scope, none, p.limits.nesting⟩) hg henter
        Guard.fits_nil hn
      exact (hstatement.blamed n.span).bind fun value _ => ih hrest value

/-- A run of a script fails by accepted faults only, if what is in the scopes and in the script may
occur. -/
theorem fault_of_run (hg : g.Lawful p.library) {store : Store} (hstore : g.Fits store.parts)
    {scope : Nat} {mark : Mark} {body : List Node} (hbody : g.Trees body) {fault : Fault}
    (h : (p.run store scope (.program mark body)).result = .error (.fault fault)) :
    g.fault fault := by
  have hsettles := (safe_runScript hg scope hbody none ⟨0, [], [], store⟩ hstore).2
  have hdeep := runScript_ne_tooDeep (p := p) scope body none ⟨0, [], [], store⟩
  rw [run_program, outcome] at h
  generalize ((p.runScript scope body none).run ⟨0, [], [], store⟩).1 = result at h hsettles hdeep
  cases result with
  | ok last => cases h
  | error stop =>
      cases stop with
      | wrong cause span => cases h
      | tooDeep => exact absurd rfl hdeep
      | fault f =>
          cases h
          exact hsettles

end

end Pass

end PartScript
