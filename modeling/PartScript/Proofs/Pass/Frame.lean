import PartScript.Pass.Run
import PartScript.Proofs.Results

/-!
What a pass writes to. Evaluation opens scopes for the functions it calls and binds names in these
alone; only a declaration binds a name in the scope it stands in. So a run leaves every scope that was
there as it was, apart from its own, which gains one binding for each declaration that is completed.
-/

namespace PartScript

/-- The name that a statement declares. -/
def Node.declaredName? : Node → Option String
  | declaration _ _ name _ => some name.name
  | _ => none

/-- The scope with more bindings behind those it has. -/
def Scope.append (s : Scope) (added : List (String × Value)) : Scope :=
  { s with bindings := s.bindings ++ added }

@[simp] theorem Scope.append_nil (s : Scope) : s.append [] = s := by
  simp [append]

@[simp] theorem Scope.append_append (s : Scope) (xs ys : List (String × Value)) :
    (s.append xs).append ys = s.append (xs ++ ys) := by
  simp [append]

namespace Pass

variable {α β : Type}

/-! ### How computations run -/

theorem run_pure (a : α) (w : World) : (pure a : Eval α).run w = (.ok a, w) := rfl

theorem run_throw (stop : Stop) (w : World) : (throw stop : Eval α).run w = (.error stop, w) := rfl

theorem run_bind_ok {x : Eval α} {w w' : World} {a : α} (f : α → Eval β)
    (h : x.run w = (.ok a, w')) : (x >>= f).run w = (f a).run w' := by
  have hbind : (x >>= f).run w = ExceptT.bindCont f (x.run w).1 (x.run w).2 := rfl
  rw [hbind, h]
  rfl

theorem run_bind_error {x : Eval α} {w w' : World} {stop : Stop} (f : α → Eval β)
    (h : x.run w = (.error stop, w')) : (x >>= f).run w = (.error stop, w') := by
  have hbind : (x >>= f).run w = ExceptT.bindCont f (x.run w).1 (x.run w).2 := rfl
  rw [hbind, h]
  rfl

theorem run_bind_eq_ok {x : Eval α} {f : α → Eval β} {w w' : World} {c : β}
    (h : (x >>= f).run w = (.ok c, w')) :
    ∃ a w₁, x.run w = (.ok a, w₁) ∧ (f a).run w₁ = (.ok c, w') := by
  cases hrun : x.run w with
  | mk result w₁ =>
      cases result with
      | error stop =>
          rw [run_bind_error f hrun] at h
          cases h
      | ok a =>
          rw [run_bind_ok f hrun] at h
          exact ⟨a, w₁, rfl, h⟩

theorem run_step (p : Pass) (span : Span) (w : World) :
    (p.step span).run w =
      (if p.limits.steps < w.steps + 1 then
        .error (.wrong (.exhausted (.steps p.limits.steps)) span) else .ok (),
        { w with steps := w.steps + 1 }) := by
  have hmodify : (modify fun w => { w with steps := w.steps + 1 } : Eval Unit).run w =
      (.ok (), { w with steps := w.steps + 1 }) := rfl
  have hget : (get : Eval World).run { w with steps := w.steps + 1 } =
      (.ok { w with steps := w.steps + 1 }, { w with steps := w.steps + 1 }) := rfl
  rw [step, run_bind_ok _ hmodify, run_bind_ok _ hget]
  dsimp only
  split
  · rfl
  · rfl

theorem run_define (id : Nat) (name : String) (v : Value) (span : Span) (w : World) :
    (define id name v span).run w = if w.store.isLocal id name then
      (.error (.wrong (.duplicateName name) span), w)
      else (.ok (), { w with store := w.store.bind id name v }) := by
  have hget : (get : Eval World).run w = (.ok w, w) := rfl
  rw [define, run_bind_ok _ hget]
  split <;> rfl

/-! ### Computations that change nothing -/

/-- Whether the computation succeeds or stops, the world stays as it is. -/
def ReadOnly (x : Eval α) : Prop := ∀ w, (x.run w).2 = w

theorem readOnly_pure (a : α) : ReadOnly (pure a : Eval α) := fun _ => rfl

theorem readOnly_throw (stop : Stop) : ReadOnly (throw stop : Eval α) := fun _ => rfl

theorem readOnly_get : ReadOnly (get : Eval World) := fun _ => rfl

theorem ReadOnly.bind {x : Eval α} {f : α → Eval β} (hx : ReadOnly x) (hf : ∀ a, ReadOnly (f a)) :
    ReadOnly (x >>= f) := by
  intro w
  have hsame := hx w
  cases hrun : x.run w with
  | mk result w' =>
      rw [hrun] at hsame
      cases result with
      | error stop =>
          rw [run_bind_error f hrun]
          exact hsame
      | ok a =>
          rw [run_bind_ok f hrun, hf a w']
          exact hsame

theorem readOnly_lookup (scope : Nat) (name : String) (span : Span) :
    ReadOnly (lookup scope name span) := by
  refine readOnly_get.bind fun w => ?_
  split
  · exact readOnly_pure _
  · exact readOnly_throw _

theorem readOnly_closure? (scope : Nat) (name : String) : ReadOnly (closure? scope name) := by
  refine readOnly_get.bind fun w => ?_
  split
  · exact readOnly_pure _
  · exact readOnly_pure _

/-- The computation does not look at the world and leaves it as it is. -/
def Blind (x : Eval α) : Prop := ∃ result, ∀ w, x.run w = (result, w)

theorem Blind.readOnly {x : Eval α} (h : Blind x) : ReadOnly x := by
  obtain ⟨result, hrun⟩ := h
  intro w
  rw [hrun]

theorem blind_pure (a : α) : Blind (pure a : Eval α) := ⟨.ok a, fun _ => rfl⟩

theorem blind_throw (stop : Stop) : Blind (throw stop : Eval α) := ⟨.error stop, fun _ => rfl⟩

theorem Blind.bind {x : Eval α} {f : α → Eval β} (hx : Blind x) (hf : ∀ a, Blind (f a)) :
    Blind (x >>= f) := by
  obtain ⟨result, hrun⟩ := hx
  cases result with
  | error stop => exact ⟨.error stop, fun w => run_bind_error f (hrun w)⟩
  | ok a =>
      obtain ⟨result, hmore⟩ := hf a
      exact ⟨result, fun w => by rw [run_bind_ok f (hrun w), hmore]⟩

theorem blind_mismatch (what : Mismatch) (span : Span) :
    Blind (mismatch what span : Eval α) := blind_throw _

theorem blind_deeper (f : Frame) : Blind (deeper f) := by
  unfold deeper
  split
  · exact blind_pure _
  · exact blind_throw _
  · exact blind_pure _

theorem blind_shown (n : Number) : Blind (shown n) := by
  unfold shown
  split
  · exact blind_pure _
  · exact blind_throw _

theorem blind_literal (m : Mark) (value : Plain) : Blind (literal m value) := by
  unfold literal
  split
  · exact blind_pure _
  · split
    · exact blind_pure _
    · exact (blind_shown _).bind fun _ => blind_mismatch _ _
  · exact blind_pure _
  · exact blind_mismatch _ _

theorem blind_operated (m : Mark) (result : Except Mismatch Data) :
    Blind (operated m result) := by
  unfold operated
  split
  · exact blind_pure _
  · exact blind_mismatch _ _

theorem blind_memberKey (v : Value) (span : Span) : Blind (memberKey v span) := by
  unfold memberKey
  split
  · exact blind_pure _
  · split
    · exact blind_pure _
    · exact blind_mismatch _ _

theorem blind_element (items : List Host) (key : MemberKey) (span : Span) :
    Blind (element items key span) := by
  unfold element
  split
  · exact blind_mismatch _ _
  · split
    · exact (blind_shown _).bind fun _ => blind_mismatch _ _
    · split
      · exact blind_pure _
      · exact blind_throw _

theorem blind_entry (entries : List (Key × Host)) (key : MemberKey) (span : Span) :
    Blind (entry entries key span) := by
  unfold entry
  split
  · exact (blind_shown _).bind fun _ => blind_mismatch _ _
  · split
    · exact blind_pure _
    · exact blind_throw _

theorem blind_member (m : Mark) (target : Value) (key : MemberKey) (keySpan : Span) :
    Blind (member m target key keySpan) := by
  unfold member
  dsimp only
  split
  · exact (blind_element _ _ _).bind fun _ => blind_pure _
  · exact (blind_element _ _ _).bind fun _ => blind_pure _
  · exact (blind_element _ _ _).bind fun _ => blind_pure _
  · exact (blind_entry _ _ _).bind fun _ => blind_pure _
  · exact (blind_mismatch _ _).bind fun _ => blind_pure _

theorem blind_libraryEntry (p : Pass) (callee : Ident) : Blind (p.libraryEntry callee) := by
  unfold libraryEntry
  split
  · exact blind_pure _
  · exact blind_throw _

/-! ### Scopes that stay -/

/-- No scope is gone, and every scope that was there, apart from some, is as it was. -/
structure Keeps (own : Nat → Prop) (before after : Store) : Prop where
  size_le : before.scopes.size ≤ after.scopes.size
  same : ∀ id, id < before.scopes.size → ¬ own id → after.scope? id = before.scope? id

variable {own own' : Nat → Prop}

theorem Keeps.refl (store : Store) : Keeps own store store :=
  ⟨Nat.le_refl _, fun _ _ _ => rfl⟩

theorem Keeps.trans {a b c : Store} (h : Keeps own a b) (h' : Keeps own b c) : Keeps own a c := by
  refine ⟨Nat.le_trans h.size_le h'.size_le, fun id hid hown => ?_⟩
  rw [h'.same id (Nat.lt_of_lt_of_le hid h.size_le) hown, h.same id hid hown]

/-- What holds for scopes opened in between holds for those that were there before. -/
theorem Keeps.weaken {a b : Store} (h : Keeps own a b)
    (hown : ∀ id, id < a.scopes.size → own id → own' id) : Keeps own' a b :=
  ⟨h.size_le, fun id hid hnot => h.same id hid fun hid' => hnot (hown id hid hid')⟩

theorem keeps_bind (store : Store) (id : Nat) (name : String) (v : Value) :
    Keeps (· = id) store (store.bind id name v) := by
  refine ⟨by simp [Store.bind], fun other _ hne => ?_⟩
  simp [Store.scope?, Store.bind, Array.getElem?_modify, Ne.symm hne]

theorem scope?_push_of_lt {store : Store} {scope : Scope} {id : Nat}
    (h : id < store.scopes.size) : (store.push scope).1.scope? id = store.scope? id := by
  simp [Store.scope?, Store.push, Array.getElem?_push, Nat.ne_of_lt h]

/-! ### Computations that keep scopes -/

/-- Whether the computation succeeds or stops, it writes to no scopes but some and those it opens. -/
def WritesOnly (own : Nat → Prop) (x : Eval α) : Prop :=
  ∀ w, Keeps own w.store (x.run w).2.store

/-- The computation writes to no scope that was there. -/
abbrev WritesNone (x : Eval α) : Prop := WritesOnly (fun _ => False) x

theorem writesOnly_pure (a : α) : WritesOnly own (pure a : Eval α) := fun w => Keeps.refl w.store

theorem writesOnly_throw (stop : Stop) : WritesOnly own (throw stop : Eval α) :=
  fun w => Keeps.refl w.store

theorem WritesOnly.bind {x : Eval α} {f : α → Eval β} (hx : WritesOnly own x)
    (hf : ∀ a, WritesOnly own (f a)) : WritesOnly own (x >>= f) := by
  intro w
  cases hrun : x.run w with
  | mk result w' =>
      have hkeep := hx w
      rw [hrun] at hkeep
      cases result with
      | error stop =>
          rw [run_bind_error f hrun]
          exact hkeep
      | ok a =>
          rw [run_bind_ok f hrun]
          exact hkeep.trans (hf a w')

theorem WritesOnly.weaken {x : Eval α} (h : WritesOnly own x) (hown : ∀ id, own id → own' id) :
    WritesOnly own' x :=
  fun w => (h w).weaken fun id _ => hown id

theorem WritesNone.any {x : Eval α} (h : WritesNone x) : WritesOnly own x :=
  WritesOnly.weaken h fun _ hfalse => hfalse.elim

theorem ReadOnly.writesOnly {x : Eval α} (h : ReadOnly x) : WritesOnly own x := by
  intro w
  rw [h w]
  exact Keeps.refl w.store

/-- Changing what is no scope writes to none. -/
theorem writesNone_modify {f : World → World} (h : ∀ w, (f w).store = w.store) :
    WritesNone (modify f : Eval Unit) := by
  intro w
  have hrun : ((modify f : Eval Unit).run w).2 = f w := rfl
  rw [hrun, h w]
  exact Keeps.refl w.store

theorem writesNone_step (p : Pass) (span : Span) : WritesNone (p.step span) := by
  refine WritesOnly.bind (writesNone_modify fun _ => rfl) fun _ => ?_
  refine WritesOnly.bind readOnly_get.writesOnly fun w => ?_
  split
  · exact writesOnly_throw _
  · exact writesOnly_pure _

theorem writesOnly_define (scope : Nat) (name : String) (v : Value) (span : Span) :
    WritesOnly (· = scope) (define scope name v span) := by
  refine WritesOnly.bind readOnly_get.writesOnly fun w => ?_
  have hbind : WritesOnly (· = scope)
      (modify fun w => { w with store := w.store.bind scope name v } : Eval Unit) :=
    fun w => keeps_bind w.store scope name v
  split
  · exact WritesOnly.bind (writesOnly_throw _) fun _ => hbind
  · exact hbind

theorem writesNone_perform (e : Effect) : WritesNone (perform e) :=
  WritesOnly.bind (writesNone_modify fun _ => rfl) fun _ => writesOnly_pure _

theorem writesNone_callLibrary (p : Pass) (entry : LibraryEntry) (name : String) (m : Mark)
    (args : List Value) : WritesNone (p.callLibrary entry name m args) := by
  unfold callLibrary
  split
  · split
    · exact writesNone_perform _
    · exact writesOnly_throw _
    · exact writesOnly_throw _
  · exact writesOnly_throw _

/-! ### Evaluation -/

/-- Every call of a function of the script writes to no scope that was there. -/
def EntersCleanly (enter : Enter) : Prop := ∀ inv c args, WritesNone (enter inv c args)

/-- An expression starts with a step and goes one level deeper. -/
theorem writesNone_opening (p : Pass) (f : Frame) (span : Span) {k : Frame → Eval α}
    (h : ∀ f, WritesNone (k f)) : WritesNone (p.step span >>= fun _ => deeper f >>= k) :=
  WritesOnly.bind (writesNone_step p span) fun _ => WritesOnly.bind (blind_deeper f).readOnly.writesOnly h

section

variable {p : Pass} {enter : Enter}

mutual

theorem writesNone_evaluate (henter : EntersCleanly enter) :
    ∀ (n : Node) (f : Frame), WritesNone (evaluate p enter f n)
  | .literal .., _ => by
      unfold evaluate
      exact writesNone_opening _ _ _ fun f => (blind_literal _ _).readOnly.writesOnly
  | .identifier .., _ => by
      unfold evaluate
      exact writesNone_opening _ _ _ fun f => (readOnly_lookup _ _ _).writesOnly
  | .binary _ _ l r, _ => by
      unfold evaluate
      refine writesNone_opening _ _ _ fun f => ?_
      refine WritesOnly.bind (writesNone_evaluate henter l f) fun _ => ?_
      refine WritesOnly.bind (writesNone_evaluate henter r f) fun _ => ?_
      exact (blind_operated _ _).readOnly.writesOnly
  | .unary _ _ e, _ => by
      unfold evaluate
      refine writesNone_opening _ _ _ fun f => ?_
      refine WritesOnly.bind (writesNone_evaluate henter e f) fun _ => ?_
      exact (blind_operated _ _).readOnly.writesOnly
  | .call _ callee args, _ => by
      unfold evaluate
      refine writesNone_opening _ _ _ fun f => ?_
      refine WritesOnly.bind (readOnly_closure? _ _).writesOnly fun c => ?_
      have hargs := writesNone_evaluateAll henter args f
      cases c with
      | some c => exact WritesOnly.bind hargs fun _ => henter _ _ _
      | none =>
          refine WritesOnly.bind (blind_libraryEntry _ _).readOnly.writesOnly fun _ => ?_
          exact WritesOnly.bind hargs fun _ => writesNone_callLibrary _ _ _ _ _
  | .array _ es, _ => by
      unfold evaluate
      refine writesNone_opening _ _ _ fun f => ?_
      exact WritesOnly.bind (writesNone_evaluateAll henter es f) fun _ => writesOnly_pure _
  | .object _ ps, _ => by
      unfold evaluate
      refine writesNone_opening _ _ _ fun f => ?_
      exact WritesOnly.bind (writesNone_evaluateEntries henter ps f) fun _ => writesOnly_pure _
  | .member _ e _, _ => by
      unfold evaluate
      refine writesNone_opening _ _ _ fun f => ?_
      refine WritesOnly.bind (writesNone_evaluate henter e f) fun _ => ?_
      exact (blind_member _ _ _ _).readOnly.writesOnly
  | .index _ e key, _ => by
      unfold evaluate
      refine writesNone_opening _ _ _ fun f => ?_
      refine WritesOnly.bind (writesNone_evaluate henter e f) fun _ => ?_
      refine WritesOnly.bind (writesNone_evaluate henter key f) fun _ => ?_
      refine WritesOnly.bind (blind_memberKey _ _).readOnly.writesOnly fun _ => ?_
      exact (blind_member _ _ _ _).readOnly.writesOnly
  | .pipe _ [], _ => by
      unfold evaluate
      exact writesNone_opening _ _ _ fun f => writesOnly_throw _
  | .pipe _ (first :: more), _ => by
      unfold evaluate
      refine writesNone_opening _ _ _ fun f => ?_
      refine WritesOnly.bind (writesNone_evaluate henter first f) fun v => ?_
      exact writesNone_evaluateStages henter more f v
  | .hole _, _ => by
      unfold evaluate
      refine writesNone_opening _ _ _ fun f => ?_
      dsimp only
      split
      · exact writesOnly_pure _
      · exact (blind_mismatch _ _).readOnly.writesOnly
  | .function .., _ => by
      unfold evaluate
      exact writesNone_opening _ _ _ fun f => writesOnly_pure _
  | .program .., _ | .declaration .., _ | .statement .., _ | .giveBack .., _
  | .property .., _ => by
      unfold evaluate
      exact writesNone_opening _ _ _ fun f => (blind_mismatch _ _).readOnly.writesOnly

theorem writesNone_evaluateAll (henter : EntersCleanly enter) :
    ∀ (ns : List Node) (f : Frame), WritesNone (evaluateAll p enter f ns)
  | [], _ => by
      unfold evaluateAll
      exact writesOnly_pure _
  | n :: ns, f => by
      unfold evaluateAll
      refine WritesOnly.bind (writesNone_evaluate henter n f) fun _ => ?_
      exact WritesOnly.bind (writesNone_evaluateAll henter ns f) fun _ => writesOnly_pure _

theorem writesNone_evaluateEntries (henter : EntersCleanly enter) :
    ∀ (ns : List Node) (f : Frame), WritesNone (evaluateEntries p enter f ns)
  | [], _ => by
      unfold evaluateEntries
      exact writesOnly_pure _
  | n :: ns, f => by
      have hrest := writesNone_evaluateEntries henter ns f
      cases n with
      | property m key e =>
          unfold evaluateEntries
          refine WritesOnly.bind (writesNone_evaluate henter e f) fun _ => ?_
          exact WritesOnly.bind hrest fun _ => writesOnly_pure _
      | _ => exact writesOnly_throw _

theorem writesNone_evaluateStages (henter : EntersCleanly enter) :
    ∀ (ns : List Node) (f : Frame) (v : Value), WritesNone (evaluateStages p enter f ns v)
  | [], _, _ => by
      unfold evaluateStages
      exact writesOnly_pure _
  | n :: ns, f, v => by
      unfold evaluateStages
      refine WritesOnly.bind (writesNone_evaluate henter n _) fun v => ?_
      exact writesNone_evaluateStages henter ns f v

end

end

/-! ### Functions of the script -/

theorem writesOnly_execute (p : Pass) {enter : Enter} (henter : EntersCleanly enter) (f : Frame)
    (n : Node) : WritesOnly (· = f.scope) (execute p enter f n) := by
  unfold execute
  refine WritesOnly.bind (writesNone_step _ _).any fun _ => ?_
  split
  · refine WritesOnly.bind (writesNone_evaluate henter _ _).any fun v => ?_
    exact WritesOnly.bind (writesOnly_define _ _ _ _) fun _ => writesOnly_pure _
  · exact WritesOnly.bind (writesNone_evaluate henter _ _).any fun _ => writesOnly_pure _
  · exact (blind_mismatch _ _).readOnly.writesOnly
  · exact (blind_mismatch _ _).readOnly.writesOnly

theorem writesOnly_runBody (p : Pass) {enter : Enter} (henter : EntersCleanly enter) (f : Frame)
    (body : List Node) (last : Option Value) :
    WritesOnly (· = f.scope) (runBody p enter f body last) := by
  fun_induction runBody p enter f body last with
  | case1 last => exact writesOnly_pure _
  | case2 last m e rest =>
      refine WritesOnly.bind (writesNone_step _ _).any fun _ => ?_
      exact WritesOnly.bind (writesNone_evaluate henter _ _).any fun _ => writesOnly_pure _
  | case3 n rest last _ ih =>
      exact WritesOnly.bind (writesOnly_execute p henter f n) fun result => ih result

theorem writesOnly_bindParams (scope : Nat) (params : List Ident) (args : List Value) :
    WritesOnly (· = scope) (bindParams scope params args) := by
  fun_induction bindParams scope params args with
  | case1 i params v args ih =>
      exact WritesOnly.bind (writesOnly_define _ _ _ _) fun _ => ih
  | case2 => exact writesOnly_pure _

/-- A computation that opens a scope and then writes to it alone writes to none that was there. -/
theorem writesNone_openScope (parent : Nat) (name : String) {k : Nat → Eval α}
    (h : ∀ scope, WritesOnly (· = scope) (k scope)) :
    WritesNone (openScope parent name >>= k) := by
  intro w
  have hopen : (openScope parent name).run w =
      (.ok w.store.scopes.size, { w with store := (w.store.openChild parent name).1 }) := rfl
  rw [run_bind_ok k hopen]
  have hkeep := h w.store.scopes.size { w with store := (w.store.openChild parent name).1 }
  have hpush : Keeps (fun _ => False) w.store (w.store.openChild parent name).1 :=
    ⟨by simp [Store.openChild, Store.push], fun id hid _ => scope?_push_of_lt hid⟩
  refine ⟨Nat.le_trans hpush.size_le hkeep.size_le, fun id hid hnot => ?_⟩
  rw [hkeep.same id (Nat.lt_of_lt_of_le hid hpush.size_le) (Nat.ne_of_lt hid)]
  exact hpush.same id hid hnot

theorem entersCleanly_enterScope (p : Pass) {enter : Enter} (h : EntersCleanly enter) :
    EntersCleanly (p.enterScope enter) := by
  intro inv c args
  refine writesNone_openScope _ _ fun scope => ?_
  refine WritesOnly.bind (writesOnly_bindParams _ _ _) fun _ => ?_
  have hbody := writesOnly_runBody p h ⟨scope, inv.hole, p.limits.nesting⟩ c.body none
  refine WritesOnly.bind hbody fun result => ?_
  cases result with
  | none => exact (blind_mismatch _ _).readOnly.writesOnly
  | some v => exact writesOnly_pure _

theorem entersCleanly_call (p : Pass) (left : Nat) : EntersCleanly (p.call left) := by
  induction left with
  | zero =>
      intro inv c args
      simp only [call]
      split
      · exact WritesOnly.bind (blind_mismatch _ _).readOnly.writesOnly fun _ => writesOnly_throw _
      · exact writesOnly_throw _
  | succ left ih =>
      intro inv c args
      simp only [call]
      split
      · refine WritesOnly.bind (blind_mismatch _ _).readOnly.writesOnly fun _ => ?_
        exact entersCleanly_enterScope p ih _ _ _
      · exact entersCleanly_enterScope p ih _ _ _

/-! ### Statements of the script -/

theorem scope?_bind_self {store : Store} {id : Nat} {s : Scope} (name : String) (v : Value)
    (h : store.scope? id = some s) :
    (store.bind id name v).scope? id = some (s.append [(name, v)]) := by
  rw [Store.scope?] at h
  simp [Store.scope?, Store.bind, Array.getElem?_modify, h, Scope.append, Scope.bind]

theorem scope?_lt {store : Store} {id : Nat} {s : Scope} (h : store.scope? id = some s) :
    id < store.scopes.size :=
  (Array.getElem?_eq_some_iff.1 h).1

/-- A scope that is there is not changed by what writes to none. -/
theorem WritesNone.scope? {x : Eval α} (hx : WritesNone x) {w w' : World} {id : Nat} {s : Scope}
    {result : Except Stop α} (h : w.store.scope? id = some s) (hrun : x.run w = (result, w')) :
    w'.store.scope? id = some s := by
  have hsame := (hx w).same id (scope?_lt h) (fun hfalse => hfalse)
  rw [hrun] at hsame
  rw [hsame, h]

/-- Binding a name fails and binds nothing, or adds one binding. -/
theorem define_run {m : Nat} (name : String) (v : Value) (span : Span) {w : World} {s : Scope}
    (h : w.store.scope? m = some s) :
    (∃ stop, (define m name v span).run w = (.error stop, w)) ∨
      ∃ w', (define m name v span).run w = (.ok (), w') ∧
        w'.store.scope? m = some (s.append [(name, v)]) := by
  rw [run_define]
  split
  · exact .inl ⟨_, rfl⟩
  · exact .inr ⟨_, rfl, scope?_bind_self name v h⟩

/-- What a statement does to the scope it stands in: nothing if it stops, and otherwise it adds one
binding if it is a declaration. -/
theorem execute_run {p : Pass} {enter : Enter} (henter : EntersCleanly enter) {f : Frame}
    {n : Node} {w w' : World} {s : Scope} {result : Except Stop (Option Value)}
    (h : w.store.scope? f.scope = some s) (hrun : (execute p enter f n).run w = (result, w')) :
    ((∃ stop, result = .error stop) ∧ w'.store.scope? f.scope = some s) ∨
      ∃ value added, result = .ok value ∧
        w'.store.scope? f.scope = some (s.append added) ∧
        added.map (·.1) = n.declaredName?.toList := by
  cases hd : n.declaredName? with
  | none =>
      -- Anything but a declaration writes to no scope.
      have hnone : WritesNone (execute p enter f n) := by
        unfold execute
        refine WritesOnly.bind (writesNone_step _ _) fun _ => ?_
        split
        · cases hd
        · exact WritesOnly.bind (writesNone_evaluate henter _ _) fun _ => writesOnly_pure _
        · exact (blind_mismatch _ _).readOnly.writesOnly
        · exact (blind_mismatch _ _).readOnly.writesOnly
      have hsame := hnone.scope? h hrun
      cases result with
      | error stop => exact .inl ⟨⟨stop, rfl⟩, hsame⟩
      | ok value => exact .inr ⟨value, [], rfl, by simpa using hsame, rfl⟩
  | some name =>
      obtain ⟨m, word, i, init, rfl⟩ : ∃ m word i init, n = .declaration m word i init := by
        cases n <;> simp [Node.declaredName?] at hd
        exact ⟨_, _, _, _, rfl⟩
      obtain rfl : i.name = name := by simpa [Node.declaredName?] using hd
      -- The value is found first, which writes to no scope; only then is the name bound.
      have hfront : WritesNone (p.step (Node.declaration m word i init).span >>= fun _ =>
          evaluate p enter f init) :=
        WritesOnly.bind (writesNone_step _ _) fun _ => writesNone_evaluate henter _ _
      have hexecute : execute p enter f (.declaration m word i init) =
          (p.step (Node.declaration m word i init).span >>= fun _ => evaluate p enter f init) >>=
            fun v => define f.scope i.name v m.span >>= fun _ => pure none := by
        simp [execute]
      rw [hexecute] at hrun
      cases hvalue : (p.step (Node.declaration m word i init).span >>= fun _ =>
          evaluate p enter f init).run w with
      | mk found w₁ =>
          have hsame := hfront.scope? h hvalue
          cases found with
          | error stop =>
              rw [run_bind_error _ hvalue] at hrun
              cases hrun
              exact .inl ⟨⟨stop, rfl⟩, hsame⟩
          | ok v =>
              rw [run_bind_ok _ hvalue] at hrun
              rcases define_run i.name v m.span hsame with ⟨stop, hdefine⟩ | ⟨w₂, hdefine, hadded⟩
              · rw [run_bind_error _ hdefine] at hrun
                cases hrun
                exact .inl ⟨⟨stop, rfl⟩, hsame⟩
              · rw [run_bind_ok _ hdefine] at hrun
                cases hrun
                exact .inr ⟨none, [(i.name, v)], rfl, hadded, rfl⟩

theorem run_tryCatch_ok {x : Eval α} {handler : Stop → Eval α} {w w' : World} {a : α}
    (h : x.run w = (.ok a, w')) : (tryCatch x handler).run w = (.ok a, w') := by
  have hx : x w = (.ok a, w') := h
  simp only [tryCatch, tryCatchThe, MonadExceptOf.tryCatch, ExceptT.tryCatch, ExceptT.mk, ExceptT.run,
    bind, StateT.bind, hx]
  rfl

theorem run_tryCatch_error {x : Eval α} {handler : Stop → Eval α} {w w' : World} {stop : Stop}
    (h : x.run w = (.error stop, w')) : (tryCatch x handler).run w = (handler stop).run w' := by
  have hx : x w = (.error stop, w') := h
  simp [tryCatch, tryCatchThe, MonadExceptOf.tryCatch, ExceptT.tryCatch, ExceptT.mk, ExceptT.run,
    bind, StateT.bind, hx]

/-- A handler that always stops lets through what succeeds, and nothing else. -/
theorem run_tryCatch_eq_ok {x : Eval α} {handler : Stop → Eval α}
    (hstops : ∀ stop, ∃ other, handler stop = throw other) {w w' : World} {a : α} :
    (tryCatch x handler).run w = (.ok a, w') ↔ x.run w = (.ok a, w') := by
  refine ⟨fun h => ?_, run_tryCatch_ok⟩
  cases hx : x.run w with
  | mk result w₁ =>
      cases result with
      | error stop =>
          obtain ⟨other, hother⟩ := hstops stop
          rw [run_tryCatch_error hx, hother] at h
          cases h
      | ok b => rwa [run_tryCatch_ok hx] at h

section

variable {p : Pass} {m : Nat} {n : Node} {w w' : World}

theorem runScript_cons_ok {value : Option Value} (rest : List Node) (last : Option Value)
    (h : (execute p (p.call p.limits.calls) ⟨m, none, p.limits.nesting⟩ n).run w =
      (.ok value, w')) :
    (p.runScript m (n :: rest) last).run w = (p.runScript m rest value).run w' := by
  rw [runScript, run_bind_ok _ (run_tryCatch_ok h)]

/-- A statement that stops ends the run, perhaps with another reason. -/
theorem runScript_cons_error {stop : Stop} (rest : List Node) (last : Option Value)
    (h : (execute p (p.call p.limits.calls) ⟨m, none, p.limits.nesting⟩ n).run w =
      (.error stop, w')) :
    ∃ stop', (p.runScript m (n :: rest) last).run w = (.error stop', w') := by
  rw [runScript]
  cases stop with
  | tooDeep => exact ⟨_, run_bind_error _ ((run_tryCatch_error h).trans rfl)⟩
  | wrong cause span => exact ⟨_, run_bind_error _ ((run_tryCatch_error h).trans rfl)⟩
  | fault f => exact ⟨_, run_bind_error _ ((run_tryCatch_error h).trans rfl)⟩

end

/-- What running statements does to the scope they are run in. Exactly the first `k` of them are
completed, and of these the declarations have added one binding each. -/
theorem runScript_run (p : Pass) {m : Nat} (body : List Node) {last : Option Value} {w : World}
    {s : Scope} (h : w.store.scope? m = some s) :
    ∃ k added, k ≤ body.length ∧
      (∀ j, j ≤ body.length →
        ((∃ v, ((p.runScript m (body.take j) last).run w).1 = .ok v) ↔ j ≤ k)) ∧
      ((p.runScript m body last).run w).2.store.scope? m = some (s.append added) ∧
      added.map (·.1) = (body.take k).filterMap Node.declaredName? := by
  induction body generalizing last w s with
  | nil =>
      refine ⟨0, [], Nat.le_refl _, fun j hj => ?_, ?_, rfl⟩
      · obtain rfl : j = 0 := by simpa using hj
        exact ⟨fun _ => Nat.le_refl _, fun _ => ⟨last, rfl⟩⟩
      · rw [Scope.append_nil]
        exact h
  | cons n rest ih =>
      cases hrun : (execute p (p.call p.limits.calls) ⟨m, none, p.limits.nesting⟩ n).run w with
      | mk result w' =>
          rcases execute_run (entersCleanly_call p _) h hrun with
            ⟨⟨stop, rfl⟩, hsame⟩ | ⟨value, added, rfl, hadded, hnames⟩
          · -- The first statement fails, so none is completed.
            refine ⟨0, [], Nat.zero_le _, fun j _ => ?_, ?_, rfl⟩
            · cases j with
              | zero => exact ⟨fun _ => Nat.le_refl _, fun _ => ⟨last, rfl⟩⟩
              | succ j =>
                  obtain ⟨stop', hstop⟩ := runScript_cons_error (rest.take j) last hrun
                  rw [List.take_succ_cons, hstop]
                  exact ⟨fun ⟨v, hv⟩ => (nomatch hv), fun hj => absurd hj (by omega)⟩
            · obtain ⟨stop', hstop⟩ := runScript_cons_error rest last hrun
              rw [hstop, Scope.append_nil]
              exact hsame
          · -- The first statement is completed, and the rest goes on from there.
            obtain ⟨k, more, hk, hcompleted, hmore, hmoreNames⟩ := @ih value w' _ hadded
            refine ⟨k + 1, added ++ more, Nat.succ_le_succ hk, fun j hj => ?_, ?_, ?_⟩
            · cases j with
              | zero => exact ⟨fun _ => Nat.zero_le _, fun _ => ⟨last, rfl⟩⟩
              | succ j =>
                  rw [List.take_succ_cons, runScript_cons_ok (rest.take j) last hrun,
                    hcompleted j (Nat.le_of_succ_le_succ hj)]
                  exact ⟨Nat.succ_le_succ, Nat.le_of_succ_le_succ⟩
            · rw [runScript_cons_ok rest last hrun, hmore, Scope.append_append]
            · rw [List.map_append, hnames, hmoreNames, List.take_succ_cons]
              cases hname : n.declaredName? <;> simp [hname]

theorem writesOnly_runScript (p : Pass) (m : Nat) (body : List Node) (last : Option Value) :
    WritesOnly (· = m) (p.runScript m body last) := by
  induction body generalizing last with
  | nil => exact writesOnly_pure _
  | cons n rest ih =>
      intro w
      have hexecute := writesOnly_execute p (entersCleanly_call p p.limits.calls)
        ⟨m, none, p.limits.nesting⟩ n w
      cases hrun : (execute p (p.call p.limits.calls) ⟨m, none, p.limits.nesting⟩ n).run w with
      | mk result w' =>
          rw [hrun] at hexecute
          cases result with
          | error stop =>
              obtain ⟨stop', hstop⟩ := runScript_cons_error rest last hrun
              rw [hstop]
              exact hexecute
          | ok value =>
              rw [runScript_cons_ok rest last hrun]
              exact hexecute.trans (ih value w')

end Pass

/-! ### Runs -/

/-- A run of a script in a scope of a store, whether it succeeds or fails, leaves every other scope
that was there as it was. Its own scope keeps its bindings and gains, in order and behind them, one for
each declaration among the first `k` statements, which are exactly those that are completed: the first
`j` statements run without failure exactly if `j` is at most `k`. -/
theorem run_appends_completed_declarations (p : Pass) (store : Store)
    (m : Fin store.scopes.size) (mark : Mark) (body : List Node) :
    (∀ id, id < store.scopes.size → id ≠ m →
      (p.run store m (.program mark body)).store.scope? id = store.scope? id) ∧
    ∃ k added, k ≤ body.length ∧
      (∀ j, j ≤ body.length →
        ((∃ v, (p.run store m (.program mark (body.take j))).result = .ok v) ↔ j ≤ k)) ∧
      (p.run store m (.program mark body)).store.scope? m =
        some { store.scopes[m] with bindings := store.scopes[m].bindings ++ added } ∧
      added.map (·.1) = (body.take k).filterMap Node.declaredName? := by
  have hscope : store.scope? m = some store.scopes[m] := Array.getElem?_eq_getElem m.isLt
  refine ⟨(Pass.writesOnly_runScript p m body none ⟨0, [], [], store⟩).same, ?_⟩
  obtain ⟨k, added, hk, hcompleted, hadded, hnames⟩ :=
    @Pass.runScript_run p m body none ⟨0, [], [], store⟩ _ hscope
  refine ⟨k, added, hk, fun j hj => ?_, hadded, hnames⟩
  rw [← hcompleted j hj]
  exact exists_mapError_eq_ok

end PartScript
