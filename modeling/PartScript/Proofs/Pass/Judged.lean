import PartScript.Proofs.Pass.Frame

/-!
What evaluation is made of: steps, lookups, bindings and scopes, calls of the library, parts that do not look
at the world at all, one computation after another, and statements whose reason to stop is looked at. So a
property that all of these have, and that goes over to what is put together from them, is one of every
expression, every statement and every script, under all limits.
-/

namespace PartScript.Pass

/-- A property of computations that is one of everything evaluation is made of. -/
structure Judged (P : ∀ α : Type, Eval α → Prop) : Prop where
  blind : ∀ {α : Type} {x : Eval α}, Blind x → P α x
  bind : ∀ {α β : Type} {x : Eval α} {f : α → Eval β}, P α x → (∀ a, P β (f a)) → P β (x >>= f)
  tryCatch : ∀ {α : Type} {x : Eval α} {handler : Stop → Eval α},
    P α x → (∀ stop, P α (handler stop)) → P α (tryCatch x handler)
  step : ∀ p span, P Unit (step p span)
  lookup : ∀ scope name span, P Value (lookup scope name span)
  closure? : ∀ scope name, P (Option Closure) (closure? scope name)
  define : ∀ scope name v span, P Unit (define scope name v span)
  openScope : ∀ parent name, P Nat (openScope parent name)
  callLibrary : ∀ p entry name m args, P Value (callLibrary p entry name m args)

/-- Every call of a function of the script has the property. -/
def Entered (P : ∀ α : Type, Eval α → Prop) (enter : Enter) : Prop :=
  ∀ inv c args, P Value (enter inv c args)

namespace Judged

variable {P : ∀ α : Type, Eval α → Prop} (h : Judged P)
include h

theorem pure {α : Type} (a : α) : P α (pure a) := h.blind (blind_pure a)

theorem throw {α : Type} (stop : Stop) : P α (throw stop) := h.blind (blind_throw stop)

theorem mismatch {α : Type} (what : Mismatch) (span : Span) : P α (mismatch what span) :=
  h.blind (blind_mismatch what span)

/-- An expression starts with a step and goes one level deeper. -/
theorem opening {α : Type} (p : Pass) (f : Frame) (span : Span) {k : Frame → Eval α}
    (hk : ∀ f, P α (k f)) : P α (p.step span >>= fun _ => deeper f >>= k) :=
  h.bind (h.step p span) fun _ => h.bind (h.blind (blind_deeper f)) hk

/-! ### Expressions -/

section

variable {p : Pass} {enter : Enter}

mutual

theorem evaluate (henter : Entered P enter) :
    ∀ (n : Node) (f : Frame), P Value (evaluate p enter f n)
  | .literal .., _ => by
      unfold Pass.evaluate
      exact h.opening _ _ _ fun _ => h.blind (blind_literal _ _)
  | .identifier .., _ => by
      unfold Pass.evaluate
      exact h.opening _ _ _ fun _ => h.lookup _ _ _
  | .binary _ _ l r, _ => by
      unfold Pass.evaluate
      refine h.opening _ _ _ fun f => h.bind (evaluate henter l f) fun _ => ?_
      exact h.bind (evaluate henter r f) fun _ => h.blind (blind_operated _ _)
  | .unary _ _ e, _ => by
      unfold Pass.evaluate
      refine h.opening _ _ _ fun f => h.bind (evaluate henter e f) fun _ => ?_
      exact h.blind (blind_operated _ _)
  | .call _ callee args, _ => by
      unfold Pass.evaluate
      refine h.opening _ _ _ fun f => h.bind (h.closure? _ _) fun c => ?_
      cases c with
      | some c => exact h.bind (evaluateAll henter args f) fun _ => henter _ _ _
      | none =>
          refine h.bind (h.blind (blind_libraryEntry _ _)) fun _ => ?_
          exact h.bind (evaluateAll henter args f) fun _ => h.callLibrary _ _ _ _ _
  | .array _ es, _ => by
      unfold Pass.evaluate
      exact h.opening _ _ _ fun f => h.bind (evaluateAll henter es f) fun _ => h.pure _
  | .object _ ps, _ => by
      unfold Pass.evaluate
      exact h.opening _ _ _ fun f => h.bind (evaluateEntries henter ps f) fun _ => h.pure _
  | .member _ e _, _ => by
      unfold Pass.evaluate
      refine h.opening _ _ _ fun f => h.bind (evaluate henter e f) fun _ => ?_
      exact h.blind (blind_member _ _ _ _)
  | .index _ e key, _ => by
      unfold Pass.evaluate
      refine h.opening _ _ _ fun f => h.bind (evaluate henter e f) fun _ => ?_
      refine h.bind (evaluate henter key f) fun _ => ?_
      exact h.bind (h.blind (blind_memberKey _ _)) fun _ => h.blind (blind_member _ _ _ _)
  | .pipe _ [], _ => by
      unfold Pass.evaluate
      exact h.opening _ _ _ fun _ => h.throw _
  | .pipe _ (first :: more), _ => by
      unfold Pass.evaluate
      exact h.opening _ _ _ fun f => h.bind (evaluate henter first f) fun v => evaluateStages henter more f v
  | .hole _, _ => by
      unfold Pass.evaluate
      refine h.opening _ _ _ fun f => ?_
      dsimp only
      split
      · exact h.pure _
      · exact h.mismatch _ _
  | .function .., _ => by
      unfold Pass.evaluate
      exact h.opening _ _ _ fun _ => h.pure _
  | .program .., _ | .declaration .., _ | .statement .., _ | .giveBack .., _ | .property .., _ => by
      unfold Pass.evaluate
      exact h.opening _ _ _ fun _ => h.mismatch _ _

theorem evaluateAll (henter : Entered P enter) :
    ∀ (ns : List Node) (f : Frame), P (List Value) (evaluateAll p enter f ns)
  | [], _ => by
      unfold Pass.evaluateAll
      exact h.pure _
  | n :: ns, f => by
      unfold Pass.evaluateAll
      exact h.bind (evaluate henter n f) fun _ => h.bind (evaluateAll henter ns f) fun _ => h.pure _

theorem evaluateEntries (henter : Entered P enter) :
    ∀ (ns : List Node) (f : Frame), P (List (Key × Host)) (evaluateEntries p enter f ns)
  | [], _ => by
      unfold Pass.evaluateEntries
      exact h.pure _
  | n :: ns, f => by
      have hrest := evaluateEntries henter ns f
      cases n with
      | property m key e =>
          unfold Pass.evaluateEntries
          exact h.bind (evaluate henter e f) fun _ => h.bind hrest fun _ => h.pure _
      | _ => exact h.throw _

theorem evaluateStages (henter : Entered P enter) :
    ∀ (ns : List Node) (f : Frame) (v : Value), P Value (evaluateStages p enter f ns v)
  | [], _, _ => by
      unfold Pass.evaluateStages
      exact h.pure _
  | n :: ns, f, v => by
      unfold Pass.evaluateStages
      exact h.bind (evaluate henter n _) fun v => evaluateStages henter ns f v

end

/-! ### Statements and functions -/

theorem execute (henter : Entered P enter) (f : Frame) (n : Node) :
    P (Option Value) (execute p enter f n) := by
  unfold Pass.execute
  refine h.bind (h.step _ _) fun _ => ?_
  split
  · refine h.bind (h.evaluate henter _ _) fun v => ?_
    exact h.bind (h.define _ _ _ _) fun _ => h.pure _
  · exact h.bind (h.evaluate henter _ _) fun _ => h.pure _
  · exact h.mismatch _ _
  · exact h.mismatch _ _

theorem runBody (henter : Entered P enter) (f : Frame) (body : List Node) (last : Option Value) :
    P (Option Value) (runBody p enter f body last) := by
  fun_induction Pass.runBody p enter f body last with
  | case1 last => exact h.pure _
  | case2 last m e rest =>
      refine h.bind (h.step _ _) fun _ => ?_
      exact h.bind (h.evaluate henter _ _) fun _ => h.pure _
  | case3 n rest last _ ih => exact h.bind (h.execute henter f n) ih

end

theorem bindParams (scope : Nat) (params : List Ident) (args : List Value) :
    P Unit (bindParams scope params args) := by
  fun_induction Pass.bindParams scope params args with
  | case1 i params v args ih => exact h.bind (h.define _ _ _ _) fun _ => ih
  | case2 => exact h.pure _

/-- What calls have, the functions that make them have. -/
theorem enterScope (p : Pass) {enter : Enter} (henter : Entered P enter) :
    Entered P (p.enterScope enter) := by
  intro inv c args
  refine h.bind (h.openScope _ _) fun scope => h.bind (h.bindParams _ _ _) fun _ => ?_
  refine h.bind (h.runBody henter _ _ _) fun result => ?_
  cases result with
  | none => exact h.mismatch _ _
  | some v => exact h.pure _

theorem call (p : Pass) (left : Nat) : Entered P (p.call left) := by
  induction left with
  | zero =>
      intro inv c args
      simp only [Pass.call]
      split
      · exact h.bind (h.mismatch _ _) fun _ => h.throw _
      · exact h.throw _
  | succ left ih =>
      intro inv c args
      simp only [Pass.call]
      split
      · exact h.bind (h.mismatch _ _) fun _ => h.enterScope p ih _ _ _
      · exact h.enterScope p ih _ _ _

/-! ### Scripts -/

theorem runScript (p : Pass) (scope : Nat) (body : List Node) (last : Option Value) :
    P (Option Value) (p.runScript scope body last) := by
  induction body generalizing last with
  | nil => exact h.pure _
  | cons n rest ih =>
      rw [Pass.runScript]
      refine h.bind (h.tryCatch (h.execute (h.call p _) _ n) fun stop => ?_) ih
      cases stop with
      | wrong | tooDeep | fault => exact h.throw _

end Judged

end PartScript.Pass
