import PartScript.Proofs.Pass.Budgets

/-!
Values of stages on a stack. Here the value that comes into a stage is not passed down but pushed on a stack
that all pipes and all functions share, and the calls that are being made are counted up and down. The top of
the stack is read wherever the value of a stage is used, so a function that is called in a stage reads what
was pushed outside it. This evaluation has the same results as the one that passes values down, and however
an expression ends, it leaves the stack and the count as they were.
-/

namespace PartScript

/-- A world with the values that have come into stages, the innermost one first, and the number of calls
that are being made. -/
structure Bench where
  world : World
  pipes : List Value
  depth : Nat

/-- A computation with a stack. -/
abbrev Stacked := ExceptT Stop (StateM Bench)

/-- How a function of the script is called, by a name and at a mark. -/
abbrev StackedEnter := String → Mark → Closure → List Value → Stacked Value

namespace Stacked

variable {α : Type}

/-- A computation that does not look at the stack. -/
def lift (x : Eval α) : Stacked α :=
  ExceptT.mk fun b => ((x.run b.world).1, { b with world := (x.run b.world).2 })

/-- Compute with a value on top of the stack, and take it off again. -/
def withPipe (v : Value) (x : Stacked α) : Stacked α := do
  modify fun b => { b with pipes := v :: b.pipes }
  try x finally modify fun b => { b with pipes := b.pipes.tail }

/-- Compute inside one more call, and leave the call again. -/
def withCall (x : Stacked α) : Stacked α := do
  modify fun b => { b with depth := b.depth + 1 }
  try x finally modify fun b => { b with depth := b.depth - 1 }

end Stacked

namespace Pass

open Stacked (lift withPipe withCall)

mutual

/-- The value of an expression. -/
def evaluateStacked (p : Pass) (enter : StackedEnter) (scope : Nat) (room : Option Nat) (n : Node) :
    Stacked Value := do
  lift (p.step n.span)
  let f ← lift (deeper ⟨scope, none, room⟩)
  match n with
  | .literal m value _ => lift (literal m value)
  | .identifier i => lift (lookup scope i.name i.span)
  | .binary m op l r => do
    let left ← evaluateStacked p enter scope f.room l
    let right ← evaluateStacked p enter scope f.room r
    lift (operated m (combine op left right))
  | .unary m op e => do lift (operated m (convert op (← evaluateStacked p enter scope f.room e)))
  | .call m callee args => do
    match ← lift (closure? scope callee.name) with
    | some c => enter callee.name m c (← evaluateAllStacked p enter scope f.room args)
    | none =>
      let entry ← lift (p.libraryEntry callee)
      lift (p.callLibrary entry callee.name m (← evaluateAllStacked p enter scope f.room args))
  | .array m es => do return .mk (.array (← evaluateAllStacked p enter scope f.room es)) [m.origin]
  | .object m ps => do
    let entries ← evaluateEntriesStacked p enter scope f.room ps
    return .mk (.host (.record (collectEntries entries))) [m.origin]
  | .member m e label => do
    lift (member m (← evaluateStacked p enter scope f.room e) (.text label.name) label.span)
  | .index m e key => do
    let target ← evaluateStacked p enter scope f.room e
    let k ← lift (memberKey (← evaluateStacked p enter scope f.room key) key.span)
    lift (member m target k key.span)
  | .pipe _ [] => lift (throw (.fault .runEmptyPipe))
  | .pipe _ (first :: more) => do
    evaluateStagesStacked p enter scope f.room more (← evaluateStacked p enter scope f.room first)
  | .hole m => do
    match (← get).pipes with
    | v :: _ => return v
    | [] => lift (mismatch .holeOutside m.span)
  | .function m params body => return .mk (.function ⟨params, body, scope⟩) [m.origin]
  | .program m body => lift (notAnExpression (.program m body))
  | .declaration m word name init => lift (notAnExpression (.declaration m word name init))
  | .statement m e => lift (notAnExpression (.statement m e))
  | .giveBack m e => lift (notAnExpression (.giveBack m e))
  | .property m key e => lift (notAnExpression (.property m key e))

/-- The values of expressions, from left to right. -/
def evaluateAllStacked (p : Pass) (enter : StackedEnter) (scope : Nat) (room : Option Nat) :
    List Node → Stacked (List Value)
  | [] => return []
  | e :: rest => do
    let v ← evaluateStacked p enter scope room e
    return v :: (← evaluateAllStacked p enter scope room rest)

/-- The entries of an object, from left to right. -/
def evaluateEntriesStacked (p : Pass) (enter : StackedEnter) (scope : Nat) (room : Option Nat) :
    List Node → Stacked (List (Key × Host))
  | [] => return []
  | .property _ key e :: rest => do
    let v ← evaluateStacked p enter scope room e
    return (.text key.name, .value v) :: (← evaluateEntriesStacked p enter scope room rest)
  | _ :: _ => lift (throw (.fault .malformed))

/-- The value that comes out of the stages of a pipe, given the one that goes in. -/
def evaluateStagesStacked (p : Pass) (enter : StackedEnter) (scope : Nat) (room : Option Nat) :
    List Node → Value → Stacked Value
  | [], v => return v
  | stage :: rest, v => do
    let out ← withPipe v (evaluateStacked p enter scope room stage)
    evaluateStagesStacked p enter scope room rest out

end

/-- Run one statement; an expression has a value. -/
def executeStacked (p : Pass) (enter : StackedEnter) (scope : Nat) (room : Option Nat) (n : Node) :
    Stacked (Option Value) := do
  lift (p.step n.span)
  match n with
  | .declaration m _ name init => do
    let v ← evaluateStacked p enter scope room init
    lift (define scope name.name v m.span)
    return none
  | .statement _ e => do return some (← evaluateStacked p enter scope room e)
  | .giveBack m _ => lift (mismatch .returnOutside m.span)
  | n => lift (mismatch (.notAStatement n.kindName) n.span)

/-- Run the statements of a function. -/
def runBodyStacked (p : Pass) (enter : StackedEnter) (scope : Nat) (room : Option Nat) :
    List Node → Option Value → Stacked (Option Value)
  | [], last => return last
  | .giveBack m e :: _, _ => do
    lift (p.step m.span)
    return some (← evaluateStacked p enter scope room e)
  | s :: rest, _ => do
    runBodyStacked p enter scope room rest (← executeStacked p enter scope room s)

/-- Run a function of the script in a scope of its own, inside one more call. -/
def enterScopeStacked (p : Pass) (enter : StackedEnter) : StackedEnter := fun name m c args => do
  let scope ← lift (openScope c.scope ("fn " ++ name))
  lift (bindParams scope c.params args)
  match ← withCall (runBodyStacked p enter scope p.limits.nesting c.body none) with
  | none => lift (mismatch (.noValue name) m.span)
  | some v => return v.withTrail (mergeTrails m.origin [v])

/-- Call a function of the script. The number only bounds the recursion: what may be nested is checked
against the number of calls that are being made. -/
def callStacked (p : Pass) : Nat → StackedEnter
  | fuel, name, m, c, args => do
    if args.length ≠ c.params.length then
      lift (mismatch (.argumentCount name (toString c.params.length) args.length) m.span)
    if p.limits.calls ≤ (← get).depth then
      lift (throw (.wrong (.exhausted (.calls p.limits.calls)) m.span))
    match fuel with
    | 0 => lift (throw .tooDeep)
    | fuel + 1 => p.enterScopeStacked (callStacked p fuel) name m c args

/-- Call a function of the script, however many calls are being made. -/
def enterStacked (p : Pass) : StackedEnter := p.callStacked p.limits.calls

/-- Run the statements of a script in order. -/
def runScriptStacked (p : Pass) (scope : Nat) : List Node → Option Value → Stacked (Option Value)
  | [], last => return last
  | s :: rest, _ => do
    let result ← tryCatch (executeStacked p p.enterStacked scope p.limits.nesting s)
      fun
        | .tooDeep => throw (.wrong (.exhausted .nesting) s.span)
        | stop => throw stop
    runScriptStacked p scope rest result

end Pass

/-! ### Stacks that are left alone -/

namespace Stacked

variable {α β : Type} {stack : List Value} {depth : Nat}

/-- With this stack and count the computation does what the other one does, and leaves both as they are. -/
def Mirrors (stack : List Value) (depth : Nat) (x : Stacked α) (y : Eval α) : Prop :=
  ∀ w, x.run ⟨w, stack, depth⟩ = ((y.run w).1, ⟨(y.run w).2, stack, depth⟩)

theorem mirrors_lift (x : Eval α) : Mirrors stack depth (lift x) x := fun _ => rfl

theorem mirrors_pure (a : α) : Mirrors stack depth (pure a) (pure a) := fun _ => rfl

theorem Mirrors.bind {x : Stacked α} {y : Eval α} {f : α → Stacked β} {g : α → Eval β}
    (h : Mirrors stack depth x y) (hf : ∀ a, Mirrors stack depth (f a) (g a)) :
    Mirrors stack depth (x >>= f) (y >>= g) := by
  intro w
  have hbind : (x >>= f).run ⟨w, stack, depth⟩ =
      ExceptT.bindCont f (x.run ⟨w, stack, depth⟩).1 (x.run ⟨w, stack, depth⟩).2 := rfl
  rw [hbind, h w]
  cases hy : y.run w with
  | mk result w' =>
      cases result with
      | error stop =>
          rw [Pass.run_bind_error g hy]
          rfl
      | ok a =>
          rw [Pass.run_bind_ok g hy]
          exact hf a w'

theorem run_finally (x : Stacked α) (k : Bench → Bench) (b : Bench) :
    (tryFinally x (modify k : Stacked Unit)).run b = ((x.run b).1, k (x.run b).2) := by
  cases hrun : x.run b with
  | mk result b' =>
      have hx : x b = (result, b') := hrun
      cases result <;>
        simp [tryFinally, tryFinally', ExceptT.run, Functor.map, ExceptT.map, ExceptT.mk, bind,
          StateT.bind, hx] <;>
        rfl

/-- A value that is on top while computing is gone afterwards. -/
theorem Mirrors.withPipe {v : Value} {x : Stacked α} {y : Eval α}
    (h : Mirrors (v :: stack) depth x y) : Mirrors stack depth (withPipe v x) y := by
  intro w
  have hpush : (Stacked.withPipe v x).run ⟨w, stack, depth⟩ =
      (tryFinally x (modify fun b => { b with pipes := b.pipes.tail } : Stacked Unit)).run
        ⟨w, v :: stack, depth⟩ := rfl
  rw [hpush, run_finally, h w, List.tail_cons]

/-- A call that is counted while computing is not counted afterwards. -/
theorem Mirrors.withCall {x : Stacked α} {y : Eval α} (h : Mirrors stack (depth + 1) x y) :
    Mirrors stack depth (withCall x) y := by
  intro w
  have hcount : (Stacked.withCall x).run ⟨w, stack, depth⟩ =
      (tryFinally x (modify fun b => { b with depth := b.depth - 1 } : Stacked Unit)).run
        ⟨w, stack, depth + 1⟩ := rfl
  rw [hcount, run_finally, h w, Nat.add_sub_cancel]

theorem mirrors_get {f : Bench → Stacked α} {y : Eval α}
    (h : ∀ w, Mirrors stack depth (f ⟨w, stack, depth⟩) y) : Mirrors stack depth (get >>= f) y :=
  fun w => h w w

theorem Mirrors.tryCatch {x : Stacked α} {y : Eval α} {handler : Stop → Stacked α}
    {handler' : Stop → Eval α} (h : Mirrors stack depth x y)
    (hcatch : ∀ stop, Mirrors stack depth (handler stop) (handler' stop)) :
    Mirrors stack depth (tryCatch x handler) (tryCatch y handler') := by
  intro w
  cases hy : y.run w with
  | mk result w' =>
      have hx : x ⟨w, stack, depth⟩ = (result, ⟨w', stack, depth⟩) := by
        have hrun := h w
        rw [hy] at hrun
        exact hrun
      cases result with
      | ok a =>
          rw [Pass.run_tryCatch_ok hy]
          simp only [MonadExcept.tryCatch, tryCatchThe, MonadExceptOf.tryCatch, ExceptT.tryCatch,
            ExceptT.mk, ExceptT.run, Bind.bind, StateT.bind, hx]
          rfl
      | error stop =>
          rw [Pass.run_tryCatch_error hy, ← hcatch stop w']
          simp [MonadExcept.tryCatch, tryCatchThe, MonadExceptOf.tryCatch, ExceptT.tryCatch, ExceptT.mk,
            ExceptT.run, Bind.bind, StateT.bind, hx]

end Stacked

/-! ### Expressions -/

namespace Pass

open Stacked (Mirrors lift mirrors_lift mirrors_pure)

/-- With any stack and this count, calls do what calls do that are handed the top of the stack. -/
def EnterMirrored (depth : Nat) (enter : StackedEnter) (enter' : Enter) : Prop :=
  ∀ stack name m c args,
    Mirrors stack depth (enter name m c args) (enter' ⟨name, m, stack.head?⟩ c args)

variable {stack : List Value} {depth scope : Nat}

/-- An expression starts with a step and goes one level deeper. -/
theorem mirrors_opening {α : Type} (p : Pass) {hole : Option Value} {room : Option Nat} {span : Span}
    {k : Frame → Stacked α} {k' : Frame → Eval α}
    (h : ∀ room, Mirrors stack depth (k ⟨scope, none, room⟩) (k' ⟨scope, hole, room⟩)) :
    Mirrors stack depth (lift (p.step span) >>= fun _ => lift (deeper ⟨scope, none, room⟩) >>= k)
      (p.step span >>= fun _ => deeper ⟨scope, hole, room⟩ >>= k') := by
  refine (mirrors_lift _).bind fun _ => ?_
  match room with
  | none => exact h none
  | some 0 => exact fun _ => rfl
  | some (room + 1) => exact h (some room)

section

variable {p : Pass} {enter : StackedEnter} {enter' : Enter}

mutual

theorem mirrors_evaluate (henter : EnterMirrored depth enter enter') :
    (n : Node) → (stack : List Value) → (room : Option Nat) →
      Mirrors stack depth (evaluateStacked p enter scope room n)
        (evaluate p enter' ⟨scope, stack.head?, room⟩ n)
  | .literal m value _, _, _ => by
      unfold evaluateStacked evaluate
      exact mirrors_opening p fun _ => mirrors_lift _
  | .identifier i, _, _ => by
      unfold evaluateStacked evaluate
      exact mirrors_opening p fun _ => mirrors_lift _
  | .binary m op l r, stack, _ => by
      unfold evaluateStacked evaluate
      refine mirrors_opening p fun room => ?_
      refine (mirrors_evaluate henter l stack room).bind fun _ => ?_
      exact (mirrors_evaluate henter r stack room).bind fun _ => mirrors_lift _
  | .unary m op e, stack, _ => by
      unfold evaluateStacked evaluate
      refine mirrors_opening p fun room => ?_
      exact (mirrors_evaluate henter e stack room).bind fun _ => mirrors_lift _
  | .call m callee args, stack, _ => by
      unfold evaluateStacked evaluate
      refine mirrors_opening p fun room => ?_
      refine (mirrors_lift _).bind fun c => ?_
      have hargs := mirrors_evaluateAll henter args stack room
      cases c with
      | some c => exact hargs.bind fun _ => henter _ _ _ _ _
      | none => exact (mirrors_lift _).bind fun _ => hargs.bind fun _ => mirrors_lift _
  | .array m es, stack, _ => by
      unfold evaluateStacked evaluate
      refine mirrors_opening p fun room => ?_
      exact (mirrors_evaluateAll henter es stack room).bind fun _ => mirrors_pure _
  | .object m ps, stack, _ => by
      unfold evaluateStacked evaluate
      refine mirrors_opening p fun room => ?_
      exact (mirrors_evaluateEntries henter ps stack room).bind fun _ => mirrors_pure _
  | .member m e label, stack, _ => by
      unfold evaluateStacked evaluate
      refine mirrors_opening p fun room => ?_
      exact (mirrors_evaluate henter e stack room).bind fun _ => mirrors_lift _
  | .index m e key, stack, _ => by
      unfold evaluateStacked evaluate
      refine mirrors_opening p fun room => ?_
      refine (mirrors_evaluate henter e stack room).bind fun _ => ?_
      refine (mirrors_evaluate henter key stack room).bind fun _ => ?_
      exact (mirrors_lift _).bind fun _ => mirrors_lift _
  | .pipe _ [], _, _ => by
      unfold evaluateStacked evaluate
      exact mirrors_opening p fun _ => mirrors_lift _
  | .pipe _ (first :: more), stack, _ => by
      unfold evaluateStacked evaluate
      refine mirrors_opening p fun room => ?_
      refine (mirrors_evaluate henter first stack room).bind fun v => ?_
      exact mirrors_evaluateStages henter more stack room v
  | .hole m, stack, _ => by
      unfold evaluateStacked evaluate
      refine mirrors_opening p fun room => Stacked.mirrors_get fun w => ?_
      cases stack with
      | nil => exact mirrors_lift _
      | cons v stack => exact mirrors_pure v
  | .function m params body, _, _ => by
      unfold evaluateStacked evaluate
      exact mirrors_opening p fun _ => mirrors_pure _
  | .program _ _, _, _ | .declaration _ _ _ _, _, _ | .statement _ _, _, _ | .giveBack _ _, _, _
  | .property _ _ _, _, _ => by
      unfold evaluateStacked evaluate
      exact mirrors_opening p fun _ => mirrors_lift _

theorem mirrors_evaluateAll (henter : EnterMirrored depth enter enter') :
    (ns : List Node) → (stack : List Value) → (room : Option Nat) →
      Mirrors stack depth (evaluateAllStacked p enter scope room ns)
        (evaluateAll p enter' ⟨scope, stack.head?, room⟩ ns)
  | [], _, _ => by
      unfold evaluateAllStacked evaluateAll
      exact mirrors_pure _
  | n :: rest, stack, room => by
      unfold evaluateAllStacked evaluateAll
      refine (mirrors_evaluate henter n stack room).bind fun _ => ?_
      exact (mirrors_evaluateAll henter rest stack room).bind fun _ => mirrors_pure _

theorem mirrors_evaluateEntries (henter : EnterMirrored depth enter enter') :
    (ns : List Node) → (stack : List Value) → (room : Option Nat) →
      Mirrors stack depth (evaluateEntriesStacked p enter scope room ns)
        (evaluateEntries p enter' ⟨scope, stack.head?, room⟩ ns)
  | [], _, _ => by
      unfold evaluateEntriesStacked evaluateEntries
      exact mirrors_pure _
  | .property _ key e :: rest, stack, room => by
      unfold evaluateEntriesStacked evaluateEntries
      refine (mirrors_evaluate henter e stack room).bind fun _ => ?_
      exact (mirrors_evaluateEntries henter rest stack room).bind fun _ => mirrors_pure _
  | .program _ _ :: _, _, _ | .declaration _ _ _ _ :: _, _, _ | .statement _ _ :: _, _, _
  | .giveBack _ _ :: _, _, _ | .literal _ _ _ :: _, _, _ | .identifier _ :: _, _, _
  | .binary _ _ _ _ :: _, _, _ | .unary _ _ _ :: _, _, _ | .call _ _ _ :: _, _, _
  | .array _ _ :: _, _, _ | .object _ _ :: _, _, _ | .member _ _ _ :: _, _, _
  | .index _ _ _ :: _, _, _ | .pipe _ _ :: _, _, _ | .hole _ :: _, _, _
  | .function _ _ _ :: _, _, _ => by
      unfold evaluateEntriesStacked evaluateEntries
      exact mirrors_lift _

theorem mirrors_evaluateStages (henter : EnterMirrored depth enter enter') :
    (ns : List Node) → (stack : List Value) → (room : Option Nat) → (v : Value) →
      Mirrors stack depth (evaluateStagesStacked p enter scope room ns v)
        (evaluateStages p enter' ⟨scope, stack.head?, room⟩ ns v)
  | [], _, _, _ => by
      unfold evaluateStagesStacked evaluateStages
      exact mirrors_pure _
  | n :: rest, stack, room, v => by
      unfold evaluateStagesStacked evaluateStages
      refine (mirrors_evaluate henter n (v :: stack) room).withPipe.bind fun out => ?_
      exact mirrors_evaluateStages henter rest stack room out

end

/-! ### Functions and statements -/

theorem mirrors_execute (henter : EnterMirrored depth enter enter') (stack : List Value)
    (room : Option Nat) (n : Node) :
    Mirrors stack depth (executeStacked p enter scope room n)
      (execute p enter' ⟨scope, stack.head?, room⟩ n) := by
  unfold executeStacked execute
  refine (mirrors_lift _).bind fun _ => ?_
  cases n with
  | declaration m word name init =>
      refine (mirrors_evaluate henter init stack room).bind fun v => ?_
      exact (mirrors_lift _).bind fun _ => mirrors_pure _
  | statement m e => exact (mirrors_evaluate henter e stack room).bind fun v => mirrors_pure _
  | _ => exact mirrors_lift _

theorem mirrors_runBody (henter : EnterMirrored depth enter enter') (stack : List Value)
    (room : Option Nat) (ns : List Node) (last : Option Value) :
    Mirrors stack depth (runBodyStacked p enter scope room ns last)
      (runBody p enter' ⟨scope, stack.head?, room⟩ ns last) := by
  induction ns generalizing last with
  | nil => exact mirrors_pure _
  | cons n rest ih =>
      have hnext : Mirrors stack depth
          (executeStacked p enter scope room n >>= runBodyStacked p enter scope room rest)
          (execute p enter' ⟨scope, stack.head?, room⟩ n >>=
            runBody p enter' ⟨scope, stack.head?, room⟩ rest) :=
        (mirrors_execute henter stack room n).bind ih
      -- A `return` ends the function; any other statement is followed by the rest.
      cases n with
      | giveBack m e =>
          refine (mirrors_lift _).bind fun _ => ?_
          exact (mirrors_evaluate henter e stack room).bind fun v => mirrors_pure _
      | _ => exact hnext

end

theorem enterMirrored_enterScope {p : Pass} {enter : StackedEnter} {enter' : Enter}
    (henter : EnterMirrored (depth + 1) enter enter') :
    EnterMirrored depth (p.enterScopeStacked enter) (p.enterScope enter') := by
  intro stack name m c args
  refine (mirrors_lift _).bind fun scope => ?_
  refine (mirrors_lift _).bind fun _ => ?_
  refine (mirrors_runBody henter stack p.limits.nesting c.body none).withCall.bind fun result => ?_
  cases result with
  | none => exact mirrors_lift _
  | some v => exact mirrors_pure _

/-- At the limit, calls are refused. -/
theorem enterMirrored_limit (p : Pass) (fuel : Nat) (h : p.limits.calls ≤ depth) :
    EnterMirrored depth (p.callStacked fuel) (p.call 0) := by
  intro stack name m c args
  have hrefused : ∀ x : Stacked Value, Mirrors stack depth
      (get >>= fun b : Bench => if p.limits.calls ≤ b.depth then
        lift (throw (.wrong (.exhausted (.calls p.limits.calls)) m.span)) >>= fun _ : Unit => x else x)
      (throw (.wrong (.exhausted (.calls p.limits.calls)) m.span)) := by
    refine fun x => Stacked.mirrors_get fun w => ?_
    rw [if_pos h]
    exact fun _ => rfl
  by_cases hlength : args.length ≠ c.params.length
  · cases fuel <;> simp only [callStacked, call, if_pos hlength] <;> exact fun _ => rfl
  · cases fuel <;> simp only [callStacked, call, if_neg hlength] <;> exact hrefused _

/-- Below the limit, functions are run. -/
theorem enterMirrored_below (p : Pass) {fuel left : Nat} (h : depth < p.limits.calls)
    (henter : EnterMirrored (depth + 1) (p.callStacked fuel) (p.call left)) :
    EnterMirrored depth (p.callStacked (fuel + 1)) (p.call (left + 1)) := by
  intro stack name m c args
  by_cases hlength : args.length ≠ c.params.length
  · simp only [callStacked, call, if_pos hlength]
    exact fun _ => rfl
  · simp only [callStacked, call, if_neg hlength]
    refine Stacked.mirrors_get fun w => ?_
    rw [if_neg (Nat.not_le.2 h)]
    exact enterMirrored_enterScope henter stack name m c args

/-- Counting calls up to a limit is counting down how many more may be nested. -/
theorem enterMirrored_call (p : Pass) {fuel depth : Nat} (hfuel : p.limits.calls ≤ fuel + depth) :
    EnterMirrored depth (p.callStacked fuel) (p.call (p.limits.calls - depth)) := by
  induction fuel generalizing depth with
  | zero =>
      have hlimit : p.limits.calls ≤ depth := by omega
      rw [Nat.sub_eq_zero_of_le hlimit]
      exact enterMirrored_limit p 0 hlimit
  | succ fuel ih =>
      rcases Nat.lt_or_ge depth p.limits.calls with hbelow | hlimit
      · have hleft : p.limits.calls - depth = p.limits.calls - (depth + 1) + 1 := by omega
        rw [hleft]
        exact enterMirrored_below p hbelow (ih (by omega))
      · rw [Nat.sub_eq_zero_of_le hlimit]
        exact enterMirrored_limit p _ hlimit

theorem mirrors_runScript (p : Pass) (scope : Nat) (ns : List Node) (last : Option Value) :
    Mirrors [] 0 (p.runScriptStacked scope ns last) (p.runScript scope ns last) := by
  have henter : EnterMirrored 0 p.enterStacked (p.call p.limits.calls) := enterMirrored_call p (Nat.le_refl _)
  induction ns generalizing last with
  | nil => exact mirrors_pure _
  | cons n rest ih =>
      refine ((mirrors_execute henter [] p.limits.nesting n).tryCatch fun stop => ?_).bind ih
      cases stop with
      | wrong | tooDeep | fault => exact fun _ => rfl

/-! ### Runs -/

end Pass

end PartScript
