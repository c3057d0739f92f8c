import PartScript.Proofs.Library.Submission
import PartScript.Proofs.Pass.Judged
import PartScript.Proofs.Pipe.Stack

/-!
Executors. An executor runs one script after another with one command manager. What it works with stays behind
when a pass ends or is stopped: steps, what was shown, values of stages and calls. The next pass starts by
clearing all of it but the commands of the manager, and these cannot be told from inside a pass. So a pass on
an executor that has run others does what it does on a new one, and the manager gets the commands of one pass
after those of another.
-/

namespace PartScript

/-- The world with some commands sent before its own. -/
def World.behind (before : List Command) (w : World) : World := { w with sent := before ++ w.sent }

namespace Pass

variable {α β : Type}

/-! ### Commands sent before -/

/-- The computation does not look at the commands that have been sent, and sends its own behind them. -/
def Heedless (x : Eval α) : Prop :=
  ∀ before w, x.run (w.behind before) = ((x.run w).1, (x.run w).2.behind before)

theorem Blind.heedless {x : Eval α} (h : Blind x) : Heedless x := by
  obtain ⟨result, hrun⟩ := h
  intro before w
  rw [hrun, hrun]

theorem Heedless.bind {x : Eval α} {f : α → Eval β} (hx : Heedless x) (hf : ∀ a, Heedless (f a)) :
    Heedless (x >>= f) := by
  intro before w
  have hbefore := hx before w
  cases hrun : x.run w with
  | mk result w' =>
      rw [hrun] at hbefore
      cases result with
      | error stop => rw [run_bind_error f hbefore, run_bind_error f hrun]
      | ok a => rw [run_bind_ok f hbefore, run_bind_ok f hrun, hf a before w']

theorem Heedless.tryCatch {x : Eval α} {handler : Stop → Eval α} (hx : Heedless x)
    (hhandler : ∀ stop, Heedless (handler stop)) : Heedless (tryCatch x handler) := by
  intro before w
  have hbefore := hx before w
  cases hrun : x.run w with
  | mk result w' =>
      rw [hrun] at hbefore
      cases result with
      | ok a => rw [run_tryCatch_ok hbefore, run_tryCatch_ok hrun]
      | error stop =>
          rw [run_tryCatch_error hbefore, run_tryCatch_error hrun, hhandler stop before w']

theorem heedless_get {f : World → Eval α} (hsame : ∀ before w, f (w.behind before) = f w)
    (h : ∀ w, Heedless (f w)) : Heedless (get >>= f) := by
  intro before w
  have hrun : (get >>= f).run (w.behind before) = (f (w.behind before)).run (w.behind before) := rfl
  rw [hrun, hsame before w]
  exact h w before w

theorem heedless_modify {g : World → World}
    (h : ∀ before w, g (w.behind before) = (g w).behind before) :
    Heedless (modify g : Eval Unit) := by
  intro before w
  have hrun : (modify g : Eval Unit).run (w.behind before) = (.ok (), g (w.behind before)) := rfl
  rw [hrun, h before w]
  rfl

theorem heedless_define (scope : Nat) (name : String) (v : Value) (span : Span) :
    Heedless (define scope name v span) := by
  refine heedless_get (fun _ _ => rfl) fun w => ?_
  have hbind : Heedless (modify fun w => { w with store := w.store.bind scope name v } : Eval Unit) :=
    heedless_modify fun _ _ => rfl
  split
  · exact (blind_throw _).heedless.bind fun _ => hbind
  · exact hbind

theorem heedless_perform (e : Effect) : Heedless (perform e) := by
  refine (heedless_modify fun before w => ?_).bind fun _ => (blind_pure _).heedless
  simp only [World.behind, List.append_assoc]

theorem heedless_callLibrary (p : Pass) (entry : LibraryEntry) (name : String) (m : Mark)
    (args : List Value) : Heedless (p.callLibrary entry name m args) := by
  unfold callLibrary
  split
  · split
    · exact heedless_perform _
    · exact (blind_mismatch _ _).heedless
    · exact (blind_throw _).heedless
  · exact (blind_mismatch _ _).heedless

/-- Nothing in an evaluation looks at the commands that have been sent. -/
theorem judged_heedless : Judged fun _ x => Heedless x where
  blind := Blind.heedless
  bind := Heedless.bind
  tryCatch := Heedless.tryCatch
  step p span := by
    refine (heedless_modify fun _ _ => rfl).bind fun _ => heedless_get (fun _ _ => rfl) fun w => ?_
    split
    · exact (blind_throw _).heedless
    · exact (blind_pure _).heedless
  lookup scope name span := by
    refine heedless_get (fun _ _ => rfl) fun w => ?_
    split
    · exact (blind_pure _).heedless
    · exact (blind_throw _).heedless
  closure? scope name := by
    refine heedless_get (fun _ _ => rfl) fun w => ?_
    split
    · exact (blind_pure _).heedless
    · exact (blind_pure _).heedless
  define := heedless_define
  openScope parent name := by
    refine heedless_get (fun _ _ => rfl) fun w => ?_
    exact (heedless_modify fun _ _ => rfl).bind fun _ => (blind_pure _).heedless
  callLibrary := heedless_callLibrary

/-- No command is taken back. -/
theorem Heedless.keeps_sent {x : Eval α} (h : Heedless x) (w : World) :
    w.sent <+: (x.run w).2.sent := by
  have hworld : ({ w with sent := [] } : World).behind w.sent = w := by
    simp only [World.behind, List.append_nil]
  have hrun := h w.sent { w with sent := [] }
  rw [hworld] at hrun
  rw [hrun]
  exact List.prefix_append _ _

/-- How a call of the library ends: with the value of its effect, which is added to what was shown and sent
before, or with the world as it was. -/
theorem run_callLibrary (p : Pass) (entry : LibraryEntry) (name : String) (m : Mark)
    (args : List Value) (w : World) :
    (∃ e, entry.builtin.run ⟨p.code, m⟩ args = .ok e ∧
      (p.callLibrary entry name m args).run w =
        (.ok e.value, { w with shown := w.shown ++ e.shown, sent := w.sent ++ e.sent.toList })) ∨
      ∃ stop, (p.callLibrary entry name m args).run w = (.error stop, w) := by
  unfold callLibrary
  split
  · split
    · exact .inl ⟨_, ‹_›, rfl⟩
    · exact .inr ⟨_, rfl⟩
    · exact .inr ⟨_, rfl⟩
  · exact .inr ⟨_, rfl⟩

end Pass

/-! ### Executors -/

/-- An executor with its command manager: the limits and the library it runs scripts under, the text of the
pass, what it works with, and how many commands the manager had when the pass began. The commands that are
sent go to the manager, so those of the world are all that the manager has. -/
structure Executor where
  limits : Limits
  library : Library
  code : String
  bench : Bench
  mark : Nat
  mark_le : mark ≤ bench.world.sent.length

/-- What an executor is given to run: a script with its text, and the memory to run it in. -/
structure Job where
  code : String
  script : Node
  store : Store
  scope : Nat

namespace Executor

/-- The pass that is being run. -/
def pass (e : Executor) : Pass := ⟨e.code, e.limits, e.library⟩

/-- The commands that the manager has. -/
def manager (e : Executor) : List Command := e.bench.world.sent

/-- The commands of this pass. -/
def recorded (e : Executor) : List Command := e.manager.drop e.mark

/-- A new executor with a new manager. -/
def fresh (limits : Limits) (library : Library) : Executor :=
  ⟨limits, library, "", ⟨⟨0, [], [], .empty⟩, [], 0⟩, 0, Nat.le_refl 0⟩

/-- Begin a pass: only the manager keeps what it has. -/
def reset (e : Executor) (code : String) (store : Store) : Executor :=
  ⟨e.limits, e.library, code, ⟨⟨0, [], e.manager, store⟩, [], 0⟩, e.manager.length, Nat.le_refl _⟩

/-- Compute with what is there. What the computation leaves stays there, also if it stops. -/
def work {α : Type} (e : Executor) (x : Stacked α)
    (h : e.manager <+: (x.run e.bench).2.world.sent) : Except Stop α × Executor :=
  ((x.run e.bench).1,
    { e with bench := (x.run e.bench).2, mark_le := Nat.le_trans e.mark_le h.length_le })

/-- Call a function of the library. -/
def call (e : Executor) (entry : LibraryEntry) (name : String) (m : Mark) (args : List Value) :
    Except Stop Value × Executor :=
  e.work (Stacked.lift (e.pass.callDrawing entry name m args)) <| by
    rw [Pass.callDrawing_eq]
    exact (Pass.heedless_callLibrary e.pass entry name m args).keeps_sent e.bench.world

/-- How the pass ended. -/
def outcome (e : Executor) (result : Except Stop (Option Value)) : Outcome :=
  ⟨result.mapError (Stop.failure (Text.linesOf e.code)), e.bench.world.shown, e.recorded,
    e.bench.world.steps, e.bench.world.store⟩

theorem work_eq {α : Type} {e : Executor} {x : Stacked α} {result : Except Stop α} {b : Bench}
    (hrun : x.run e.bench = (result, b)) (h : e.manager <+: (x.run e.bench).2.world.sent) :
    ∃ hle, e.work x h = (result, { e with bench := b, mark_le := hle }) := by
  obtain rfl : (x.run e.bench).1 = result := congrArg Prod.fst hrun
  obtain rfl : (x.run e.bench).2 = b := congrArg Prod.snd hrun
  exact ⟨_, rfl⟩

theorem keeps_sent_runScriptStacked (p : Pass) (scope : Nat) (body : List Node) (w : World) :
    w.sent <+: ((p.runScriptStacked scope body none).run ⟨w, [], 0⟩).2.world.sent := by
  rw [Pass.mirrors_runScript p scope body none w]
  exact (Pass.judged_heedless.runScript p scope body none).keeps_sent w

/-- Run a script from the beginning. -/
def execute (e : Executor) (job : Job) : Outcome × Executor :=
  let e := e.reset job.code job.store
  match job.script with
  | .program _ body =>
    let (result, e) := e.work (e.pass.runScriptStacked job.scope body none)
      (keeps_sent_runScriptStacked e.pass job.scope body e.bench.world)
    (e.outcome result, e)
  | _ => (e.outcome (.error (.fault .malformed)), e)

/-- Run scripts one after another. -/
def executeAll (e : Executor) : List Job → List Outcome × Executor
  | [] => ([], e)
  | job :: rest =>
    let (o, e) := e.execute job
    let (os, e) := e.executeAll rest
    (o :: os, e)

/-! ### Calls -/

/-- A call on an executor has an effect, whose command goes both to the manager and to the commands of this
pass, or it leaves the executor as it was. -/
theorem call_cases (e : Executor) (entry : LibraryEntry) (name : String) (m : Mark)
    (args : List Value) :
    (∃ effect e', entry.builtin.run ⟨e.code, m⟩ args = .ok effect ∧
      e.call entry name m args = (.ok effect.value, e') ∧
      e'.recorded = e.recorded ++ effect.sent.toList ∧
      e'.manager = e.manager ++ effect.sent.toList) ∨
    ∃ stop, e.call entry name m args = (.error stop, e) := by
  have hlift : (Stacked.lift (e.pass.callDrawing entry name m args)).run e.bench =
      (((e.pass.callLibrary entry name m args).run e.bench.world).1,
        { e.bench with world := ((e.pass.callLibrary entry name m args).run e.bench.world).2 }) := by
    rw [Pass.callDrawing_eq]
    rfl
  rcases Pass.run_callLibrary e.pass entry name m args e.bench.world with
    ⟨effect, heffect, hrun⟩ | ⟨stop, hrun⟩
  · rw [hrun] at hlift
    obtain ⟨hle, hwork⟩ := work_eq hlift _
    exact .inl ⟨effect, _, heffect, hwork, List.drop_append_of_le_length e.mark_le, rfl⟩
  · rw [hrun] at hlift
    obtain ⟨hle, hwork⟩ := work_eq hlift _
    exact .inr ⟨stop, hwork⟩

/-! ### Passes -/

/-- The pass of a job alone, under the limits and with the library of an executor. -/
def alone (e : Executor) (job : Job) : Outcome :=
  Pass.run ⟨job.code, e.limits, e.library⟩ job.store job.scope job.script

/-- On an executor that has begun a pass, a script is run as in a new world, and what it sends is put behind
the commands that the manager had. -/
theorem run_runScriptStacked (e : Executor) (code : String) (store : Store) (scope : Nat)
    (body : List Node) {result : Except Stop (Option Value)} {w : World}
    (h : (Pass.runScript ⟨code, e.limits, e.library⟩ scope body none).run ⟨0, [], [], store⟩ =
      (result, w)) :
    ((e.reset code store).pass.runScriptStacked scope body none).run (e.reset code store).bench =
      (result, ⟨w.behind e.manager, [], 0⟩) := by
  have hworld : (e.reset code store).bench.world = World.behind e.manager ⟨0, [], [], store⟩ := by
    simp only [reset, World.behind, List.append_nil]
  have hbefore := Pass.judged_heedless.runScript ⟨code, e.limits, e.library⟩ scope body none e.manager
    ⟨0, [], [], store⟩
  rw [h, ← hworld] at hbefore
  refine (Pass.mirrors_runScript _ scope body none (e.reset code store).bench.world).trans ?_
  rw [show (e.reset code store).pass = ⟨code, e.limits, e.library⟩ from rfl, hbefore]

theorem execute_program (e : Executor) (code : String) (mark : Mark) (body : List Node) (store : Store)
    (scope : Nat) {result : Except Stop (Option Value)} {w : World}
    (h : (Pass.runScript ⟨code, e.limits, e.library⟩ scope body none).run ⟨0, [], [], store⟩ =
      (result, w)) :
    ∃ hle, e.execute ⟨code, .program mark body, store, scope⟩ =
      (Pass.outcome (Text.linesOf code) (result, w),
        { e.reset code store with bench := ⟨w.behind e.manager, [], 0⟩, mark_le := hle }) := by
  obtain ⟨hle, hwork⟩ := work_eq (run_runScriptStacked e code store scope body h)
    (keeps_sent_runScriptStacked _ scope body _)
  refine ⟨hle, ?_⟩
  -- The commands of the pass are those behind what the manager had when it began.
  have hrecorded : (e.manager ++ w.sent).drop e.manager.length = w.sent := List.drop_left
  unfold execute
  dsimp only
  rw [hwork]
  simp only [outcome, Pass.outcome, recorded, manager, World.behind, reset] at hrecorded ⊢
  rw [hrecorded]

/-- Whatever an executor has run before, a script on it has the outcome that it has alone, and the manager
gets the commands of the pass behind those that it has. -/
theorem execute_eq (e : Executor) (job : Job) :
    (e.execute job).1 = e.alone job ∧
      (e.execute job).2.manager = e.manager ++ (e.alone job).sent ∧
      (e.execute job).2.limits = e.limits ∧ (e.execute job).2.library = e.library := by
  obtain ⟨code, script, store, scope⟩ := job
  cases script with
  | program mark body =>
      cases hrun : (Pass.runScript ⟨code, e.limits, e.library⟩ scope body none).run
        ⟨0, [], [], store⟩ with
      | mk result w =>
          have halone : e.alone ⟨code, .program mark body, store, scope⟩ =
              Pass.outcome (Text.linesOf code) (result, w) := by
            rw [alone, Pass.run_program, hrun]
          obtain ⟨hle, hexecute⟩ := execute_program e code mark body store scope hrun
          rw [hexecute, halone]
          exact ⟨rfl, rfl, rfl, rfl⟩
  | _ =>
      have hnone : e.manager.drop e.manager.length = [] := List.drop_length
      refine ⟨?_, (List.append_nil _).symm, rfl, rfl⟩
      simp only [execute, outcome, recorded, manager, reset, alone, Pass.run] at hnone ⊢
      rw [hnone]
      rfl

theorem executeAll_eq (e : Executor) (jobs : List Job) :
    (e.executeAll jobs).1 = jobs.map e.alone ∧
      (e.executeAll jobs).2.manager = e.manager ++ (jobs.map e.alone).flatMap (·.sent) := by
  induction jobs generalizing e with
  | nil => exact ⟨rfl, (List.append_nil _).symm⟩
  | cons job rest ih =>
      obtain ⟨houtcome, hmanager, hlimits, hlibrary⟩ := e.execute_eq job
      obtain ⟨houtcomes, hmanagers⟩ := ih (e.execute job).2
      have halone : (e.execute job).2.alone = e.alone := by
        funext job'
        rw [alone, alone, hlimits, hlibrary]
      rw [halone] at houtcomes hmanagers
      refine ⟨?_, ?_⟩
      · show (e.execute job).1 :: ((e.execute job).2.executeAll rest).1 = _
        rw [houtcome, houtcomes, List.map_cons]
      · show ((e.execute job).2.executeAll rest).2.manager = _
        rw [hmanagers, hmanager, List.append_assoc, List.map_cons, List.flatMap_cons]

/-- A call of the library, at any moment of a pass and with any arguments, sends one command or none. If it
returns, a function that touches the engine has put one command behind those of the pass and one behind those
of the manager, the same one, with the range of the call; the path of the command is the sketch that a line or
the closing of a sketch returns, and the identifier of the command that of the sketch or the extrusion that is
begun. If the call stops, or the function does not touch the engine, both lists are as they were. It is the
same whether the command is sent as soon as it is made or at the end of the call.

So scripts run one after another on one executor, whether they succeed or stop anywhere, give the manager the
commands of each, in order, behind what it had. Each has the outcome that it has on a new executor, which is
that of the script alone: the result, and what it shows and sends. -/
theorem one_command_or_none (e : Executor) :
    (∀ entry name m args,
      e.pass.callDrawing entry name m args = e.pass.callLibrary entry name m args ∧
      match e.call entry name m args with
      | (.ok v, e') =>
        if entry.builtin.usesEngine then
          ∃ c, e'.recorded = e.recorded ++ [c] ∧ e'.manager = e.manager ++ [c] ∧
            c.range = m.span.range ∧ Builtin.Names c entry.builtin v.data
        else e'.recorded = e.recorded ∧ e'.manager = e.manager
      | (.error _, e') => e'.recorded = e.recorded ∧ e'.manager = e.manager) ∧
    ∀ jobs,
      (e.executeAll jobs).2.manager = e.manager ++ (e.executeAll jobs).1.flatMap (·.sent) ∧
      (e.executeAll jobs).1 =
        jobs.map (fun job => ((fresh e.limits e.library).execute job).1) ∧
      ∀ job, ((fresh e.limits e.library).execute job).1 =
        Pass.run ⟨job.code, e.limits, e.library⟩ job.store job.scope job.script := by
  have hfresh : ∀ job, ((fresh e.limits e.library).execute job).1 = e.alone job := fun job =>
    ((fresh e.limits e.library).execute_eq job).1
  refine ⟨fun entry name m args => ⟨Pass.callDrawing_eq _ _ _ _ _, ?_⟩, fun jobs => ?_⟩
  · rcases e.call_cases entry name m args with
      ⟨effect, e', heffect, hcall, hrecorded, hmanager⟩ | ⟨stop, hcall⟩
    · rw [hcall]
      dsimp only
      split
      · obtain ⟨c, hsent, hrange, hnames⟩ := Builtin.sends_of_run ‹_› heffect
        rw [hsent] at hrecorded hmanager
        exact ⟨c, hrecorded, hmanager, hrange, hnames⟩
      · have hsent := Builtin.silent_run (Bool.eq_false_iff.2 ‹_›) effect heffect
        rw [hsent] at hrecorded hmanager
        exact ⟨hrecorded.trans (List.append_nil _), hmanager.trans (List.append_nil _)⟩
    · rw [hcall]
      exact ⟨rfl, rfl⟩
  · obtain ⟨houtcomes, hmanager⟩ := e.executeAll_eq jobs
    refine ⟨by rw [hmanager, houtcomes], houtcomes.trans (List.map_congr_left fun job _ => ?_), hfresh⟩
    exact (hfresh job).symm

end Executor

end PartScript
