import PartScript.Proofs.Pipe.Pass

/-!
Expressions with pipes and with nested calls. In a pipe a stage is looked at after the stages before it
have been evaluated; in nested calls what it calls and its first arguments come before them. Quiet
arguments and callees depend only on what is bound in scopes that are there, and evaluation writes to
none of these, so the order makes no difference.
-/

namespace PartScript.Pass

variable {L K b : Nat} {α β : Type}

/-! ### Computations that only look names up -/

/-- The computation takes steps and looks names up from a scope, and does nothing else: where these
names mean the same it does the same. -/
def Reads (L scope : Nat) (x : Eval α) : Prop :=
  ∀ w a w', x.run w = (.ok a, w') →
    ∃ d, w' = { w with steps := w.steps + d } ∧ (d = 0 ∨ w.steps + d ≤ L) ∧
      ∀ u : World, (∀ name, u.store.get? scope name = w.store.get? scope name) → u.steps + d ≤ L →
        x.run u = (.ok a, { u with steps := u.steps + d })

variable {scope : Nat}

theorem Blind.reads {x : Eval α} (h : Blind x) : Reads L scope x := by
  obtain ⟨result, hrun⟩ := h
  intro w a w' hw
  rw [hrun] at hw
  cases hw
  exact ⟨0, rfl, .inl rfl, fun u _ _ => hrun u⟩

theorem Reads.bind {x : Eval α} {f : α → Eval β} (hx : Reads L scope x)
    (hf : ∀ a, Reads L scope (f a)) : Reads L scope (x >>= f) := by
  intro w c w₂ hrun
  obtain ⟨a, w₁, hxa, hfa⟩ := run_bind_eq_ok hrun
  obtain ⟨d, rfl, hlimit, hsame⟩ := hx w a w₁ hxa
  obtain ⟨e, rfl, hlimit', hsame'⟩ := hf a _ c w₂ hfa
  simp only at hlimit' hsame'
  refine ⟨d + e, by rw [Nat.add_assoc], by omega, fun u hu hleft => ?_⟩
  have hmore := hsame' { u with steps := u.steps + d } hu (by simp only; omega)
  rw [run_bind_ok f (hsame u hu (by omega)), hmore, Nat.add_assoc]

theorem reads_step (p : Pass) (span : Span) : Reads p.limits.steps scope (p.step span) := by
  intro w a w' hrun
  obtain ⟨hlimit, rfl⟩ := run_step_eq_ok hrun
  refine ⟨1, rfl, .inr hlimit, fun u _ hleft => ?_⟩
  rw [run_step, if_neg (by omega)]

theorem reads_lookup (name : String) (span : Span) : Reads L scope (lookup scope name span) := by
  intro w a w' hrun
  have hsame := readOnly_lookup scope name span w
  rw [hrun] at hsame
  obtain rfl : w' = w := hsame
  refine ⟨0, rfl, .inl rfl, fun u hu _ => ?_⟩
  rw [run_lookup] at hrun ⊢
  rw [hu name, (Prod.mk.inj hrun).1]
  rfl

theorem reads_callee (p : Pass) (i : Ident) : Reads L scope (p.callee scope i) := by
  have hclosure : Reads L scope (closure? scope i.name) := by
    intro w a w' hrun
    rw [run_closure?] at hrun
    cases hrun
    refine ⟨0, rfl, .inl rfl, fun u hu _ => ?_⟩
    rw [run_closure?, hu]
    rfl
  refine hclosure.bind fun c => ?_
  cases c with
  | some c => exact (blind_pure _).reads
  | none => exact (blind_libraryEntry p i).reads.bind fun _ => (blind_pure _).reads

/-- Going one level deeper does not leave the scope. -/
theorem reads_deeper {f : Frame} {k : Frame → Eval α}
    (hk : ∀ g : Frame, g.scope = f.scope → Reads L scope (k g)) : Reads L scope (deeper f >>= k) := by
  obtain ⟨scope', hole, room⟩ := f
  match room with
  | none => exact hk _ rfl
  | some 0 => exact Blind.reads ⟨.error .tooDeep, fun _ => rfl⟩
  | some (n + 1) => exact hk _ rfl

section

variable {p : Pass} {enter : Enter}

mutual

/-- A quiet expression only looks names up. -/
theorem reads_evaluate : (n : Node) → n.quiet = true → (f : Frame) →
    Reads p.limits.steps f.scope (evaluate p enter f n)
  | .literal m value _, _, f => by
      unfold evaluate
      exact (reads_step p _).bind fun _ => reads_deeper fun _ _ => (blind_literal m value).reads
  | .identifier i, _, f => by
      unfold evaluate
      refine (reads_step p _).bind fun _ => reads_deeper fun g hg => ?_
      dsimp only
      rw [hg]
      exact reads_lookup _ _
  | .binary m op l r, h, f => by
      simp only [Node.quiet, Bool.and_eq_true] at h
      unfold evaluate
      refine (reads_step p _).bind fun _ => reads_deeper fun g hg => ?_
      refine (hg ▸ reads_evaluate l h.1 g).bind fun _ => ?_
      exact (hg ▸ reads_evaluate r h.2 g).bind fun _ => (blind_operated _ _).reads
  | .unary m op e, h, f => by
      unfold evaluate
      refine (reads_step p _).bind fun _ => reads_deeper fun g hg => ?_
      exact (hg ▸ reads_evaluate e h g).bind fun _ => (blind_operated _ _).reads
  | .array m es, h, f => by
      unfold evaluate
      refine (reads_step p _).bind fun _ => reads_deeper fun g hg => ?_
      exact (hg ▸ reads_evaluateAll es h g).bind fun _ => (blind_pure _).reads
  | .object m ps, h, f => by
      unfold evaluate
      refine (reads_step p _).bind fun _ => reads_deeper fun g hg => ?_
      exact (hg ▸ reads_evaluateEntries ps h g).bind fun _ => (blind_pure _).reads
  | .member m e label, h, f => by
      unfold evaluate
      refine (reads_step p _).bind fun _ => reads_deeper fun g hg => ?_
      exact (hg ▸ reads_evaluate e h g).bind fun _ => (blind_member _ _ _ _).reads
  | .index m e key, h, f => by
      simp only [Node.quiet, Bool.and_eq_true] at h
      unfold evaluate
      refine (reads_step p _).bind fun _ => reads_deeper fun g hg => ?_
      refine (hg ▸ reads_evaluate e h.1 g).bind fun _ => ?_
      refine (hg ▸ reads_evaluate key h.2 g).bind fun _ => ?_
      exact (blind_memberKey _ _).reads.bind fun _ => (blind_member _ _ _ _).reads
  | .function m params body, _, f => by
      unfold evaluate
      exact (reads_step p _).bind fun _ => reads_deeper fun _ _ => (blind_pure _).reads
  | .program .., _, f | .declaration .., _, f | .statement .., _, f | .giveBack .., _, f
  | .property .., _, f => by
      unfold evaluate
      exact (reads_step p _).bind fun _ => reads_deeper fun _ _ => (blind_mismatch _ _).reads

theorem reads_evaluateAll : (ns : List Node) → Node.quietAll ns = true → (f : Frame) →
    Reads p.limits.steps f.scope (evaluateAll p enter f ns)
  | [], _, f => by
      unfold evaluateAll
      exact (blind_pure _).reads
  | n :: ns, h, f => by
      simp only [Node.quietAll, Bool.and_eq_true] at h
      unfold evaluateAll
      refine (reads_evaluate n h.1 f).bind fun _ => ?_
      exact (reads_evaluateAll ns h.2 f).bind fun _ => (blind_pure _).reads

theorem reads_evaluateEntries : (ns : List Node) → Node.quietAll ns = true → (f : Frame) →
    Reads p.limits.steps f.scope (evaluateEntries p enter f ns)
  | [], _, f => by
      unfold evaluateEntries
      exact (blind_pure _).reads
  | n :: ns, h, f => by
      simp only [Node.quietAll, Bool.and_eq_true] at h
      have hrest := reads_evaluateEntries ns h.2 f
      cases n with
      | property m key e =>
          unfold evaluateEntries
          refine (reads_evaluate e h.1 f).bind fun _ => ?_
          exact hrest.bind fun _ => (blind_pure _).reads
      | _ => exact (blind_throw _).reads

end

end

/-! ### Another order -/

/-- What only looks names up may come before something that writes to no scope instead of after it. -/
theorem follows_swap {γ δ η ζ : Type} {relF : γ → Nat → α → β → Prop} {relX : Nat → γ → δ → Prop}
    {rel : Nat → η → ζ → Prop} {F : γ → Eval α} {F' : Eval β} {X : Eval γ} {X' : β → Eval δ}
    {R : α → Eval η} {R' : β → δ → Eval ζ} (hclean : WritesNone X) (hscope : scope < b)
    (hreads : ∀ c, Reads L scope (F c))
    (hmono : ∀ c b b' a a', b ≤ b' → relF c b a a' → relF c b' a a')
    (hF : ∀ c, Follows L K b (relF c) (F c) F')
    (hX : ∀ b', b ≤ b' → ∀ c a a', relF c b' a a' → Follows L K b' relX X (X' a'))
    (hR : ∀ b', b ≤ b' → ∀ a a' c c', relF c b' a a' → relX b' c c' →
      Follows L K b' rel (R a) (R' a' c')) :
    Follows L K b rel (X >>= fun c => F c >>= R) (F' >>= fun a => X' a >>= fun c => R' a c) := by
  intro w u r w₃ hrun hw hb
  obtain ⟨c, w₁, hXc, hrest⟩ := run_bind_eq_ok hrun
  obtain ⟨a, w₂, hFa, hRr⟩ := run_bind_eq_ok hrest
  obtain ⟨d, rfl, hlimit, hsame⟩ := hreads c w₁ a w₂ hFa
  -- The names meant the same before.
  have hnames (name : String) : w.store.get? scope name = w₁.store.get? scope name := by
    have hkeeps := hclean w
    rw [hXc] at hkeeps
    exact (hw.linked.get?_of_keeps hkeeps (Nat.lt_of_lt_of_le hscope hb) name).symm
  have hbefore : (F c).run { w with steps := 0 } = (.ok a, { w with steps := 0 + d }) :=
    hsame { w with steps := 0 } hnames (by simp only; omega)
  have hFu (u : World) (hu : World.Nests K w u) (hleft : u.steps + d ≤ L) :
      ∃ a' u', F'.run u = (.ok a', u') ∧ World.Nests K w u' ∧ relF c w.store.scopes.size a a' ∧
        u'.steps ≤ u.steps + d := by
    have hfollows := hF c _ u a _ hbefore (hu.withSteps 0 u.steps) hb
    simp only [Nat.zero_add, Nat.sub_zero] at hfollows
    obtain ⟨a', u', hrun', hu', hrel, hcost⟩ := hfollows.2 hleft
    exact ⟨a', u', hrun', hu'.withSteps w.steps u'.steps, hrel, hcost⟩
  -- With their steps set back, all parts can be followed, so all of them advance.
  obtain ⟨a₀, u₀, -, hu₀, hrel₀, -⟩ := hFu { u with steps := 0 } (hw.withSteps w.steps 0)
    (by simp only; omega)
  have hadvances := (hX _ hb c a a₀ hrel₀ w u₀ c w₁ hXc hu₀ (Nat.le_refl _)).1
  obtain ⟨c₀, u₁, hu₁, hrelX₀⟩ := (hX _ hb c a a₀ hrel₀).rewound hXc hu₀ (Nat.le_refl _)
  have hb₁ := Nat.le_trans hb hadvances.scopes
  have hmore := (hR _ hb₁ a a₀ c c₀ (hmono _ _ _ _ _ hadvances.scopes hrel₀) hrelX₀
    { w₁ with steps := w₁.steps + d } u₁ r w₃ hRr (hu₁.withSteps _ _) (Nat.le_refl _)).1
  have hsteps := hadvances.steps
  have hsteps' := hmore.steps
  have hmost := hadvances.limit
  have hmost' := hmore.limit
  simp only at hsteps' hmost'
  refine ⟨⟨by omega, Nat.le_trans hadvances.scopes hmore.scopes, by omega⟩, fun hleft => ?_⟩
  obtain ⟨a', u₁, hF', hu₁, hrelF, hcost⟩ := hFu u hw (by omega)
  obtain ⟨c', u₂, hX', hu₂, hrelX, hcost'⟩ :=
    (hX _ hb c a a' hrelF w u₁ c w₁ hXc hu₁ (Nat.le_refl _)).2 (by omega)
  obtain ⟨r', u₃, hR', hu₃, hrel, hcost''⟩ := (hR _ hb₁ a a' c c'
    (hmono _ _ _ _ _ hadvances.scopes hrelF) hrelX { w₁ with steps := w₁.steps + d } u₂ r w₃ hRr
    (hu₂.withSteps _ _) (Nat.le_refl _)).2 (by simp only; omega)
  simp only at hcost''
  refine ⟨r', u₃, ?_, hu₃, hrel, by omega⟩
  rw [run_bind_ok _ hF', run_bind_ok _ hX', hR']

/-! ### Stages -/

section

variable {p q : Pass} {enter enter' : Enter} {f g : Frame} {k : Nat} {inStage : Bool}

theorem evaluateAll_append (p : Pass) (enter : Enter) (f : Frame) (before : List Node) (x : Node)
    (after : List Node) :
    evaluateAll p enter f (before ++ x :: after) =
      evaluateAll p enter f before >>= fun vs => evaluate p enter f x >>= fun v =>
        evaluateAll p enter f after >>= fun ws => pure (vs ++ v :: ws) := by
  induction before with
  | nil =>
      rw [List.nil_append, evaluateAll, evaluateAll, pure_bind]
      rfl
  | cons n before ih =>
      rw [List.cons_append, evaluateAll, evaluateAll, ih]
      simp only [bind_assoc, pure_bind, List.cons_append]

theorem evaluateStages_snoc (p : Pass) (enter : Enter) (f : Frame) (more : List Node) (stage : Node)
    (v : Value) :
    evaluateStages p enter f (more ++ [stage]) v =
      evaluateStages p enter f more v >>= fun v => evaluate p enter { f with hole := some v } stage := by
  induction more generalizing v with
  | nil =>
      rw [List.nil_append, evaluateStages, evaluateStages, pure_bind]
      simp only [evaluateStages, bind_pure]
  | cons n more ih =>
      rw [List.cons_append, evaluateStages, evaluateStages, bind_assoc]
      exact bind_congr fun v => ih v

/-- What a call has found when its first arguments are evaluated. -/
structure Prepared where
  frame : Frame
  callee : Callee
  before : List Value

/-- Find what a call calls, and evaluate its first arguments. -/
def prepare (p : Pass) (enter : Enter) (f : Frame) (m : Mark) (i : Ident) (before : List Node) :
    Eval Prepared := do
  p.step m.span
  let f ← deeper f
  let c ← p.callee f.scope i
  return ⟨f, c, ← evaluateAll p enter f before⟩

/-- Evaluate the other arguments of a call, and call. -/
def finish (p : Pass) (enter : Enter) (m : Mark) (i : Ident) (after : List Node) (a : Prepared)
    (v : Value) : Eval Value := do
  let vs ← evaluateAll p enter a.frame after
  p.invoke enter ⟨i.name, m, a.frame.hole⟩ (a.before ++ v :: vs) a.callee

theorem evaluate_call_append (p : Pass) (enter : Enter) (f : Frame) (m : Mark) (i : Ident)
    (before : List Node) (x : Node) (after : List Node) :
    evaluate p enter f (.call m i (before ++ x :: after)) =
      prepare p enter f m i before >>= fun a => evaluate p enter a.frame x >>= fun v =>
        finish p enter m i after a v := by
  rw [evaluate_call]
  simp only [prepare, finish, evaluateAll_append, bind_assoc, pure_bind]

/-- What a stage has found and what the call has found that it becomes. The frame of the pipe, in which
the stages before were evaluated, corresponds to that of the call. -/
structure Prepared.Staged (K b : Nat) (inStage : Bool) (k : Nat) (f : Frame) (v : Value)
    (a a' : Prepared) : Prop where
  hole : a.frame.hole = some v
  frame : a.frame.Nests K b false k a'.frame
  outer : f.Nests K b inStage k a'.frame
  callee : a.callee.Nests K b a'.callee
  before : Value.NestsAll K b a.before a'.before

theorem Prepared.Staged.mono {b' : Nat} (hb : b ≤ b') {v : Value} {a a' : Prepared}
    (h : a.Staged K b inStage k f v a') : a.Staged K b' inStage k f v a' :=
  ⟨h.hole, h.frame.mono hb, h.outer.mono hb, h.callee.mono hb, h.before.mono hb⟩

theorem reads_prepare (m : Mark) (i : Ident) {before : List Node} (hquiet : Node.quietAll before = true)
    (f : Frame) : Reads p.limits.steps f.scope (prepare p enter f m i before) := by
  refine (reads_step p _).bind fun _ => reads_deeper fun g hg => ?_
  rw [← hg]
  refine (reads_callee p i).bind fun c => ?_
  exact (reads_evaluateAll before hquiet g).bind fun vs => (blind_pure _).reads

theorem reads_hole (m : Mark) (f : Frame) :
    Reads p.limits.steps scope (evaluate p enter f (.hole m)) := by
  unfold evaluate
  refine (reads_step p _).bind fun _ => reads_deeper fun g _ => ?_
  dsimp only
  cases g.hole with
  | some v => exact (blind_pure v).reads
  | none => exact (blind_mismatch _ _).reads

theorem prepare_stage_follows (hpq : Wide K p q) (hf : f.Nests K b inStage (k + 1) g) (v : Value)
    (m m' : Mark) {i i' : Ident} (hname : i.name = i'.name) {before before' : List Node}
    (hbefore : ∀ b', b ≤ b' → ∀ f g, f.Nests K b' false k g →
      Follows p.limits.steps K b' (Value.NestsAll K) (evaluateAll p enter f before)
        (evaluateAll q enter' g before')) :
    Follows p.limits.steps K b (fun b' a a' => a.Staged K b' inStage k f v a')
      (prepare p enter { f with hole := some v } m i before) (prepare q enter' g m' i' before') := by
  refine (step_follows hpq _ _).bind fun b₁ hb₁ _ _ _ => ?_
  refine (deeper_stage_follows (hf.mono hb₁) (some v)).bind fun b₂ hb₂ fs gs hfs => ?_
  obtain ⟨hhole, hframe, houter⟩ := hfs
  rw [hframe.scope]
  refine (callee_follows hpq hname _).bind fun b₃ hb₃ c c' hc => ?_
  refine (hbefore b₃ (by omega) _ _ (hframe.mono hb₃)).bind fun b₄ hb₄ vs vs' hvs => ?_
  exact follows_pure fun b₅ hb₅ => ⟨hhole, hframe.mono (by omega), houter.mono (by omega),
    hc.mono (by omega), hvs.mono hb₅⟩

/-- The value of a stage that has been prepared. -/
theorem hole_follows (p : Pass) (enter : Enter) {v : Value} {a a' : Prepared}
    (ha : a.Staged K b inStage k f v a') (m : Mark) :
    Follows p.limits.steps K b
      (fun b' a a' => a.2 = v ∧ a.1.Staged K b' inStage k f v a')
      (evaluate p enter a.frame (.hole m) >>= fun w => pure (a, w)) (pure a') := by
  have hvalue : Follows p.limits.steps K b
      (fun b' a a' => a.2 = v ∧ a.1.Staged K b' inStage k f v a') (pure (a, v)) (pure a') :=
    follows_pure fun _ hb => ⟨rfl, ha.mono hb⟩
  have hhole := ha.hole
  unfold evaluate
  simp only [bind_assoc]
  refine follows_step_left (follows_deeper_left fun room _ => ?_)
  dsimp only
  rw [hhole]
  exact hvalue

/-- A stage behind others, and the call that it becomes around what they become. -/
theorem stage_follows (hpq : Wide K p q) (hclean : EntersCleanly enter)
    (henter : EntersFollowing p.limits.steps K enter enter') (hf : f.Nests K b inStage (k + 1) g)
    {e x : Node} {more : List Node}
    (hx : ∀ b', b ≤ b' → ∀ g, f.Nests K b' inStage k g →
      Follows p.limits.steps K b' (Value.Nests K)
        (evaluate p enter f e >>= evaluateStages p enter f more) (evaluate q enter' g x))
    {m m' h : Mark} (hrange : m.span.range = m'.span.range) {i i' : Ident} (hname : i.name = i'.name)
    {before before' after after' : List Node} (hquiet : Node.quietAll before = true)
    (hbefore : ∀ b', b ≤ b' → ∀ f g, f.Nests K b' false k g →
      Follows p.limits.steps K b' (Value.NestsAll K) (evaluateAll p enter f before)
        (evaluateAll q enter' g before'))
    (hafter : ∀ b', b ≤ b' → ∀ f g, f.Nests K b' false k g →
      Follows p.limits.steps K b' (Value.NestsAll K) (evaluateAll p enter f after)
        (evaluateAll q enter' g after')) :
    Follows p.limits.steps K b (Value.Nests K)
      (evaluate p enter f e >>=
        evaluateStages p enter f (more ++ [.call m i (before ++ .hole h :: after)]))
      (evaluate q enter' g (.call m' i' (before' ++ x :: after'))) := by
  have hstages : (evaluate p enter f e >>=
        evaluateStages p enter f (more ++ [.call m i (before ++ .hole h :: after)])) =
      (evaluate p enter f e >>= evaluateStages p enter f more) >>= fun v =>
        (prepare p enter { f with hole := some v } m i before >>= fun a =>
          evaluate p enter a.frame (.hole h) >>= fun w => pure (a, w)) >>= fun a =>
            finish p enter m i after a.1 a.2 := by
    simp only [bind_assoc, pure_bind]
    refine bind_congr fun v => ?_
    rw [evaluateStages_snoc]
    exact bind_congr fun v => evaluate_call_append _ _ _ _ _ _ _ _
  have hclean' : WritesNone (evaluate p enter f e >>= evaluateStages p enter f more) :=
    WritesOnly.bind (writesNone_evaluate hclean e f) (writesNone_evaluateStages hclean more f)
  have hreads (v : Value) : Reads p.limits.steps f.scope
      (prepare p enter { f with hole := some v } m i before >>= fun a =>
        evaluate p enter a.frame (.hole h) >>= fun w => pure (a, w)) :=
    (reads_prepare m i hquiet { f with hole := some v }).bind fun a =>
      (reads_hole h a.frame).bind fun w => (blind_pure _).reads
  have hprepare (v : Value) : Follows p.limits.steps K b
      (fun b' a a' => a.2 = v ∧ a.1.Staged K b' inStage k f v a')
      (prepare p enter { f with hole := some v } m i before >>= fun a =>
        evaluate p enter a.frame (.hole h) >>= fun w => pure (a, w))
      (prepare q enter' g m' i' before') := by
    have hboth := (prepare_stage_follows hpq hf v m m' hname hbefore).bind
      fun b' _ a a' ha => hole_follows p enter ha h
    rw [bind_pure] at hboth
    exact hboth
  rw [hstages, evaluate_call_append]
  refine follows_swap hclean' hf.lt hreads (fun v b b' a a' hb ha => ⟨ha.1, ha.2.mono hb⟩) hprepare
    (fun b' hb v a a' ha => hx b' hb a'.frame ha.2.outer) ?_
  rintro b' hb ⟨a, w⟩ a' v v' ⟨hw, ha⟩ hv
  obtain rfl : w = v := hw
  refine (hafter b' hb _ _ ha.frame).bind fun b'' hb' vs vs' hvs => ?_
  have hargs : Value.NestsAll K b'' (a.before ++ w :: vs) (a'.before ++ v' :: vs') :=
    (ha.before.mono hb').append (.cons (hv.mono hb') hvs)
  exact invoke_follows hpq henter hname hrange hargs (ha.callee.mono hb')

/-! ### Expressions -/

mutual

theorem evaluate_follows (hpq : Wide K p q) (hclean : EntersCleanly enter)
    (henter : EntersFollowing p.limits.steps K enter enter') {b k : Nat} {u : Bool} {n n' : Node}
    {f g : Frame} :
    Node.Nests K u k n n' → f.Nests K b u k g →
      Follows p.limits.steps K b (Value.Nests K) (evaluate p enter f n) (evaluate q enter' g n')
  | .literal, hf => by
      unfold evaluate
      exact opening_follows hpq hf _ _ fun _ _ f g hf => literal_follows _ _ _
  | .identifier hname, hf => by
      unfold evaluate
      refine opening_follows hpq hf _ _ fun _ _ f g hf => ?_
      dsimp only
      rw [hf.scope, hname]
      exact lookup_follows _ _ _ _
  | .binary hl hr, hf => by
      unfold evaluate
      refine opening_follows hpq hf _ _ fun _ _ f g hf => ?_
      refine (evaluate_follows hpq hclean henter hl hf).bind fun _ hb v v' hv => ?_
      refine (evaluate_follows hpq hclean henter hr (hf.mono hb)).bind fun _ hb w w' hw => ?_
      rw [← combine_like _ (hv.mono hb) hw]
      exact operated_follows _ _ fun d hd _ => like_of_combine hd
  | .unary he, hf => by
      unfold evaluate
      refine opening_follows hpq hf _ _ fun _ _ f g hf => ?_
      refine (evaluate_follows hpq hclean henter he hf).bind fun _ _ v v' hv => ?_
      rw [← convert_like _ hv]
      exact operated_follows _ _ fun d hd _ => like_of_convert hd
  | .call hrange hname hargs, hf => by
      rw [evaluate_call, evaluate_call]
      refine opening_follows hpq hf _ _ fun _ _ f g hf => ?_
      rw [hf.scope]
      refine (callee_follows hpq hname _).bind fun _ hb c c' hc => ?_
      refine (evaluateAll_follows hpq hclean henter hargs (hf.mono hb)).bind fun _ hb vs vs' hvs => ?_
      exact invoke_follows hpq henter hname hrange hvs (hc.mono hb)
  | .array hes, hf => by
      unfold evaluate
      refine opening_follows hpq hf _ _ fun _ _ f g hf => ?_
      refine (evaluateAll_follows hpq hclean henter hes hf).bind fun _ _ vs vs' hvs => ?_
      exact follows_pure fun _ hb => .mk (.array (hvs.mono hb))
  | .object hps, hf => by
      unfold evaluate
      refine opening_follows hpq hf _ _ fun _ _ f g hf => ?_
      refine (evaluateEntries_follows hpq hclean henter hps hf).bind fun _ _ es es' hes => ?_
      have hrecord := Host.Like.record (collectEntries_like hes)
      exact follows_pure fun _ hb => .mk (.host (Host.Nests.mono hb hrecord))
  | .member he hname, hf => by
      unfold evaluate
      refine opening_follows hpq hf _ _ fun _ _ f g hf => ?_
      refine (evaluate_follows hpq hclean henter he hf).bind fun _ _ v v' hv => ?_
      rw [hname]
      exact member_follows _ _ hv _ _ _
  | .index he hkey, hf => by
      unfold evaluate
      refine opening_follows hpq hf _ _ fun _ _ f g hf => ?_
      refine (evaluate_follows hpq hclean henter he hf).bind fun _ hb v v' hv => ?_
      refine (evaluate_follows hpq hclean henter hkey (hf.mono hb)).bind fun _ hb w w' hw => ?_
      refine (memberKey_follows hw _ _).bind fun _ hb' key key' hkey => ?_
      subst hkey
      exact member_follows _ _ (hv.mono (Nat.le_trans hb hb')) _ _ _
  | .noPipe, hf => by
      unfold evaluate
      exact opening_follows hpq hf _ _ fun _ _ f g hf => follows_throw _ _
  | .pipe hfirst hmore, hf => by
      unfold evaluate
      refine opening_follows hpq hf _ _ fun _ _ f g hf => ?_
      refine (evaluate_follows hpq hclean henter hfirst hf).bind fun _ hb v v' hv => ?_
      exact evaluateStages_follows hpq hclean henter hmore (hf.mono hb) hv
  | .nested hchain, hf => by
      -- The pipe goes one level down and takes a step before its first stage; the calls do not.
      have hinner (room : Option Nat) (hroom : Limits.RoomLe room f.room) :
          Frame.Nests K b u k { f with room := room } g :=
        ⟨hf.scope, hf.lt, hf.hole, hf.room.less hroom⟩
      rw [evaluate]
      refine follows_step_left (follows_deeper_left fun room hroom => ?_)
      exact evaluateChain_follows hpq hclean henter hchain (hinner room hroom)
  | .hole, hf => by
      unfold evaluate
      refine opening_follows hpq hf _ _ fun _ _ f g hf => ?_
      have hhole := hf.hole rfl
      dsimp only
      generalize f.hole = x at hhole
      generalize g.hole = y at hhole
      cases hhole with
      | none => exact follows_mismatch _ _ _
      | some hv => exact follows_pure fun _ hb => hv.mono hb
  | .function hparams hbody, hf => by
      unfold evaluate
      refine opening_follows hpq hf _ _ fun _ _ f g hf => ?_
      exact follows_pure fun _ hb =>
        .mk (.function ⟨hparams, hf.scope, Nat.lt_of_lt_of_le hf.lt hb, hbody⟩)
  | .program .., hf | .declaration .., hf | .statement .., hf | .giveBack .., hf
  | .property .., hf => by
      unfold evaluate
      exact opening_follows hpq hf _ _ fun _ _ f g hf => follows_mismatch _ _ _
termination_by (k, sizeOf n, 0)

theorem evaluateAll_follows (hpq : Wide K p q) (hclean : EntersCleanly enter)
    (henter : EntersFollowing p.limits.steps K enter enter') {b k : Nat} {u : Bool}
    {ns ns' : List Node} {f g : Frame} :
    Node.NestsAll K u k ns ns' → f.Nests K b u k g →
      Follows p.limits.steps K b (Value.NestsAll K) (evaluateAll p enter f ns)
        (evaluateAll q enter' g ns')
  | .nil, hf => by
      unfold evaluateAll
      exact follows_pure fun _ _ => .nil
  | .cons h hrest, hf => by
      unfold evaluateAll
      refine (evaluate_follows hpq hclean henter h hf).bind fun _ hb v v' hv => ?_
      refine (evaluateAll_follows hpq hclean henter hrest (hf.mono hb)).bind fun _ hb vs vs' hvs => ?_
      exact follows_pure fun _ hb' => .cons (hv.mono (Nat.le_trans hb hb')) (hvs.mono hb')
termination_by (k, sizeOf ns, 0)

theorem evaluateEntries_follows (hpq : Wide K p q) (hclean : EntersCleanly enter)
    (henter : EntersFollowing p.limits.steps K enter enter') {b k : Nat} {u : Bool}
    {ns ns' : List Node} {f g : Frame} :
    Node.NestsAll K u k ns ns' → f.Nests K b u k g →
      Follows p.limits.steps K b (fun b' => Host.LikeEntries (Closure.Nests K b'))
        (evaluateEntries p enter f ns) (evaluateEntries q enter' g ns')
  | .nil, hf => by
      unfold evaluateEntries
      exact follows_pure fun _ _ => .nil
  | .cons h hrest, hf => by
      cases h with
      | property hname he =>
          unfold evaluateEntries
          refine (evaluate_follows hpq hclean henter he hf).bind fun _ hb v v' hv => ?_
          refine (evaluateEntries_follows hpq hclean henter hrest (hf.mono hb)).bind ?_
          intro _ hb es es' hes
          rw [hname]
          exact follows_pure fun _ hb' => .cons (.value (hv.mono (Nat.le_trans hb hb')))
            (Host.LikeEntries.mono (fun _ _ => .mono hb') hes)
      | _ => exact follows_throw _ _
termination_by (k, sizeOf ns, 0)

theorem evaluateStages_follows (hpq : Wide K p q) (hclean : EntersCleanly enter)
    (henter : EntersFollowing p.limits.steps K enter enter') {b k : Nat} {u : Bool}
    {ns ns' : List Node} {f g : Frame} {v v' : Value} :
    Node.NestsAll K true k ns ns' → f.Nests K b u k g → Value.Nests K b v v' →
      Follows p.limits.steps K b (Value.Nests K) (evaluateStages p enter f ns v)
        (evaluateStages q enter' g ns' v')
  | .nil, _, hv => by
      unfold evaluateStages
      exact follows_pure fun _ hb => hv.mono hb
  | .cons h hrest, hf, hv => by
      unfold evaluateStages
      have hstage : Frame.Nests K b true k { f with hole := some v } { g with hole := some v' } :=
        ⟨hf.scope, hf.lt, fun _ => .some hv, hf.room⟩
      refine (evaluate_follows hpq hclean henter h hstage).bind fun _ hb w w' hw => ?_
      exact evaluateStages_follows hpq hclean henter hrest (hf.mono hb) hw
termination_by (k, sizeOf ns, 0)

/-- The stages of a pipe one after the other, and the nested calls they become. -/
theorem evaluateChain_follows (hpq : Wide K p q) (hclean : EntersCleanly enter)
    (henter : EntersFollowing p.limits.steps K enter enter') {b k : Nat} {u : Bool} {e n : Node}
    {more : List Node} {f g : Frame} :
    Node.NestsChain K u k e more n → f.Nests K b u k g →
      Follows p.limits.steps K b (Value.Nests K)
        (evaluate p enter f e >>= evaluateStages p enter f more) (evaluate q enter' g n)
  | .first he, hf => by
      have hfirst := evaluate_follows hpq hclean henter he hf
      have hnone : evaluateStages p enter f [] = pure := funext fun v => by rw [evaluateStages]
      rw [hnone, bind_pure]
      exact hfirst
  | .stage hchain hrange hname hquiet _ hbefore hafter, hf =>
      stage_follows hpq hclean henter hf
        (fun _ _ _ hf => evaluateChain_follows hpq hclean henter hchain hf) hrange hname hquiet
        (fun _ _ _ _ hf => evaluateAll_follows hpq hclean henter hbefore hf)
        (fun _ _ _ _ hf => evaluateAll_follows hpq hclean henter hafter hf)
termination_by (k, sizeOf e, 1)

end

/-! ### Functions of the script -/

/-- What succeeds is blamed on no statement. -/
theorem Follows.blame {α β : Type} {rel : Nat → α → β → Prop} {x : Eval α} {y : Eval β}
    (h : Follows L K b rel x y) (span span' : Span) :
    Follows L K b rel
      (tryCatch x fun
        | .tooDeep => throw (.wrong (.exhausted .nesting) span)
        | stop => throw stop)
      (tryCatch y fun
        | .tooDeep => throw (.wrong (.exhausted .nesting) span')
        | stop => throw stop) := by
  intro w u a w' hrun hw hb
  have hx := (run_tryCatch_eq_ok fun stop => by cases stop <;> exact ⟨_, rfl⟩).1 hrun
  obtain ⟨hadvances, hsucceeds⟩ := h w u a _ hx hw hb
  refine ⟨hadvances, fun hleft => ?_⟩
  obtain ⟨a', u', hy, hmore⟩ := hsucceeds hleft
  exact ⟨a', u', run_tryCatch_ok hy, hmore⟩

end

end PartScript.Pass
