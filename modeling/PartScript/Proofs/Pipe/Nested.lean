import PartScript.Proofs.Node.Writable
import PartScript.Proofs.Twin.Value

/-!
Pipes as nested calls. A stage that uses the value coming in once, as an argument of its own, and has
otherwise arguments that call nothing is a call with a gap; filling the gaps from the first stage on
turns the pipe into nested calls. Trees that differ in this way, and in marks apart from the ranges of
calls, are related, with the number of levels by which the second one may be deeper.
-/

namespace PartScript.Node

/-! ### Nested calls -/

mutual

/-- No call and no pipe stands in the tree, and no value of a stage is used in it. -/
def quiet : Node → Bool
  | program _ body => quietAll body
  | declaration _ _ _ init => quiet init
  | statement _ e => quiet e
  | giveBack _ e => quiet e
  | literal _ _ _ => true
  | identifier _ => true
  | binary _ _ l r => quiet l && quiet r
  | unary _ _ e => quiet e
  | call _ _ _ => false
  | array _ es => quietAll es
  | object _ ps => quietAll ps
  | property _ _ e => quiet e
  | member _ e _ => quiet e
  | index _ e key => quiet e && quiet key
  | pipe _ _ => false
  | hole _ => false
  | function _ _ body => quietAll body

/-- Every tree of a row is quiet. -/
def quietAll : List Node → Bool
  | [] => true
  | n :: rest => quiet n && quietAll rest

end

/-- Arguments with a tree in place of the value of the stage before, which has to stand among them once
while all the others are quiet. -/
def fill? (x : Node) : List Node → Option (List Node)
  | [] => none
  | hole _ :: rest => if quietAll rest then some (x :: rest) else none
  | arg :: rest => if quiet arg then (fill? x rest).map (arg :: ·) else none

/-- The call that a stage is when a tree stands for what comes in. -/
def applied? (x : Node) : Node → Option Node
  | call m callee args => (fill? x args).map (call m callee)
  | _ => none

/-- The nested calls that stages are behind a first one. -/
def nested? (first : Node) (more : List Node) : Option Node := more.foldlM applied? first

mutual

/-- The tree with nested calls in place of the chosen pipes, as far as their stages allow it. -/
def unpiped (chosen : Mark → Bool) : Node → Node
  | program m body => program m (unpipedAll chosen body)
  | declaration m word name init => declaration m word name (unpiped chosen init)
  | statement m e => statement m (unpiped chosen e)
  | giveBack m e => giveBack m (unpiped chosen e)
  | literal m value raw => literal m value raw
  | identifier i => identifier i
  | binary m op l r => binary m op (unpiped chosen l) (unpiped chosen r)
  | unary m op e => unary m op (unpiped chosen e)
  | call m callee args => call m callee (unpipedAll chosen args)
  | array m es => array m (unpipedAll chosen es)
  | object m ps => object m (unpipedAll chosen ps)
  | property m key e => property m key (unpiped chosen e)
  | member m e label => member m (unpiped chosen e) label
  | index m e key => index m (unpiped chosen e) (unpiped chosen key)
  | pipe m [] => pipe m []
  | pipe m (first :: more) =>
    ((nested? (unpiped chosen first) more).filter fun _ => chosen m).getD
      (pipe m (unpiped chosen first :: unpipedAll chosen more))
  | hole m => hole m
  | function m params body => function m params (unpipedAll chosen body)

/-- The same for trees in a row. -/
def unpipedAll (chosen : Mark → Bool) : List Node → List Node
  | [] => []
  | n :: rest => unpiped chosen n :: unpipedAll chosen rest

end

mutual

/-- By how many levels the tree can become deeper when the chosen pipes become nested calls. -/
def levels (chosen : Mark → Bool) : Node → Nat
  | program _ body => levelsAll chosen body
  | declaration _ _ _ init => levels chosen init
  | statement _ e => levels chosen e
  | giveBack _ e => levels chosen e
  | literal _ _ _ => 0
  | identifier _ => 0
  | binary _ _ l r => max (levels chosen l) (levels chosen r)
  | unary _ _ e => levels chosen e
  | call _ _ args => levelsAll chosen args
  | array _ es => levelsAll chosen es
  | object _ ps => levelsAll chosen ps
  | property _ _ e => levels chosen e
  | member _ e _ => levels chosen e
  | index _ e key => max (levels chosen e) (levels chosen key)
  | pipe _ [] => 0
  | pipe m (first :: more) =>
    max (levels chosen first + if chosen m then more.length else 0) (levelsAll chosen more)
  | hole _ => 0
  | function _ _ body => levelsAll chosen body

/-- The same for trees in a row. -/
def levelsAll (chosen : Mark → Bool) : List Node → Nat
  | [] => 0
  | n :: rest => max (levels chosen n) (levelsAll chosen rest)

end

theorem fill?_eq_some {x : Node} {args filled : List Node} (h : fill? x args = some filled) :
    ∃ before m after, quietAll before = true ∧ quietAll after = true ∧
      args = before ++ hole m :: after ∧ filled = before ++ x :: after := by
  fun_induction fill? x args generalizing filled with
  | case1 => cases h
  | case2 m rest hquiet =>
      obtain rfl := Option.some.inj h
      exact ⟨[], m, rest, rfl, hquiet, rfl, rfl⟩
  | case3 => cases h
  | case4 arg rest _ hquiet ih =>
      obtain ⟨tail, htail, rfl⟩ := Option.map_eq_some_iff.1 h
      obtain ⟨before, m, after, hbefore, hafter, rfl, rfl⟩ := ih htail
      refine ⟨arg :: before, m, after, ?_, hafter, rfl, rfl⟩
      rw [quietAll, hquiet, hbefore, Bool.and_self]
  | case5 => cases h

/-- A pipe stays one, or it is chosen and its stages allow for nested calls. -/
theorem unpiped_pipe_cases (chosen : Mark → Bool) (m : Mark) (first : Node) (more : List Node) :
    unpiped chosen (pipe m (first :: more)) =
        pipe m (unpiped chosen first :: unpipedAll chosen more) ∨
      chosen m = true ∧ ∃ n, nested? (unpiped chosen first) more = some n ∧
        unpiped chosen (pipe m (first :: more)) = n := by
  rw [unpiped]
  cases hnested : nested? (unpiped chosen first) more with
  | none => exact .inl rfl
  | some n =>
      cases hchosen : chosen m with
      | false => exact .inl (by simp [Option.filter])
      | true => exact .inr ⟨rfl, n, rfl, by simp [Option.filter]⟩

/-! ### Values of stages -/

mutual

/-- The value of a stage is used only where there is one. The flag says whether there is one where the
tree stands; a function sees none. -/
def enclosed (inStage : Bool) : Node → Bool
  | program _ body => enclosedAll inStage body
  | declaration _ _ _ init => enclosed inStage init
  | statement _ e => enclosed inStage e
  | giveBack _ e => enclosed inStage e
  | literal _ _ _ => true
  | identifier _ => true
  | binary _ _ l r => enclosed inStage l && enclosed inStage r
  | unary _ _ e => enclosed inStage e
  | call _ _ args => enclosedAll inStage args
  | array _ es => enclosedAll inStage es
  | object _ ps => enclosedAll inStage ps
  | property _ _ e => enclosed inStage e
  | member _ e _ => enclosed inStage e
  | index _ e key => enclosed inStage e && enclosed inStage key
  | pipe _ [] => true
  | pipe _ (first :: more) => enclosed inStage first && enclosedAll true more
  | hole _ => inStage
  | function _ _ body => enclosedAll false body

/-- The same for trees in a row. -/
def enclosedAll (inStage : Bool) : List Node → Bool
  | [] => true
  | n :: rest => enclosed inStage n && enclosedAll inStage rest

end

mutual

theorem enclosed_of_quiet (inStage : Bool) :
    (n : Node) → quiet n = true → enclosed inStage n = true
  | program _ body, h => enclosedAll_of_quietAll inStage body h
  | declaration _ _ _ e, h | statement _ e, h | giveBack _ e, h | unary _ _ e, h
  | property _ _ e, h | member _ e _, h => enclosed_of_quiet inStage e h
  | literal _ _ _, _ | identifier _, _ => rfl
  | binary _ _ l r, h | index _ l r, h => by
      simp only [quiet, Bool.and_eq_true] at h
      simp only [enclosed, Bool.and_eq_true]
      exact ⟨enclosed_of_quiet inStage l h.1, enclosed_of_quiet inStage r h.2⟩
  | array _ es, h | object _ es, h => enclosedAll_of_quietAll inStage es h
  | function _ _ body, h => enclosedAll_of_quietAll false body h

theorem enclosedAll_of_quietAll (inStage : Bool) :
    (ns : List Node) → quietAll ns = true → enclosedAll inStage ns = true
  | [], _ => rfl
  | n :: ns, h => by
      simp only [quietAll, Bool.and_eq_true] at h
      simp only [enclosedAll, Bool.and_eq_true]
      exact ⟨enclosed_of_quiet inStage n h.1, enclosedAll_of_quietAll inStage ns h.2⟩

end

section

open PartScript.Parser (Setting)

mutual

/-- Scripts use the value of a stage only where there is one. -/
theorem Writable.enclosed : (n : Node) → {role : Role} → {s : Setting} → Writable role s n →
    n.enclosed s.inStage = true
  | program _ body, role, _, h => by
      cases role <;> simp only [Writable] at h
      exact WritableAll.enclosedAll body h
  | declaration _ _ _ e, role, _, h => by
      cases role <;> simp only [Writable] at h
      exact Writable.enclosed e h.2.2
  | statement _ e, role, _, h => by
      cases role <;> simp only [Writable] at h
      exact Writable.enclosed e h
  | giveBack _ e, role, _, h | unary _ _ e, role, _, h | property _ _ e, role, _, h => by
      cases role <;> simp only [Writable] at h
      exact Writable.enclosed e h.2
  | literal _ _ _, _, _, _ | identifier _, _, _, _ => rfl
  | binary _ _ l r, role, _, h => by
      cases role <;> simp only [Writable] at h
      simp only [Node.enclosed, Bool.and_eq_true]
      exact ⟨Writable.enclosed l h.2.1, Writable.enclosed r h.2.2⟩
  | call _ _ args, role, _, h => by
      cases role <;> simp only [Writable] at h <;> exact WritableAll.enclosedAll args h.2
  | array _ es, role, _, h | object _ es, role, _, h => by
      cases role <;> simp only [Writable] at h
      exact WritableAll.enclosedAll es h
  | member _ e _, role, _, h => by
      cases role <;> simp only [Writable] at h
      exact Writable.enclosed e h.1
  | index _ e key, role, _, h => by
      cases role <;> simp only [Writable] at h
      simp only [Node.enclosed, Bool.and_eq_true]
      exact ⟨Writable.enclosed e h.1, Writable.enclosed key h.2⟩
  | pipe _ [], _, _, _ => rfl
  | pipe _ (first :: more), role, s, h => by
      cases role <;> simp only [Writable] at h
      simp only [Node.enclosed, Bool.and_eq_true]
      exact ⟨Writable.enclosed first h.1, WritableAll.enclosedAll more h.2.2⟩
  | hole _, role, _, h => by
      cases role <;> simp only [Writable] at h
      exact h
  | function _ _ body, role, _, h => by
      cases role <;> simp only [Writable] at h
      exact WritableAll.enclosedAll body h.2

theorem WritableAll.enclosedAll : (ns : List Node) → {role : Role} → {s : Setting} →
    WritableAll role s ns → Node.enclosedAll s.inStage ns = true
  | [], _, _, _ => rfl
  | n :: ns, _, _, h => by
      simp only [Node.enclosedAll, Bool.and_eq_true]
      exact ⟨Writable.enclosed n h.1, WritableAll.enclosedAll ns h.2⟩

end

end

/-! ### Trees with nested calls for pipes -/

mutual

/-- The second tree says the same as the first one, with nested calls in place of some pipes, and its
calls stand at the same ranges. It is deeper by some levels at most, and functions in it by `K`. The
flag says whether the value of a stage may be used. -/
inductive Nests (K : Nat) : Bool → Nat → Node → Node → Prop
  | program {u k m m' body body'} : NestsAll K u k body body' →
      Nests K u k (.program m body) (.program m' body')
  | declaration {u k m m' word i i' e e'} : i.name = i'.name → Nests K u k e e' →
      Nests K u k (.declaration m word i e) (.declaration m' word i' e')
  | statement {u k m m' e e'} : Nests K u k e e' → Nests K u k (.statement m e) (.statement m' e')
  | giveBack {u k m m' e e'} : Nests K u k e e' → Nests K u k (.giveBack m e) (.giveBack m' e')
  | literal {u k m m' value raw} : Nests K u k (.literal m value raw) (.literal m' value raw)
  | identifier {u k i i'} : i.name = i'.name → Nests K u k (.identifier i) (.identifier i')
  | binary {u k m m' op l l' r r'} : Nests K u k l l' → Nests K u k r r' →
      Nests K u k (.binary m op l r) (.binary m' op l' r')
  | unary {u k m m' op e e'} : Nests K u k e e' → Nests K u k (.unary m op e) (.unary m' op e')
  | call {u k m m' i i' args args'} : m.span.range = m'.span.range → i.name = i'.name →
      NestsAll K u k args args' → Nests K u k (.call m i args) (.call m' i' args')
  | array {u k m m' es es'} : NestsAll K u k es es' → Nests K u k (.array m es) (.array m' es')
  | object {u k m m' ps ps'} : NestsAll K u k ps ps' → Nests K u k (.object m ps) (.object m' ps')
  | property {u k m m' i i' e e'} : i.name = i'.name → Nests K u k e e' →
      Nests K u k (.property m i e) (.property m' i' e')
  | member {u k m m' e e' i i'} : Nests K u k e e' → i.name = i'.name →
      Nests K u k (.member m e i) (.member m' e' i')
  | index {u k m m' e e' key key'} : Nests K u k e e' → Nests K u k key key' →
      Nests K u k (.index m e key) (.index m' e' key')
  | noPipe {u k m m'} : Nests K u k (.pipe m []) (.pipe m' [])
  | pipe {u k m m' first first' more more'} : Nests K u k first first' →
      NestsAll K true k more more' → Nests K u k (.pipe m (first :: more)) (.pipe m' (first' :: more'))
  | nested {u k m first more n} : NestsChain K u k first more n →
      Nests K u k (.pipe m (first :: more)) n
  | hole {k m m'} : Nests K true k (.hole m) (.hole m')
  | function {u k m m' params params' body body'} :
      params.map (·.name) = params'.map (·.name) → NestsAll K false K body body' →
      Nests K u k (.function m params body) (.function m' params' body')

/-- The same for trees in a row. -/
inductive NestsAll (K : Nat) : Bool → Nat → List Node → List Node → Prop
  | nil {u k} : NestsAll K u k [] []
  | cons {u k n n' rest rest'} : Nests K u k n n' → NestsAll K u k rest rest' →
      NestsAll K u k (n :: rest) (n' :: rest')

/-- The tree is what the stages behind a first one are as nested calls. -/
inductive NestsChain (K : Nat) : Bool → Nat → Node → List Node → Node → Prop
  | first {u k e e'} : Nests K u k e e' → NestsChain K u k e [] e'
  | stage {u k e more x m m' i i' before before' h after after'} :
      NestsChain K u k e more x → m.span.range = m'.span.range → i.name = i'.name →
      quietAll before = true → quietAll after = true →
      NestsAll K false k before before' → NestsAll K false k after after' →
      NestsChain K u (k + 1) e (more ++ [.call m i (before ++ .hole h :: after)])
        (.call m' i' (before' ++ x :: after'))

end

variable {K k : Nat} {u : Bool}

mutual

theorem Twin.nests {n n' : Node} {u : Bool} {k : Nat} :
    Twin Eq n n' → n.enclosed u = true → Nests K u k n n'
  | .program h, he => .program (h.nests he)
  | .declaration hname h, he => .declaration hname (h.nests he)
  | .statement h, he => .statement (h.nests he)
  | .giveBack h, he => .giveBack (h.nests he)
  | .literal, _ => .literal
  | .identifier hname, _ => .identifier hname
  | .binary hl hr, he => by
      simp only [enclosed, Bool.and_eq_true] at he
      exact .binary (hl.nests he.1) (hr.nests he.2)
  | .unary h, he => .unary (h.nests he)
  | .call hrange hname hargs, he => .call hrange hname (hargs.nests he)
  | .array h, he => .array (h.nests he)
  | .object h, he => .object (h.nests he)
  | .property hname h, he => .property hname (h.nests he)
  | .member h hname, he => .member (h.nests he) hname
  | .index h hkey, he => by
      simp only [enclosed, Bool.and_eq_true] at he
      exact .index (h.nests he.1) (hkey.nests he.2)
  | .pipe .nil, _ => .noPipe
  | .pipe (.cons hfirst hmore), he => by
      simp only [enclosed, Bool.and_eq_true] at he
      exact .pipe (hfirst.nests he.1) (hmore.nests he.2)
  | .hole, he => by
      obtain rfl : u = true := he
      exact .hole
  | .function hparams h, he => .function hparams (h.nests he)

theorem TwinAll.nests {ns ns' : List Node} {u : Bool} {k : Nat} :
    TwinAll Eq ns ns' → enclosedAll u ns = true → NestsAll K u k ns ns'
  | .nil, _ => .nil
  | .cons h hrest, he => by
      simp only [enclosedAll, Bool.and_eq_true] at he
      exact .cons (h.nests he.1) (hrest.nests he.2)

end

theorem TwinAll.append_cons {R : Ranges} {before after row : List Node} {x : Node}
    (h : TwinAll R (before ++ x :: after) row) :
    ∃ before' x' after', row = before' ++ x' :: after' ∧ TwinAll R before before' ∧ Twin R x x' ∧
      TwinAll R after after' := by
  induction before generalizing row with
  | nil =>
      cases h with
      | cons hx hafter => exact ⟨[], _, _, rfl, .nil, hx, hafter⟩
  | cons n before ih =>
      cases h with
      | cons hn hrest =>
          obtain ⟨before', x', after', rfl, hbefore, hx, hafter⟩ := ih hrest
          exact ⟨_ :: before', x', after', rfl, .cons hn hbefore, hx, hafter⟩

/-- Stages that allow for nested calls, behind stages that have become nested calls already. -/
theorem nestsChain_of_nested? {e x n : Node} {done more : List Node}
    (hx : ∀ x', Twin Eq x x' → NestsChain K u k e done x') (h : nested? x more = some n) {n' : Node}
    (hn : Twin Eq n n') : NestsChain K u (k + more.length) e (done ++ more) n' := by
  induction more generalizing x k done with
  | nil =>
      obtain rfl := Option.some.inj h
      rw [List.append_nil]
      exact hx n' hn
  | cons stage more ih =>
      rw [nested?, List.foldlM_cons] at h
      obtain ⟨y, hy, hmore⟩ := Option.bind_eq_some_iff.1 h
      -- The stage is a call with a gap, and what comes before it fills the gap.
      cases stage with
      | call m i args =>
          obtain ⟨filled, hfilled, rfl⟩ := Option.map_eq_some_iff.1 hy
          obtain ⟨before, gap, after, hbefore, hafter, rfl, rfl⟩ := fill?_eq_some hfilled
          have hstage : ∀ y', Twin Eq (call m i (before ++ x :: after)) y' →
              NestsChain K u (k + 1) e (done ++ [call m i (before ++ hole gap :: after)]) y' := by
            intro y' hy'
            cases hy' with
            | call hrange hname hargs =>
                obtain ⟨before', x', after', rfl, hb, hx', ha⟩ := hargs.append_cons
                exact .stage (hx x' hx') hrange hname hbefore hafter
                  (hb.nests (enclosedAll_of_quietAll false before hbefore))
                  (ha.nests (enclosedAll_of_quietAll false after hafter))
          have hchain := ih hstage hmore
          rw [List.append_assoc] at hchain
          rw [List.length_cons, Nat.add_comm more.length 1, ← Nat.add_assoc]
          exact hchain
      | _ => cases hy

mutual

/-- A tree and what it becomes when the chosen pipes become nested calls, with other marks. -/
theorem nests_of_unpiped {chosen : Mark → Bool} : (n : Node) → {u : Bool} → {k : Nat} → {n' : Node} →
    Twin Eq (unpiped chosen n) n' → n.enclosed u = true → n.levels chosen ≤ k → k ≤ K →
      Nests K u k n n'
  | program _ body, _, _, _, h, he, hk, hK => by
      rw [unpiped] at h
      cases h with
      | program h => exact .program (nestsAll_of_unpipedAll body h he hk hK)
  | declaration _ _ _ e, _, _, _, h, he, hk, hK => by
      rw [unpiped] at h
      cases h with
      | declaration hname h => exact .declaration hname (nests_of_unpiped e h he hk hK)
  | statement _ e, _, _, _, h, he, hk, hK => by
      rw [unpiped] at h
      cases h with
      | statement h => exact .statement (nests_of_unpiped e h he hk hK)
  | giveBack _ e, _, _, _, h, he, hk, hK => by
      rw [unpiped] at h
      cases h with
      | giveBack h => exact .giveBack (nests_of_unpiped e h he hk hK)
  | literal _ _ _, _, _, _, h, _, _, _ => by
      rw [unpiped] at h
      cases h with
      | literal => exact .literal
  | identifier _, _, _, _, h, _, _, _ => by
      rw [unpiped] at h
      cases h with
      | identifier hname => exact .identifier hname
  | binary _ _ l r, _, _, _, h, he, hk, hK => by
      rw [unpiped] at h
      simp only [enclosed, Bool.and_eq_true] at he
      simp only [levels, Nat.max_le] at hk
      cases h with
      | binary hl hr =>
          exact .binary (nests_of_unpiped l hl he.1 hk.1 hK) (nests_of_unpiped r hr he.2 hk.2 hK)
  | unary _ _ e, _, _, _, h, he, hk, hK => by
      rw [unpiped] at h
      cases h with
      | unary h => exact .unary (nests_of_unpiped e h he hk hK)
  | call _ _ args, _, _, _, h, he, hk, hK => by
      rw [unpiped] at h
      cases h with
      | call hrange hname h => exact .call hrange hname (nestsAll_of_unpipedAll args h he hk hK)
  | array _ es, _, _, _, h, he, hk, hK => by
      rw [unpiped] at h
      cases h with
      | array h => exact .array (nestsAll_of_unpipedAll es h he hk hK)
  | object _ ps, _, _, _, h, he, hk, hK => by
      rw [unpiped] at h
      cases h with
      | object h => exact .object (nestsAll_of_unpipedAll ps h he hk hK)
  | property _ _ e, _, _, _, h, he, hk, hK => by
      rw [unpiped] at h
      cases h with
      | property hname h => exact .property hname (nests_of_unpiped e h he hk hK)
  | member _ e _, _, _, _, h, he, hk, hK => by
      rw [unpiped] at h
      cases h with
      | member h hname => exact .member (nests_of_unpiped e h he hk hK) hname
  | index _ e key, _, _, _, h, he, hk, hK => by
      rw [unpiped] at h
      simp only [enclosed, Bool.and_eq_true] at he
      simp only [levels, Nat.max_le] at hk
      cases h with
      | index h hkey =>
          exact .index (nests_of_unpiped e h he.1 hk.1 hK) (nests_of_unpiped key hkey he.2 hk.2 hK)
  | pipe _ [], _, _, _, h, _, _, _ => by
      rw [unpiped] at h
      cases h with
      | pipe h =>
          cases h with
          | nil => exact .noPipe
  | pipe m (first :: more), u, k, n', h, he, hk, hK => by
      simp only [enclosed, Bool.and_eq_true] at he
      simp only [levels, Nat.max_le] at hk
      rcases unpiped_pipe_cases chosen m first more with hpipe | ⟨hchosen, n, hnested, hn⟩
      · rw [hpipe] at h
        cases h with
        | pipe h =>
            cases h with
            | cons hfirst hmore =>
                exact .pipe (nests_of_unpiped first hfirst he.1 (by omega) hK)
                  (nestsAll_of_unpipedAll more hmore he.2 hk.2 hK)
      · -- The first stage keeps the levels that the calls around it leave.
        rw [hn] at h
        rw [hchosen, if_pos rfl] at hk
        have hfirst : ∀ x', Twin Eq (unpiped chosen first) x' →
            NestsChain K u (k - more.length) first [] x' :=
          fun x' hx' => .first (nests_of_unpiped first hx' he.1 (by omega) (by omega))
        have hchain := nestsChain_of_nested? hfirst hnested h
        rw [List.nil_append, Nat.sub_add_cancel (by omega)] at hchain
        exact .nested hchain
  | hole _, u, _, _, h, he, _, _ => by
      rw [unpiped] at h
      obtain rfl : u = true := he
      cases h with
      | hole => exact .hole
  | function _ _ body, _, _, _, h, he, hk, hK => by
      rw [unpiped] at h
      cases h with
      | function hparams h =>
          exact .function hparams (nestsAll_of_unpipedAll body h he (Nat.le_trans hk hK) (Nat.le_refl K))

theorem nestsAll_of_unpipedAll {chosen : Mark → Bool} : (ns : List Node) → {u : Bool} → {k : Nat} →
    {ns' : List Node} → TwinAll Eq (unpipedAll chosen ns) ns' → enclosedAll u ns = true →
      levelsAll chosen ns ≤ k → k ≤ K → NestsAll K u k ns ns'
  | [], _, _, _, h, _, _, _ => by
      rw [unpipedAll] at h
      cases h with
      | nil => exact .nil
  | n :: ns, _, _, _, h, he, hk, hK => by
      rw [unpipedAll] at h
      simp only [enclosedAll, Bool.and_eq_true] at he
      simp only [levelsAll, Nat.max_le] at hk
      cases h with
      | cons h hrest =>
          exact .cons (nests_of_unpiped n h he.1 hk.1 hK)
            (nestsAll_of_unpipedAll ns hrest he.2 hk.2 hK)

end

end PartScript.Node
