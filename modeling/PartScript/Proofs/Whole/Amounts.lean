import Mathlib.Data.Int.Basic
import PartScript.Proofs.Node.Excerpt
import PartScript.Proofs.Pass.Budgets
import PartScript.Proofs.Value.Serves

/-!
Whole numbers. What an expression of whole numbers amounts to is told by rules over the integers that know
neither bounds nor floats, with the remainder described by what it is and not by how it is computed. A pass
finds exactly this amount, unless one of the operations takes a remainder by zero or amounts to more than a
float can hold; then it stops at the first such operation.
-/

namespace PartScript

/-! ### Amounts -/

/-- The remainder of division towards zero: what is left of the first number beside a multiple of the second,
below that one in size and with the sign of the first. -/
structure IsRemainder (a b c : Int) : Prop where
  multiple : ∃ q, a = b * q + c
  lt : c.natAbs < b.natAbs
  sign : c = 0 ∨ c.sign = a.sign

/-- What an operator makes of two whole numbers, if that is whole. -/
inductive BinaryOp.Makes : BinaryOp → Int → Int → Int → Prop
  | add {a b : Int} : Makes .add a b (a + b)
  | sub {a b : Int} : Makes .sub a b (a - b)
  | mul {a b : Int} : Makes .mul a b (a * b)
  | rem {a b c : Int} (h : IsRemainder a b c) : Makes .rem a b c

/-- The operators that make whole numbers. -/
def BinaryOp.isWhole : BinaryOp → Bool
  | .add | .sub | .mul | .rem => true
  | .div | .other _ => false

namespace Node

/-- The expression is made of whole numbers that a float can hold, of minuses and of the operators that make
whole numbers. -/
inductive Whole : Node → Prop
  | literal {m : Mark} {n : Int} {raw : String} (hn : n.natAbs ≤ Dyadic.greatest) :
      Whole (.literal m (.number (.int n)) raw)
  | minus {m : Mark} {e : Node} (he : Whole e) : Whole (.unary m .minus e)
  | binary {m : Mark} {op : BinaryOp} {l r : Node} (hop : op.isWhole = true) (hl : Whole l)
      (hr : Whole r) : Whole (.binary m op l r)

/-- The whole number that an expression amounts to. -/
inductive Amounts : Node → Int → Prop
  | literal {m : Mark} {n : Int} {raw : String} : Amounts (.literal m (.number (.int n)) raw) n
  | minus {m : Mark} {e : Node} {a : Int} (he : Amounts e a) : Amounts (.unary m .minus e) (-a)
  | binary {m : Mark} {op : BinaryOp} {l r : Node} {a b c : Int} (hl : Amounts l a) (hr : Amounts r b)
      (hop : op.Makes a b c) : Amounts (.binary m op l r) c

/-- What is wrong with an operation: it takes a remainder by zero or amounts to more than a float can
hold. -/
inductive Breaks : Node → Mismatch → Prop
  | modulus {m : Mark} {l r : Node} (hr : r.Amounts 0) : Breaks (.binary m .rem l r) .zeroModulus
  | minus {m : Mark} {e : Node} {v : Int} (h : Amounts (.unary m .minus e) v)
      (hv : Dyadic.greatest < v.natAbs) : Breaks (.unary m .minus e) (.operatorRange UnaryOp.minus.text)
  | binary {m : Mark} {op : BinaryOp} {l r : Node} {v : Int} (h : Amounts (.binary m op l r) v)
      (hv : Dyadic.greatest < v.natAbs) : Breaks (.binary m op l r) (.operatorRange op.text)

/-- The expressions in an expression of operations, in the order in which their values are found. -/
def evaluated : Node → List Node
  | unary m op e => evaluated e ++ [unary m op e]
  | binary m op l r => evaluated l ++ evaluated r ++ [binary m op l r]
  | n => [n]

/-- Nothing is wrong with any operation in the expression. -/
def Sound (e : Node) : Prop := ∀ x ∈ e.evaluated, ∀ what, ¬ x.Breaks what

/-- The operation is the first in the expression with which something is wrong. -/
def BreaksFirst (e x : Node) (what : Mismatch) : Prop :=
  x.Breaks what ∧ ∃ before after, e.evaluated = before ++ x :: after ∧ ∀ y ∈ before, ∀ other, ¬ y.Breaks other

end Node

theorem IsRemainder.unique {a b c d : Int} (h : IsRemainder a b c) (h' : IsRemainder a b d) : c = d := by
  obtain ⟨⟨q, hq⟩, hc, hsign⟩ := h
  obtain ⟨⟨q', hq'⟩, hd, hsign'⟩ := h'
  have hmultiple : b ∣ c - d := ⟨q' - q, by rw [Int.mul_sub]; omega⟩
  have hlt : (c - d).natAbs < b.natAbs := by
    rcases hsign with rfl | hsign
    · omega
    rcases hsign' with rfl | hsign'
    · omega
    · -- Two numbers of one sign differ by less than the larger of them.
      rw [← hsign'] at hsign
      rcases Int.lt_trichotomy d 0 with hd0 | rfl | hd0
      · have hc0 := Int.sign_eq_neg_one_iff_neg.1 (hsign.trans (Int.sign_eq_neg_one_of_neg hd0))
        omega
      · omega
      · have hc0 := Int.sign_eq_one_iff_pos.1 (hsign.trans (Int.sign_eq_one_of_pos hd0))
        omega
  have hzero := Int.eq_zero_of_dvd_of_natAbs_lt_natAbs hmultiple hlt
  omega

theorem isRemainder_tmod {a b : Int} (hb : b ≠ 0) : IsRemainder a b (a.tmod b) where
  multiple := ⟨a.tdiv b, (Int.mul_tdiv_add_tmod a b).symm⟩
  lt := by
    rw [Int.natAbs_tmod]
    exact Nat.mod_lt _ (Int.natAbs_pos.2 hb)
  sign := by
    have hsign := Int.sign_tmod a b
    split at hsign
    · exact .inl (Int.sign_eq_zero_iff_zero.1 hsign)
    · exact .inr hsign

theorem not_isRemainder_zero {a c : Int} : ¬ IsRemainder a 0 c := fun h => absurd h.lt (Nat.not_lt_zero _)

theorem BinaryOp.Makes.unique {op : BinaryOp} {a b c d : Int} (h : op.Makes a b c) (h' : op.Makes a b d) :
    c = d := by
  cases h with
  | add | sub | mul =>
      cases h'
      rfl
  | rem h =>
      cases h' with
      | rem h' => exact h.unique h'

namespace Node

/-- An expression amounts to one number at most. -/
theorem Amounts.unique {e : Node} {v w : Int} (h : e.Amounts v) (h' : e.Amounts w) : v = w := by
  induction h generalizing w with
  | literal =>
      cases h'
      rfl
  | minus _ ih =>
      cases h' with
      | minus h' => rw [ih h']
  | binary _ _ hop ihl ihr =>
      cases h' with
      | binary hl hr hop' =>
          obtain rfl := ihl hl
          obtain rfl := ihr hr
          exact hop.unique hop'

theorem sound_iff_of_append {e : Node} {front : List Node} (h : e.evaluated = front ++ [e]) :
    e.Sound ↔ (∀ x ∈ front, ∀ what, ¬ x.Breaks what) ∧ ∀ what, ¬ e.Breaks what := by
  rw [Sound, h, List.forall_mem_append, List.forall_mem_singleton]

theorem sound_literal {m : Mark} {v : Plain} {raw : String} : (Node.literal m v raw).Sound := by
  intro x hx what h
  rw [List.mem_singleton.1 hx] at h
  cases h

theorem BreaksFirst.extend {e n x : Node} {what : Mismatch} (h : e.BreaksFirst x what)
    {front rest : List Node} (hevaluated : n.evaluated = front ++ e.evaluated ++ rest)
    (hfront : ∀ y ∈ front, ∀ other, ¬ y.Breaks other) : n.BreaksFirst x what := by
  obtain ⟨hx, before, after, heq, hbefore⟩ := h
  refine ⟨hx, front ++ before, after ++ rest, ?_, List.forall_mem_append.2 ⟨hfront, hbefore⟩⟩
  rw [hevaluated, heq]
  simp

theorem BreaksFirst.first {e n x : Node} {what : Mismatch} (h : e.BreaksFirst x what) {rest : List Node}
    (hevaluated : n.evaluated = e.evaluated ++ rest) : n.BreaksFirst x what :=
  h.extend (List.nil_append _ ▸ hevaluated : n.evaluated = [] ++ e.evaluated ++ rest)
    fun _ hy => absurd hy List.not_mem_nil

theorem breaksFirst_self {e : Node} {what : Mismatch} {front : List Node} (h : e.Breaks what)
    (hevaluated : e.evaluated = front ++ [e]) (hfront : ∀ y ∈ front, ∀ other, ¬ y.Breaks other) :
    e.BreaksFirst e what :=
  ⟨h, front, [], hevaluated, hfront⟩

end Node

/-! ### Operators -/

namespace Pass

/-- A whole result is refused if it is beyond all floats. -/
theorem calculate_int {op : BinaryOp} {a b c : Int} {f : Number → Number → Option Number}
    (hzero : (if (Number.int b).isZero then zeroMismatch? op else none) = none)
    (hop : arithmetic? op = some f) (hf : f (.int a) (.int b) = some (.int c)) :
    calculate op (.int a) (.int b) =
      if c.natAbs ≤ Dyadic.greatest then .ok (.int c) else .error (.operatorRange op.text) := by
  have hfilter : (some (Number.int c)).filter Number.isFinite =
      if c.natAbs ≤ Dyadic.greatest then some (.int c) else none := by
    simp [Option.filter, Number.isFinite]
  rw [calculate, hzero]
  dsimp only
  rw [hop]
  dsimp only
  rw [hf, hfilter]
  by_cases hc : c.natAbs ≤ Dyadic.greatest
  · rw [if_pos hc, if_pos hc]
  · rw [if_neg hc, if_neg hc]

/-- An operator computes what it makes of two whole numbers, if it makes anything of them. -/
theorem calculate_whole {op : BinaryOp} (hop : op.isWhole = true) (a b : Int) :
    (op = .rem ∧ b = 0 ∧ calculate op (.int a) (.int b) = .error .zeroModulus) ∨
      ∃ c, op.Makes a b c ∧ calculate op (.int a) (.int b) =
        if c.natAbs ≤ Dyadic.greatest then .ok (.int c) else .error (.operatorRange op.text) := by
  cases op with
  | div | other => cases hop
  | add => exact .inr ⟨_, .add, calculate_int (ite_self _) rfl rfl⟩
  | sub => exact .inr ⟨_, .sub, calculate_int (ite_self _) rfl rfl⟩
  | mul => exact .inr ⟨_, .mul, calculate_int (ite_self _) rfl rfl⟩
  | rem =>
      by_cases hb : b = 0
      · subst hb
        exact .inl ⟨rfl, rfl, rfl⟩
      · refine .inr ⟨_, .rem (isRemainder_tmod hb), calculate_int (if_neg ?_) rfl rfl⟩
        exact fun hzero => hb ((Number.isZero_int b).1 hzero)

/-! ### Evaluation -/

/-- There is room for the levels of an expression. -/
def HasRoom (f : Frame) (e : Node) : Prop := ∀ k, f.room = some k → e.overdeep k = none

/-- With room and a step left, an expression is opened. -/
theorem run_opening (p : Pass) {f : Frame} {e : Node} (hroom : HasRoom f e) {w : World}
    (hsteps : w.steps + 1 ≤ p.limits.steps) :
    ∃ g : Frame, (∀ c ∈ e.children, HasRoom g c) ∧ ∀ k : Frame → Eval Value,
      (p.step e.span >>= fun _ => deeper f >>= k).run w = (k g).run { w with steps := w.steps + 1 } := by
  have hstep : (p.step e.span).run w = (.ok (), { w with steps := w.steps + 1 }) := by
    rw [run_step, if_neg (Nat.not_lt.2 hsteps)]
  obtain ⟨scope, hole, room⟩ := f
  cases room with
  | none =>
      refine ⟨⟨scope, hole, none⟩, fun _ _ => nofun, fun k => ?_⟩
      rw [run_bind_ok _ hstep]
      exact run_bind_ok k rfl
  | some room =>
      have hfits := hroom room rfl
      cases room with
      | zero =>
          cases e <;> cases hfits
      | succ room =>
          refine ⟨⟨scope, hole, some room⟩, fun c hc k hk => ?_, fun k => ?_⟩
          · cases hk
            exact Node.overdeep_succ_eq_none.1 hfits c hc
          · rw [run_bind_ok _ hstep]
            exact run_bind_ok k rfl

/-- What the evaluation of an expression of whole numbers comes to in a world: the amount, which a float can
hold, with nothing wrong on the way and a step for each node, or a stop at the first operation with which
something is wrong. -/
def Comes (e : Node) (w : World) (outcome : Except Stop Value × World) : Prop :=
  (∃ v, e.Amounts v ∧ v.natAbs ≤ Dyadic.greatest ∧ e.Sound ∧
    outcome = (.ok ⟨.number (.int v), [e.mark.origin]⟩, { w with steps := w.steps + e.walk.length })) ∨
  ∃ n what w', e.BreaksFirst n what ∧ outcome = (.error (.wrong (.mismatch what) n.span), w')

theorem convert_minus_int {v : Int} (hv : v.natAbs ≤ Dyadic.greatest) (t : List Origin) :
    convert .minus ⟨.number (.int v), t⟩ = .ok (.number (.int (-v))) :=
  if_pos ((Number.isFinite_int v).2 hv)

/-- The minus of an operand with which nothing is wrong. -/
theorem not_breaks_minus {m : Mark} {e : Node} {v : Int} (hv : e.Amounts v)
    (hrange : v.natAbs ≤ Dyadic.greatest) (what : Mismatch) : ¬ (Node.unary m .minus e).Breaks what := by
  rintro (_ | ⟨h, hlarge⟩)
  rw [h.unique (.minus hv), Int.natAbs_neg] at hlarge
  omega

/-- An operation on two amounts that makes something in range. -/
theorem not_breaks_binary {m : Mark} {op : BinaryOp} {l r : Node} {a b c : Int} (ha : l.Amounts a)
    (hb : r.Amounts b) (hc : op.Makes a b c) (hrange : c.natAbs ≤ Dyadic.greatest) (what : Mismatch) :
    ¬ (Node.binary m op l r).Breaks what := by
  intro h
  cases h with
  | modulus hr =>
      obtain rfl := hr.unique hb
      cases hc with
      | rem h => exact not_isRemainder_zero h
  | binary h hlarge =>
      rw [h.unique (.binary ha hb hc)] at hlarge
      omega

/-- The evaluation of the operands decides about that of an operation. -/
theorem comes_binary {m : Mark} {op : BinaryOp} (hop : op.isWhole = true) {l r : Node} {w : World}
    {x y : Eval Value} (hx : Comes l { w with steps := w.steps + 1 } (x.run { w with steps := w.steps + 1 }))
    (hy : ∀ w' : World, w'.steps = w.steps + 1 + l.walk.length → Comes r w' (y.run w')) :
    Comes (.binary m op l r) w
      ((do operated m (combine op (← x) (← y)) : Eval Value).run { w with steps := w.steps + 1 }) := by
  have hevaluated : (Node.binary m op l r).evaluated = l.evaluated ++ r.evaluated ++ [.binary m op l r] := rfl
  rcases hx with ⟨a, ha, -, hl, hrun⟩ | ⟨n, what, w', hfirst, hrun⟩
  swap
  · exact .inr ⟨n, what, w', hfirst.first (hevaluated.trans (List.append_assoc ..)), run_bind_error _ hrun⟩
  rw [run_bind_ok _ hrun]
  rcases hy { w with steps := w.steps + 1 + l.walk.length } rfl with
    ⟨b, hb, -, hr, hrun'⟩ | ⟨n, what, w', hfirst, hrun'⟩
  swap
  · exact .inr ⟨n, what, w', hfirst.extend hevaluated hl, run_bind_error _ hrun'⟩
  rw [run_bind_ok _ hrun', combine_numbers op rfl rfl]
  have hfront : ∀ z ∈ l.evaluated ++ r.evaluated, ∀ other, ¬ z.Breaks other :=
    List.forall_mem_append.2 ⟨hl, hr⟩
  have hcount : w.steps + 1 + l.walk.length + r.walk.length =
      w.steps + (Node.binary m op l r).walk.length := by
    rw [Node.walk, List.length_cons, List.length_append]
    omega
  rcases calculate_whole hop a b with ⟨rfl, rfl, hzero⟩ | ⟨c, hc, hresult⟩
  · rw [hzero]
    exact .inr ⟨_, _, _, Node.breaksFirst_self (.modulus hb) hevaluated hfront, rfl⟩
  · rw [hresult]
    by_cases hrange : c.natAbs ≤ Dyadic.greatest
    · rw [if_pos hrange]
      refine .inl ⟨c, .binary ha hb hc, hrange, ?_, ?_⟩
      · exact (Node.sound_iff_of_append hevaluated).2 ⟨hfront, not_breaks_binary ha hb hc hrange⟩
      · rw [← hcount]
        rfl
    · rw [if_neg hrange]
      have hbreaks := Node.Breaks.binary (m := m) (.binary ha hb hc) (Nat.lt_of_not_le hrange)
      exact .inr ⟨_, _, _, Node.breaksFirst_self hbreaks hevaluated hfront, rfl⟩

/-- With enough room and steps, the evaluation of an expression of whole numbers finds its amount or the first
operation with which something is wrong. -/
theorem evaluate_whole (p : Pass) (enter : Enter) {e : Node} (he : e.Whole) {f : Frame} {w : World}
    (hroom : HasRoom f e) (hsteps : w.steps + e.walk.length ≤ p.limits.steps) :
    Comes e w ((evaluate p enter f e).run w) := by
  induction he generalizing f w with
  | @literal m n raw hn =>
      obtain ⟨g, -, hopen⟩ := run_opening p hroom (w := w) (by simpa [Node.walk] using hsteps)
      refine .inl ⟨n, .literal, hn, Node.sound_literal, ?_⟩
      have hliteral (w : World) : (literal m (.number (.int n))).run w =
          (.ok ⟨.number (.int n), [m.origin]⟩, w) := by
        unfold literal
        dsimp only
        rw [if_pos ((Number.isFinite_int n).2 hn)]
        rfl
      unfold evaluate
      rw [hopen]
      exact hliteral _
  | @minus m e he ih =>
      have hwalk : (Node.unary m .minus e).walk.length = 1 + e.walk.length := by
        rw [Node.walk, List.length_cons, Nat.add_comm]
      rw [hwalk] at hsteps
      obtain ⟨g, hg, hopen⟩ := run_opening p hroom (w := w) (by omega)
      unfold evaluate
      rw [hopen, Comes, hwalk, ← Nat.add_assoc]
      rcases ih (hg e List.mem_cons_self) (w := { w with steps := w.steps + 1 }) (by simp only; omega) with
        ⟨v, hv, hrange, hsound, hrun⟩ | ⟨n, what, w', hfirst, hrun⟩
      · refine .inl ⟨-v, .minus hv, by rwa [Int.natAbs_neg], ?_, ?_⟩
        · exact (Node.sound_iff_of_append rfl).2 ⟨hsound, not_breaks_minus hv hrange⟩
        · dsimp only
          rw [run_bind_ok _ hrun, convert_minus_int hrange]
          rfl
      · exact .inr ⟨n, what, w', hfirst.first rfl, run_bind_error _ hrun⟩
  | @binary m op l r hop hl hr ihl ihr =>
      have hwalk : (Node.binary m op l r).walk.length = l.walk.length + r.walk.length + 1 := by
        rw [Node.walk, List.length_cons, List.length_append]
      rw [hwalk] at hsteps
      obtain ⟨g, hg, hopen⟩ := run_opening p hroom (w := w) (by omega)
      unfold evaluate
      rw [hopen]
      refine comes_binary hop (ihl (hg l List.mem_cons_self) (by simp only; omega)) fun w' hw' => ?_
      exact ihr (hg r (List.mem_cons_of_mem _ List.mem_cons_self)) (by omega)

end Pass

end PartScript
