import PartScript.Proofs.Node.Calls
import PartScript.Proofs.Node.Places

/-!
Ranges mirror the tree. Every node of a script that is read from a text covers some text, from the start of
a token to the end of one, and the ranges of its children lie in it one behind the other. An expression
covers more than any of its children does, so no two expressions of a script have the same range.

What is shown for one node is put together for a tree: parents come before what they contain, so a walk
through the tree meets the starts of the ranges in order.
-/

namespace PartScript

/-! ### Rows of nodes -/

/-- A range goes from the start of a token to the end of one. -/
def Range.CutFrom (tokens : List Token) (r : Range) : Prop :=
  (∃ t ∈ tokens, r.start = t.span.range.start) ∧ ∃ t ∈ tokens, r.stop = t.span.range.stop

theorem Range.cutFrom_upTo {tokens : List Token} {s t : Span} (hs : s.range.CutFrom tokens)
    (ht : t.range.CutFrom tokens) : (s.upTo t).range.CutFrom tokens :=
  ⟨hs.1, ht.2⟩

theorem Token.cutFrom {tokens : List Token} {t : Token} (h : t ∈ tokens) :
    t.span.range.CutFrom tokens :=
  ⟨⟨t, h, rfl⟩, t, h, rfl⟩

namespace Node

/-- The ranges of some nodes lie between two offsets, one behind the other. -/
def Row (lo : Int) : List Node → Int → Prop
  | [], hi => lo ≤ hi
  | n :: ns, hi => lo ≤ n.range.start ∧ Row n.range.stop ns hi

/-- What the range of a node is like: it is not empty, its ends are ends of tokens, and the children lie in it
one behind the other. An expression leaves some of its text to none of its children. -/
structure Tidy (tokens : List Token) (n : Node) : Prop where
  lt : n.range.start < n.range.stop
  cut : n.range.CutFrom tokens
  row : Row n.range.start n.children n.range.stop
  own : n.isExpression = true →
    ∀ c ∈ n.children, n.range.start < c.range.start ∨ c.range.stop < n.range.stop

/-- All nodes of a tree have such ranges. -/
def Neat (tokens : List Token) (n : Node) : Prop := ∀ m ∈ n.walk, m.Tidy tokens

variable {tokens : List Token}

theorem neat_iff {n : Node} : n.Neat tokens ↔ n.Tidy tokens ∧ ∀ c ∈ n.children, c.Neat tokens := by
  rw [Neat, walk_eq_cons, List.forall_mem_cons]
  simp only [List.mem_flatMap, forall_exists_index, and_imp, Neat]
  exact and_congr_right fun _ => ⟨fun h c hc m hm => h m c hc hm, fun h m c hc hm => h c hc m hm⟩

/-- What is in a part of a tree is in the tree. -/
theorem walk_subset_of_mem_walk {n m : Node} (h : m ∈ n.walk) : m.walk ⊆ n.walk := by
  have hwalk := h
  rw [walk_eq_cons] at hwalk
  rcases List.mem_cons.1 hwalk with rfl | hwalk
  · exact List.Subset.refl _
  · obtain ⟨c, hc, hm⟩ := List.mem_flatMap.1 hwalk
    have hlt := length_walk_lt hc
    exact List.Subset.trans (walk_subset_of_mem_walk hm) (walk_subset_of_mem_children hc)
termination_by n.walk.length

theorem Neat.of_mem_walk {n m : Node} (h : n.Neat tokens) (hm : m ∈ n.walk) : m.Neat tokens :=
  fun k hk => h k (walk_subset_of_mem_walk hm hk)

theorem Neat.tidy {n : Node} (h : n.Neat tokens) : n.Tidy tokens := h n (mem_walk n)

theorem Row.append {lo mid hi : Int} {ns ms : List Node} (h : Row lo ns mid) (h' : Row mid ms hi) :
    Row lo (ns ++ ms) hi := by
  induction ns generalizing lo with
  | nil =>
      cases ms with
      | nil => exact Int.le_trans h h'
      | cons m ms => exact ⟨Int.le_trans h h'.1, h'.2⟩
  | cons n ns ih => exact ⟨h.1, ih h.2⟩

theorem Row.mono {lo lo' hi hi' : Int} {ns : List Node} (h : Row lo ns hi) (hlo : lo' ≤ lo)
    (hhi : hi ≤ hi') : Row lo' ns hi' := by
  induction ns generalizing lo lo' with
  | nil => exact Int.le_trans (Int.le_trans hlo h) hhi
  | cons n ns ih => exact ⟨Int.le_trans hlo h.1, ih h.2 (Int.le_refl _)⟩

/-- Nodes in a row lie between its ends. -/
theorem Row.le {lo hi : Int} {ns : List Node} (h : Row lo ns hi)
    (hlt : ∀ n ∈ ns, n.range.start < n.range.stop) :
    lo ≤ hi ∧ ∀ n ∈ ns, lo ≤ n.range.start ∧ n.range.stop ≤ hi := by
  induction ns generalizing lo with
  | nil => exact ⟨h, nofun⟩
  | cons n ns ih =>
      obtain ⟨hfirst, hns⟩ := List.forall_mem_cons.1 hlt
      obtain ⟨hle, hmore⟩ := ih h.2 hns
      have hlo := h.1
      refine ⟨by omega, List.forall_mem_cons.2 ⟨⟨hlo, hle⟩, fun m hm => ?_⟩⟩
      have hm := hmore m hm
      omega

/-- Of two nodes in a row the first ends before the second starts. -/
theorem Row.pairwise {lo hi : Int} {ns : List Node} (h : Row lo ns hi)
    (hlt : ∀ n ∈ ns, n.range.start < n.range.stop) :
    ns.Pairwise fun n m => n.range.stop ≤ m.range.start := by
  induction ns generalizing lo with
  | nil => exact .nil
  | cons n ns ih =>
      have hns := (List.forall_mem_cons.1 hlt).2
      exact List.pairwise_cons.2 ⟨fun m hm => ((h.2.le hns).2 m hm).1, ih h.2 hns⟩

/-! ### Trees -/

theorem Neat.lt_of_mem_children {n c : Node} (h : n.Neat tokens) (hc : c ∈ n.children) :
    c.range.start < c.range.stop :=
  ((neat_iff.1 h).2 c hc).tidy.lt

theorem Neat.within {n : Node} (h : n.Neat tokens) {c : Node} (hc : c ∈ n.children) :
    n.range.start ≤ c.range.start ∧ c.range.stop ≤ n.range.stop :=
  (h.tidy.row.le fun _ => h.lt_of_mem_children).2 c hc

theorem Neat.pairwise {n : Node} (h : n.Neat tokens) :
    n.children.Pairwise fun c d => c.range.stop ≤ d.range.start :=
  h.tidy.row.pairwise fun _ => h.lt_of_mem_children

/-- Everything in a tree lies in the range of its root. -/
theorem Neat.within_of_mem_walk {n : Node} (h : n.Neat tokens) {m : Node} (hm : m ∈ n.walk) :
    n.range.start ≤ m.range.start ∧ m.range.stop ≤ n.range.stop := by
  rw [walk_eq_cons] at hm
  rcases List.mem_cons.1 hm with rfl | hm
  · exact ⟨Int.le_refl _, Int.le_refl _⟩
  · obtain ⟨c, hc, hm⟩ := List.mem_flatMap.1 hm
    have hlt := length_walk_lt hc
    have hin := ((neat_iff.1 h).2 c hc).within_of_mem_walk hm
    have hchild := h.within hc
    omega
termination_by n.walk.length

/-- One node may come before another in a walk: it starts no later, and they are not two expressions of one
range. -/
def MayPrecede (n m : Node) : Prop :=
  n.range.start ≤ m.range.start ∧
    (n.isExpression = true → m.isExpression = true → n.range ≠ m.range)

/-- A walk through a tree meets its nodes in the order of their starts, and no two expressions of one
range. -/
theorem Neat.walk_pairwise {n : Node} (h : n.Neat tokens) : n.walk.Pairwise MayPrecede := by
  obtain ⟨htidy, hchildren⟩ := neat_iff.1 h
  rw [walk_eq_cons, List.pairwise_cons, List.pairwise_flatMap]
  refine ⟨fun m hm => ?_, fun c hc => ?_, ?_⟩
  · -- What is below the root lies in a child, and an expression covers more than its child.
    obtain ⟨c, hc, hm⟩ := List.mem_flatMap.1 hm
    have hin := (hchildren c hc).within_of_mem_walk hm
    have hchild := h.within hc
    refine ⟨by omega, fun hexpression _ heq => ?_⟩
    have hown := htidy.own hexpression c hc
    rw [heq] at hown hchild
    omega
  · have hlt := length_walk_lt hc
    exact (hchildren c hc).walk_pairwise
  · -- What is in one child ends before what is in a later one starts.
    refine h.pairwise.imp_of_mem fun {c d} hc hd hle m hm m' hm' => ?_
    have hin := (hchildren c hc).within_of_mem_walk hm
    have hin' := (hchildren d hd).within_of_mem_walk hm'
    have hlt := ((hchildren c hc) m hm).lt
    refine ⟨by omega, fun _ _ heq => ?_⟩
    rw [heq] at hlt hin
    omega
termination_by n.walk.length

/-! ### Changes of marks -/

theorem range_place (path : List Nat) (n : Node) : (n.place path).range = n.range := by
  rw [range, span, mark_place]
  rfl

theorem isExpression_place (path : List Nat) (n : Node) :
    (n.place path).isExpression = n.isExpression := by
  cases n <;> rfl

theorem row_placeAll {lo hi : Int} {ns : List Node} (path : List Nat) (k : Nat) :
    Row lo (placeAll path k ns) hi ↔ Row lo ns hi := by
  induction ns generalizing lo k with
  | nil => exact Iff.rfl
  | cons n ns ih =>
      rw [placeAll, Row, Row, range_place]
      exact and_congr_right fun _ => ih (k + 1)

/-- The children of a node that is given a path are its children with paths. -/
theorem exists_of_mem_children_place {n c : Node} {path : List Nat}
    (h : c ∈ (n.place path).children) : ∃ child ∈ n.children, ∃ below, c = child.place below := by
  rw [children_place] at h
  obtain ⟨k, child, hchild, -, rfl⟩ := exists_of_mem_placeAll h
  exact ⟨child, hchild, _, rfl⟩

theorem Tidy.place {n : Node} (h : n.Tidy tokens) (path : List Nat) :
    (n.place path).Tidy tokens where
  lt := by
    rw [range_place]
    exact h.lt
  cut := by
    rw [range_place]
    exact h.cut
  row := by
    rw [range_place, children_place, row_placeAll]
    exact h.row
  own hexpression c hc := by
    rw [isExpression_place] at hexpression
    obtain ⟨child, hchild, below, rfl⟩ := exists_of_mem_children_place hc
    rw [range_place, range_place]
    exact h.own hexpression child hchild

/-- Paths do not change ranges. -/
theorem Neat.place {n : Node} (h : n.Neat tokens) (path : List Nat) : (n.place path).Neat tokens := by
  refine neat_iff.2 ⟨h.tidy.place path, fun c hc => ?_⟩
  obtain ⟨child, hchild, below, rfl⟩ := exists_of_mem_children_place hc
  have hlt := length_walk_lt hchild
  exact ((neat_iff.1 h).2 child hchild).place below
termination_by n.walk.length

theorem range_setMark (m : Mark) (n : Node) : (n.setMark m).range = m.span.range := by
  rw [range, Grammar.span_setMark]

/-- A node may take the range of brackets around it. -/
theorem Neat.setMark {n : Node} (h : n.Neat tokens) {s t : Span}
    (hcut : (s.upTo t).range.CutFrom tokens) (hs : s.range.start < n.range.start)
    (ht : n.range.stop < t.range.stop) : (n.setMark (.at (s.upTo t))).Neat tokens := by
  have hlt := h.tidy.lt
  have hstart : (n.setMark (.at (s.upTo t))).range.start = s.range.start := by
    rw [range_setMark]
    rfl
  have hstop : (n.setMark (.at (s.upTo t))).range.stop = t.range.stop := by
    rw [range_setMark]
    rfl
  refine neat_iff.2 ⟨⟨?_, ?_, ?_, fun _ c hc => ?_⟩, ?_⟩
  · omega
  · rw [range_setMark]
    exact hcut
  · rw [children_setMark, hstart, hstop]
    exact h.tidy.row.mono (Int.le_of_lt hs) (Int.le_of_lt ht)
  · rw [children_setMark] at hc
    have hchild := h.within hc
    omega
  · rw [children_setMark]
    exact (neat_iff.1 h).2

end Node

/-! ### Phrases -/

namespace Grammar

open PartScript.Parser (Setting)
open Node (Row Neat)

/-- Tokens stand one behind the other from an offset on, and none of them is empty. -/
def InOrder (tokens : List Token) (lo : Int) : List Token → Prop
  | [] => True
  | t :: rest =>
    t ∈ tokens ∧ lo ≤ t.span.range.start ∧ t.span.range.start < t.span.range.stop ∧
      InOrder tokens t.span.range.stop rest

/-- A node made from tokens in order has good ranges, and the tokens behind it are in order from its end
on. -/
structure Laid (tokens : List Token) (lo : Int) (e : Node) (rest : List Token) : Prop where
  neat : e.Neat tokens
  le : lo ≤ e.range.start
  rest : InOrder tokens e.range.stop rest

/-- Nodes made from tokens in order stand in a row, and the tokens behind them are in order from its end
on. -/
structure LaidRow (tokens : List Token) (lo : Int) (es : List Node) (hi : Int)
    (rest : List Token) : Prop where
  neat : ∀ e ∈ es, e.Neat tokens
  row : Row lo es hi
  rest : InOrder tokens hi rest

variable {tokens : List Token} {lo hi : Int}

theorem InOrder.mono {ts : List Token} {lo' : Int} (h : InOrder tokens lo ts) (hlo : lo' ≤ lo) :
    InOrder tokens lo' ts := by
  cases ts with
  | nil => exact trivial
  | cons t rest => exact ⟨h.1, Int.le_trans hlo h.2.1, h.2.2⟩

theorem InOrder.drop {t : Token} {rest : List Token} (h : InOrder tokens lo (t :: rest)) :
    InOrder tokens lo rest := by
  obtain ⟨-, hlo, hlt, hrest⟩ := h
  exact hrest.mono (by omega)

theorem laidRow_nil {ts : List Token} (h : InOrder tokens lo ts) : LaidRow tokens lo [] lo ts :=
  ⟨nofun, Int.le_refl _, h⟩

theorem Laid.cons {e : Node} {es : List Node} {us rest : List Token} (h : Laid tokens lo e us)
    (hmore : LaidRow tokens e.range.stop es hi rest) : LaidRow tokens lo (e :: es) hi rest :=
  ⟨List.forall_mem_cons.2 ⟨h.neat, hmore.neat⟩, ⟨h.le, hmore.row⟩, hmore.rest⟩

theorem Laid.single {e : Node} {rest : List Token} (h : Laid tokens lo e rest) :
    LaidRow tokens lo [e] e.range.stop rest :=
  h.cons (laidRow_nil h.rest)

theorem LaidRow.append {es es' : List Node} {mid : Int} {us rest : List Token}
    (h : LaidRow tokens lo es mid us) (hmore : LaidRow tokens mid es' hi rest) :
    LaidRow tokens lo (es ++ es') hi rest :=
  ⟨List.forall_mem_append.2 ⟨h.neat, hmore.neat⟩, h.row.append hmore.row, hmore.rest⟩

theorem LaidRow.le {es : List Node} {rest : List Token} (h : LaidRow tokens lo es hi rest) :
    lo ≤ hi ∧ ∀ e ∈ es, lo ≤ e.range.start ∧ e.range.stop ≤ hi :=
  h.row.le fun e he => (h.neat e he).tidy.lt

/-- A row reaches to the end of a token behind it. -/
theorem LaidRow.close {es : List Node} {u : Token} {rest : List Token}
    (h : LaidRow tokens lo es hi (u :: rest)) :
    LaidRow tokens lo es u.span.range.stop rest ∧ hi < u.span.range.stop ∧
      u.span.range.CutFrom tokens := by
  obtain ⟨hneat, hrow, hu, hle, hlt, hrest⟩ := h
  exact ⟨⟨hneat, hrow.mono (Int.le_refl _) (by omega), hrest⟩, by omega, Token.cutFrom hu⟩

/-! ### Nodes from rows -/

/-- A node that is one token. -/
theorem laid_leaf {t : Token} {rest : List Token} (h : InOrder tokens lo (t :: rest)) {e : Node}
    (hspan : e.span = t.span) (hchildren : e.children = []) : Laid tokens lo e rest := by
  obtain ⟨ht, hlo, hlt, hrest⟩ := h
  have hrange : e.range = t.span.range := by rw [Node.range, hspan]
  rw [← hrange] at hlo hlt hrest
  refine ⟨Node.neat_iff.2 ⟨⟨hlt, ?_, ?_, ?_⟩, ?_⟩, hlo, hrest⟩
  · rw [hrange]
    exact Token.cutFrom ht
  · rw [hchildren]
    exact Int.le_of_lt hlt
  · rw [hchildren]
    exact fun _ => nofun
  · rw [hchildren]
    exact nofun

/-- A node whose children stand in a row from the token it starts with to its end. -/
theorem LaidRow.front {t : Token} {ts rest : List Token} {u : Span} {e : Node}
    (h : LaidRow tokens t.span.range.stop e.children u.range.stop rest)
    (hts : InOrder tokens lo (t :: ts)) (hu : u.range.CutFrom tokens)
    (hspan : e.span = t.span.upTo u) : Laid tokens lo e rest := by
  obtain ⟨ht, hlo, hlt, -⟩ := hts
  have hrange : e.range = (t.span.upTo u).range := by rw [Node.range, hspan]
  obtain ⟨hle, hin⟩ := h.le
  refine ⟨Node.neat_iff.2 ⟨?_, h.neat⟩, ?_, ?_⟩
  · refine ⟨?_, ?_, ?_, fun _ c hc => ?_⟩ <;> rw [hrange]
    · exact Int.lt_of_lt_of_le hlt hle
    · exact Range.cutFrom_upTo (Token.cutFrom ht) hu
    · exact h.row.mono (Int.le_of_lt hlt) (Int.le_refl _)
    · exact .inl (Int.lt_of_lt_of_le hlt (hin c hc).1)
  · rw [hrange]
    exact hlo
  · rw [hrange]
    exact h.rest

/-- A node whose first child it starts with, and whose other children stand in a row behind that one. -/
theorem Laid.extend {e n : Node} {es : List Node} {us rest : List Token} {u : Span}
    (h : Laid tokens lo e us) (hmore : LaidRow tokens e.range.stop es u.range.stop rest)
    (hlt : e.range.stop < u.range.stop) (hu : u.range.CutFrom tokens)
    (hspan : n.span = e.span.upTo u) (hchildren : n.children = e :: es) : Laid tokens lo n rest := by
  have hrange : n.range = (e.span.upTo u).range := by rw [Node.range, hspan]
  have hpos := h.neat.tidy.lt
  refine ⟨Node.neat_iff.2 ⟨?_, ?_⟩, ?_, ?_⟩
  · refine ⟨?_, ?_, ?_, fun _ => ?_⟩ <;> rw [hrange]
    · exact Int.lt_trans hpos hlt
    · exact Range.cutFrom_upTo h.neat.tidy.cut hu
    · rw [hchildren]
      exact ⟨Int.le_refl _, hmore.row⟩
    · rw [hchildren]
      exact List.forall_mem_cons.2
        ⟨.inr hlt, fun c hc => .inl (Int.lt_of_lt_of_le hpos (hmore.le.2 c hc).1)⟩
  · rw [hchildren]
    exact List.forall_mem_cons.2 ⟨h.neat, hmore.neat⟩
  · rw [hrange]
    exact h.le
  · rw [hrange]
    exact hmore.rest

/-- A node of two parts. -/
theorem Laid.pair {l r n : Node} {us rest : List Token} (h : Laid tokens lo l us)
    (hr : Laid tokens l.range.stop r rest) (hspan : n.span = l.span.upTo r.span)
    (hchildren : n.children = [l, r]) : Laid tokens lo n rest := by
  have hpos : r.range.start < r.range.stop := hr.neat.tidy.lt
  exact h.extend hr.single (Int.lt_of_le_of_lt hr.le hpos) hr.neat.tidy.cut hspan hchildren

/-- A first part and more between brackets behind it. -/
theorem Laid.close {e n : Node} {es : List Node} {u : Token} {us rest : List Token}
    (h : Laid tokens lo e us) (hmore : LaidRow tokens e.range.stop es hi (u :: rest))
    (hspan : n.span = e.span.upTo u.span) (hchildren : n.children = e :: es) :
    Laid tokens lo n rest := by
  obtain ⟨hrow, hlt, hu⟩ := hmore.close
  exact h.extend hrow (Int.lt_of_le_of_lt hmore.le.1 hlt) hu hspan hchildren

/-- What stands between two brackets. -/
theorem LaidRow.enclose {t u : Token} {ts rest : List Token} {e : Node}
    (h : LaidRow tokens t.span.range.stop e.children hi (u :: rest))
    (hts : InOrder tokens lo (t :: ts)) (hspan : e.span = t.span.upTo u.span) :
    Laid tokens lo e rest :=
  h.close.1.front hts h.close.2.2 hspan

/-- An expression takes the range of parentheses around it. -/
theorem Laid.parens {t u : Token} {ts rest : List Token} {e : Node}
    (h : Laid tokens t.span.range.stop e (u :: rest)) (hts : InOrder tokens lo (t :: ts)) :
    Laid tokens lo (e.setMark (.at (t.span.upTo u.span))) rest := by
  obtain ⟨ht, hlo, hlt, -⟩ := hts
  obtain ⟨hu, hle, hult, hrest⟩ := h.rest
  have hcut := Range.cutFrom_upTo (Token.cutFrom ht) (Token.cutFrom hu)
  refine ⟨h.neat.setMark hcut (Int.lt_of_lt_of_le hlt h.le) (Int.lt_of_le_of_lt hle hult), ?_, ?_⟩
  · rw [Node.range_setMark]
    exact hlo
  · rw [Node.range_setMark]
    exact hrest

/-- A pipe stands from its first stage to its last. -/
theorem Laid.pipe {e x : Node} {xs : List Node} {us rest : List Token} (h : Laid tokens lo e us)
    (hmore : LaidRow tokens e.range.stop (x :: xs) hi rest)
    (hhi : hi = ((x :: xs).getLast (by simp)).range.stop) :
    Laid tokens lo
      (.pipe (.at (e.span.upTo ((x :: xs).getLast (by simp)).span)) (e :: x :: xs)) rest := by
  subst hhi
  have hx := hmore.le.2 x List.mem_cons_self
  have hpos := (hmore.neat x List.mem_cons_self).tidy.lt
  refine h.extend hmore (u := ((x :: xs).getLast (by simp)).span) ?_ ?_ rfl rfl
  · exact Int.lt_of_le_of_lt hx.1 (Int.lt_of_lt_of_le hpos hx.2)
  · exact (hmore.neat _ (List.getLast_mem (by simp))).tidy.cut

/-! ### Every phrase -/

theorem Head.laid {ts : List Token} {params : List Ident} {rest : List Token} {lo : Int} :
    Head ts params rest → InOrder tokens lo ts →
      ∃ hi, LaidRow tokens lo (params.map .identifier) hi rest
  | .nil _ _, hts => ⟨lo, laidRow_nil hts.drop.drop⟩
  | .last _ _ _, hts =>
      ⟨_, (laid_leaf hts rfl rfl).cons (laidRow_nil hts.2.2.2.drop.drop)⟩
  | .more _ _ h, hts =>
      have ⟨hi, hrow⟩ := h.laid hts.2.2.2.drop
      ⟨hi, (laid_leaf hts rfl rfl).cons hrow⟩

mutual

theorem Atom.laid {s : Setting} {n : Nat} {ts : List Token} {e : Node} {rest : List Token}
    {lo : Int} : Atom s n ts e rest → InOrder tokens lo ts → Laid tokens lo e rest
  | .number _, hts => laid_leaf hts rfl rfl
  | .string _, hts => laid_leaf hts rfl rfl
  | .trueWord _, hts => laid_leaf hts rfl rfl
  | .falseWord _, hts => laid_leaf hts rfl rfl
  | .name _, hts => laid_leaf hts rfl rfl
  | .hole _ _, hts => laid_leaf hts rfl rfl
  | .array _ h _, hts =>
      have ⟨_, hrow⟩ := h.laid hts.2.2.2
      hrow.enclose hts rfl
  | .object _ h _, hts =>
      have ⟨_, hrow⟩ := h.laid hts.2.2.2
      hrow.enclose hts rfl
  | .function _ hhead _ h _, hts =>
      have ⟨_, hparams⟩ := hhead.laid hts.2.2.2
      have ⟨_, hbody⟩ := h.laid hparams.rest.drop
      LaidRow.enclose (hparams.append hbody) hts rfl
  | .parens _ _ h _, hts => (h.laid hts.2.2.2).parens hts

theorem Suffixed.laid {s : Setting} {n : Nat} {ts : List Token} {e : Node} {rest : List Token}
    {lo : Int} : Suffixed s n ts e rest → InOrder tokens lo ts → Laid tokens lo e rest
  | .atom h, hts => h.laid hts
  | .member h _ _, hts =>
      have he := h.laid hts
      he.pair (laid_leaf he.rest.drop rfl rfl) rfl rfl
  | .index h _ _ hkey _, hts =>
      have he := h.laid hts
      he.close (hkey.laid he.rest.drop).single rfl rfl
  | .call h _ _ hargs _, hts =>
      have he := h.laid hts
      have ⟨_, hrow⟩ := hargs.laid he.rest.drop
      he.close hrow rfl rfl

theorem Operand.laid {s : Setting} {n : Nat} {ts : List Token} {e : Node} {rest : List Token}
    {lo : Int} : Operand s n ts e rest → InOrder tokens lo ts → Laid tokens lo e rest
  | .suffixed h _, hts => h.laid hts
  | .sign _ _ h, hts =>
      have he := h.laid hts.2.2.2
      he.single.front hts he.neat.tidy.cut rfl

theorem Product.laid {s : Setting} {n : Nat} {ts : List Token} {e : Node} {rest : List Token}
    {lo : Int} : Product s n ts e rest → InOrder tokens lo ts → Laid tokens lo e rest
  | .first h, hts => h.laid hts
  | .more h _ _ hr, hts =>
      have hl := h.laid hts
      hl.pair (hr.laid hl.rest.drop) rfl rfl

theorem Sum.laid {s : Setting} {n : Nat} {ts : List Token} {e : Node} {rest : List Token}
    {lo : Int} : Sum s n ts e rest → InOrder tokens lo ts → Laid tokens lo e rest
  | .first h _, hts => h.laid hts
  | .more h _ _ hr _, hts =>
      have hl := h.laid hts
      hl.pair (hr.laid hl.rest.drop) rfl rfl

theorem Stages.laid {s : Setting} {n : Nat} {ts : List Token} {es : List Node}
    {rest : List Token} {lo : Int} : Stages s n ts es rest → InOrder tokens lo ts →
      ∃ hi, LaidRow tokens lo es hi rest ∧ ∀ h : es ≠ [], hi = (es.getLast h).range.stop
  | .nil _, hts => ⟨lo, laidRow_nil hts, fun h => absurd rfl h⟩
  | @Stages.cons _ _ _ _ _ _ _ es _ _ h _ _ hmore, hts => by
      have he := h.laid hts.drop
      obtain ⟨hi, hrow, hlast⟩ := hmore.laid he.rest
      cases es with
      | nil =>
          cases hmore
          exact ⟨_, he.single, fun _ => rfl⟩
      | cons x xs =>
          exact ⟨hi, he.cons hrow, fun _ => by rw [List.getLast_cons (by simp)]; exact hlast _⟩

theorem Expression.laid {s : Setting} {n : Nat} {ts : List Token} {e : Node}
    {rest : List Token} {lo : Int} :
    Expression s n ts e rest → InOrder tokens lo ts → Laid tokens lo e rest
  | .sum h _ _, hts => h.laid hts
  | .pipe h _ hstages, hts =>
      have he := h.laid hts
      have ⟨_, hrow, hlast⟩ := hstages.laid he.rest
      he.pipe hrow (hlast (by simp))

theorem Items.laid {c : Symbol} {s : Setting} {n : Nat} {ts : List Token} {es : List Node}
    {rest : List Token} {lo : Int} :
    Items c s n ts es rest → InOrder tokens lo ts → ∃ hi, LaidRow tokens lo es hi rest
  | .nil _, hts => ⟨lo, laidRow_nil hts⟩
  | .last h _, hts => ⟨_, (h.laid hts).single⟩
  | .more h _ hmore, hts =>
      have he := h.laid hts
      have ⟨hi, hrow⟩ := hmore.laid he.rest.drop
      ⟨hi, he.cons hrow⟩

theorem Entries.laid {s : Setting} {n : Nat} {ts : List Token} {es : List Node}
    {rest : List Token} {lo : Int} :
    Entries s n ts es rest → InOrder tokens lo ts → ∃ hi, LaidRow tokens lo es hi rest
  | .nil _, hts => ⟨lo, laidRow_nil hts⟩
  | .last h _, hts => ⟨_, (h.laid hts).single⟩
  | .more h _ hmore, hts =>
      have he := h.laid hts
      have ⟨hi, hrow⟩ := hmore.laid he.rest.drop
      ⟨hi, he.cons hrow⟩

theorem Entry.laid {s : Setting} {n : Nat} {ts : List Token} {e : Node} {rest : List Token}
    {lo : Int} : Entry s n ts e rest → InOrder tokens lo ts → Laid tokens lo e rest
  | .mk _ _ h, hts =>
      have hkey := laid_leaf hts rfl rfl
      hkey.pair (h.laid hkey.rest.drop) rfl rfl

theorem Block.laid {n : Nat} {ts : List Token} {es : List Node} {rest : List Token} {lo : Int} :
    Block n ts es rest → InOrder tokens lo ts → ∃ hi, LaidRow tokens lo es hi rest
  | .nil _, hts => ⟨lo, laidRow_nil hts⟩
  | .cons h hmore, hts =>
      have he := h.laid hts
      have ⟨hi, hrow⟩ := hmore.laid he.rest
      ⟨hi, he.cons hrow⟩

theorem Statement.laid {s : Setting} {n : Nat} {ts : List Token} {e : Node} {rest : List Token}
    {lo : Int} : Statement s n ts e rest → InOrder tokens lo ts → Laid tokens lo e rest
  | .expression h, hts => by
      have he := h.laid hts
      refine ⟨Node.neat_iff.2 ⟨⟨he.neat.tidy.lt, he.neat.tidy.cut, ?_, nofun⟩, ?_⟩, he.le, he.rest⟩
      · exact ⟨Int.le_refl _, Int.le_refl _⟩
      · exact List.forall_mem_singleton.2 he.neat
  | .declaration _ _ _ _ h, hts =>
      have hname := laid_leaf hts.2.2.2 rfl rfl
      have he := h.laid hname.rest.drop
      LaidRow.front (hname.cons he.single) hts he.neat.tidy.cut rfl
  | .giveBack _ _ h, hts =>
      have he := h.laid hts.2.2.2
      he.single.front hts he.neat.tidy.cut rfl

end

theorem Statements.laid {n : Nat} {ts : List Token} {es : List Node} (h : Statements n ts es)
    {lo : Int} (hts : InOrder tokens lo ts) :
    ∃ hi, LaidRow tokens lo es hi [] ∧ ∀ h : es ≠ [], hi = (es.getLast h).range.stop := by
  induction h generalizing lo with
  | nil => exact ⟨lo, laidRow_nil hts, fun h => absurd rfl h⟩
  | cons h hmore ih =>
      rename_i es
      have he := h.laid hts
      obtain ⟨hi, hrow, hlast⟩ := ih he.rest
      cases es with
      | nil =>
          cases hmore
          exact ⟨_, he.single, fun _ => rfl⟩
      | cons x xs =>
          refine ⟨hi, he.cons hrow, fun _ => ?_⟩
          rw [List.getLast_cons (by simp)]
          exact hlast _

/-- A script with statements reaches from the first of them to the last. -/
theorem Statements.neat {n : Nat} {ts : List Token} {e : Node} {es : List Node}
    (h : Statements n ts (e :: es)) {lo : Int} (hts : InOrder tokens lo ts) :
    (Node.program (.at (e.span.upTo ((e :: es).getLast (by simp)).span)) (e :: es)).Neat tokens := by
  obtain ⟨hi, hrow, hlast⟩ := h.laid hts
  obtain rfl := hlast (by simp)
  have hin := hrow.le.2 e List.mem_cons_self
  have he := hrow.neat e List.mem_cons_self
  have hpos := he.tidy.lt
  refine Node.neat_iff.2 ⟨⟨?_, ?_, ⟨Int.le_refl _, hrow.row.2⟩, nofun⟩, hrow.neat⟩
  · exact Int.lt_of_lt_of_le hpos hin.2
  · exact Range.cutFrom_upTo he.tidy.cut (hrow.neat _ (List.getLast_mem (by simp))).tidy.cut

end Grammar

/-! ### Scripts -/

/-- The tokens of a text, all but the end, are in order. -/
theorem Lexer.Reading.inOrder {r : Lexer.Reading} {tokens all : List Token} {fuel : Nat}
    {p : Position} {text : List Char} (h : r.tokens fuel p text = .ok all)
    (hknown : all ⊆ tokens) :
    ∃ ts finish, all = ts ++ [⟨.finish, "", finish⟩] ∧ Grammar.InOrder tokens p.offset ts := by
  induction fuel generalizing p text all with
  | zero =>
      cases h
      exact ⟨[], _, rfl, trivial⟩
  | succ fuel ih =>
      rcases tokens_succ_cases h with ⟨-, rfl⟩ | ⟨gap, word, rest, kind, more, hfirst, rfl, hmore⟩
      · exact ⟨[], _, rfl, trivial⟩
      · obtain ⟨hknownFirst, hothers⟩ := List.cons_subset.1 hknown
        obtain ⟨ts, finish, rfl, hts⟩ := ih hmore hothers
        refine ⟨_ :: ts, finish, rfl, hknownFirst, ?_, ?_, hts⟩
        · exact Int.ofNat_le.2 (p.offset_le_after gap)
        · -- A token takes at least one character.
          have hword : 0 < word.length := List.length_pos_iff.2 hfirst.lexeme.ne_nil
          simp only [Span.range, Position.offset_after]
          omega

/-- The nodes of a script that is read from a text have good ranges, unless the script is empty. -/
theorem neat_of_parse {source : String} {file : Option String} {script : Node}
    (h : parse source file = .ok script) :
    ∃ tokens, tokenize source file = .ok tokens ∧
      (script.Neat tokens ∨ ∃ t ∈ tokens, ∃ m, script = .program m [] ∧ m.span = t.span) := by
  obtain ⟨tokens, htokens, htree⟩ := bind_eq_ok h
  refine ⟨tokens, htokens, ?_⟩
  obtain ⟨ts, finish, rfl, hts⟩ := Lexer.Reading.inOrder htokens (List.Subset.refl _)
  obtain ⟨n, bare, hscript, -, -, rfl⟩ :=
    Grammar.script_eq_ok_iff.1 (parseTokens_eq_ok_iff.1 htree)
  cases hscript with
  | empty => exact .inr ⟨_, List.mem_append_right _ List.mem_cons_self, _, rfl, rfl⟩
  | body hstatements => exact .inl ((hstatements.neat hts).place [])

/-- The ranges of a script mirror its tree. The range of a node is empty only if the node is an empty script,
and it goes from the start of a token of the text to the end of one. It includes the ranges of the
children, each of which ends before the next one starts. So a walk through the script meets the starts of
the ranges in order. No two expressions of the script have the same range. -/
theorem ranges_of_parse {source : String} {file : Option String} {script : Node}
    (h : parse source file = .ok script) :
    ∃ tokens, tokenize source file = .ok tokens ∧
      (∀ n ∈ script.walk,
        (n.range.start < n.range.stop ∨ n = script ∧ script.body = []) ∧
        (∃ t ∈ tokens, n.range.start = t.span.range.start) ∧
        (∃ t ∈ tokens, n.range.stop = t.span.range.stop) ∧
        (∀ c ∈ n.children, n.range.start ≤ c.range.start ∧ c.range.stop ≤ n.range.stop) ∧
        n.children.Pairwise fun c d => c.range.stop ≤ d.range.start) ∧
      (script.walk.map (·.range.start)).Pairwise (· ≤ ·) ∧
      ((script.walk.filter (·.isExpression)).map (·.range)).Nodup := by
  obtain ⟨tokens, htokens, hneat | ⟨t, ht, m, rfl, hspan⟩⟩ := neat_of_parse h
  · have hwalk := hneat.walk_pairwise
    refine ⟨tokens, htokens, fun n hn => ?_, ?_, ?_⟩
    · have hn := hneat.of_mem_walk hn
      have htidy := hn.tidy
      exact ⟨.inl htidy.lt, htidy.cut.1, htidy.cut.2, fun c => hn.within, hn.pairwise⟩
    · exact List.pairwise_map.2 (hwalk.imp And.left)
    · refine List.pairwise_map.2 (List.pairwise_filter.2 (hwalk.imp ?_))
      exact fun hprecede hn hm => hprecede.2 hn hm
  · refine ⟨tokens, htokens, fun n hn => ?_, List.pairwise_singleton _ _, List.nodup_nil⟩
    obtain rfl := List.mem_singleton.1 hn
    refine ⟨.inr ⟨rfl, rfl⟩, ⟨t, ht, ?_⟩, ⟨t, ht, ?_⟩, nofun, .nil⟩
    · exact congrArg (fun s : Span => s.range.start) hspan
    · exact congrArg (fun s : Span => s.range.stop) hspan

/-- Parentheses around a sum belong to the sum, which is why it does not share its range with the pipe. -/
theorem ranges_of_parse_parens :
    ∃ source script, source = "((1) + a)\n|> f(%, [])" ∧ parse source none = .ok script ∧
      (script.walk.filter (·.isExpression)).map (·.range) =
        [⟨0, 21⟩, ⟨0, 9⟩, ⟨1, 4⟩, ⟨7, 8⟩, ⟨13, 21⟩, ⟨13, 14⟩, ⟨15, 16⟩, ⟨18, 20⟩] ∧
      ((script.walk.filter (·.isExpression)).map (·.range)).Nodup ∧
      (script.walk.map (·.range.start)).Pairwise (· ≤ ·) ∧
      ∀ n ∈ script.walk, n.range.start < n.range.stop ∨ n = script ∧ script.body = [] := by
  obtain ⟨source, hsource⟩ : ∃ source, source = "((1) + a)\n|> f(%, [])" := ⟨_, rfl⟩
  have hchecked : ((parse source none).toOption.any fun script =>
      decide ((script.walk.filter (·.isExpression)).map (·.range) =
        [⟨0, 21⟩, ⟨0, 9⟩, ⟨1, 4⟩, ⟨7, 8⟩, ⟨13, 21⟩, ⟨13, 14⟩, ⟨15, 16⟩, ⟨18, 20⟩])) = true := by
    rw [hsource]
    decide +kernel
  obtain ⟨script, hscript, hchecked⟩ := exists_of_any_toOption hchecked
  obtain ⟨tokens, htokens, hnodes, hstarts, hnodup⟩ := ranges_of_parse hscript
  exact ⟨source, script, hsource, hscript, of_decide_eq_true hchecked, hnodup, hstarts,
    fun n hn => (hnodes n hn).1⟩

end PartScript
