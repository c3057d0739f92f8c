import Mathlib.Data.List.Chain
import PartScript.Proofs.Edit.Placement
import PartScript.Proofs.Node.Ranges
import PartScript.Proofs.Node.ReadBack

/-!
The expressions at an offset. Ranges count both of their ends, so what decides which expressions cover an
offset is whether neighbours can touch. In every construct some token stands between two neighbours, a
comma, an operator or a bracket, except between the statements of a body. Therefore all expressions that cover
an offset lie on one path from the root, and the last one that a walk meets is the innermost, unless the offset
is where one statement ends and the next one starts.
-/

namespace PartScript

namespace Node

/-! ### Space between neighbours -/

/-- Text stands between any two neighbours. -/
def Spread (ns : List Node) : Prop :=
  (ns.map (·.range)).IsChain fun r s => r.stop < s.start

/-- The number of children in front of the statements. -/
def leading : Node → Nat
  | program _ _ => 0
  | function _ params _ => params.length
  | n => n.children.length

/-- Text stands between neighbouring children that are no two statements. -/
def Gapped (n : Node) : Prop := Spread (n.children.take (n.leading + 1))

/-- The same for all nodes of a tree. -/
def Spaced (n : Node) : Prop := ∀ m ∈ n.walk, m.Gapped

theorem spaced_iff {n : Node} : n.Spaced ↔ n.Gapped ∧ ∀ c ∈ n.children, c.Spaced := by
  rw [Spaced, walk_eq_cons, List.forall_mem_cons]
  simp only [List.mem_flatMap, forall_exists_index, and_imp, Spaced]
  exact and_congr_right fun _ => ⟨fun h c hc m hm => h m c hc hm, fun h m c hc hm => h c hc m hm⟩

theorem spread_nil : Spread [] := List.isChain_nil

theorem spread_singleton (n : Node) : Spread [n] := List.isChain_singleton _

theorem spread_cons {n : Node} {ns : List Node} :
    Spread (n :: ns) ↔ (∀ m ∈ ns.head?, n.range.stop < m.range.start) ∧ Spread ns := by
  rw [Spread, List.map_cons, List.isChain_cons]
  cases ns with
  | nil => simp [Spread]
  | cons m ns => simp [Spread]

theorem Spread.cons {n : Node} {ns : List Node} (h : Spread ns)
    (hfirst : ∀ m ∈ ns, n.range.stop < m.range.start) : Spread (n :: ns) :=
  spread_cons.2 ⟨fun m hm => hfirst m (List.mem_of_mem_head? hm), h⟩

theorem Spread.append {ns ms : List Node} (h : Spread ns) (h' : Spread ms)
    (hlt : ∀ n ∈ ns, ∀ m ∈ ms, n.range.stop < m.range.start) : Spread (ns ++ ms) := by
  induction ns with
  | nil => exact h'
  | cons n ns ih =>
      obtain ⟨hn, hns⟩ := List.forall_mem_cons.1 hlt
      obtain ⟨hfirst, hrest⟩ := spread_cons.1 h
      refine spread_cons.2 ⟨?_, ih hrest hns⟩
      cases ns with
      | nil => exact fun m hm => hn m (List.mem_of_mem_head? hm)
      | cons n' ns => exact hfirst

theorem Spread.lt {before after : List Node} {c d : Node} (h : Spread (before ++ c :: d :: after)) :
    c.range.stop < d.range.start := by
  induction before with
  | nil => exact (spread_cons.1 h).1 d rfl
  | cons n before ih => exact ih (spread_cons.1 h).2

theorem Spread.take {ns : List Node} (h : Spread ns) (k : Nat) : Spread (ns.take k) := by
  rw [Spread, List.map_take]
  exact List.IsChain.take h k

/-- Neighbours with text between them need no more than that. -/
theorem gapped_of_spread {n : Node} (h : Spread n.children) : n.Gapped := h.take _

theorem drop_leading (n : Node) : n.children.drop n.leading = n.statements := by
  cases n with
  | program => rfl
  | function m params body =>
      have hlength : (params.map identifier).length = params.length := List.length_map ..
      rw [leading, ← hlength]
      exact List.drop_left
  | _ => exact List.drop_length

/-- Neighbours among the children have text between them or are neighbours among the statements. -/
theorem Gapped.lt_or {n : Node} (h : n.Gapped) {before after : List Node} {c d : Node}
    (hchildren : n.children = before ++ c :: d :: after) :
    c.range.stop < d.range.start ∨ ∃ front, n.statements = front ++ c :: d :: after := by
  by_cases hlead : before.length < n.leading
  · left
    obtain ⟨k, hk⟩ : ∃ k, n.leading + 1 = before.length + (k + 2) :=
      ⟨n.leading - before.length - 1, by omega⟩
    have htake : n.children.take (n.leading + 1) = before ++ c :: d :: after.take k := by
      rw [hchildren, hk, List.take_length_add_append]
      rfl
    rw [Gapped, htake] at h
    exact h.lt
  · right
    refine ⟨before.drop n.leading, ?_⟩
    rw [← n.drop_leading, hchildren, List.drop_append_of_le_length (Nat.le_of_not_lt hlead)]

/-! ### Changes of marks -/

theorem map_range_placeAll (path : List Nat) (k : Nat) (ns : List Node) :
    (placeAll path k ns).map (·.range) = ns.map (·.range) := by
  induction ns generalizing k with
  | nil => rfl
  | cons n ns ih => rw [placeAll, List.map_cons, List.map_cons, range_place, ih]

theorem length_placeAll (path : List Nat) (k : Nat) (ns : List Node) :
    (placeAll path k ns).length = ns.length := by
  simpa using congrArg List.length (map_range_placeAll path k ns)

theorem leading_place (path : List Nat) (n : Node) : (n.place path).leading = n.leading := by
  cases n with
  | program => rfl
  | function m params body => exact length_placeIdents path 0 params
  | call m callee args => exact congrArg (· + 1) (length_placeAll path 1 args)
  | array m es | object m es | pipe m es => exact length_placeAll path 0 es
  | _ => rfl

theorem Gapped.place {n : Node} (h : n.Gapped) (path : List Nat) : (n.place path).Gapped := by
  rw [Gapped, Spread, leading_place, List.map_take, children_place, map_range_placeAll,
    ← List.map_take]
  exact h

/-- Paths do not change ranges. -/
theorem Spaced.place {n : Node} (h : n.Spaced) (path : List Nat) : (n.place path).Spaced := by
  refine spaced_iff.2 ⟨(spaced_iff.1 h).1.place path, fun c hc => ?_⟩
  obtain ⟨child, hchild, below, rfl⟩ := exists_of_mem_children_place hc
  have hlt := length_walk_lt hchild
  exact ((spaced_iff.1 h).2 child hchild).place below
termination_by n.walk.length

/-- The mark of a node says nothing about its children. -/
theorem Spaced.setMark {n : Node} (h : n.Spaced) (m : Mark) : (n.setMark m).Spaced := by
  obtain ⟨hroot, hchildren⟩ := spaced_iff.1 h
  refine spaced_iff.2 ⟨?_, ?_⟩
  · have hleading : (n.setMark m).leading = n.leading := by cases n <;> rfl
    rw [Gapped, hleading, children_setMark]
    exact hroot
  · rw [children_setMark]
    exact hchildren

end Node

/-! ### Phrases -/

namespace Grammar

open PartScript.Parser (Setting)
open Node (Row Neat Spread Spaced spaced_iff gapped_of_spread)

variable {tokens : List Token} {lo hi : Int}

theorem spaced_leaf {e : Node} (hchildren : e.children = []) : e.Spaced := by
  refine spaced_iff.2 ⟨gapped_of_spread ?_, ?_⟩ <;> rw [hchildren]
  · exact Node.spread_nil
  · exact List.forall_mem_nil _

/-- A node whose children stand apart and have space in them. -/
theorem spaced_of_spread {e : Node} {es : List Node} (hchildren : e.children = es)
    (hes : ∀ c ∈ es, c.Spaced) (hspread : Spread es) : e.Spaced := by
  subst hchildren
  exact spaced_iff.2 ⟨gapped_of_spread hspread, hes⟩

theorem spaced_single {e n : Node} (hchildren : n.children = [e]) (he : e.Spaced) : n.Spaced :=
  spaced_of_spread hchildren (List.forall_mem_singleton.2 he) (Node.spread_singleton e)

/-- What stands behind a token starts behind what stands in front of it. -/
theorem LaidRow.lt {t : Token} {us rest : List Token} {es : List Node}
    (hts : InOrder tokens lo (t :: us)) (h : LaidRow tokens t.span.range.stop es hi rest) :
    ∀ e ∈ es, lo < e.range.start := by
  intro e he
  have hle := (h.le.2 e he).1
  obtain ⟨-, hlo, hlt, -⟩ := hts
  omega

theorem Laid.lt {t : Token} {us rest : List Token} {e : Node} (hts : InOrder tokens lo (t :: us))
    (h : Laid tokens t.span.range.stop e rest) : lo < e.range.start :=
  h.single.lt hts e List.mem_cons_self

/-- Two nodes with a token between them. -/
theorem spaced_pair {t : Token} {us rest : List Token} {l r n : Node}
    (hts : InOrder tokens l.range.stop (t :: us)) (hr : Laid tokens t.span.range.stop r rest)
    (hchildren : n.children = [l, r]) (hspacedl : l.Spaced) (hspacedr : r.Spaced) : n.Spaced :=
  spaced_of_spread hchildren
    (List.forall_mem_cons.2 ⟨hspacedl, List.forall_mem_singleton.2 hspacedr⟩)
    ((Node.spread_singleton r).cons (List.forall_mem_singleton.2 (hr.lt hts)))

/-- A name and a node with a token between them. -/
theorem spaced_named {t u : Token} {us rest : List Token} {i : Ident} {e n : Node}
    (hts : InOrder tokens lo (t :: u :: us)) (he : Laid tokens u.span.range.stop e rest)
    (hspan : i.span = t.span) (hchildren : n.children = [.identifier i, e]) (hspaced : e.Spaced) :
    n.Spaced :=
  have hname : Laid tokens lo (.identifier i) (u :: us) := laid_leaf hts hspan rfl
  spaced_pair hname.rest he hchildren (spaced_leaf rfl) hspaced

/-- The statements of a function may touch each other, but not its parameters. -/
theorem spaced_function {m : Mark} {params : List Ident} {body : List Node}
    (hparams : Spread (params.map .identifier)) (hbody : ∀ e ∈ body, e.Spaced)
    (hlt : ∀ c ∈ params.map Node.identifier, ∀ d ∈ body, c.range.stop < d.range.start) :
    (Node.function m params body).Spaced := by
  refine spaced_iff.2 ⟨?_, List.forall_mem_append.2 ⟨?_, hbody⟩⟩
  · have hlength : (params.map Node.identifier).length = params.length := List.length_map ..
    rw [Node.Gapped, Node.children, Node.leading, ← hlength, List.take_length_add_append]
    refine hparams.append ?_ fun c hc d hd => hlt c hc d (List.mem_of_mem_take hd)
    cases body with
    | nil => exact Node.spread_nil
    | cons d body => exact Node.spread_singleton d
  · exact List.forall_mem_map.2 fun i _ => spaced_leaf rfl

/-- The names in the head of a function stand apart. -/
theorem Head.spread {ts : List Token} {params : List Ident} {rest : List Token} {lo : Int} :
    Head ts params rest → InOrder tokens lo ts → Spread (params.map .identifier)
  | .nil _ _, _ => Node.spread_nil
  | .last _ _ _, _ => Node.spread_singleton _
  | .more _ _ h, hts => by
      have hrest := hts.2.2.2
      obtain ⟨hi, hrow⟩ := h.laid hrest.2.2.2
      exact (h.spread hrest.2.2.2).cons (hrow.lt hrest)

mutual

theorem Atom.spaced {s : Setting} {n : Nat} {ts : List Token} {e : Node} {rest : List Token}
    {lo : Int} : Atom s n ts e rest → InOrder tokens lo ts → e.Spaced
  | .number _, _ | .string _, _ | .trueWord _, _ | .falseWord _, _ | .name _, _ | .hole _ _, _ =>
      spaced_leaf rfl
  | .array _ h _, hts =>
      have ⟨hes, hspread⟩ := h.spaced hts.2.2.2
      spaced_of_spread rfl hes hspread
  | .object _ h _, hts =>
      have ⟨hps, hspread⟩ := h.spaced hts.2.2.2
      spaced_of_spread rfl hps hspread
  | .function _ hhead _ h _, hts =>
      have ⟨_, hparams⟩ := hhead.laid hts.2.2.2
      have ⟨_, hrow⟩ := h.laid hparams.rest.2.2.2
      spaced_function (hhead.spread hts.2.2.2) (h.spaced hparams.rest.2.2.2) fun c hc d hd =>
        Int.lt_of_le_of_lt (hparams.le.2 c hc).2 (hrow.lt hparams.rest d hd)
  | .parens _ _ h _, hts => (h.spaced hts.2.2.2).setMark _

theorem Suffixed.spaced {s : Setting} {n : Nat} {ts : List Token} {e : Node} {rest : List Token}
    {lo : Int} : Suffixed s n ts e rest → InOrder tokens lo ts → e.Spaced
  | .atom h, hts => h.spaced hts
  | .member h _ _, hts =>
      have he := h.laid hts
      spaced_pair he.rest (laid_leaf he.rest.2.2.2 rfl rfl) rfl (h.spaced hts) (spaced_leaf rfl)
  | .index h _ _ hkey _, hts =>
      have he := h.laid hts
      spaced_pair he.rest (hkey.laid he.rest.2.2.2) rfl (h.spaced hts) (hkey.spaced he.rest.2.2.2)
  | .call h _ _ hargs _, hts =>
      have he := h.laid hts
      have ⟨_, hrow⟩ := hargs.laid he.rest.2.2.2
      have ⟨hes, hspread⟩ := hargs.spaced he.rest.2.2.2
      spaced_of_spread rfl (List.forall_mem_cons.2 ⟨h.spaced hts, hes⟩)
        (hspread.cons (hrow.lt he.rest))

theorem Operand.spaced {s : Setting} {n : Nat} {ts : List Token} {e : Node} {rest : List Token}
    {lo : Int} : Operand s n ts e rest → InOrder tokens lo ts → e.Spaced
  | .suffixed h _, hts => h.spaced hts
  | .sign _ _ h, hts => spaced_single rfl (h.spaced hts.2.2.2)

theorem Product.spaced {s : Setting} {n : Nat} {ts : List Token} {e : Node} {rest : List Token}
    {lo : Int} : Product s n ts e rest → InOrder tokens lo ts → e.Spaced
  | .first h, hts => h.spaced hts
  | .more h _ _ hr, hts =>
      have hl := h.laid hts
      spaced_pair hl.rest (hr.laid hl.rest.2.2.2) rfl (h.spaced hts) (hr.spaced hl.rest.2.2.2)

theorem Sum.spaced {s : Setting} {n : Nat} {ts : List Token} {e : Node} {rest : List Token}
    {lo : Int} : Sum s n ts e rest → InOrder tokens lo ts → e.Spaced
  | .first h _, hts => h.spaced hts
  | .more h _ _ hr _, hts =>
      have hl := h.laid hts
      spaced_pair hl.rest (hr.laid hl.rest.2.2.2) rfl (h.spaced hts) (hr.spaced hl.rest.2.2.2)

theorem Stages.spaced {s : Setting} {n : Nat} {ts : List Token} {es : List Node}
    {rest : List Token} {lo : Int} : Stages s n ts es rest → InOrder tokens lo ts →
      (∀ e ∈ es, e.Spaced) ∧ Spread es ∧ ∀ e ∈ es, lo < e.range.start
  | .nil _, _ => ⟨List.forall_mem_nil _, Node.spread_nil, List.forall_mem_nil _⟩
  | .cons _ h _ _ hmore, hts => by
      have he := h.laid hts.2.2.2
      obtain ⟨hes, hspread, hlt⟩ := hmore.spaced he.rest
      have hfirst := he.lt hts
      have hpos := he.neat.tidy.lt
      refine ⟨List.forall_mem_cons.2 ⟨h.spaced hts.2.2.2, hes⟩, hspread.cons hlt,
        List.forall_mem_cons.2 ⟨hfirst, fun c hc => ?_⟩⟩
      have hc := hlt c hc
      omega

theorem Expression.spaced {s : Setting} {n : Nat} {ts : List Token} {e : Node}
    {rest : List Token} {lo : Int} : Expression s n ts e rest → InOrder tokens lo ts → e.Spaced
  | .sum h _ _, hts => h.spaced hts
  | .pipe h _ hstages, hts =>
      have he := h.laid hts
      have ⟨hes, hspread, hlt⟩ := hstages.spaced he.rest
      spaced_of_spread rfl (List.forall_mem_cons.2 ⟨h.spaced hts, hes⟩) (hspread.cons hlt)

theorem Items.spaced {c : Symbol} {s : Setting} {n : Nat} {ts : List Token} {es : List Node}
    {rest : List Token} {lo : Int} :
    Items c s n ts es rest → InOrder tokens lo ts → (∀ e ∈ es, e.Spaced) ∧ Spread es
  | .nil _, _ => ⟨List.forall_mem_nil _, Node.spread_nil⟩
  | .last h _, hts => ⟨List.forall_mem_singleton.2 (h.spaced hts), Node.spread_singleton _⟩
  | .more h _ hmore, hts =>
      have he := h.laid hts
      have ⟨_, hrow⟩ := hmore.laid he.rest.2.2.2
      have ⟨hes, hspread⟩ := hmore.spaced he.rest.2.2.2
      ⟨List.forall_mem_cons.2 ⟨h.spaced hts, hes⟩, hspread.cons (hrow.lt he.rest)⟩

theorem Entries.spaced {s : Setting} {n : Nat} {ts : List Token} {es : List Node}
    {rest : List Token} {lo : Int} :
    Entries s n ts es rest → InOrder tokens lo ts → (∀ e ∈ es, e.Spaced) ∧ Spread es
  | .nil _, _ => ⟨List.forall_mem_nil _, Node.spread_nil⟩
  | .last h _, hts => ⟨List.forall_mem_singleton.2 (h.spaced hts), Node.spread_singleton _⟩
  | .more h _ hmore, hts =>
      have he := h.laid hts
      have ⟨_, hrow⟩ := hmore.laid he.rest.2.2.2
      have ⟨hes, hspread⟩ := hmore.spaced he.rest.2.2.2
      ⟨List.forall_mem_cons.2 ⟨h.spaced hts, hes⟩, hspread.cons (hrow.lt he.rest)⟩

theorem Entry.spaced {s : Setting} {n : Nat} {ts : List Token} {e : Node} {rest : List Token}
    {lo : Int} : Entry s n ts e rest → InOrder tokens lo ts → e.Spaced
  | .mk _ _ h, hts =>
      have hts' := hts.2.2.2.2.2.2
      spaced_named hts (h.laid hts') rfl rfl (h.spaced hts')

theorem Block.spaced {n : Nat} {ts : List Token} {es : List Node} {rest : List Token} {lo : Int} :
    Block n ts es rest → InOrder tokens lo ts → ∀ e ∈ es, e.Spaced
  | .nil _, _ => List.forall_mem_nil _
  | .cons h hmore, hts =>
      List.forall_mem_cons.2 ⟨h.spaced hts, hmore.spaced (h.laid hts).rest⟩

theorem Statement.spaced {s : Setting} {n : Nat} {ts : List Token} {e : Node} {rest : List Token}
    {lo : Int} : Statement s n ts e rest → InOrder tokens lo ts → e.Spaced
  | .expression h, hts => spaced_single rfl (h.spaced hts)
  | .declaration _ _ _ _ h, hts =>
      have hts' := hts.2.2.2.2.2.2.2.2.2
      spaced_named hts.2.2.2 (h.laid hts') rfl rfl (h.spaced hts')
  | .giveBack _ _ h, hts => spaced_single rfl (h.spaced hts.2.2.2)

end

theorem Statements.spaced {n : Nat} {ts : List Token} {es : List Node} (h : Statements n ts es)
    {lo : Int} (hts : InOrder tokens lo ts) : ∀ e ∈ es, e.Spaced := by
  induction h generalizing lo with
  | nil => exact List.forall_mem_nil _
  | cons h hmore ih => exact List.forall_mem_cons.2 ⟨h.spaced hts, ih (h.laid hts).rest⟩

theorem spaced_program {m : Mark} {es : List Node} (h : ∀ e ∈ es, e.Spaced) :
    (Node.program m es).Spaced := by
  refine spaced_iff.2 ⟨?_, h⟩
  cases es with
  | nil => exact Node.spread_nil
  | cons e es => exact Node.spread_singleton e

end Grammar

/-- Text stands between any two neighbours of a script that is read from a text but two statements. -/
theorem spaced_of_parse {source : String} {file : Option String} {script : Node}
    (h : parse source file = .ok script) : script.Spaced := by
  obtain ⟨tokens, htokens, htree⟩ := bind_eq_ok h
  obtain ⟨ts, finish, rfl, hts⟩ := Lexer.Reading.inOrder htokens (List.Subset.refl _)
  obtain ⟨n, bare, hscript, -, -, rfl⟩ :=
    Grammar.script_eq_ok_iff.1 (parseTokens_eq_ok_iff.1 htree)
  cases hscript with
  | empty => exact Grammar.spaced_leaf rfl
  | body hstatements => exact (Grammar.spaced_program (hstatements.spaced hts)).place []

/-! ### Expressions at an offset -/

namespace Node

/-- The expressions of a tree that cover an offset, in the order of a walk. -/
def covering (n : Node) (offset : Int) : List Node :=
  n.walk.filter fun e => e.isExpression && e.range.contains offset

/-- At the offset one statement of a script or a function ends and the next one starts. -/
def JoinsStatements (n : Node) (offset : Int) : Prop :=
  ∃ m ∈ n.walk, ∃ pair ∈ m.statements.zip m.statements.tail,
    pair.1.range.stop = offset ∧ pair.2.range.start = offset

instance (n : Node) (offset : Int) : Decidable (n.JoinsStatements offset) :=
  inferInstanceAs (Decidable (∃ m ∈ n.walk, ∃ pair ∈ m.statements.zip m.statements.tail,
    pair.1.range.stop = offset ∧ pair.2.range.start = offset))

end Node

theorem Range.contains_iff {r : Range} {offset : Int} :
    r.contains offset = true ↔ r.start ≤ offset ∧ offset ≤ r.stop := by
  rw [Range.contains, Bool.and_eq_true, decide_eq_true_eq, decide_eq_true_eq]

namespace Node

variable {tokens : List Token} {offset : Int}

theorem mem_covering {n e : Node} :
    e ∈ n.covering offset ↔ e ∈ n.walk ∧ e.isExpression = true ∧ e.range.contains offset = true := by
  rw [covering, List.mem_filter, Bool.and_eq_true]

theorem covering_eq (n : Node) (offset : Int) :
    n.covering offset =
      (if n.isExpression && n.range.contains offset then [n] else []) ++
        n.children.flatMap (covering · offset) := by
  have hbelow : (n.children.flatMap walk).filter (fun e => e.isExpression && e.range.contains offset) =
      n.children.flatMap (covering · offset) := List.filter_flatMap
  rw [covering, walk_eq_cons, List.filter_cons, hbelow]
  split <;> rfl

theorem JoinsStatements.of_mem_walk {n m : Node} (h : m.JoinsStatements offset) (hm : m ∈ n.walk) :
    n.JoinsStatements offset := by
  obtain ⟨k, hk, hpair⟩ := h
  exact ⟨k, walk_subset_of_mem_walk hm hk, hpair⟩

theorem mem_zip_tail {α : Type} {front after : List α} {c d : α} :
    (c, d) ∈ (front ++ c :: d :: after).zip (front ++ c :: d :: after).tail := by
  induction front with
  | nil => exact List.mem_cons_self
  | cons a front ih =>
      cases front with
      | nil => exact List.mem_cons_of_mem _ List.mem_cons_self
      | cons b front => exact List.mem_cons_of_mem _ ih

/-- Two children that cover an offset meet there and are neighbouring statements. -/
theorem Neat.joinsStatements {n : Node} (h : n.Neat tokens) (hspaced : n.Spaced)
    {before mid after : List Node} {c d : Node} (hchildren : n.children = before ++ c :: (mid ++ d :: after))
    (hc : c.range.contains offset = true) (hd : d.range.contains offset = true) :
    n.JoinsStatements offset := by
  rw [Range.contains_iff] at hc hd
  have hpairwise := h.pairwise
  rw [hchildren, List.pairwise_append] at hpairwise
  have hbehind := List.pairwise_cons.1 hpairwise.2.1
  have hle := hbehind.1 d (by simp)
  cases mid with
  | nil =>
      rcases (spaced_iff.1 hspaced).1.lt_or hchildren with hlt | ⟨front, hstatements⟩
      · omega
      · obtain ⟨hstop, hstart⟩ : c.range.stop = offset ∧ d.range.start = offset := by omega
        refine ⟨n, mem_walk n, (c, d), ?_, hstop, hstart⟩
        rw [hstatements]
        exact mem_zip_tail
  | cons x mid =>
      -- A node between the two takes some text.
      have hx : x ∈ n.children := by simp [hchildren]
      have hpos := h.lt_of_mem_children hx
      have hcx := hbehind.1 x (by simp)
      have hxd := (List.pairwise_cons.1 hbehind.2).1 d (by simp)
      omega

theorem exists_of_getLast?_flatMap {α β : Type} {f : α → List β} {as : List α} {b : β}
    (h : (as.flatMap f).getLast? = some b) :
    ∃ before a after, as = before ++ a :: after ∧ (f a).getLast? = some b ∧ ∀ x ∈ after, f x = [] := by
  induction as with
  | nil => cases h
  | cons a as ih =>
      rw [List.flatMap_cons, List.getLast?_append] at h
      cases hrest : (as.flatMap f).getLast? with
      | none =>
          rw [hrest, Option.none_or] at h
          exact ⟨[], a, as, rfl, h, List.flatMap_eq_nil_iff.1 (List.getLast?_eq_none_iff.1 hrest)⟩
      | some b' =>
          rw [hrest, Option.some_or] at h
          obtain ⟨before, a', after, rfl, hlast⟩ := ih (hrest.trans h)
          exact ⟨a :: before, a', after, rfl, hlast⟩

theorem Neat.contains_of_mem_walk {n m : Node} (h : n.Neat tokens) (hm : m ∈ n.walk)
    (hcontains : m.range.contains offset = true) : n.range.contains offset = true := by
  have hin := h.within_of_mem_walk hm
  rw [Range.contains_iff] at hcontains ⊢
  omega

/-- If nothing below a node covers an offset, no expression in it does. -/
theorem contains_eq_false_of_children {n : Node}
    (hnone : ∀ c ∈ n.children, c.covering offset = []) :
    ∀ d ∈ n.walk.tail, d.isExpression = true → d.range.contains offset = false := by
  intro d hd hexpression
  rw [walk_eq_cons, List.tail_cons] at hd
  obtain ⟨c, hc, hd⟩ := List.mem_flatMap.1 hd
  refine Bool.eq_false_iff.2 fun hcontains => ?_
  have hmem := mem_covering.2 ⟨hd, hexpression, hcontains⟩
  rw [hnone c hc] at hmem
  cases hmem

/-- An expression that covers an offset is the node itself or covers it in one of the children. -/
theorem eq_or_of_mem_covering {n e : Node} (he : e ∈ n.covering offset) :
    e = n ∨ ∃ c ∈ n.children, e ∈ c.covering offset := by
  rw [covering_eq, List.mem_append, List.mem_flatMap] at he
  refine he.imp_left fun he => ?_
  split at he
  · exact List.mem_singleton.1 he
  · cases he

/-- Where no two statements meet, all expressions below a node that cover an offset are in one child, the last
one with such an expression. -/
theorem Neat.mem_covering_last {n : Node} (h : n.Neat tokens) (hspaced : n.Spaced)
    (hapart : ¬ n.JoinsStatements offset) {before after : List Node} {c d e r : Node}
    (hchildren : n.children = before ++ c :: after) (hafter : ∀ x ∈ after, x.covering offset = [])
    (hr : r ∈ c.covering offset) (hd : d ∈ n.children) (he : e ∈ d.covering offset) :
    e ∈ c.covering offset := by
  have hcontains {m x : Node} (hm : m ∈ n.children) (hx : x ∈ m.covering offset) :
      m.range.contains offset = true :=
    ((neat_iff.1 h).2 m hm).contains_of_mem_walk (mem_covering.1 hx).1 (mem_covering.1 hx).2.2
  have hc : c ∈ n.children := by simp [hchildren]
  have hcovers := hcontains hd he
  rw [hchildren] at hd
  rcases List.mem_append.1 hd with hd | hd
  · -- An earlier child that covers the offset would meet the one with the last expression.
    obtain ⟨front, mid, rfl⟩ := List.append_of_mem hd
    rw [List.append_assoc, List.cons_append] at hchildren
    exact absurd (h.joinsStatements hspaced hchildren hcovers (hcontains hc hr)) hapart
  · rcases List.mem_cons.1 hd with rfl | hd
    · exact he
    · rw [hafter d hd] at he
      cases he

/-- The last expression that covers an offset contains no other one. Where no two statements meet, all
others contain it. -/
theorem Neat.innermost {n r : Node} (h : n.Neat tokens) (hspaced : n.Spaced)
    (hr : (n.covering offset).getLast? = some r) :
    (∀ d ∈ r.walk.tail, d.isExpression = true → d.range.contains offset = false) ∧
      (¬ n.JoinsStatements offset → ∀ e ∈ n.covering offset, r ∈ e.walk) := by
  have hmem := List.mem_of_getLast? hr
  rw [covering_eq, List.getLast?_append] at hr
  cases hbelow : (n.children.flatMap (covering · offset)).getLast? with
  | none =>
      -- Nothing below the root covers the offset, so the root does.
      have hnone := List.flatMap_eq_nil_iff.1 (List.getLast?_eq_none_iff.1 hbelow)
      have hroot : ∀ e ∈ n.covering offset, e = n := by
        intro e he
        rcases eq_or_of_mem_covering he with he | ⟨c, hc, he⟩
        · exact he
        · rw [hnone c hc] at he
          cases he
      obtain rfl := hroot r hmem
      exact ⟨contains_eq_false_of_children hnone, fun _ e he => hroot e he ▸ mem_walk e⟩
  | some r' =>
      rw [hbelow, Option.some_or] at hr
      cases hr
      obtain ⟨before, c, after, hchildren, hlast, hafter⟩ := exists_of_getLast?_flatMap hbelow
      have hc : c ∈ n.children := by simp [hchildren]
      have hlt := length_walk_lt hc
      obtain ⟨hinner, hpath⟩ := ((neat_iff.1 h).2 c hc).innermost ((spaced_iff.1 hspaced).2 c hc) hlast
      refine ⟨hinner, fun hapart e he => ?_⟩
      rcases eq_or_of_mem_covering he with rfl | ⟨d, hd, he⟩
      · exact (mem_covering.1 hmem).1
      · have hin := h.mem_covering_last hspaced hapart hchildren hafter (List.mem_of_getLast? hlast) hd he
        refine hpath (fun hjoins => hapart (hjoins.of_mem_walk ?_)) e hin
        exact walk_subset_of_mem_children hc (mem_walk c)
termination_by n.walk.length

end Node

/-- Which expression is found at an offset: none if the first statement that covers the offset has no
expression that does; otherwise an expression of that statement that covers the offset and has none in it
that does. Unless the offset is where one statement of a script or a function ends and the next one starts,
the expressions of the script that cover the offset are the one found and those around it. -/
theorem innermost_of_parse {source : String} {file : Option String} {script : Node}
    (h : parse source file = .ok script) {offset : Int} {before after : List Node} {item : Node}
    (hbody : script.body = before ++ item :: after)
    (hbefore : ∀ s ∈ before, s.range.contains offset = false)
    (hitem : item.range.contains offset = true) :
    (script.expressionAt? offset = none ↔
      ∀ e ∈ item.walk, e.isExpression = true → e.range.contains offset = false) ∧
    ∀ r, script.expressionAt? offset = some r →
      r ∈ item.walk ∧ r.isExpression = true ∧ r.range.contains offset = true ∧
      (∀ d ∈ r.walk.tail, d.isExpression = true → d.range.contains offset = false) ∧
      (¬ script.JoinsStatements offset →
        ∀ e ∈ script.walk, e.isExpression = true → (e.range.contains offset = true ↔ r ∈ e.walk)) := by
  obtain ⟨m, body, rfl, -⟩ := exists_program (writable_of_parse h)
  change body = _ at hbody
  have hspaced := spaced_of_parse h
  obtain ⟨tokens, -, hneat | ⟨t, -, m', hempty, -⟩⟩ := neat_of_parse h
  swap
  · cases hempty
    cases before <;> cases hbody
  have hchildren : (Node.program m body).children = before ++ item :: after := hbody
  have hmem : item ∈ (Node.program m body).children := by simp [hchildren]
  have hitemNeat := (Node.neat_iff.1 hneat).2 item hmem
  have hfound : (Node.program m body).expressionAt? offset = (item.covering offset).getLast? := by
    have hstatement : (Node.program m body).statementAt? offset = some item := by
      change body.find? _ = _
      rw [hbody, List.find?_append, List.find?_eq_none.2 (by simpa using hbefore), Option.none_or,
        List.find?_cons_of_pos (p := fun s : Node => s.range.contains offset) hitem]
    rw [Node.expressionAt?, hstatement]
    rfl
  rw [hfound]
  refine ⟨?_, fun r hr => ?_⟩
  · rw [List.getLast?_eq_none_iff, Node.covering, List.filter_eq_nil_iff]
    simp
  · obtain ⟨hrwalk, hrexpression, hrcontains⟩ := Node.mem_covering.1 (List.mem_of_getLast? hr)
    obtain ⟨hinner, hpath⟩ := hitemNeat.innermost ((Node.spaced_iff.1 hspaced).2 item hmem) hr
    refine ⟨hrwalk, hrexpression, hrcontains, hinner, fun hapart e he hexpression => ⟨?_, fun hre => ?_⟩⟩
    · intro hcontains
      rw [Node.walk_eq_cons, List.mem_cons] at he
      rcases he with rfl | he
      · cases hexpression
      obtain ⟨d, hd, he⟩ := List.mem_flatMap.1 he
      have hdcontains := ((Node.neat_iff.1 hneat).2 d hd).contains_of_mem_walk he hcontains
      rw [hchildren] at hd
      rcases List.mem_append.1 hd with hd | hd
      · rw [hbefore d hd] at hdcontains
        cases hdcontains
      rcases List.mem_cons.1 hd with rfl | hd
      · refine hpath (fun hjoins => hapart (hjoins.of_mem_walk ?_)) e
          (Node.mem_covering.2 ⟨he, hexpression, hcontains⟩)
        exact Node.walk_subset_of_mem_children hmem (Node.mem_walk d)
      · -- A later statement that covers the offset meets the first one.
        obtain ⟨mid, rest, rfl⟩ := List.append_of_mem hd
        exact absurd (hneat.joinsStatements hspaced hchildren hitem hdcontains) hapart
    · exact (hneat.of_mem_walk he).contains_of_mem_walk hre hrcontains

/-- Inside the argument of a call, a name is found in the argument and the call. Behind the call two
statements meet. -/
theorem innermost_of_parse_argument :
    ∃ source script item after r, source = "f(-a)\"t\"" ∧ parse source none = .ok script ∧
      script.body = item :: after ∧ item.range.contains 3 = true ∧ ¬ script.JoinsStatements 3 ∧
      script.JoinsStatements 5 ∧ script.expressionAt? 3 = some r ∧ r.range = ⟨3, 4⟩ ∧
      ∀ e ∈ script.walk, e.isExpression = true → (e.range.contains 3 = true ↔ r ∈ e.walk) := by
  obtain ⟨source, hsource⟩ : ∃ source, source = "f(-a)\"t\"" := ⟨_, rfl⟩
  have hchecked : ((parse source none).toOption.any fun script =>
      decide (¬ script.JoinsStatements 3 ∧ script.JoinsStatements 5) &&
        (script.body.head?.any fun item => item.range.contains 3) &&
        (script.expressionAt? 3).any fun r => decide (r.range = ⟨3, 4⟩)) = true := by
    rw [hsource]
    decide +kernel
  obtain ⟨script, hscript, hchecked⟩ := exists_of_any_toOption hchecked
  obtain ⟨hchecked, hfound⟩ := Bool.and_eq_true_iff.1 hchecked
  obtain ⟨hjoins, hitem⟩ := Bool.and_eq_true_iff.1 hchecked
  obtain ⟨hapart, hmeet⟩ := of_decide_eq_true hjoins
  obtain ⟨item, hhead, hitem⟩ := (Option.any_eq_true _ _).1 hitem
  obtain ⟨r, hr, hrange⟩ := (Option.any_eq_true _ _).1 hfound
  obtain ⟨after, hbody⟩ := List.head?_eq_some_iff.1 hhead
  have hfront : script.body = [] ++ item :: after := hbody
  have hfirst := (innermost_of_parse hscript hfront (fun _ hs => absurd hs List.not_mem_nil)
    hitem).2 r hr
  exact ⟨source, script, item, after, r, hsource, hscript, hbody, hitem, hapart, hmeet, hr,
    of_decide_eq_true hrange, hfirst.2.2.2.2 hapart⟩

end PartScript
