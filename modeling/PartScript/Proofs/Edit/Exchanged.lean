import PartScript.Edit.Replace
import PartScript.Proofs.Edit.Placement
import PartScript.Proofs.Node.Ranges

/-!
One expression in the place of another. A replacement goes through the expressions of a script, which are all
but the names that are declared, called or labels, and stops looking at the first one that stands at its
range. A script that is read from a text has no other expression there, so it does not matter in which order
it looks.
-/

namespace PartScript

/-! ### Expressions of a tree -/

namespace Node

mutual

/-- The expressions of a tree, in the order in which an edit comes to them. The names of declarations,
parameters, callees and labels are not among them. -/
def expressions : Node → List Node
  | program _ ns => expressionsAll ns
  | declaration _ _ _ e | statement _ e | giveBack _ e | property _ _ e => expressions e
  | n@(literal _ _ _) | n@(identifier _) | n@(hole _) => [n]
  | n@(binary _ _ l r) => n :: (expressions l ++ expressions r)
  | n@(unary _ _ e) | n@(member _ e _) => n :: expressions e
  | n@(index _ e key) => n :: (expressions key ++ expressions e)
  | n@(call _ _ ns) | n@(array _ ns) | n@(object _ ns) | n@(pipe _ ns) | n@(function _ _ ns) =>
    n :: expressionsAll ns

/-- The expressions of trees in a row. -/
def expressionsAll : List Node → List Node
  | [] => []
  | n :: rest => expressions n ++ expressionsAll rest

end

mutual

/-- The second tree is the first one with one expression in the place of another, in one place. Everything
else is the same, with all marks. -/
inductive Exchanged (old new : Node) : Node → Node → Prop
  | here : Exchanged old new old new
  | program {m ns ns'} : ExchangedIn old new ns ns' → Exchanged old new (.program m ns) (.program m ns')
  | declaration {m word i e e'} : Exchanged old new e e' →
      Exchanged old new (.declaration m word i e) (.declaration m word i e')
  | statement {m e e'} : Exchanged old new e e' → Exchanged old new (.statement m e) (.statement m e')
  | giveBack {m e e'} : Exchanged old new e e' → Exchanged old new (.giveBack m e) (.giveBack m e')
  | left {m op l l' r} : Exchanged old new l l' → Exchanged old new (.binary m op l r) (.binary m op l' r)
  | right {m op l r r'} : Exchanged old new r r' → Exchanged old new (.binary m op l r) (.binary m op l r')
  | unary {m op e e'} : Exchanged old new e e' → Exchanged old new (.unary m op e) (.unary m op e')
  | call {m i ns ns'} : ExchangedIn old new ns ns' → Exchanged old new (.call m i ns) (.call m i ns')
  | array {m ns ns'} : ExchangedIn old new ns ns' → Exchanged old new (.array m ns) (.array m ns')
  | object {m ns ns'} : ExchangedIn old new ns ns' → Exchanged old new (.object m ns) (.object m ns')
  | property {m i e e'} : Exchanged old new e e' → Exchanged old new (.property m i e) (.property m i e')
  | member {m e e' i} : Exchanged old new e e' → Exchanged old new (.member m e i) (.member m e' i)
  | target {m e e' key} : Exchanged old new e e' → Exchanged old new (.index m e key) (.index m e' key)
  | key {m e key key'} : Exchanged old new key key' → Exchanged old new (.index m e key) (.index m e key')
  | pipe {m ns ns'} : ExchangedIn old new ns ns' → Exchanged old new (.pipe m ns) (.pipe m ns')
  | function {m params ns ns'} : ExchangedIn old new ns ns' →
      Exchanged old new (.function m params ns) (.function m params ns')

/-- In a row one tree has one expression in the place of another. -/
inductive ExchangedIn (old new : Node) : List Node → List Node → Prop
  | head {n n' rest} : Exchanged old new n n' → ExchangedIn old new (n :: rest) (n' :: rest)
  | tail {n rest rest'} : ExchangedIn old new rest rest' → ExchangedIn old new (n :: rest) (n :: rest')

end

mutual

theorem mem_walk_of_mem_expressions {e : Node} : (n : Node) → e ∈ n.expressions →
    e ∈ n.walk ∧ e.isExpression = true
  | .literal _ _ _, h | .identifier _, h | .hole _, h => by
      obtain rfl := List.mem_singleton.1 h
      exact ⟨mem_walk _, rfl⟩
  | .declaration _ _ _ e, h | .property _ _ e, h | .statement _ e, h | .giveBack _ e, h => by
      have he := mem_walk_of_mem_expressions e h
      exact ⟨by simp [walk, he.1], he.2⟩
  | .unary _ _ e, h | .member _ e _, h => by
      rcases List.mem_cons.1 h with rfl | h
      · exact ⟨mem_walk _, rfl⟩
      · have he := mem_walk_of_mem_expressions e h
        exact ⟨by simp [walk, he.1], he.2⟩
  | .binary _ _ l r, h | .index _ r l, h => by
      rcases List.mem_cons.1 h with rfl | h
      · exact ⟨mem_walk _, rfl⟩
      · rcases List.mem_append.1 h with h | h
        · have hl := mem_walk_of_mem_expressions l h
          exact ⟨by simp [walk, hl.1], hl.2⟩
        · have hr := mem_walk_of_mem_expressions r h
          exact ⟨by simp [walk, hr.1], hr.2⟩
  | .program _ ns, h => by
      have hns := mem_walkAll_of_mem_expressions ns h
      exact ⟨by simp [walk, hns.1], hns.2⟩
  | .call _ _ ns, h | .array _ ns, h | .object _ ns, h | .pipe _ ns, h | .function _ _ ns, h => by
      rcases List.mem_cons.1 h with rfl | h
      · exact ⟨mem_walk _, rfl⟩
      · have hns := mem_walkAll_of_mem_expressions ns h
        exact ⟨by simp [walk, hns.1], hns.2⟩

theorem mem_walkAll_of_mem_expressions {e : Node} : (ns : List Node) → e ∈ expressionsAll ns →
    e ∈ walkAll ns ∧ e.isExpression = true
  | n :: rest, h => by
      rcases List.mem_append.1 h with h | h
      · have hn := mem_walk_of_mem_expressions n h
        exact ⟨List.mem_append_left _ hn.1, hn.2⟩
      · have hrest := mem_walkAll_of_mem_expressions rest h
        exact ⟨List.mem_append_right _ hrest.1, hrest.2⟩

end

end Node

namespace Edit.Replacement

open Node (Exchanged ExchangedIn)

/-! ### Going through a tree -/

/-- There is an expression for the substitute, whatever the place. -/
def Accepted (r : Replacement) : Prop := ∀ span, ∃ new, r.substitute.expression span = .ok new

/-- What it means to go through a part with some expressions. Once the replacement is made nothing changes.
Before that nothing changes if none of the expressions stands at the range, and otherwise one that does is
exchanged. -/
structure Finds {α : Type} (r : Replacement) (es : List Node) (a : α) (exchanged : Node → Node → α → Prop)
    (x : Pass α) : Prop where
  idle : x.run true = .ok (a, true)
  miss : (∀ e ∈ es, e.range ≠ r.range) → x.run false = .ok (a, false)
  hit : (∃ e ∈ es, e.range = r.range) → ∃ old ∈ es, ∃ new a', old.range = r.range ∧
    r.substitute.expression old.span = .ok new ∧ exchanged old new a' ∧ x.run false = .ok (a', true)

section

variable {α β γ : Type} {r : Replacement} {es fs : List Node} {a : α} {b : β}
  {s : Node → Node → α → Prop} {t : Node → Node → β → Prop} {u : Node → Node → γ → Prop}

theorem finds_pure : Finds r [] a s (pure a) :=
  ⟨rfl, fun _ => rfl, fun ⟨_, h, _⟩ => absurd h List.not_mem_nil⟩

theorem Finds.map {x : Pass α} (h : Finds r es a s x) (f : α → β)
    (hf : ∀ old new a', s old new a' → t old new (f a')) :
    Finds r es (f a) t (x >>= fun a' => pure (f a')) where
  idle := by
    rw [StateT.run_bind, h.idle]
    rfl
  miss hes := by
    rw [StateT.run_bind, h.miss hes]
    rfl
  hit hes := by
    obtain ⟨old, hold, new, a', hrange, hnew, ha', hrun⟩ := h.hit hes
    refine ⟨old, hold, new, f a', hrange, hnew, hf old new a' ha', ?_⟩
    rw [StateT.run_bind, hrun]
    rfl

/-- Two parts one behind the other. -/
theorem Finds.pair {x : Pass α} {y : Pass β} (hx : Finds r es a s x) (hy : Finds r fs b t y) (f : α → β → γ)
    (hs : ∀ old new a', s old new a' → u old new (f a' b))
    (ht : ∀ old new b', t old new b' → u old new (f a b')) :
    Finds r (es ++ fs) (f a b) u (x >>= fun a' => y >>= fun b' => pure (f a' b')) where
  idle := by
    rw [StateT.run_bind, hx.idle, ok_bind, StateT.run_bind, hy.idle]
    rfl
  miss hes := by
    obtain ⟨hes, hfs⟩ := List.forall_mem_append.1 hes
    rw [StateT.run_bind, hx.miss hes, ok_bind, StateT.run_bind, hy.miss hfs]
    rfl
  hit hes := by
    by_cases hfirst : ∃ e ∈ es, e.range = r.range
    · obtain ⟨old, hold, new, a', hrange, hnew, ha', hrun⟩ := hx.hit hfirst
      refine ⟨old, List.mem_append_left _ hold, new, f a' b, hrange, hnew, hs old new a' ha', ?_⟩
      rw [StateT.run_bind, hrun, ok_bind, StateT.run_bind, hy.idle]
      rfl
    · have hmiss : ∀ e ∈ es, e.range ≠ r.range := fun e he hrange => hfirst ⟨e, he, hrange⟩
      obtain ⟨e, he, hrange⟩ := hes
      have he := (List.mem_append.1 he).resolve_left fun he => hmiss e he hrange
      obtain ⟨old, hold, new, b', hrange, hnew, hb', hrun⟩ := hy.hit ⟨e, he, hrange⟩
      refine ⟨old, List.mem_append_right _ hold, new, f a b', hrange, hnew, ht old new b' hb', ?_⟩
      rw [StateT.run_bind, hx.miss hmiss, ok_bind, StateT.run_bind, hrun]
      rfl

/-- Nothing is put in the place of an expression at another range. -/
theorem run_choice_of_ne {n : Node} (hn : n.range ≠ r.range) {x y : Pass Node} :
    StateT.run (do
      if !(← get) && n.range == r.range then
        set true
        x
      else y : Pass Node) false = y.run false := by
  show StateT.run (if !false && n.range == r.range then _ else y) false = _
  rw [beq_eq_false_iff_ne.2 hn]
  rfl

/-- An expression is exchanged, or one of those below it. -/
theorem Finds.choice (hput : r.Accepted) {n : Node} {y : Pass Node} (h : Finds r es n (Exchanged · · n) y) :
    Finds r (n :: es) n (Exchanged · · n) (do
      if !(← get) && n.range == r.range then
        set true
        r.substitute.expression n.span
      else y) where
  idle := h.idle
  miss hes := by
    obtain ⟨hn, hes⟩ := List.forall_mem_cons.1 hes
    rw [run_choice_of_ne hn]
    exact h.miss hes
  hit hes := by
    by_cases hn : n.range = r.range
    · obtain ⟨new, hnew⟩ := hput n.span
      refine ⟨n, List.mem_cons_self, new, new, hn, hnew, .here, ?_⟩
      show StateT.run (if !false && n.range == r.range then _ else y) false = _
      rw [beq_iff_eq.2 hn, hnew]
      rfl
    · obtain ⟨e, he, hrange⟩ := hes
      have he : e ∈ es := (List.mem_cons.1 he).resolve_left fun heq => hn (heq ▸ hrange)
      obtain ⟨old, hold, new, n', hrange, hnew, hn', hrun⟩ := h.hit ⟨e, he, hrange⟩
      refine ⟨old, List.mem_cons_of_mem n hold, new, n', hrange, hnew, hn', ?_⟩
      rw [run_choice_of_ne hn]
      exact hrun

end

section

variable {r : Replacement}

mutual

theorem finds_expression (hput : r.Accepted) : (n : Node) → placedExpression n = .ok () →
    Finds r n.expressions n (Exchanged · · n) (r.expression n)
  | .literal _ _ _, _ | .identifier _, _ | .hole _, _ => by
      rw [expression.eq_def]
      exact finds_pure.choice hput
  | .binary _ _ l e, h => by
      obtain ⟨_, hl, he⟩ := bind_eq_ok h
      rw [expression.eq_def]
      exact ((finds_expression hput l hl).pair (finds_expression hput e he) (Node.binary _ _)
        (fun _ _ _ => .left) fun _ _ _ => .right).choice hput
  | .index _ e key, h => by
      obtain ⟨_, hkey, he⟩ := bind_eq_ok h
      rw [expression.eq_def]
      exact ((finds_expression hput key hkey).pair (finds_expression hput e he)
        (fun key e => Node.index _ e key) (fun _ _ _ => .key) fun _ _ _ => .target).choice hput
  | .unary _ _ e, h => by
      rw [expression.eq_def]
      exact ((finds_expression hput e h).map (Node.unary _ _) fun _ _ _ => .unary).choice hput
  | .member _ e label, h => by
      rw [expression.eq_def]
      exact ((finds_expression hput e h).map (Node.member _ · label) fun _ _ _ => .member).choice hput
  | .call _ _ ns, h => by
      rw [expression.eq_def]
      exact ((finds_expressions hput ns h).map (Node.call _ _) fun _ _ _ => .call).choice hput
  | .array _ ns, h => by
      rw [expression.eq_def]
      exact ((finds_expressions hput ns h).map (Node.array _) fun _ _ _ => .array).choice hput
  | .pipe _ ns, h => by
      rw [expression.eq_def]
      exact ((finds_expressions hput ns h).map (Node.pipe _) fun _ _ _ => .pipe).choice hput
  | .object _ ps, h => by
      rw [expression.eq_def]
      exact ((finds_properties hput ps h).map (Node.object _) fun _ _ _ => .object).choice hput
  | .function _ _ body, h => by
      rw [expression.eq_def]
      exact ((finds_statements hput body h).map (Node.function _ _) fun _ _ _ => .function).choice hput

theorem finds_expressions (hput : r.Accepted) : (ns : List Node) → placedExpressions ns = .ok () →
    Finds r (Node.expressionsAll ns) ns (ExchangedIn · · ns) (r.expressions ns)
  | [], _ => finds_pure
  | n :: rest, h => by
      obtain ⟨_, hn, hrest⟩ := bind_eq_ok h
      exact (finds_expression hput n hn).pair (finds_expressions hput rest hrest) List.cons
        (fun _ _ _ => .head) fun _ _ _ => .tail

theorem finds_properties (hput : r.Accepted) : (ps : List Node) → placedProperties ps = .ok () →
    Finds r (Node.expressionsAll ps) ps (ExchangedIn · · ps) (r.properties ps)
  | [], _ => finds_pure
  | .property m key e :: rest, h => by
      obtain ⟨_, he, hrest⟩ := bind_eq_ok h
      exact (finds_expression hput e he).pair (finds_properties hput rest hrest)
        (fun e rest => Node.property m key e :: rest) (fun _ _ _ h => .head (.property h)) fun _ _ _ => .tail

theorem finds_statement (hput : r.Accepted) : (n : Node) → placedStatement n = .ok () →
    Finds r n.expressions n (Exchanged · · n) (r.statement n)
  | .declaration _ _ _ e, h =>
      (finds_expression hput e h).map (Node.declaration _ _ _) fun _ _ _ => .declaration
  | .statement _ e, h => (finds_expression hput e h).map (Node.statement _) fun _ _ _ => .statement
  | .giveBack _ e, h => (finds_expression hput e h).map (Node.giveBack _) fun _ _ _ => .giveBack

theorem finds_statements (hput : r.Accepted) : (ns : List Node) → placedStatements ns = .ok () →
    Finds r (Node.expressionsAll ns) ns (ExchangedIn · · ns) (r.statements ns)
  | [], _ => finds_pure
  | n :: rest, h => by
      obtain ⟨_, hn, hrest⟩ := bind_eq_ok h
      exact (finds_statement hput n hn).pair (finds_statements hput rest hrest) List.cons (fun _ _ _ => .head)
        fun _ _ _ => .tail

end

end

end Edit.Replacement

/-! ### Scripts -/

namespace Edit

/-- The expression for a substitute is the given one, or it is made for the given data. -/
theorem Substitute.expression_eq_ok {substitute : Substitute} {span : Span} {new : Node}
    (h : substitute.expression span = .ok new) :
    (∀ n, substitute = .node n → new = n) ∧
      ∀ item, substitute = .data item → valueExpression span item = .ok new := by
  cases substitute with
  | data item => exact ⟨nofun, fun _ heq => by cases heq; exact h⟩
  | node n =>
      refine ⟨fun k heq => ?_, nofun⟩
      cases heq
      rw [expression] at h
      split at h
      · obtain ⟨_, -, h⟩ := bind_eq_ok h
        exact (Except.ok.inj h).symm
      · cases h

/-- What is at the range of an expression of a script is that expression alone. -/
theorem filter_range_eq {source : String} {file : Option String} {script old : Node}
    (hscript : parse source file = .ok script) (hold : old ∈ script.expressions) :
    script.walk.filter (fun e => e.range == old.range && e.isExpression) = [old] := by
  obtain ⟨-, -, -, -, hnodup⟩ := ranges_of_parse hscript
  obtain ⟨hwalk, hexpression⟩ := Node.mem_walk_of_mem_expressions script hold
  obtain ⟨front, back, hsplit⟩ := List.append_of_mem (List.mem_filter.2 ⟨hwalk, hexpression⟩)
  rw [← List.filter_filter, hsplit]
  rw [hsplit, List.map_append, List.map_cons, List.nodup_append, List.nodup_cons] at hnodup
  obtain ⟨-, ⟨hback, -⟩, hfront⟩ := hnodup
  have hothers (ns : List Node) (h : ∀ e ∈ ns, e.range ≠ old.range) :
      ns.filter (fun e => e.range == old.range) = [] :=
    List.filter_eq_nil_iff.2 fun e he => by simp [h e he]
  rw [List.filter_append, List.filter_cons, hothers front, hothers back]
  · simp
  · exact fun e he heq => hback (heq ▸ List.mem_map_of_mem he)
  · exact fun e he => hfront _ (List.mem_map_of_mem he) _ List.mem_cons_self

/-- A replacement changes one place. Let a script be read from a text, and let there be an expression for what
is to be put there. The replacement succeeds if and only if an expression stands at the range that is no name
of a declaration, parameter, callee or label. There is no other expression at the range then, and the result is
the script with the new expression in the place of that one and new paths: the given expression itself, or the
one that is made for the given data with the span of the old one. Everything else is the same, with all spans.
Otherwise the fault is that there is no expression at the range. -/
theorem replace_exchanges {source : String} {file : Option String} {script : Node}
    (hscript : parse source file = .ok script) {r : Replacement} (hput : r.Accepted) :
    ((∃ p, replace r script = .ok p) ↔ ∃ e ∈ script.expressions, e.range = r.range) ∧
      (∀ old ∈ script.expressions, old.range = r.range →
        script.walk.filter (fun e => e.range == r.range && e.isExpression) = [old] ∧
        ∃ new exchanged, (∀ n, r.substitute = .node n → new = n) ∧
          (∀ item, r.substitute = .data item → valueExpression old.span item = .ok new) ∧
          Node.Exchanged old new script exchanged ∧ replace r script = .ok exchanged.withPaths) ∧
      ((∀ e ∈ script.expressions, e.range ≠ r.range) →
        replace r script = .error (.noExpressionAt r.range)) := by
  obtain ⟨m, body, rfl, hbody⟩ := exists_program (writable_of_parse hscript)
  have hfinds := Replacement.finds_statements hput body (placedStatements_of_writable _ body hbody)
  have hmiss (h : ∀ e ∈ (Node.program m body).expressions, e.range ≠ r.range) :
      replace r (.program m body) = .error (.noExpressionAt r.range) := by
    rw [replace, hfinds.miss h]
    rfl
  have hhit (old : Node) (hold : old ∈ (Node.program m body).expressions) (hrange : old.range = r.range) :
      ∃ new body', r.substitute.expression old.span = .ok new ∧ Node.ExchangedIn old new body body' ∧
        replace r (.program m body) = .ok (Node.program m body').withPaths := by
    obtain ⟨other, hother, new, body', hsame, hnew, hbody', hrun⟩ := hfinds.hit ⟨old, hold, hrange⟩
    -- The pass may meet another expression first, but there is none.
    have honly := filter_range_eq hscript hold
    obtain ⟨hwalk, hexpression⟩ := Node.mem_walk_of_mem_expressions (.program m body) hother
    have hmem : other ∈ (Node.program m body).walk.filter (fun e => e.range == old.range && e.isExpression) :=
      List.mem_filter.2 ⟨hwalk, by simp [hsame, hrange, hexpression]⟩
    rw [honly] at hmem
    obtain rfl := List.mem_singleton.1 hmem
    refine ⟨new, body', hnew, hbody', ?_⟩
    rw [replace, hrun]
    rfl
  refine ⟨⟨fun ⟨p, hp⟩ => ?_, fun ⟨old, hold, hrange⟩ => ?_⟩, fun old hold hrange => ?_, hmiss⟩
  · by_contra hnone
    rw [hmiss fun e he hrange => hnone ⟨e, he, hrange⟩] at hp
    cases hp
  · obtain ⟨new, body', -, -, hreplace⟩ := hhit old hold hrange
    exact ⟨_, hreplace⟩
  · obtain ⟨new, body', hnew, hbody', hreplace⟩ := hhit old hold hrange
    obtain ⟨hnode, hdata⟩ := Substitute.expression_eq_ok hnew
    exact ⟨hrange ▸ filter_range_eq hscript hold, new, _, hnode, hdata, .program hbody', hreplace⟩

/-- An argument is exchanged for a list in which it stands itself, twice and with its range. No expression
stands at the range of the callee. -/
theorem replace_exchanges_argument :
    ∃ source script old p, source = "const a = f(3)\nshow(a)" ∧ parse source none = .ok script ∧
      old ∈ script.expressions ∧ old.range = ⟨12, 13⟩ ∧
      Replacement.Accepted ⟨⟨12, 13⟩, .node (.array .blank [old, old])⟩ ∧
      replace ⟨⟨12, 13⟩, .node (.array .blank [old, old])⟩ script = .ok p ∧
      p.print .standard = .ok "const a = f([3, 3])\nshow(a)\n" ∧
      (∃ exchanged, Node.Exchanged old (.array .blank [old, old]) script exchanged ∧
        p = exchanged.withPaths) ∧
      Replacement.Accepted ⟨⟨10, 11⟩, .data (.bool true)⟩ ∧
      replace ⟨⟨10, 11⟩, .data (.bool true)⟩ script = .error (.noExpressionAt ⟨10, 11⟩) := by
  obtain ⟨source, hsource⟩ : ∃ source, source = "const a = f(3)\nshow(a)" := ⟨_, rfl⟩
  have hchecked : ((parse source none).toOption.any fun script =>
      decide (∀ e ∈ script.expressions, e.range ≠ ⟨10, 11⟩) &&
      script.expressions.any fun old => decide (old.range = ⟨12, 13⟩) &&
        ((placedExpression old).toOption.any fun _ => true) &&
        (replace ⟨⟨12, 13⟩, .node (.array .blank [old, old])⟩ script).toOption.any fun p =>
          (p.print .standard).toOption.any (· == "const a = f([3, 3])\nshow(a)\n")) = true := by
    rw [hsource]
    decide +kernel
  obtain ⟨script, hscript, hchecked⟩ := exists_of_any_toOption hchecked
  obtain ⟨hcallee, hchecked⟩ := Bool.and_eq_true_iff.1 hchecked
  obtain ⟨old, hold, hchecked⟩ := List.any_eq_true.1 hchecked
  simp only [Bool.and_eq_true] at hchecked
  obtain ⟨⟨hrange, hplaced⟩, hchecked⟩ := hchecked
  have hrange : old.range = ⟨12, 13⟩ := of_decide_eq_true hrange
  obtain ⟨_, hplaced, -⟩ := exists_of_any_toOption hplaced
  obtain ⟨p, hreplace, hchecked⟩ := exists_of_any_toOption hchecked
  obtain ⟨text, hprint, htext⟩ := exists_of_any_toOption hchecked
  obtain rfl := eq_of_beq htext
  have hlist : placedExpression (.array .blank [old, old]) = .ok () := by
    rw [placedExpression, placedExpressions, placedExpressions, hplaced]
    rfl
  have hput : Replacement.Accepted ⟨⟨12, 13⟩, .node (.array .blank [old, old])⟩ := by
    refine fun span => ⟨.array .blank [old, old], ?_⟩
    simp only [Substitute.expression, Node.isExpression, if_true, hlist]
    rfl
  have hput' : Replacement.Accepted ⟨⟨10, 11⟩, .data (.bool true)⟩ := fun span => ⟨_, rfl⟩
  obtain ⟨-, new, exchanged, hnode, -, hexchanged, hreplace'⟩ :=
    (replace_exchanges hscript hput).2.1 old hold hrange
  obtain rfl := hnode _ rfl
  obtain rfl : exchanged.withPaths = p := Except.ok.inj (hreplace'.symm.trans hreplace)
  exact ⟨source, script, old, exchanged.withPaths, hsource, hscript, hold, hrange, hput, hreplace, hprint,
    ⟨exchanged, hexchanged, rfl⟩, hput',
    (replace_exchanges hscript hput').2.2 (of_decide_eq_true hcallee)⟩

end Edit

end PartScript
