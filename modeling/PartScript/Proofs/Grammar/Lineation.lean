import PartScript.Proofs.Node.Accepted
import PartScript.Proofs.Node.Paths

/-!
Layout matters for lines only. A text may be laid out in any way between its tokens: what is read from it
depends on the kinds and lexemes of its tokens and, for an opening parenthesis or bracket, on whether it
stands on the line where the token before it ends. Two texts that do not differ in these are read as the
same tree, with the same paths, or refused for the same cause.

The readers are run side by side on two lists of tokens. What they have read ends where the token before the
rest ends, in both runs, and this is all that is known about places.
-/

namespace PartScript

namespace Parser

/-! ### Two lists of tokens -/

/-- An opening symbol, which goes on with what is before it on the same line. -/
def IsOpening (kind : TokenKind) : Prop :=
  kind = .symbol .lparen ∨ kind = .symbol .lbracket

/-- Two lists of tokens, each behind a token that ends at a position, that differ in places only. An opening
symbol stands on the line where the token before it ends in both lists or in none of them. -/
inductive InStep : Position → Position → List Token → List Token → Prop
  | nil {p q} : InStep p q [] []
  | cons {p q kind lexeme s t ts us} :
      (IsOpening kind → (p.line = s.start.line ↔ q.line = t.start.line)) →
      InStep s.stop t.stop ts us → InStep p q (⟨kind, lexeme, s⟩ :: ts) (⟨kind, lexeme, t⟩ :: us)

theorem InStep.length_eq {p q : Position} {ts us : List Token} (h : InStep p q ts us) :
    ts.length = us.length := by
  induction h with
  | nil => rfl
  | cons _ _ ih => rw [List.length_cons, List.length_cons, ih]

theorem InStep.symm {p q : Position} {ts us : List Token} (h : InStep p q ts us) :
    InStep q p us ts := by
  induction h with
  | nil => exact .nil
  | cons hline _ ih => exact .cons (fun hopening => (hline hopening).symm) ih

/-! ### Two readings -/

/-- Both succeed with related results, or something is wrong in both for the same cause. -/
inductive Matches {α β : Type} (r : α → β → Prop) : Except Wrong α → Except Wrong β → Prop
  | ok {a b} (h : r a b) : Matches r (.ok a) (.ok b)
  | error {w v : Wrong} (h : w.cause = v.cause) : Matches r (.error w) (.error v)

theorem Matches.bind {α β γ δ : Type} {r : α → β → Prop} {q : γ → δ → Prop} {x : Except Wrong α}
    {y : Except Wrong β} {f : α → Except Wrong γ} {g : β → Except Wrong δ} (h : Matches r x y)
    (hf : ∀ a b, r a b → Matches q (f a) (g b)) : Matches q (x >>= f) (y >>= g) := by
  cases h with
  | ok h => exact hf _ _ h
  | error h => exact .error h

/-- Two readers, run on tokens that differ in places only, read things that are alike, and what they read ends
where the token before the rest ends. -/
def Tandem {α : Type} (alike : α → α → Prop) (stop : α → Position) (read read' : Reader α) : Prop :=
  ∀ p q ts us, InStep p q ts us →
    Matches (fun a b => alike a.1 b.1 ∧ InStep (stop a.1) (stop b.1) a.2 b.2) (read ts) (read' us)

/-- Nodes are alike without their marks. -/
abbrev NodesTandem (read read' : Reader Node) : Prop :=
  Tandem (fun e e' => e.bare = e'.bare) (·.span.stop) read read'

/-- Rows of nodes end with a token behind them. -/
abbrev RowsTandem (read read' : Reader (List Node × Token)) : Prop :=
  Tandem (fun row row' => row.1.map Node.bare = row'.1.map Node.bare) (·.2.span.stop) read read'

theorem Matches.ite {α β : Type} {r : α → β → Prop} {c : Prop} [Decidable c] {x x' : Except Wrong α}
    {y y' : Except Wrong β} (h : c → Matches r x y) (h' : ¬ c → Matches r x' y') :
    Matches r (if c then x else x') (if c then y else y') := by
  split
  · exact h ‹_›
  · exact h' ‹_›

theorem wanted_matches {α : Type} {r : α → α → Prop} (expected : Expectation) {p q : Position}
    {ts us : List Token} (h : InStep p q ts us) :
    Matches r (.error (wanted expected ts)) (.error (wanted expected us)) := by
  cases h with
  | nil => exact .error rfl
  | cons => exact .error rfl

theorem takeSymbol_tandem (mark : Symbol) :
    Tandem (fun _ _ => True) (·.span.stop) (takeSymbol mark) (takeSymbol mark) := by
  intro p q ts us h
  cases h with
  | nil => exact .error rfl
  | cons _ hrest => exact .ite (fun _ => .ok ⟨trivial, hrest⟩) fun _ => .error rfl

theorem takeName_tandem (expected : Expectation) :
    Tandem (fun i j => i.bare = j.bare) (·.span.stop) (takeName expected) (takeName expected) := by
  intro p q ts us h
  cases h with
  | nil => exact .error rfl
  | @cons _ _ kind _ _ _ _ _ _ hrest =>
      cases kind with
      | identifier name => exact .ok ⟨rfl, hrest⟩
      | _ => exact .error rfl

/-- A symbol comes next in both lists or in none. -/
theorem InStep.next {p q : Position} {ts us : List Token} (h : InStep p q ts us) (mark : Symbol) :
    (ts.head?.filter (·.isSymbol mark) = none ∧ us.head?.filter (·.isSymbol mark) = none) ∨
      ∃ t u, ts.head?.filter (·.isSymbol mark) = some t ∧
        us.head?.filter (·.isSymbol mark) = some u ∧
        InStep t.span.stop u.span.stop (ts.drop 1) (us.drop 1) := by
  cases h with
  | nil => exact .inl ⟨rfl, rfl⟩
  | @cons _ _ kind _ _ _ _ _ _ hrest =>
      by_cases hkind : kind = .symbol mark
      · subst hkind
        exact .inr ⟨_, _, Option.filter_eq_some_iff.2 ⟨rfl, beq_self_eq_true _⟩,
          Option.filter_eq_some_iff.2 ⟨rfl, beq_self_eq_true _⟩, hrest⟩
      · exact .inl ⟨by simp [Token.isSymbol, hkind], by simp [Token.isSymbol, hkind]⟩

section

variable {item : Reader Node}

theorem items_tandem (closing : Symbol) (hitem : NodesTandem item item) (fuel : Nat) :
    RowsTandem (items closing item fuel) (items closing item fuel) := by
  induction fuel with
  | zero => exact fun p q ts us h => wanted_matches _ h
  | succ fuel ih =>
      intro p q ts us h
      rcases h.next closing with ⟨hts, hus⟩ | ⟨t, u, hts, hus, hrest⟩
      · simp only [items, hts, hus]
        refine (hitem p q ts us h).bind ?_
        rintro ⟨first, rest⟩ ⟨first', rest'⟩ ⟨hfirst, hrest⟩
        cases hrest with
        | nil => exact .error rfl
        | cons _ hafter =>
            refine .ite (fun _ => ?_) fun _ => .ite (fun _ => ?_) fun _ => .error rfl
            · refine (ih _ _ _ _ hafter).bind ?_
              rintro ⟨⟨more, last⟩, rest⟩ ⟨⟨more', last'⟩, rest'⟩ ⟨hmore, hrest⟩
              exact .ok ⟨by simp only [List.map_cons, hfirst, hmore], hrest⟩
            · exact .ok ⟨congrArg (fun e => [e]) hfirst, hafter⟩
      · simp only [items, hts, hus]
        exact .ok ⟨rfl, hrest⟩

theorem block_tandem (hitem : NodesTandem item item) (fuel : Nat) :
    RowsTandem (block item fuel) (block item fuel) := by
  induction fuel with
  | zero => exact fun p q ts us h => wanted_matches _ h
  | succ fuel ih =>
      intro p q ts us h
      cases h with
      | nil => exact .error rfl
      | cons hline hrest =>
          refine .ite (fun _ => .ok ⟨rfl, hrest⟩) fun _ => ?_
          refine (hitem p q _ _ (.cons hline hrest)).bind ?_
          rintro ⟨first, rest⟩ ⟨first', rest'⟩ ⟨hfirst, hrest⟩
          refine (ih _ _ _ _ hrest).bind ?_
          rintro ⟨⟨more, last⟩, rest⟩ ⟨⟨more', last'⟩, rest'⟩ ⟨hmore, hrest⟩
          exact .ok ⟨by simp only [List.map_cons, hfirst, hmore], hrest⟩

end

/-- If the head of a function comes next in one list then it does in the other. -/
theorem exists_head_of_inStep {ts rest : List Token} {params : List Ident}
    (h : Grammar.Head ts params rest) {p q : Position} {us : List Token} (hus : InStep p q ts us) :
    ∃ params' rest' p' q', Grammar.Head us params' rest' ∧
      params.map Ident.bare = params'.map Ident.bare ∧ InStep p' q' rest rest' := by
  induction h generalizing p q us with
  | nil ht hu =>
      obtain - | ⟨_, - | ⟨_, hrest⟩⟩ := hus
      exact ⟨_, _, _, _, .nil ht hu, rfl, hrest⟩
  | last ht hu hv =>
      obtain - | ⟨_, - | ⟨_, - | ⟨_, hrest⟩⟩⟩ := hus
      exact ⟨_, _, _, _, .last ht hu hv, rfl, hrest⟩
  | more ht hu _ ih =>
      obtain - | ⟨_, - | ⟨_, hrest⟩⟩ := hus
      obtain ⟨params', rest', p', q', hhead, hparams, hrest⟩ := ih hrest
      exact ⟨_, _, p', q', .more ht hu hhead, congrArg (List.cons _) hparams, hrest⟩

/-- The head of a function comes next in both lists or in none. -/
theorem functionHead?_inStep {p q : Position} {ts us : List Token} (h : InStep p q ts us) :
    (functionHead? ts = none ∧ functionHead? us = none) ∨
      ∃ params rest params' rest' p' q', functionHead? ts = some (params, rest) ∧
        functionHead? us = some (params', rest') ∧
        params.map Ident.bare = params'.map Ident.bare ∧ InStep p' q' rest rest' := by
  cases hts : functionHead? ts with
  | some head =>
      obtain ⟨params', rest', p', q', hhead, hparams, hrest⟩ :=
        exists_head_of_inStep (Grammar.functionHead?_eq_some_iff.1 hts) h
      exact .inr ⟨_, _, params', rest', p', q', rfl, Grammar.functionHead?_eq_some_iff.2 hhead,
        hparams, hrest⟩
  | none =>
      cases hus : functionHead? us with
      | none => exact .inl ⟨rfl, rfl⟩
      | some head =>
          obtain ⟨params', rest', -, -, hhead, -, -⟩ :=
            exists_head_of_inStep (Grammar.functionHead?_eq_some_iff.1 hus) h.symm
          rw [Grammar.functionHead?_eq_some_iff.2 hhead] at hts
          cases hts

/-! ### Operators -/

section

variable {operand : Reader Node}

/-- Does a test of a token look at its kind only? -/
def KindOnly {α : Type} (f : Token → α) : Prop :=
  ∀ kind lexeme s t, f ⟨kind, lexeme, s⟩ = f ⟨kind, lexeme, t⟩

theorem chain_tandem {operator? : Token → Option BinaryOp} (hoperator : KindOnly operator?)
    (hoperand : NodesTandem operand operand) (fuel : Nat) {left left' : Node}
    (hleft : left.bare = left'.bare) {ts us : List Token}
    (h : InStep left.span.stop left'.span.stop ts us) :
    Matches (fun a b => a.1.bare = b.1.bare ∧ InStep a.1.span.stop b.1.span.stop a.2 b.2)
      (chain operator? operand fuel left ts) (chain operator? operand fuel left' us) := by
  induction fuel generalizing left left' ts us with
  | zero => exact .ok ⟨hleft, h⟩
  | succ fuel ih =>
      cases h with
      | nil => exact .ok ⟨hleft, .nil⟩
      | @cons _ _ kind lexeme s t _ _ hline hrest =>
          simp only [chain, hoperator kind lexeme t s]
          cases operator? ⟨kind, lexeme, s⟩ with
          | none => exact .ok ⟨hleft, .cons hline hrest⟩
          | some op =>
              refine (hoperand _ _ _ _ hrest).bind ?_
              rintro ⟨right, rest⟩ ⟨right', rest'⟩ ⟨hright, hrest⟩
              exact ih (by simp only [Node.bare, hleft, hright]) hrest

theorem leftGrouped_tandem {operator? : Token → Option BinaryOp} (hoperator : KindOnly operator?)
    (hoperand : NodesTandem operand operand) :
    NodesTandem (leftGrouped operator? operand) (leftGrouped operator? operand) := by
  intro p q ts us h
  refine (hoperand p q ts us h).bind ?_
  rintro ⟨left, rest⟩ ⟨left', rest'⟩ ⟨hleft, hrest⟩
  dsimp only
  rw [hrest.length_eq]
  exact chain_tandem hoperator hoperand _ hleft hrest

theorem sum_tandem (hoperand : NodesTandem operand operand) :
    NodesTandem (sum operand) (sum operand) :=
  leftGrouped_tandem (fun _ _ _ _ => rfl) (leftGrouped_tandem (fun _ _ _ _ => rfl) hoperand)

theorem isCall_of_bare_eq {e e' : Node} (h : e.bare = e'.bare) : e.isCall = e'.isCall := by
  have hbare : ∀ n : Node, n.bare.isCall = n.isCall := fun n => by cases n <;> rfl
  rw [← hbare e, h, hbare]

/-- A pipe ends where its last stage does. -/
theorem stop_joinStages_cons (first next : Node) (more : List Node) :
    (joinStages first (next :: more)).span.stop = (joinStages next more).span.stop := by
  cases more with
  | nil => rfl
  | cons e more =>
      rw [joinStages, joinStages, List.getLast?_cons_cons]
      cases hlast : (e :: more).getLast? with
      | none => exact absurd hlast (by simp)
      | some last => rfl

theorem stages_tandem (hstage : NodesTandem operand operand) (fuel : Nat) {first first' : Node}
    {ts us : List Token} (h : InStep first.span.stop first'.span.stop ts us) :
    Matches
      (fun a b => a.1.map Node.bare = b.1.map Node.bare ∧
        InStep (joinStages first a.1).span.stop (joinStages first' b.1).span.stop a.2 b.2)
      (stages operand fuel ts) (stages operand fuel us) := by
  induction fuel generalizing first first' ts us with
  | zero => exact .ok ⟨rfl, h⟩
  | succ fuel ih =>
      cases h with
      | nil => exact .ok ⟨rfl, .nil⟩
      | cons hline hrest =>
          refine .ite (fun _ => ?_) fun _ => .ok ⟨rfl, .cons hline hrest⟩
          refine (hstage _ _ _ _ hrest).bind ?_
          rintro ⟨next, rest⟩ ⟨next', rest'⟩ ⟨hnext, hrest⟩
          dsimp only
          rw [isCall_of_bare_eq hnext]
          refine .ite (fun _ => ?_) fun _ => .error rfl
          refine (ih hrest).bind ?_
          rintro ⟨more, rest⟩ ⟨more', rest'⟩ ⟨hmore, hrest⟩
          refine .ok ⟨by simp only [List.map_cons, hnext, hmore], ?_⟩
          rw [stop_joinStages_cons, stop_joinStages_cons]
          exact hrest

end

theorem bare_joinStages {first first' : Node} {more more' : List Node}
    (hfirst : first.bare = first'.bare) (hmore : more.map Node.bare = more'.map Node.bare) :
    (joinStages first more).bare = (joinStages first' more').bare := by
  have hlast := congrArg List.getLast? hmore
  rw [List.getLast?_map, List.getLast?_map] at hlast
  unfold joinStages
  split
  · rename_i hnone
    rw [hnone, Option.map_none, eq_comm, Option.map_eq_none_iff] at hlast
    rw [hlast]
    exact hfirst
  · rename_i last hsome
    rw [hsome, Option.map_some, eq_comm, Option.map_eq_some_iff] at hlast
    obtain ⟨last', hsome', -⟩ := hlast
    simp only [hsome', Node.bare, Node.bareAll_eq_map, List.map_cons, hfirst, hmore]

theorem pipeline_tandem {operand : Rule} (hoperand : ∀ s, NodesTandem (operand s) (operand s))
    (s : Setting) : NodesTandem (pipeline operand s) (pipeline operand s) := by
  intro p q ts us h
  refine (sum_tandem (hoperand s) p q ts us h).bind ?_
  rintro ⟨first, rest⟩ ⟨first', rest'⟩ ⟨hfirst, hrest⟩
  dsimp only
  rw [hrest.length_eq]
  refine (stages_tandem (sum_tandem (hoperand _)) _ hrest).bind ?_
  rintro ⟨more, rest⟩ ⟨more', rest'⟩ ⟨hmore, hrest⟩
  exact .ok ⟨bare_joinStages hfirst hmore, hrest⟩

/-! ### Calls, members and atoms -/

theorem exists_identifier_of_bare_eq {i : Ident} {e : Node} (h : (Node.identifier i).bare = e.bare) :
    ∃ j, e = .identifier j ∧ i.bare = j.bare := by
  cases e with
  | identifier j => exact ⟨j, rfl, Node.identifier.inj h⟩
  | _ => cases h

/-- An opening symbol stands on the line of the expression before it in both texts or in none. -/
theorem onSameLine_eq {e e' : Node} {kind : TokenKind} {lexeme : String} {s t : Span}
    (h : IsOpening kind →
      (e.span.stop.line = s.start.line ↔ e'.span.stop.line = t.start.line)) (mark : Symbol)
    (hmark : IsOpening (.symbol mark)) :
    (Token.isSymbol ⟨kind, lexeme, s⟩ mark && onSameLine e ⟨kind, lexeme, s⟩) =
      (Token.isSymbol ⟨kind, lexeme, t⟩ mark && onSameLine e' ⟨kind, lexeme, t⟩) := by
  show (kind == .symbol mark && _) = (kind == .symbol mark && _)
  rw [Bool.eq_iff_iff, Bool.and_eq_true, Bool.and_eq_true, beq_iff_eq]
  refine and_congr_right fun hkind => ?_
  rw [onSameLine, onSameLine, beq_iff_eq, beq_iff_eq]
  exact h (hkind ▸ hmark)

section

variable {expression : Reader Node}

theorem suffixes_tandem (hexpression : NodesTandem expression expression) (fuel : Nat)
    {e e' : Node} (he : e.bare = e'.bare) {ts us : List Token}
    (h : InStep e.span.stop e'.span.stop ts us) :
    Matches (fun a b => a.1.bare = b.1.bare ∧ InStep a.1.span.stop b.1.span.stop a.2 b.2)
      (suffixes expression fuel e ts) (suffixes expression fuel e' us) := by
  induction fuel generalizing e e' ts us with
  | zero => exact .ok ⟨he, h⟩
  | succ fuel ih =>
      cases h with
      | nil => exact .ok ⟨he, .nil⟩
      | @cons _ _ kind lexeme s t _ _ hline hrest =>
          unfold suffixes
          rw [onSameLine_eq hline .lbracket (.inr rfl), onSameLine_eq hline .lparen (.inl rfl)]
          refine .ite (fun _ => ?_) fun _ => .ite (fun _ => ?_) fun _ => .ite (fun _ => ?_) fun _ => ?_
          · refine (takeName_tandem _ _ _ _ _ hrest).bind ?_
            rintro ⟨label, rest⟩ ⟨label', rest'⟩ ⟨hlabel, hrest⟩
            exact ih (by simp only [Node.bare, he, hlabel]) hrest
          · refine (hexpression _ _ _ _ hrest).bind ?_
            rintro ⟨key, rest⟩ ⟨key', rest'⟩ ⟨hkey, hrest⟩
            refine (takeSymbol_tandem _ _ _ _ _ hrest).bind ?_
            rintro ⟨closing, rest⟩ ⟨closing', rest'⟩ ⟨-, hrest⟩
            exact ih (by simp only [Node.bare, he, hkey]) hrest
          · rw [hrest.length_eq]
            split
            · rename_i callee
              obtain ⟨callee', rfl, hcallee⟩ := exists_identifier_of_bare_eq he
              refine (items_tandem _ hexpression _ _ _ _ _ hrest).bind ?_
              rintro ⟨⟨args, closing⟩, rest⟩ ⟨⟨args', closing'⟩, rest'⟩ ⟨hargs, hrest⟩
              exact ih (by simp only [Node.bare, Node.bareAll_eq_map, hcallee, hargs]) hrest
            · rename_i hother
              split
              · obtain ⟨callee, heq, -⟩ := exists_identifier_of_bare_eq he.symm
                exact absurd heq (hother callee)
              · exact .error rfl
          · exact .ok ⟨he, .cons hline hrest⟩

theorem property_tandem (hexpression : NodesTandem expression expression) :
    NodesTandem (property expression) (property expression) := by
  intro p q ts us h
  refine (takeName_tandem _ p q ts us h).bind ?_
  rintro ⟨key, rest⟩ ⟨key', rest'⟩ ⟨hkey, hrest⟩
  refine (takeSymbol_tandem _ _ _ _ _ hrest).bind ?_
  rintro ⟨_, rest⟩ ⟨_, rest'⟩ ⟨-, hrest⟩
  refine (hexpression _ _ _ _ hrest).bind ?_
  rintro ⟨value, rest⟩ ⟨value', rest'⟩ ⟨hvalue, hrest⟩
  exact .ok ⟨by simp only [Node.bare, hkey, hvalue], hrest⟩

end

/-- The readers for what is nested read things that are alike. -/
structure Inner.Tandem (inner : Inner) : Prop where
  operand (s : Setting) : NodesTandem (inner.operand s) (inner.operand s)
  expression (s : Setting) : NodesTandem (inner.expression s) (inner.expression s)
  statement (s : Setting) : NodesTandem (inner.statement s) (inner.statement s)

section

variable {inner : Inner}

theorem functionBody_tandem (hinner : inner.Tandem) (opening opening' : Token)
    {params params' : List Ident} (hparams : params.map Ident.bare = params'.map Ident.bare) :
    NodesTandem (functionBody inner opening params) (functionBody inner opening' params') := by
  intro p q ts us h
  refine (takeSymbol_tandem _ p q ts us h).bind ?_
  rintro ⟨_, rest⟩ ⟨_, rest'⟩ ⟨-, hrest⟩
  dsimp only
  rw [hrest.length_eq]
  refine (block_tandem (hinner.statement _) _ _ _ _ _ hrest).bind ?_
  rintro ⟨⟨body, closing⟩, rest⟩ ⟨⟨body', closing'⟩, rest'⟩ ⟨hbody, hrest⟩
  exact .ok ⟨by simp only [Node.bare, Node.bareAll_eq_map, hparams, hbody], hrest⟩

theorem atom_tandem (hinner : inner.Tandem) (s : Setting) :
    NodesTandem (atom inner s) (atom inner s) := by
  intro p q ts us h
  cases h with
  | nil => exact .error rfl
  | @cons _ _ kind lexeme place place' ts us _ hrest =>
      cases kind with
      | number | string | identifier => exact .ok ⟨rfl, hrest⟩
      | finish => exact .error rfl
      | keyword word =>
          cases word with
          | trueWord | falseWord => exact .ok ⟨rfl, hrest⟩
          | _ => exact .error rfl
      | symbol mark =>
          cases mark with
          | percent => exact .ite (fun _ => .ok ⟨rfl, hrest⟩) fun _ => .error rfl
          | lbracket =>
              dsimp only [atom]
              rw [hrest.length_eq]
              refine (items_tandem _ (hinner.expression s) _ _ _ _ _ hrest).bind ?_
              rintro ⟨⟨elements, closing⟩, rest⟩ ⟨⟨elements', closing'⟩, rest'⟩ ⟨helements, hrest⟩
              exact .ok ⟨by simp only [Node.bare, Node.bareAll_eq_map, helements], hrest⟩
          | lbrace =>
              dsimp only [atom]
              rw [hrest.length_eq]
              refine (items_tandem _ (property_tandem (hinner.expression s)) _ _ _ _ _ hrest).bind ?_
              rintro ⟨⟨entries, closing⟩, rest⟩ ⟨⟨entries', closing'⟩, rest'⟩ ⟨hentries, hrest⟩
              exact .ok ⟨by simp only [Node.bare, Node.bareAll_eq_map, hentries], hrest⟩
          | lparen =>
              dsimp only [atom]
              rcases functionHead?_inStep hrest with ⟨hts, hus⟩ |
                ⟨params, rest, params', rest', p', q', hts, hus, hparams, hrest⟩
              · simp only [hts, hus]
                refine (hinner.expression s _ _ _ _ hrest).bind ?_
                rintro ⟨e, rest⟩ ⟨e', rest'⟩ ⟨he, hrest⟩
                refine (takeSymbol_tandem _ _ _ _ _ hrest).bind ?_
                rintro ⟨closing, rest⟩ ⟨closing', rest'⟩ ⟨-, hrest⟩
                refine .ok ⟨by simp only [Node.bare_setMark, he], ?_⟩
                rw [Grammar.span_setMark, Grammar.span_setMark]
                exact hrest
              · simp only [hts, hus]
                exact functionBody_tandem hinner _ _ hparams _ _ _ _ hrest
          | _ => exact .error rfl

theorem suffixed_tandem (hinner : inner.Tandem) (s : Setting) :
    NodesTandem (suffixed inner s) (suffixed inner s) := by
  intro p q ts us h
  refine (atom_tandem hinner s p q ts us h).bind ?_
  rintro ⟨e, rest⟩ ⟨e', rest'⟩ ⟨he, hrest⟩
  dsimp only
  rw [hrest.length_eq]
  exact suffixes_tandem (hinner.expression s) _ he hrest

theorem operand_tandem (hinner : inner.Tandem) (s : Setting) :
    NodesTandem (operand inner s) (operand inner s) := by
  intro p q ts us h
  cases h with
  | nil => exact suffixed_tandem hinner s p q [] [] .nil
  | @cons _ _ kind lexeme place place' _ _ hline hrest =>
      have hsign : sign? ⟨kind, lexeme, place'⟩ = sign? ⟨kind, lexeme, place⟩ := rfl
      simp only [operand, hsign]
      cases sign? ⟨kind, lexeme, place⟩ with
      | none => exact suffixed_tandem hinner s p q _ _ (.cons hline hrest)
      | some op =>
          refine (hinner.operand s _ _ _ _ hrest).bind ?_
          rintro ⟨e, rest⟩ ⟨e', rest'⟩ ⟨he, hrest⟩
          exact .ok ⟨by simp only [Node.bare, he], hrest⟩

end

/-! ### Statements -/

section

variable {expression : Reader Node}

theorem expressionStatement_tandem (h : NodesTandem expression expression) :
    NodesTandem (expressionStatement expression) (expressionStatement expression) := by
  intro p q ts us hts
  refine (h p q ts us hts).bind ?_
  rintro ⟨e, rest⟩ ⟨e', rest'⟩ ⟨he, hrest⟩
  exact .ok ⟨by simp only [Node.bare, he], hrest⟩

theorem declaration_tandem (h : NodesTandem expression expression) (opening opening' : Token)
    (word : Declarator) :
    NodesTandem (declaration expression opening word) (declaration expression opening' word) := by
  intro p q ts us hts
  refine (takeName_tandem _ p q ts us hts).bind ?_
  rintro ⟨name, rest⟩ ⟨name', rest'⟩ ⟨hname, hrest⟩
  refine (takeSymbol_tandem _ _ _ _ _ hrest).bind ?_
  rintro ⟨_, rest⟩ ⟨_, rest'⟩ ⟨-, hrest⟩
  refine (h _ _ _ _ hrest).bind ?_
  rintro ⟨init, rest⟩ ⟨init', rest'⟩ ⟨hinit, hrest⟩
  exact .ok ⟨by simp only [Node.bare, hname, hinit], hrest⟩

end

theorem statement_tandem {expression : Rule}
    (h : ∀ s, NodesTandem (expression s) (expression s)) (s : Setting) :
    NodesTandem (statement expression s) (statement expression s) := by
  intro p q ts us hts
  cases hts with
  | nil => exact expressionStatement_tandem (h s) p q [] [] .nil
  | @cons _ _ kind _ _ _ _ _ hline hrest =>
      cases kind with
      | keyword word =>
          cases word with
          | returnWord =>
              refine .ite (fun _ => ?_) fun _ => .error rfl
              refine (h s _ _ _ _ hrest).bind ?_
              rintro ⟨e, rest⟩ ⟨e', rest'⟩ ⟨he, hrest⟩
              exact .ok ⟨by simp only [Node.bare, he], hrest⟩
          | trueWord | falseWord => exact expressionStatement_tandem (h s) _ _ _ _ (.cons hline hrest)
          | _ => exact declaration_tandem (h s) _ _ _ _ _ _ _ hrest
      | _ => exact expressionStatement_tandem (h s) _ _ _ _ (.cons hline hrest)

/-- What is nested is read alike at every level. -/
theorem inner_tandem (room : Nat) : (inner room).Tandem := by
  induction room with
  | zero => exact ⟨fun _ _ _ _ _ _ => .error rfl, fun _ _ _ _ _ _ => .error rfl,
      fun _ _ _ _ _ _ => .error rfl⟩
  | succ room ih =>
      exact ⟨operand_tandem ih, pipeline_tandem (operand_tandem ih), statement_tandem ih.expression⟩

theorem statements_matches (fuel : Nat) {p q : Position} {ts us : List Token}
    (h : InStep p q ts us) :
    Matches (fun es es' => es.map Node.bare = es'.map Node.bare)
      (statements fuel ts) (statements fuel us) := by
  induction fuel generalizing p q ts us with
  | zero => exact .ok rfl
  | succ fuel ih =>
      cases h with
      | nil => exact .ok rfl
      | cons hline hrest =>
          refine (statement_tandem (inner_tandem maxNesting).expression _ _ _ _ _
            (.cons hline hrest)).bind ?_
          rintro ⟨first, rest⟩ ⟨first', rest'⟩ ⟨hfirst, hrest⟩
          refine (ih hrest).bind fun more more' hmore => ?_
          exact .ok (by simp only [List.map_cons, hfirst, hmore])

end Parser

/-! ### Paths -/

namespace Node

theorem map_path_flatMap_placeAll {ns ms : List Node} (h : ns.map bare = ms.map bare)
    (path : List Nat) (k : Nat)
    (hwalk : ∀ n ∈ ns, ∀ (m : Node) (below : List Nat), n.bare = m.bare →
      (n.place below).walk.map (·.path) = (m.place below).walk.map (·.path)) :
    ((placeAll path k ns).flatMap walk).map (·.path) =
      ((placeAll path k ms).flatMap walk).map (·.path) := by
  induction ns generalizing ms k with
  | nil =>
      obtain rfl := List.map_eq_nil_iff.1 h.symm
      rfl
  | cons n ns ih =>
      obtain ⟨m, ms, rfl, hm, hms⟩ := List.map_eq_cons_iff.1 h.symm
      obtain ⟨hfirst, hmore⟩ := List.forall_mem_cons.1 hwalk
      rw [placeAll, placeAll, List.flatMap_cons, List.flatMap_cons, List.map_append, List.map_append,
        hfirst m _ hm.symm, ih hms.symm (k + 1) hmore]

/-- Trees that are equal without their marks are given the same paths. -/
theorem map_path_walk_place (n m : Node) (path : List Nat) (h : n.bare = m.bare) :
    (n.place path).walk.map (·.path) = (m.place path).walk.map (·.path) := by
  have hchildren : n.children.map bare = m.children.map bare := by
    rw [← children_bare, h, children_bare]
  rw [walk_eq_cons, walk_eq_cons, children_place, children_place, List.map_cons, List.map_cons,
    Node.path, Node.path, mark_place, mark_place]
  congr 1
  refine map_path_flatMap_placeAll hchildren path 0 fun c hc d below hbare => ?_
  have hlt := length_walk_lt hc
  exact map_path_walk_place c d below hbare
termination_by n.walk.length

end Node

namespace Parser

/-- Scripts whose tokens differ in places only are read as trees that are equal without their marks and have
the same paths, or are refused for the same cause. -/
theorem script_matches (finish finish' : Span) {p q : Position} {ts us : List Token}
    (h : InStep p q ts us) :
    Matches (fun n m => n.bare = m.bare ∧ n.walk.map (·.path) = m.walk.map (·.path))
      (script finish ts) (script finish' us) := by
  rw [script, script, h.length_eq]
  refine (statements_matches _ h).bind fun es es' hes => ?_
  have hbare : (joinStatements finish es).bare = (joinStatements finish' es').bare := by
    rw [bare_joinStatements, bare_joinStatements, Node.bareAll_eq_map, Node.bareAll_eq_map, hes]
  have hdeep : (joinStatements finish es).deeperThan? maxDepth = none ↔
      (joinStatements finish' es').deeperThan? maxDepth = none := by
    rw [Node.deeperThan?, Node.deeperThan?, ← Node.overdeep_bare, hbare, Node.overdeep_bare]
  dsimp only
  cases hdeep' : (joinStatements finish' es').deeperThan? maxDepth with
  | none =>
      rw [hdeep.2 hdeep']
      refine .ok ⟨?_, Node.map_path_walk_place _ _ [] hbare⟩
      rw [Node.bare_withPaths, Node.bare_withPaths, hbare]
  | some n =>
      cases hdeep'' : (joinStatements finish es).deeperThan? maxDepth with
      | none =>
          rw [hdeep.1 hdeep''] at hdeep'
          cases hdeep'
      | some m => exact .error rfl

end Parser

/-! ### Texts -/

open PartScript.Parser (IsOpening InStep)

/-- Two lists of tokens are equal up to layout if their tokens have the same kinds, values and lexemes, and
every opening parenthesis or bracket stands on the line where the token before it ends in both lists or in
none of them. -/
structure EqualUpToLayout (ts us : List Token) : Prop where
  same : ts.map (fun t => (t.kind, t.lexeme)) = us.map fun u => (u.kind, u.lexeme)
  lines : ∀ k < ts.length, ∀ t ∈ ts[k]?, ∀ t' ∈ ts[k + 1]?, ∀ u ∈ us[k]?, ∀ u' ∈ us[k + 1]?,
    IsOpening t'.kind →
      (t.span.stop.line = t'.span.start.line ↔ u.span.stop.line = u'.span.start.line)

instance (kind : TokenKind) : Decidable (IsOpening kind) := inferInstanceAs (Decidable (_ ∨ _))

instance (ts us : List Token) : Decidable (EqualUpToLayout ts us) :=
  decidable_of_iff (_ ∧ _) ⟨fun h => ⟨h.1, h.2⟩, fun h => ⟨h.same, h.lines⟩⟩

theorem EqualUpToLayout.tail {t u : Token} {ts us : List Token}
    (h : EqualUpToLayout (t :: ts) (u :: us)) : EqualUpToLayout ts us :=
  ⟨(List.cons.inj h.same).2, fun k hk => h.lines (k + 1) (Nat.succ_lt_succ hk)⟩

/-- Lists that are equal up to layout are in step, if their first tokens are. -/
theorem EqualUpToLayout.inStep {ts us : List Token} (h : EqualUpToLayout ts us) {p q : Position}
    (hfirst : ∀ t ∈ ts.head?, ∀ u ∈ us.head?, IsOpening t.kind →
      (p.line = t.span.start.line ↔ q.line = u.span.start.line)) : InStep p q ts us := by
  induction ts generalizing us p q with
  | nil =>
      obtain rfl := List.map_eq_nil_iff.1 h.same.symm
      exact .nil
  | cons t ts ih =>
      obtain ⟨u, us, rfl, heq, -⟩ := List.map_eq_cons_iff.1 h.same.symm
      have hmore : InStep t.span.stop u.span.stop ts us := by
        refine ih h.tail fun t' ht u' hu => ?_
        rw [List.head?_eq_getElem?] at ht hu
        exact h.lines 0 (Nat.succ_pos _) t rfl t' ht u rfl u' hu
      have hline := hfirst t rfl u rfl
      obtain ⟨kind, lexeme, s⟩ := t
      obtain ⟨kind', lexeme', s'⟩ := u
      cases heq
      exact .cons hline hmore

/-- Nothing comes before the first token of a text. -/
theorem EqualUpToLayout.exists_inStep {ts us : List Token} (h : EqualUpToLayout ts us) :
    ∃ p q, InStep p q ts us := by
  cases ts with
  | nil => exact ⟨.first, .first, h.inStep nofun⟩
  | cons t ts =>
      obtain ⟨u, us, rfl, -⟩ := List.map_eq_cons_iff.1 h.same.symm
      refine ⟨t.span.start, u.span.start, h.inStep fun t' ht u' hu _ => ?_⟩
      cases ht
      cases hu
      exact iff_of_true rfl rfl

theorem Parser.InStep.of_append {ts us : List Token} {t u : Token} {p q : Position}
    (h : InStep p q (ts ++ [t]) (us ++ [u])) : InStep p q ts us := by
  induction ts generalizing us p q with
  | nil =>
      have hlength := h.length_eq
      simp at hlength
      subst hlength
      exact .nil
  | cons t ts ih =>
      cases us with
      | nil =>
          have hlength := h.length_eq
          simp at hlength
      | cons u us =>
          cases h with
          | cons hline hrest => exact .cons hline (ih hrest)

theorem parse_eq_mapError {source : String} {file : Option String} {ts : List Token} {lexeme : String}
    {finish : Span} (h : tokenize source file = .ok (ts ++ [⟨.finish, lexeme, finish⟩])) :
    parse source file = (Parser.script finish ts).mapError
      fun w => .diagnostic (w.diagnostic (Text.linesOf source) finish) := by
  simp [parse, h, ok_bind, parseTokens]

theorem Parser.Wrong.cause_diagnostic (w : Wrong) (lines : List String) (finish : Span) :
    (w.diagnostic lines finish).cause = w.cause := by
  unfold Wrong.diagnostic
  split <;> rfl

/-- Two texts whose tokens are equal up to layout, whatever blanks, comments and line breaks there are between
their tokens, are both read, as trees that are alike and whose nodes have the same paths, or both refused
with the same code and message. -/
theorem parse_of_equalUpToLayout {source source' : String} {file file' : Option String}
    {tokens tokens' : List Token} (h : tokenize source file = .ok tokens)
    (h' : tokenize source' file' = .ok tokens') (hsame : EqualUpToLayout tokens tokens') :
    (∃ script script', parse source file = .ok script ∧ parse source' file' = .ok script' ∧
      script.alike script' = true ∧ script.walk.map (·.path) = script'.walk.map (·.path)) ∨
    ∃ d d', parse source file = .error (.diagnostic d) ∧
      parse source' file' = .error (.diagnostic d') ∧
      d.report.code = d'.report.code ∧ d.report.message = d'.report.message := by
  obtain ⟨ts, finish, rfl⟩ := tokenize_eq_ok h
  obtain ⟨us, finish', rfl⟩ := tokenize_eq_ok h'
  obtain ⟨p, q, hstep⟩ := hsame.exists_inStep
  have hmatches := Parser.script_matches finish finish' hstep.of_append
  have hparse := parse_eq_mapError h
  have hparse' := parse_eq_mapError h'
  generalize Parser.script finish ts = x at hmatches hparse
  generalize Parser.script finish' us = y at hmatches hparse'
  cases hmatches with
  | @ok script script' hscripts =>
      obtain ⟨hbare, hpaths⟩ := hscripts
      refine .inl ⟨script, script', hparse, hparse', ?_, hpaths⟩
      exact (Node.alike_iff (writable_of_parse hparse) (writable_of_parse hparse')).2 hbare
  | @error w w' hcause =>
      refine .inr ⟨_, _, hparse, hparse', ?_, ?_⟩ <;>
        simp only [Diagnostic.report, Parser.Wrong.cause_diagnostic, hcause]

/-- A pipe in two layouts is read, and a parenthesis on a line of its own is refused in two layouts. -/
theorem parse_of_equalUpToLayout_pipe :
    (∃ source source', source = "f(1)\n|> g(%, [a])" ∧
      source' = "f( // one\n 1)|> g(/* two */%, [a\n]\n)" ∧
      ∃ tokens tokens', tokenize source none = .ok tokens ∧ tokenize source' none = .ok tokens' ∧
        EqualUpToLayout tokens tokens' ∧
        ∃ script script', parse source none = .ok script ∧ parse source' none = .ok script' ∧
          script.alike script' = true ∧ script.walk.map (·.path) = script'.walk.map (·.path)) ∧
    ∃ source source', source = "(a\n(b))" ∧ source' = "( a // one\n\n ( b ) )" ∧
      ∃ tokens tokens', tokenize source none = .ok tokens ∧ tokenize source' none = .ok tokens' ∧
        EqualUpToLayout tokens tokens' ∧
        ∃ d d', parse source none = .error (.diagnostic d) ∧
          parse source' none = .error (.diagnostic d') ∧
          d.report.code = d'.report.code ∧ d.report.message = d'.report.message := by
  constructor
  · obtain ⟨source, hsource⟩ : ∃ source, source = "f(1)\n|> g(%, [a])" := ⟨_, rfl⟩
    obtain ⟨source', hsource'⟩ : ∃ source', source' = "f( // one\n 1)|> g(/* two */%, [a\n]\n)" :=
      ⟨_, rfl⟩
    have htokens : ((tokenize source none).toOption.any fun tokens =>
        (tokenize source' none).toOption.any fun tokens' =>
          decide (EqualUpToLayout tokens tokens')) = true := by
      rw [hsource, hsource']
      decide +kernel
    have hread : (parse source none).isOk = true := by
      rw [hsource]
      decide +kernel
    obtain ⟨tokens, h, htokens⟩ := exists_of_any_toOption htokens
    obtain ⟨tokens', h', hsame⟩ := exists_of_any_toOption htokens
    have hsame := of_decide_eq_true hsame
    refine ⟨source, source', hsource, hsource', tokens, tokens', h, h', hsame, ?_⟩
    rcases parse_of_equalUpToLayout h h' hsame with hscripts | ⟨d, d', hd, -⟩
    · exact hscripts
    · rw [hd] at hread
      cases hread
  · obtain ⟨source, hsource⟩ : ∃ source, source = "(a\n(b))" := ⟨_, rfl⟩
    obtain ⟨source', hsource'⟩ : ∃ source', source' = "( a // one\n\n ( b ) )" := ⟨_, rfl⟩
    have htokens : ((tokenize source none).toOption.any fun tokens =>
        (tokenize source' none).toOption.any fun tokens' =>
          decide (EqualUpToLayout tokens tokens')) = true := by
      rw [hsource, hsource']
      decide +kernel
    have hrefused : (parse source none).isOk = false := by
      rw [hsource]
      decide +kernel
    obtain ⟨tokens, h, htokens⟩ := exists_of_any_toOption htokens
    obtain ⟨tokens', h', hsame⟩ := exists_of_any_toOption htokens
    have hsame := of_decide_eq_true hsame
    refine ⟨source, source', hsource, hsource', tokens, tokens', h, h', hsame, ?_⟩
    rcases parse_of_equalUpToLayout h h' hsame with ⟨script, script', hscript, -⟩ | hdiagnostics
    · rw [hscript] at hrefused
      cases hrefused
    · exact hdiagnostics

end PartScript
