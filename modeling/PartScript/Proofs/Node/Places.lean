import PartScript.Proofs.Node.Paths
import PartScript.Proofs.Token.Numeral

/-!
The places that a reader of a text knows. Tokens start at places of the text, and so does whatever is wrong
with its characters. A parser invents no places: the nodes it makes start where tokens start, and what it
finds wrong has the place of a token or of a node.
-/

namespace PartScript

/-- The position of a place in a text, counted from its first character. -/
def PlaceIn (text : List Char) (p : Position) : Prop :=
  ∃ before, before <+: text ∧ p = Position.first.after before

/-- The diagnostic starts at a place of a text and quotes the line with the number of that place. At an
unexpected end it may quote nothing. -/
structure Diagnostic.PointsInto (text : List Char) (lines : List String) (d : Diagnostic) : Prop where
  place : PlaceIn text d.span.start
  quoted : d.sourceLine = Text.lineAt lines d.span.start.line ∨
    d.sourceLine = none ∧ ∃ expected, d.cause = .unexpectedEnd expected

/-- The same for a failure. A fault has no place. -/
def Failure.PointsInto (text : List Char) (lines : List String) : Failure → Prop
  | .diagnostic d => d.PointsInto text lines
  | .fault _ => True

/-! ### Tokens -/

namespace Lexer

theorem consumed_initial (text rest : List Char) : consumed text rest <+: text :=
  List.take_prefix _ _

theorem consumed_append_of_suffix {text rest : List Char} (h : rest <:+ text) :
    consumed text rest ++ rest = text := by
  obtain ⟨front, rfl⟩ := h
  rw [consumed_append]

/-- The position behind a part of what is left of a text is a place. -/
theorem placeIn_after {source before text part : List Char} (hsource : source = before ++ text)
    (hpart : part <+: text) : PlaceIn source ((Position.first.after before).after part) := by
  refine ⟨before ++ part, ?_, (Position.after_append _ _ _).symm⟩
  rw [hsource]
  exact (List.prefix_append_right_inj before).2 hpart

theorem Reading.failure_pointsInto (r : Reading) {source before text : List Char}
    (hsource : source = before ++ text) (mishap : Mishap) :
    (r.failure (Position.first.after before) text mishap).PointsInto source r.lines := by
  cases mishap with
  | wrong cause start stop => exact ⟨placeIn_after hsource (consumed_initial text start), .inl rfl⟩
  | fault f => trivial

/-- Tokens start at places of the text that they are cut from, and so do diagnostics. -/
theorem Reading.tokens_places (r : Reading) (fuel : Nat) {source before text : List Char}
    (hsource : source = before ++ text) :
    Settles (Failure.PointsInto source r.lines) (fun ts => ∀ t ∈ ts, PlaceIn source t.span.start)
      (r.tokens fuel (Position.first.after before) text) := by
  induction fuel generalizing before text with
  | zero => exact List.forall_mem_singleton.2 (placeIn_after hsource List.nil_prefix)
  | succ fuel ih =>
      have hskip : Settles (Failure.PointsInto source r.lines) (· <:+ text)
          ((skip .between text).mapError (r.failure (Position.first.after before) text)) :=
        (@skip_scans r.limit .between text).mapError fun mishap _ =>
          r.failure_pointsInto hsource mishap
      refine hskip.bind fun here hhere => ?_
      have hplace := placeIn_after hsource (consumed_initial text here)
      have hrest : source = (before ++ consumed text here) ++ here := by
        rw [List.append_assoc, consumed_append_of_suffix hhere, hsource]
      rw [← Position.after_append] at hplace
      cases here with
      | nil =>
          refine List.forall_mem_singleton.2 ?_
          rw [← Position.after_append]
          exact hplace
      | cons c rest =>
          dsimp only
          rw [← Position.after_append]
          have hscan : Settles (Failure.PointsInto source r.lines) (·.2 <:+ c :: rest)
              ((scanToken r.limit (c :: rest)).mapError
                (r.failure (Position.first.after (before ++ consumed text (c :: rest))) (c :: rest))) :=
            (scanToken_scans (c :: rest)).mapError fun mishap _ => r.failure_pointsInto hrest mishap
          refine hscan.bind fun scanned hleft => ?_
          have hstop : source = (before ++ consumed text (c :: rest) ++ consumed (c :: rest) scanned.2) ++
              scanned.2 := by
            rw [List.append_assoc _ _ scanned.2, consumed_append_of_suffix hleft, hrest]
          rw [← Position.after_append]
          exact (ih hstop).bind fun ts hts => List.forall_mem_cons.2 ⟨hplace, hts⟩

end Lexer

theorem tokenize_places (source : String) (file : Option String) :
    Settles (Failure.PointsInto source.toList (Text.linesOf source))
      (fun ts => ∀ t ∈ ts, PlaceIn source.toList t.span.start) (tokenize source file) :=
  Lexer.Reading.tokens_places ⟨file, Text.linesOf source, some Number.maxDigits⟩ _
    (List.nil_append source.toList).symm

/-! ### Nodes -/

section

variable (known : Position → Prop)

/-- Everything in a tree starts at a known place. -/
def Node.StartsAt (n : Node) : Prop := ∀ m ∈ n.walk, known m.span.start

/-- All tokens start at known places. -/
def TokensAt (ts : List Token) : Prop := ∀ t ∈ ts, known t.span.start

end

section

variable {known : Position → Prop}

namespace Node

/-- Everything in a tree is the root or in a child of it. -/
theorem startsAt_iff {n : Node} :
    n.StartsAt known ↔ known n.span.start ∧ ∀ c ∈ n.children, c.StartsAt known := by
  rw [StartsAt, walk_eq_cons, List.forall_mem_cons]
  refine and_congr_right fun _ => ?_
  constructor
  · intro h c hc m hm
    exact h m (List.mem_flatMap.2 ⟨c, hc, hm⟩)
  · intro h m hm
    obtain ⟨c, hc, hm⟩ := List.mem_flatMap.1 hm
    exact h c hc m hm

theorem StartsAt.start {n : Node} (h : n.StartsAt known) : known n.span.start :=
  (startsAt_iff.1 h).1

theorem children_setMark (m : Mark) (n : Node) : (n.setMark m).children = n.children := by
  cases n <;> rfl

theorem startsAt_setMark {n : Node} (h : n.StartsAt known) {m : Mark} (hm : known m.span.start) :
    (n.setMark m).StartsAt known := by
  refine startsAt_iff.2 ⟨?_, ?_⟩
  · rw [Grammar.span_setMark]
    exact hm
  · rw [children_setMark]
    exact (startsAt_iff.1 h).2

/-- Paths do not change where nodes start. -/
theorem StartsAt.place {n : Node} (h : n.StartsAt known) (path : List Nat) :
    (n.place path).StartsAt known := by
  refine startsAt_iff.2 ⟨?_, fun c hc => ?_⟩
  · rw [span, mark_place]
    exact h.start
  · rw [children_place] at hc
    obtain ⟨k, child, hmem, -, rfl⟩ := exists_of_mem_placeAll hc
    have hlt := length_walk_lt hmem
    exact StartsAt.place ((startsAt_iff.1 h).2 child hmem) _
termination_by n.walk.length

theorem startsAt_identifier {i : Ident} (h : known i.span.start) : (identifier i).StartsAt known :=
  List.forall_mem_singleton.2 h

theorem findSome?_cons_eq_or {α β : Type} (f : α → Option β) (a : α) (as : List α) :
    (a :: as).findSome? f = (f a).or (as.findSome? f) := by
  rw [List.findSome?_cons]
  cases f a <;> rfl

theorem overdeepAll_eq_findSome? (room : Nat) (ns : List Node) :
    overdeepAll room ns = ns.findSome? (overdeep room) := by
  induction ns with
  | nil => rfl
  | cons n ns ih => rw [overdeepAll, findSome?_cons_eq_or, ih]

theorem overdeepIdents_eq_findSome? (room : Nat) (is : List Ident) :
    overdeepIdents room is = (is.map identifier).findSome? (overdeep room) := by
  cases room with
  | zero => cases is <;> rfl
  | succ room =>
      refine (List.findSome?_eq_none_iff.2 fun n hn => ?_).symm
      obtain ⟨i, -, rfl⟩ := List.mem_map.1 hn
      rfl

/-- The first node that is too deep is the first one below the children, with one level less of room. -/
theorem overdeep_succ (room : Nat) (n : Node) :
    overdeep (room + 1) n = n.children.findSome? (overdeep room) := by
  cases n with
  | literal | identifier | hole => rfl
  | program | array | object | pipe => exact overdeepAll_eq_findSome? room _
  | function m params body =>
      rw [overdeep, overdeepIdents_eq_findSome?, overdeepAll_eq_findSome?, children,
        List.findSome?_append]
  | _ =>
      simp only [overdeep, children, overdeepIdents_eq_findSome?, overdeepAll_eq_findSome?,
        findSome?_cons_eq_or, List.map_cons, List.map_nil, List.findSome?_nil, Option.or_none]

/-- The node that is too deep is in the tree. -/
theorem mem_walk_of_overdeep {room : Nat} {n m : Node} (h : n.overdeep room = some m) :
    m ∈ n.walk := by
  induction room generalizing n with
  | zero =>
      rw [overdeep] at h
      obtain rfl : n = m := Option.some.inj h
      rw [walk_eq_cons]
      exact List.mem_cons_self
  | succ room ih =>
      rw [overdeep_succ] at h
      obtain ⟨c, hc, hm⟩ := List.exists_of_findSome?_eq_some h
      rw [walk_eq_cons]
      exact List.mem_cons_of_mem _ (List.mem_flatMap.2 ⟨c, hc, ih hm⟩)

end Node

/-! ### Readers -/

namespace Parser

/-- What is wrong stands at a known place, or at the end. -/
def Wrong.At (known : Position → Prop) (w : Wrong) : Prop :=
  ∀ span, w.place = some span → known span.start

/-- From tokens at known places a reader makes something good and leaves tokens at known places, or it finds
something wrong at a known place. -/
def KeepsPlaces {α : Type} (known : Position → Prop) (good : α → Prop) (read : Reader α) : Prop :=
  ∀ ts, TokensAt known ts →
    Settles (Wrong.At known) (fun r => good r.1 ∧ TokensAt known r.2) (read ts)

/-- The reader of a node makes trees that start at known places. -/
abbrev KeepsStarts (known : Position → Prop) (read : Reader Node) : Prop :=
  KeepsPlaces known (Node.StartsAt known) read

/-- Nodes that start at known places and a token that ends them. -/
def RowAt (known : Position → Prop) (row : List Node × Token) : Prop :=
  (∀ e ∈ row.1, e.StartsAt known) ∧ known row.2.span.start

theorem at_of_place {cause : Cause} {span : Span} (h : known span.start) :
    Wrong.At known ⟨cause, some span⟩ := by
  intro span' hspan
  cases hspan
  exact h

theorem wanted_at (expected : Expectation) {ts : List Token} (h : TokensAt known ts) :
    (wanted expected ts).At known := by
  cases ts with
  | nil => exact nofun
  | cons t rest => exact at_of_place (h t List.mem_cons_self)

theorem takeSymbol_keeps (mark : Symbol) :
    KeepsPlaces known (fun t => known t.span.start) (takeSymbol mark) := by
  intro ts hts
  cases ts with
  | nil => exact wanted_at _ hts
  | cons t rest =>
      rw [takeSymbol]
      split
      · exact List.forall_mem_cons.1 hts
      · exact wanted_at _ hts

theorem takeName_keeps (expected : Expectation) :
    KeepsPlaces known (fun i => known i.span.start) (takeName expected) := by
  intro ts hts
  cases ts with
  | nil => exact wanted_at _ hts
  | cons t rest =>
      rw [takeName]
      split
      · exact List.forall_mem_cons.1 hts
      · exact wanted_at _ hts

section

variable {item : Reader Node}

theorem items_keeps (closing : Symbol) (hitem : KeepsStarts known item) (fuel : Nat) :
    KeepsPlaces known (RowAt known) (items closing item fuel) := by
  induction fuel with
  | zero => exact fun ts hts => wanted_at _ hts
  | succ fuel ih =>
      intro ts hts
      rw [items]
      split
      · rename_i t ht
        have hmem : t ∈ ts := List.mem_of_mem_head? (Option.filter_eq_some_iff.1 ht).1
        exact ⟨⟨List.forall_mem_nil _, hts t hmem⟩, fun u hu => hts u (List.mem_of_mem_drop hu)⟩
      · apply (hitem ts hts).bind
        rintro ⟨first, rest⟩ ⟨hfirst, hrest⟩
        cases rest with
        | nil => exact wanted_at _ hrest
        | cons t after =>
            obtain ⟨ht, hafter⟩ := List.forall_mem_cons.1 hrest
            dsimp only
            split
            · apply (ih after hafter).bind
              rintro ⟨⟨more, last⟩, rest⟩ ⟨⟨hmore, hlast⟩, hrest⟩
              exact ⟨⟨List.forall_mem_cons.2 ⟨hfirst, hmore⟩, hlast⟩, hrest⟩
            split
            · exact ⟨⟨List.forall_mem_singleton.2 hfirst, ht⟩, hafter⟩
            · exact wanted_at _ hrest

theorem block_keeps (hitem : KeepsStarts known item) (fuel : Nat) :
    KeepsPlaces known (RowAt known) (block item fuel) := by
  induction fuel with
  | zero => exact fun ts hts => wanted_at _ hts
  | succ fuel ih =>
      intro ts hts
      cases ts with
      | nil => exact wanted_at _ hts
      | cons t after =>
          rw [block]
          split
          · exact ⟨⟨List.forall_mem_nil _, (List.forall_mem_cons.1 hts).1⟩, (List.forall_mem_cons.1 hts).2⟩
          · apply (hitem _ hts).bind
            rintro ⟨first, rest⟩ ⟨hfirst, hrest⟩
            apply (ih rest hrest).bind
            rintro ⟨⟨more, last⟩, rest⟩ ⟨⟨hmore, hlast⟩, hrest⟩
            exact ⟨⟨List.forall_mem_cons.2 ⟨hfirst, hmore⟩, hlast⟩, hrest⟩

end

theorem functionHead?_places {ts rest : List Token} {params : List Ident} (hts : TokensAt known ts)
    (h : functionHead? ts = some (params, rest)) :
    (∀ i ∈ params, known i.span.start) ∧ TokensAt known rest := by
  have hhead := Grammar.functionHead?_eq_some_iff.1 h
  refine ⟨?_, fun t ht => hts t (hhead.suffix.mem ht)⟩
  clear h
  induction hhead with
  | nil => exact nofun
  | last => exact List.forall_mem_singleton.2 (List.forall_mem_cons.1 hts).1
  | more _ _ _ ih =>
      obtain ⟨ht, hrest⟩ := List.forall_mem_cons.1 hts
      exact List.forall_mem_cons.2 ⟨ht, ih (List.forall_mem_cons.1 hrest).2⟩

/-! ### Operators -/

section

variable {operand : Reader Node}

theorem chain_keeps (operator? : Token → Option BinaryOp) (hoperand : KeepsStarts known operand)
    (fuel : Nat) {left : Node} (hleft : left.StartsAt known) :
    KeepsStarts known (chain operator? operand fuel left) := by
  induction fuel generalizing left with
  | zero => exact fun ts hts => ⟨hleft, hts⟩
  | succ fuel ih =>
      intro ts hts
      cases ts with
      | nil => exact ⟨hleft, hts⟩
      | cons t after =>
          rw [chain]
          split
          · exact ⟨hleft, hts⟩
          · apply (hoperand after (List.forall_mem_cons.1 hts).2).bind
            rintro ⟨right, rest⟩ ⟨hright, hrest⟩
            have hboth : (Node.binary (.at (left.span.upTo right.span)) ‹_› left right).StartsAt known :=
              Node.startsAt_iff.2 ⟨hleft.start, by simpa [Node.children] using ⟨hleft, hright⟩⟩
            exact ih hboth rest hrest

theorem leftGrouped_keeps (operator? : Token → Option BinaryOp) (hoperand : KeepsStarts known operand) :
    KeepsStarts known (leftGrouped operator? operand) := by
  intro ts hts
  apply (hoperand ts hts).bind
  rintro ⟨left, rest⟩ ⟨hleft, hrest⟩
  exact chain_keeps operator? hoperand rest.length hleft rest hrest

theorem sum_keeps (hoperand : KeepsStarts known operand) : KeepsStarts known (sum operand) :=
  leftGrouped_keeps _ (leftGrouped_keeps _ hoperand)

theorem stages_keeps (hstage : KeepsStarts known operand) (fuel : Nat) :
    KeepsPlaces known (fun es => ∀ e ∈ es, e.StartsAt known) (stages operand fuel) := by
  induction fuel with
  | zero => exact fun ts hts => ⟨List.forall_mem_nil _, hts⟩
  | succ fuel ih =>
      intro ts hts
      cases ts with
      | nil => exact ⟨List.forall_mem_nil _, hts⟩
      | cons t after =>
          rw [stages]
          split
          · apply (hstage after (List.forall_mem_cons.1 hts).2).bind
            rintro ⟨next, rest⟩ ⟨hnext, hrest⟩
            dsimp only
            split
            · apply (ih rest hrest).bind
              rintro ⟨more, rest⟩ ⟨hmore, hrest⟩
              exact ⟨List.forall_mem_cons.2 ⟨hnext, hmore⟩, hrest⟩
            · exact at_of_place hnext.start
          · exact ⟨List.forall_mem_nil _, hts⟩

end

theorem joinStages_startsAt {first : Node} {more : List Node} (hfirst : first.StartsAt known)
    (hmore : ∀ e ∈ more, e.StartsAt known) : (joinStages first more).StartsAt known := by
  rw [joinStages]
  split
  · exact hfirst
  · exact Node.startsAt_iff.2 ⟨hfirst.start, List.forall_mem_cons.2 ⟨hfirst, hmore⟩⟩

theorem pipeline_keeps {operand : Rule} (hoperand : ∀ s, KeepsStarts known (operand s)) (s : Setting) :
    KeepsStarts known (pipeline operand s) := by
  intro ts hts
  apply (sum_keeps (hoperand s) ts hts).bind
  rintro ⟨first, rest⟩ ⟨hfirst, hrest⟩
  apply (stages_keeps (sum_keeps (hoperand _)) rest.length rest hrest).bind
  rintro ⟨more, rest⟩ ⟨hmore, hrest⟩
  exact ⟨joinStages_startsAt hfirst hmore, hrest⟩

/-! ### Calls, members and atoms -/

section

variable {expression : Reader Node}

theorem suffixes_keeps (hexpression : KeepsStarts known expression) (fuel : Nat) {e : Node}
    (he : e.StartsAt known) : KeepsStarts known (suffixes expression fuel e) := by
  induction fuel generalizing e with
  | zero => exact fun ts hts => ⟨he, hts⟩
  | succ fuel ih =>
      intro ts hts
      cases ts with
      | nil => exact ⟨he, hts⟩
      | cons t after =>
          obtain ⟨ht, hafter⟩ := List.forall_mem_cons.1 hts
          unfold suffixes
          split
          · apply (takeName_keeps _ after hafter).bind
            rintro ⟨label, rest⟩ ⟨hlabel, hrest⟩
            have hmember : (Node.member (.at (e.span.upTo label.span)) e label).StartsAt known :=
              Node.startsAt_iff.2 ⟨he.start,
                by simpa [Node.children] using ⟨he, Node.startsAt_identifier hlabel⟩⟩
            exact ih hmember rest hrest
          split
          · apply (hexpression after hafter).bind
            rintro ⟨key, rest⟩ ⟨hkey, hrest⟩
            apply (takeSymbol_keeps _ rest hrest).bind
            rintro ⟨closing, rest⟩ ⟨_, hrest⟩
            have hindex : (Node.index (.at (e.span.upTo closing.span)) e key).StartsAt known :=
              Node.startsAt_iff.2 ⟨he.start, by simpa [Node.children] using ⟨he, hkey⟩⟩
            exact ih hindex rest hrest
          split
          · cases e with
            | identifier callee =>
                apply (items_keeps _ hexpression _ after hafter).bind
                rintro ⟨⟨args, closing⟩, rest⟩ ⟨⟨hargs, _⟩, hrest⟩
                have hcall : (Node.call (.at (callee.span.upTo closing.span)) callee args).StartsAt known :=
                  Node.startsAt_iff.2 ⟨he.start,
                    List.forall_mem_cons.2 ⟨Node.startsAt_identifier he.start, hargs⟩⟩
                exact ih hcall rest hrest
            | _ => exact at_of_place ht
          · exact ⟨he, hts⟩

theorem property_keeps (hexpression : KeepsStarts known expression) :
    KeepsStarts known (property expression) := by
  intro ts hts
  apply (takeName_keeps _ ts hts).bind
  rintro ⟨key, rest⟩ ⟨hkey, hrest⟩
  apply (takeSymbol_keeps _ rest hrest).bind
  rintro ⟨_, rest⟩ ⟨_, hrest⟩
  apply (hexpression rest hrest).bind
  rintro ⟨value, rest⟩ ⟨hvalue, hrest⟩
  refine ⟨?_, hrest⟩
  refine Node.startsAt_iff.2 ⟨hkey, ?_⟩
  simpa [Node.children] using ⟨Node.startsAt_identifier hkey, hvalue⟩

end

/-- The readers for what is nested keep to known places. -/
structure Inner.Keeps (known : Position → Prop) (inner : Inner) : Prop where
  operand (s : Setting) : KeepsStarts known (inner.operand s)
  expression (s : Setting) : KeepsStarts known (inner.expression s)
  statement (s : Setting) : KeepsStarts known (inner.statement s)

section

variable {inner : Inner}

theorem functionBody_keeps (hinner : inner.Keeps known) {opening : Token}
    (hopening : known opening.span.start) {params : List Ident}
    (hparams : ∀ i ∈ params, known i.span.start) :
    KeepsStarts known (functionBody inner opening params) := by
  intro ts hts
  apply (takeSymbol_keeps _ ts hts).bind
  rintro ⟨_, rest⟩ ⟨_, hrest⟩
  apply (block_keeps (hinner.statement _) _ rest hrest).bind
  rintro ⟨⟨body, closing⟩, rest⟩ ⟨⟨hbody, _⟩, hrest⟩
  refine ⟨?_, hrest⟩
  refine Node.startsAt_iff.2 ⟨hopening, fun c hc => ?_⟩
  rcases List.mem_append.1 hc with hc | hc
  · obtain ⟨i, hi, rfl⟩ := List.mem_map.1 hc
    exact Node.startsAt_identifier (hparams i hi)
  · exact hbody c hc

theorem atom_keeps (hinner : inner.Keeps known) (s : Setting) :
    KeepsStarts known (atom inner s) := by
  intro ts hts
  cases ts with
  | nil => exact wanted_at _ hts
  | cons t after =>
      obtain ⟨ht, hafter⟩ := List.forall_mem_cons.1 hts
      rw [atom]
      split
      · exact ⟨List.forall_mem_singleton.2 ht, hafter⟩
      · exact ⟨List.forall_mem_singleton.2 ht, hafter⟩
      · exact ⟨List.forall_mem_singleton.2 ht, hafter⟩
      · exact ⟨List.forall_mem_singleton.2 ht, hafter⟩
      · exact ⟨List.forall_mem_singleton.2 ht, hafter⟩
      · split
        · exact ⟨List.forall_mem_singleton.2 ht, hafter⟩
        · exact at_of_place ht
      · apply (items_keeps _ (hinner.expression s) _ after hafter).bind
        rintro ⟨⟨elements, closing⟩, rest⟩ ⟨⟨helements, _⟩, hrest⟩
        exact ⟨Node.startsAt_iff.2 ⟨ht, helements⟩, hrest⟩
      · apply (items_keeps _ (property_keeps (hinner.expression s)) _ after hafter).bind
        rintro ⟨⟨entries, closing⟩, rest⟩ ⟨⟨hentries, _⟩, hrest⟩
        exact ⟨Node.startsAt_iff.2 ⟨ht, hentries⟩, hrest⟩
      · split
        · rename_i params rest hhead
          obtain ⟨hparams, hrest⟩ := functionHead?_places hafter hhead
          exact functionBody_keeps hinner ht hparams rest hrest
        · apply (hinner.expression s after hafter).bind
          rintro ⟨e, rest⟩ ⟨he, hrest⟩
          apply (takeSymbol_keeps _ rest hrest).bind
          rintro ⟨closing, rest⟩ ⟨_, hrest⟩
          exact ⟨Node.startsAt_setMark he ht, hrest⟩
      · exact wanted_at _ hts

theorem suffixed_keeps (hinner : inner.Keeps known) (s : Setting) :
    KeepsStarts known (suffixed inner s) := by
  intro ts hts
  apply (atom_keeps hinner s ts hts).bind
  rintro ⟨e, rest⟩ ⟨he, hrest⟩
  exact suffixes_keeps (hinner.expression s) rest.length he rest hrest

theorem operand_keeps (hinner : inner.Keeps known) (s : Setting) :
    KeepsStarts known (operand inner s) := by
  intro ts hts
  cases ts with
  | nil => exact suffixed_keeps hinner s [] hts
  | cons t after =>
      rw [operand]
      split
      · obtain ⟨ht, hafter⟩ := List.forall_mem_cons.1 hts
        apply (hinner.operand s after hafter).bind
        rintro ⟨e, rest⟩ ⟨he, hrest⟩
        exact ⟨Node.startsAt_iff.2 ⟨ht, List.forall_mem_singleton.2 he⟩, hrest⟩
      · exact suffixed_keeps hinner s _ hts

end

/-! ### Statements -/

theorem expressionStatement_keeps {expression : Reader Node} (h : KeepsStarts known expression) :
    KeepsStarts known (expressionStatement expression) := by
  intro ts hts
  apply (h ts hts).bind
  rintro ⟨e, rest⟩ ⟨he, hrest⟩
  exact ⟨Node.startsAt_iff.2 ⟨he.start, List.forall_mem_singleton.2 he⟩, hrest⟩

theorem declaration_keeps {expression : Reader Node} (h : KeepsStarts known expression)
    {opening : Token} (hopening : known opening.span.start) (word : Declarator) :
    KeepsStarts known (declaration expression opening word) := by
  intro ts hts
  apply (takeName_keeps _ ts hts).bind
  rintro ⟨name, rest⟩ ⟨hname, hrest⟩
  apply (takeSymbol_keeps _ rest hrest).bind
  rintro ⟨_, rest⟩ ⟨_, hrest⟩
  apply (h rest hrest).bind
  rintro ⟨init, rest⟩ ⟨hinit, hrest⟩
  refine ⟨?_, hrest⟩
  refine Node.startsAt_iff.2 ⟨hopening, ?_⟩
  simpa [Node.children] using ⟨Node.startsAt_identifier hname, hinit⟩

theorem statement_keeps {expression : Rule} (h : ∀ s, KeepsStarts known (expression s)) (s : Setting) :
    KeepsStarts known (statement expression s) := by
  intro ts hts
  cases ts with
  | nil => exact expressionStatement_keeps (h s) [] hts
  | cons t after =>
      obtain ⟨ht, hafter⟩ := List.forall_mem_cons.1 hts
      rw [statement]
      split
      · split
        · apply (h s after hafter).bind
          rintro ⟨e, rest⟩ ⟨he, hrest⟩
          exact ⟨Node.startsAt_iff.2 ⟨ht, List.forall_mem_singleton.2 he⟩, hrest⟩
        · exact at_of_place ht
      · split
        · exact declaration_keeps (h s) ht _ after hafter
        · exact expressionStatement_keeps (h s) _ hts
      · exact expressionStatement_keeps (h s) _ hts

theorem refuse_keeps (s : Setting) : KeepsStarts known (refuse s) := by
  intro ts hts span hspan
  obtain ⟨t, ht, rfl⟩ := Option.map_eq_some_iff.1 hspan
  exact hts t (List.mem_of_mem_head? ht)

/-- The readers keep to known places at every level of nesting. -/
theorem inner_keeps (room : Nat) : (inner room).Keeps known := by
  induction room with
  | zero => exact ⟨refuse_keeps, refuse_keeps, refuse_keeps⟩
  | succ room ih =>
      exact ⟨operand_keeps ih, pipeline_keeps (operand_keeps ih), statement_keeps ih.expression⟩

theorem statements_keeps (fuel : Nat) {ts : List Token} (hts : TokensAt known ts) :
    Settles (Wrong.At known) (fun es => ∀ e ∈ es, e.StartsAt known) (statements fuel ts) := by
  induction fuel generalizing ts with
  | zero => exact nofun
  | succ fuel ih =>
      cases ts with
      | nil => exact nofun
      | cons t after =>
          apply (statement_keeps (inner_keeps maxNesting).expression _ _ hts).bind
          rintro ⟨first, rest⟩ ⟨hfirst, hrest⟩
          exact (ih hrest).bind fun more hmore => List.forall_mem_cons.2 ⟨hfirst, hmore⟩

theorem joinStatements_startsAt {finish : Span} (hfinish : known finish.start) {es : List Node}
    (h : ∀ e ∈ es, e.StartsAt known) : (joinStatements finish es).StartsAt known := by
  cases es with
  | nil => exact List.forall_mem_singleton.2 hfinish
  | cons e es => exact Node.startsAt_iff.2 ⟨(h e List.mem_cons_self).start, h⟩

theorem script_keeps {finish : Span} (hfinish : known finish.start) {ts : List Token}
    (hts : TokensAt known ts) :
    Settles (Wrong.At known) (Node.StartsAt known) (script finish ts) := by
  refine (statements_keeps _ hts).bind fun es hes => ?_
  have hjoined := joinStatements_startsAt hfinish hes
  dsimp only
  split
  · rename_i n hdeep
    exact at_of_place (hjoined n (Node.mem_walk_of_overdeep hdeep))
  · exact hjoined.place []

theorem Wrong.At.diagnostic_pointsInto {text : List Char} {w : Wrong} (h : w.At (PlaceIn text))
    (lines : List String) {finish : Span} (hfinish : PlaceIn text finish.start) :
    (w.diagnostic lines finish).PointsInto text lines := by
  have hplace : PlaceIn text (w.place.getD finish).start := by
    cases hspan : w.place with
    | none => exact hfinish
    | some span => exact h span hspan
  rw [Wrong.diagnostic]
  split
  · rename_i expected hcause
    exact ⟨hplace, .inr ⟨rfl, expected, hcause⟩⟩
  · exact ⟨hplace, .inl rfl⟩

end Parser

end

theorem parseTokens_places {text : List Char} {tokens : List Token} (lines : List String)
    (h : TokensAt (PlaceIn text) tokens) :
    Settles (Failure.PointsInto text lines) (Node.StartsAt (PlaceIn text)) (parseTokens lines tokens) := by
  rw [parseTokens]
  split
  · rename_i finish hlast
    have hfinish : PlaceIn text finish.start := h _ (List.mem_of_getLast? hlast)
    have hread := Parser.script_keeps hfinish fun t ht => h t ((List.dropLast_sublist _).subset ht)
    exact hread.mapError fun w hw => hw.diagnostic_pointsInto lines hfinish
  · trivial

/-- The nodes of a script start at places of its text, and so do the diagnostics. -/
theorem parse_places (source : String) (file : Option String) :
    Settles (Failure.PointsInto source.toList (Text.linesOf source))
      (Node.StartsAt (PlaceIn source.toList)) (parse source file) :=
  (tokenize_places source file).bind fun _ h => parseTokens_places _ h

end PartScript
