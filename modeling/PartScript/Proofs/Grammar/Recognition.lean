import PartScript.Proofs.Grammar.Sound

/-!
The parser recognises exactly its grammar. A tree is returned for some tokens exactly if the grammar
relates them to it, its nesting is at most the bound and no node of it is further below the root than
the bound on trees. The grammar relates some tokens to one tree at most, so this says what the tree is.
-/

namespace PartScript

/-! ### Depth -/

namespace Node

/-- No path of child indices from the node to another one is longer than a bound. -/
def DepthWithin (limit : Nat) (n : Node) : Prop :=
  ∀ path m, n.descend? path = some m → path.length ≤ limit

theorem overdeepAll_eq_none {room : Nat} {ns : List Node} :
    overdeepAll room ns = none ↔ ∀ n ∈ ns, overdeep room n = none := by
  induction ns with
  | nil => simp [overdeepAll]
  | cons n ns ih => simp [overdeepAll, ih]

theorem overdeepIdents_eq_none {room : Nat} {is : List Ident} :
    overdeepIdents room is = none ↔ ∀ i ∈ is, overdeep room (.identifier i) = none := by
  cases room with
  | zero =>
      cases is with
      | nil => simp [overdeepIdents]
      | cons i is =>
          constructor
          · intro h
            cases h
          · intro h
            cases h i List.mem_cons_self
  | succ room => simp [overdeepIdents, overdeep]

/-- There is room for a node exactly if there is one unit less for each of its children. -/
theorem overdeep_succ_eq_none {room : Nat} {n : Node} :
    overdeep (room + 1) n = none ↔ ∀ c ∈ n.children, overdeep room c = none := by
  cases n <;> simp [overdeep, children, overdeepAll_eq_none, overdeepIdents_eq_none]
  all_goals grind

theorem descend?_cons {n m : Node} {k : Int} {path : List Int} :
    n.descend? (k :: path) = some m ↔ ∃ c, n.child? k = some c ∧ c.descend? path = some m := by
  simp [descend?, Option.bind_eq_some_iff]

theorem child?_mem {n c : Node} {k : Int} (h : n.child? k = some c) : c ∈ n.children := by
  unfold child? at h
  split at h
  · cases h
  · exact List.mem_of_getElem? h

theorem exists_child?_of_mem {n c : Node} (h : c ∈ n.children) : ∃ k, n.child? k = some c := by
  obtain ⟨k, hk⟩ := List.mem_iff_getElem?.1 h
  refine ⟨k, ?_⟩
  have hnonneg : ¬ (k : Int) < 0 := by omega
  simp [child?, hnonneg, hk]

/-- There is room for a tree exactly if no path in it takes more. -/
theorem overdeep_eq_none_iff {room : Nat} {n : Node} :
    overdeep (room + 1) n = none ↔ n.DepthWithin room := by
  induction room generalizing n with
  | zero =>
      rw [overdeep_succ_eq_none]
      constructor
      · intro h path m hpath
        cases path with
        | nil => simp
        | cons k path =>
            obtain ⟨c, hc, -⟩ := descend?_cons.1 hpath
            have hnone := h c (child?_mem hc)
            simp [overdeep] at hnone
      · intro h c hc
        obtain ⟨k, hk⟩ := exists_child?_of_mem hc
        have hlen := h [k] c (descend?_cons.2 ⟨c, hk, rfl⟩)
        simp at hlen
  | succ room ih =>
      rw [overdeep_succ_eq_none]
      constructor
      · intro h path m hpath
        cases path with
        | nil => simp
        | cons k path =>
            obtain ⟨c, hc, hrest⟩ := descend?_cons.1 hpath
            exact Nat.succ_le_succ (ih.1 (h c (child?_mem hc)) path m hrest)
      · intro h c hc
        obtain ⟨k, hk⟩ := exists_child?_of_mem hc
        refine ih.2 fun path m hpath => ?_
        exact Nat.le_of_succ_le_succ (h (k :: path) m (descend?_cons.2 ⟨c, hk, hpath⟩))

theorem deeperThan?_eq_none_iff {limit : Nat} {n : Node} :
    n.deeperThan? limit = none ↔ n.DepthWithin limit := by
  have hroom : ((limit : Int) + 1).toNat = limit + 1 := by omega
  rw [deeperThan?, hroom, overdeep_eq_none_iff]

end Node

namespace Grammar

open PartScript.Parser

/-! ### Uniqueness -/

theorem Statement.unique {s : Setting} {n n' : Nat} {ts rest rest' : List Token} {e e' : Node}
    (h : Statement s n ts e rest) (h' : Statement s n' ts e' rest') :
    n = n' ∧ e = e' ∧ rest = rest' := by
  obtain ⟨hn, heq⟩ := Reads.unique h.reads h'.reads
  exact ⟨hn, Prod.mk.inj heq⟩

theorem Statements.unique {n n' : Nat} {ts : List Token} {es es' : List Node}
    (h : Statements n ts es) (h' : Statements n' ts es') : n = n' ∧ es = es' := by
  induction h generalizing n' es' with
  | nil =>
      cases h' with
      | nil => exact ⟨rfl, rfl⟩
      | cons hfirst _ =>
          obtain ⟨t, after, hts, -⟩ := hfirst.starts
          cases hts
  | cons hfirst _ ih =>
      cases h' with
      | nil =>
          obtain ⟨t, after, hts, -⟩ := hfirst.starts
          cases hts
      | cons hfirst' hmore' =>
          obtain ⟨rfl, rfl, rfl⟩ := hfirst.unique hfirst'
          obtain ⟨rfl, rfl⟩ := ih hmore'
          exact ⟨rfl, rfl⟩

theorem script_iff {finish : Span} {n : Nat} {ts : List Token} {tree : Node} :
    Script finish n ts tree ↔ ∃ es, Statements n ts es ∧ tree = joinStatements finish es := by
  constructor
  · intro h
    cases h with
    | empty => exact ⟨[], .nil, rfl⟩
    | body h => exact ⟨_, h, by simp [joinStatements, List.getLast?_eq_some_getLast]⟩
  · rintro ⟨es, h, rfl⟩
    cases es with
    | nil =>
        cases h
        exact .empty
    | cons e es =>
        have hjoin : joinStatements finish (e :: es) =
            .program (.at (e.span.upTo ((e :: es).getLast (by simp)).span)) (e :: es) := by
          simp [joinStatements, List.getLast?_eq_some_getLast]
        rw [hjoin]
        exact .body h

/-- Some tokens are one script at most, of one nesting. -/
theorem Script.unique {finish : Span} {n n' : Nat} {ts : List Token} {tree tree' : Node}
    (h : Script finish n ts tree) (h' : Script finish n' ts tree') : n = n' ∧ tree = tree' := by
  obtain ⟨es, hes, rfl⟩ := script_iff.1 h
  obtain ⟨es', hes', rfl⟩ := script_iff.1 h'
  obtain ⟨rfl, rfl⟩ := hes.unique hes'
  exact ⟨rfl, rfl⟩

/-! ### Scripts -/

theorem Statements.reads {n : Nat} {ts : List Token} {es : List Node} (h : Statements n ts es)
    {fuel : Nat} (hfuel : ts.length ≤ fuel) :
    Reads maxNesting n (statements fuel ts) es := by
  induction h generalizing fuel with
  | nil =>
      cases fuel <;> exact reads_ok _ _
  | cons hfirst _ ih =>
      have hlen := hfirst.ends.length_lt
      obtain ⟨t, after, rfl, -⟩ := hfirst.starts
      obtain ⟨fuel, rfl⟩ := Nat.exists_eq_add_of_le' (Nat.lt_of_lt_of_le (Nat.succ_pos _) hfuel)
      refine (hfirst.reads maxNesting).bind ?_
      exact (ih (by simp at hfuel hlen; omega)).andThen rfl

theorem statements_sound {fuel : Nat} {ts : List Token} {es : List Node}
    (hfuel : ts.length ≤ fuel) (h : statements fuel ts = .ok es) :
    ∃ n, n ≤ maxNesting ∧ Statements n ts es := by
  induction fuel generalizing ts es with
  | zero =>
      cases ts with
      | nil =>
          cases h
          exact ⟨0, Nat.zero_le _, .nil⟩
      | cons t after => simp at hfuel
  | succ fuel ih =>
      cases ts with
      | nil =>
          cases h
          exact ⟨0, Nat.zero_le _, .nil⟩
      | cons t after =>
          obtain ⟨⟨e, us⟩, he, h⟩ := bind_eq_ok h
          obtain ⟨more, hmore, h⟩ := bind_eq_ok h
          cases h
          obtain ⟨n, hn, he⟩ := statement_sound (inner_sound maxNesting).expression _ _ _ _ he
          have hlen := he.ends.length_lt
          obtain ⟨m, hm, hmore⟩ := ih (by simp at hfuel hlen; omega) hmore
          exact ⟨max n m, Nat.max_le.2 ⟨hn, hm⟩, .cons he hmore⟩

/-- A script is read exactly if it is one of the grammar that keeps to both bounds. -/
theorem script_eq_ok_iff {finish : Span} {ts : List Token} {tree : Node} :
    Parser.script finish ts = .ok tree ↔
      ∃ n bare, Script finish n ts bare ∧ n ≤ maxNesting ∧ bare.DepthWithin maxDepth ∧
        tree = bare.withPaths := by
  constructor
  · intro h
    obtain ⟨es, hes, h⟩ := bind_eq_ok h
    obtain ⟨n, hn, hes⟩ := statements_sound (Nat.le_succ _) hes
    simp only at h
    split at h
    · cases h
    · rename_i hdepth
      cases h
      exact ⟨n, _, script_iff.2 ⟨es, hes, rfl⟩, hn, Node.deeperThan?_eq_none_iff.1 hdepth, rfl⟩
  · rintro ⟨n, bare, hscript, hn, hdepth, rfl⟩
    obtain ⟨es, hes, rfl⟩ := script_iff.1 hscript
    have hread := (hes.reads (Nat.le_succ ts.length)).1 hn
    have hnone := Node.deeperThan?_eq_none_iff.2 hdepth
    simp only [Parser.script, hread, ok_bind, hnone]

end Grammar

/-! ### Tokens of a text -/

/-- The tokens of a text end with the one for its end. -/
theorem Lexer.Reading.tokens_eq_ok {r : Lexer.Reading} {fuel : Nat} {p : Position}
    {text : List Char} {all : List Token} (h : r.tokens fuel p text = .ok all) :
    ∃ ts finish, all = ts ++ [⟨.finish, "", finish⟩] := by
  induction fuel generalizing p text all with
  | zero =>
      cases h
      exact ⟨[], _, rfl⟩
  | succ fuel ih =>
      obtain ⟨here, -, h⟩ := bind_eq_ok h
      cases here with
      | nil =>
          cases h
          exact ⟨[], _, rfl⟩
      | cons c rest =>
          obtain ⟨⟨kind, left⟩, -, h⟩ := bind_eq_ok h
          obtain ⟨more, hmore, h⟩ := bind_eq_ok h
          obtain ⟨ts, finish, rfl⟩ := ih hmore
          cases h
          exact ⟨_ :: ts, finish, rfl⟩

theorem tokenize_eq_ok {source : String} {file : Option String} {tokens : List Token}
    (h : tokenize source file = .ok tokens) :
    ∃ ts finish, tokens = ts ++ [⟨.finish, "", finish⟩] :=
  Lexer.Reading.tokens_eq_ok h

theorem parseTokens_eq_ok_iff {lines : List String} {ts : List Token} {lexeme : String}
    {finish : Span} {tree : Node} :
    parseTokens lines (ts ++ [⟨.finish, lexeme, finish⟩]) = .ok tree ↔
      Parser.script finish ts = .ok tree := by
  simp [parseTokens, mapError_eq_ok]

/-- The tokens of any text are parsed to a tree exactly if the grammar relates them, all but the end
in order, to it, no more than 64 expressions, signs and statements of functions are open at a time,
and no node is more than 200 levels below the root. The grammar relates them to one tree at most. -/
theorem parseTokens_eq_ok_iff_script {source : String} {file : Option String}
    {tokens : List Token} (h : tokenize source file = .ok tokens) (lines : List String) :
    ∃ ts finish, tokens = ts ++ [⟨.finish, "", finish⟩] ∧
      (∀ tree, parseTokens lines tokens = .ok tree ↔
        ∃ n bare, Grammar.Script finish n ts bare ∧ n ≤ 64 ∧ bare.DepthWithin 200 ∧
          tree = bare.withPaths) ∧
      (∀ n n' bare bare', Grammar.Script finish n ts bare → Grammar.Script finish n' ts bare' →
        n = n' ∧ bare = bare') := by
  obtain ⟨ts, finish, rfl⟩ := tokenize_eq_ok h
  refine ⟨ts, finish, rfl, fun tree => ?_, fun n n' bare bare' hbare hbare' => hbare.unique hbare'⟩
  rw [parseTokens_eq_ok_iff]
  exact Grammar.script_eq_ok_iff

/-- A pipe whose second stage stands on a line of its own is related to a tree. -/
theorem parseTokens_eq_ok_iff_script_pipe :
    ∃ tokens tree, tokenize "f(1)\n|> g(%, [])" none = .ok tokens ∧
      parseTokens (Text.linesOf "f(1)\n|> g(%, [])") tokens = .ok tree ∧
      ∃ ts finish n bare, tokens = ts ++ [⟨.finish, "", finish⟩] ∧
        Grammar.Script finish n ts bare ∧ n ≤ 64 ∧ bare.DepthWithin 200 ∧
        tree = bare.withPaths := by
  have hparse : (parse "f(1)\n|> g(%, [])" none).toOption.isSome = true := by decide +kernel
  obtain ⟨tree, htree⟩ := exists_of_isSome_toOption hparse
  obtain ⟨tokens, htokens, htree⟩ := bind_eq_ok htree
  obtain ⟨ts, finish, hts, hiff, -⟩ := parseTokens_eq_ok_iff_script htokens
    (Text.linesOf "f(1)\n|> g(%, [])")
  obtain ⟨n, bare, hbare, hn, hdepth, hpaths⟩ := (hiff tree).1 htree
  exact ⟨tokens, tree, htokens, htree, ts, finish, n, bare, hts, hbare, hn, hdepth, hpaths⟩

end PartScript
