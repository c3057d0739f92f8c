import PartScript.Proofs.Grammar.Extent

/-!
Every phrase of the grammar is read. With enough room for its nesting the reader for a level returns
the node of the phrase and the tokens behind it; with less room the reader refuses it as nested too
deep, and with no other complaint. A level that groups to the left is read by a loop, so the statement
about it speaks of what the loop does from there on.

Since readers are functions, a text has one tree and one nesting at most.
-/

namespace PartScript.Grammar

open PartScript.Parser

variable {α β : Type}

/-! ### The outcome of reading -/

/-- Reading something of a nesting gives a value if there is room for it, and is refused as nested too
deep otherwise. -/
def Reads (room n : Nat) (result : Except Wrong α) (value : α) : Prop :=
  (n ≤ room → result = .ok value) ∧
    (room < n → ∃ place, result = .error ⟨.nestedTooDeep maxNesting, place⟩)

theorem reads_ok (room : Nat) (value : α) : Reads room 0 (.ok value) value :=
  ⟨fun _ => rfl, fun h => absurd h (Nat.not_lt_zero _)⟩

theorem Reads.bind {room n m : Nat} {x : Except Wrong α} {v : α} {f : α → Except Wrong β} {w : β}
    (hx : Reads room n x v) (hf : Reads room m (f v) w) : Reads room (max n m) (x >>= f) w := by
  constructor
  · intro h
    rw [hx.1 (by omega)]
    exact hf.1 (by omega)
  · intro h
    by_cases hn : n ≤ room
    · rw [hx.1 hn]
      exact hf.2 (by omega)
    · obtain ⟨place, herror⟩ := hx.2 (by omega)
      exact ⟨place, by rw [herror]; rfl⟩

/-- What is done with a value once it is read cannot fail. -/
theorem Reads.andThen {room n : Nat} {x : Except Wrong α} {v : α} {f : α → Except Wrong β} {w : β}
    (hx : Reads room n x v) (hf : f v = .ok w) : Reads room n (x >>= f) w := by
  have h := hx.bind (hf ▸ reads_ok room w)
  rwa [Nat.max_zero] at h

/-- A further level takes one unit of room. -/
theorem Reads.succ {room n : Nat} {x : Except Wrong α} {v : α} (h : Reads room n x v) :
    Reads (room + 1) (n + 1) x v :=
  ⟨fun hn => h.1 (by omega), fun hn => h.2 (by omega)⟩

/-- Two phrases that are read from the same tokens are the same. -/
theorem Reads.unique {n m : Nat} {x : Nat → Except Wrong α} {v w : α}
    (hv : ∀ room, Reads room n (x room) v) (hw : ∀ room, Reads room m (x room) w) :
    n = m ∧ v = w := by
  have hvalue : v = w := by
    have hv' := (hv (max n m)).1 (by omega)
    have hw' := (hw (max n m)).1 (by omega)
    rw [hv'] at hw'
    exact Except.ok.inj hw'
  refine ⟨?_, hvalue⟩
  -- At the smaller of two nestings one phrase would be read and the other one refused.
  rcases Nat.lt_trichotomy n m with h | h | h
  · obtain ⟨place, herror⟩ := (hw n).2 h
    rw [(hv n).1 (Nat.le_refl _)] at herror
    cases herror
  · exact h
  · obtain ⟨place, herror⟩ := (hv m).2 h
    rw [(hw m).1 (Nat.le_refl _)] at herror
    cases herror

/-! ### Tokens -/

theorem isSymbol_eq_true {t : Token} {m : Symbol} : t.isSymbol m = true ↔ t.kind = .symbol m := by
  simp [Token.isSymbol]

theorem isSymbol_eq_false {t : Token} {m : Symbol} : t.isSymbol m = false ↔ t.kind ≠ .symbol m := by
  simp [Token.isSymbol]

theorem takeSymbol_cons {t : Token} {m : Symbol} (rest : List Token) (h : t.kind = .symbol m) :
    takeSymbol m (t :: rest) = .ok (t, rest) := by
  simp [takeSymbol, isSymbol_eq_true.2 h]

theorem takeName_cons {t : Token} {name : String} (expected : Expectation) (rest : List Token)
    (h : t.kind = .identifier name) :
    takeName expected (t :: rest) = .ok (.at t.span name, rest) := by
  simp [takeName, h]

theorem ProductSign.operator {t : Token} {m : Symbol} {op : BinaryOp} (h : ProductSign m op)
    (ht : t.kind = .symbol m) : productOperator? t = some op := by
  cases h <;> simp [productOperator?, ht]

theorem SumSign.operator {t : Token} {m : Symbol} {op : BinaryOp} (h : SumSign m op)
    (ht : t.kind = .symbol m) : sumOperator? t = some op := by
  cases h <;> simp [sumOperator?, ht]

theorem FrontSign.operator {t : Token} {m : Symbol} {op : UnaryOp} (h : FrontSign m op)
    (ht : t.kind = .symbol m) : sign? t = some op := by
  cases h <;> simp [sign?, ht]

theorem productOperator?_eq_some {t : Token} {op : BinaryOp} (h : productOperator? t = some op) :
    ∃ m, t.kind = .symbol m ∧ ProductSign m op := by
  unfold productOperator? at h
  split at h <;> cases h
  · exact ⟨_, ‹_›, .star⟩
  · exact ⟨_, ‹_›, .slash⟩
  · exact ⟨_, ‹_›, .percent⟩

theorem sumOperator?_eq_some {t : Token} {op : BinaryOp} (h : sumOperator? t = some op) :
    ∃ m, t.kind = .symbol m ∧ SumSign m op := by
  unfold sumOperator? at h
  split at h <;> cases h
  · exact ⟨_, ‹_›, .plus⟩
  · exact ⟨_, ‹_›, .minus⟩

theorem sign?_eq_some {t : Token} {op : UnaryOp} (h : sign? t = some op) :
    ∃ m, t.kind = .symbol m ∧ FrontSign m op := by
  unfold sign? at h
  split at h <;> cases h
  · exact ⟨_, ‹_›, .minus⟩
  · exact ⟨_, ‹_›, .bang⟩

theorem declarator?_eq_some {word : Keyword} {d : Declarator} (h : declarator? word = some d) :
    DeclaringWord word d := by
  unfold declarator? at h
  split at h <;> cases h
  · exact .constWord
  · exact .letWord
  · exact .varWord
  · exact .fnWord

/-- The head of a function is found exactly where there is one. -/
theorem functionHead?_eq_some_iff {ts rest : List Token} {params : List Ident} :
    functionHead? ts = some (params, rest) ↔ Head ts params rest := by
  constructor
  · intro h
    fun_induction functionHead? ts generalizing params with
    | case1 t u rest' hu ht =>
        obtain ⟨rfl, rfl⟩ := Prod.mk.inj (Option.some.inj h)
        exact .nil ht hu
    | case2 t u rest' name hu ht ih =>
        obtain ⟨⟨params', rest''⟩, hmore, heq⟩ := Option.map_eq_some_iff.1 h
        obtain ⟨rfl, rfl⟩ := Prod.mk.inj heq
        exact .more ht hu (ih hmore)
    | case3 => cases h
    | case4 t u name hu ht v after hv =>
        obtain ⟨rfl, rfl⟩ := Prod.mk.inj (Option.some.inj h)
        exact .last ht hu (isSymbol_eq_true.1 hv)
    | case5 => cases h
    | case6 => cases h
    | case7 => cases h
  · intro h
    induction h with
    | nil ht hu => simp [functionHead?, ht, hu]
    | last ht hu hv => simp [functionHead?, ht, hu, isSymbol_eq_true.2 hv]
    | more ht hu _ ih => simp [functionHead?, ht, hu, ih]

theorem functionHead?_eq_none {ts : List Token} (h : ∀ params us, ¬ Head ts params us) :
    functionHead? ts = none := by
  cases hhead : functionHead? ts with
  | none => rfl
  | some found => exact absurd (functionHead?_eq_some_iff.1 hhead) (h found.1 found.2)

/-! ### Steps of the loops -/

theorem productOperator?_eq_none {t : Token} {after : List Token} (h : NoProduct (t :: after)) :
    productOperator? t = none := by
  cases hop : productOperator? t with
  | none => rfl
  | some op =>
      obtain ⟨m, ht, hm⟩ := productOperator?_eq_some hop
      exact absurd ht (h t after rfl m op hm)

theorem sumOperator?_eq_none {t : Token} {after : List Token} (h : NoSum (t :: after)) :
    sumOperator? t = none := by
  cases hop : sumOperator? t with
  | none => rfl
  | some op =>
      obtain ⟨m, ht, hm⟩ := sumOperator?_eq_some hop
      exact absurd ht (h t after rfl m op hm)

/-- A chain stops in front of a token that is none of its operators. -/
theorem chain_stop {operator? : Token → Option BinaryOp} (operand : Reader Node) (fuel : Nat)
    (e : Node) {rest : List Token}
    (h : ∀ t after, rest = t :: after → operator? t = none) :
    chain operator? operand fuel e rest = .ok (e, rest) := by
  cases fuel with
  | zero => rfl
  | succ fuel =>
      cases rest with
      | nil => rfl
      | cons t after => simp [chain, h t after rfl]

theorem chain_cons {operator? : Token → Option BinaryOp} {operand : Reader Node} {room n m : Nat}
    {t : Token} {op : BinaryOp} {us rest : List Token} {l r : Node} {w : Node × List Token}
    {fuel : Nat} (ht : operator? t = some op) (hr : Reads room n (operand us) (r, rest))
    (hmore : Reads room m
      (chain operator? operand fuel (.binary (.at (l.span.upTo r.span)) op l r) rest) w) :
    Reads room (max n m) (chain operator? operand (fuel + 1) l (t :: us)) w := by
  simp only [chain, ht]
  exact hr.bind hmore

/-- Calls and members stop where no suffix goes on. -/
theorem suffixes_stop (expression : Reader Node) (fuel : Nat) {e : Node} {ts rest : List Token}
    (hends : Ends ts e.span.stop rest) (h : NoSuffix ts rest) :
    suffixes expression fuel e rest = .ok (e, rest) := by
  cases fuel with
  | zero => rfl
  | succ fuel =>
      cases rest with
      | nil => rfl
      | cons t after =>
          obtain ⟨hdot, hopen⟩ := h t after rfl
          have hline (hm : t.kind = .symbol .lbracket ∨ t.kind = .symbol .lparen) :
              onSameLine e t = false := by
            have hnot := hopen hm
            rw [hends.adjoins_iff] at hnot
            simpa [onSameLine] using hnot
          have hbracket : (t.isSymbol .lbracket && onSameLine e t) = false := by
            by_cases hm : t.kind = .symbol .lbracket
            · simp [hline (.inl hm)]
            · simp [isSymbol_eq_false.2 hm]
          have hparen : (t.isSymbol .lparen && onSameLine e t) = false := by
            by_cases hm : t.kind = .symbol .lparen
            · simp [hline (.inr hm)]
            · simp [isSymbol_eq_false.2 hm]
          simp [suffixes, isSymbol_eq_false.2 hdot, hbracket, hparen]

/-- A bracket or parenthesis that adjoins a phrase is on the line where its node ends. -/
theorem Ends.onSameLine {e : Node} {t : Token} {ts after : List Token}
    (hends : Ends ts e.span.stop (t :: after)) (h : Adjoins ts t after) :
    onSameLine e t = true := by
  simpa [Parser.onSameLine] using hends.adjoins_iff.1 h

theorem items_nil {c : Symbol} (item : Reader Node) (fuel : Nat) {t : Token} (rest : List Token)
    (ht : t.kind = .symbol c) :
    items c item (fuel + 1) (t :: rest) = .ok (([], t), rest) := by
  have hfound : (some t).filter (·.isSymbol c) = some t := by
    simp [Option.filter, isSymbol_eq_true.2 ht]
  simp only [items, List.head?_cons, hfound, List.drop_one, List.tail_cons]

/-- The tokens do not start with a closing symbol. -/
def NotAt (c : Symbol) (ts : List Token) : Prop :=
  ts.head?.filter (·.isSymbol c) = none

theorem Starts.notAt {p : TokenKind → Bool} {ts : List Token} (h : Starts p ts) {c : Symbol}
    (hc : p (.symbol c) = false) : NotAt c ts := by
  obtain ⟨t, after, rfl, ht⟩ := h
  have hne : t.kind ≠ .symbol c := by
    intro heq
    rw [heq, hc] at ht
    cases ht
  simp [NotAt, isSymbol_eq_false.2 hne]

theorem items_last {c : Symbol} {item : Reader Node} (fuel : Nat) {room n : Nat}
    {ts rest : List Token} {e : Node} {t : Token} (hts : NotAt c ts)
    (he : Reads room n (item ts) (e, t :: rest)) (ht : t.kind = .symbol c) (hc : c ≠ .comma) :
    Reads room n (items c item (fuel + 1) ts) (([e], t), rest) := by
  have hcomma : t.isSymbol .comma = false := by
    rw [isSymbol_eq_false, ht]
    simpa using hc
  rw [items, hts]
  refine he.andThen ?_
  simp [hcomma, isSymbol_eq_true.2 ht, pure, Except.pure]

theorem items_more {c : Symbol} {item : Reader Node} {fuel room n m : Nat}
    {ts us rest : List Token} {e : Node} {es : List Node} {t last : Token} (hts : NotAt c ts)
    (he : Reads room n (item ts) (e, t :: us)) (ht : t.kind = .symbol .comma)
    (hmore : Reads room m (items c item fuel us) ((es, last), rest)) :
    Reads room (max n m) (items c item (fuel + 1) ts) ((e :: es, last), rest) := by
  rw [items, hts]
  refine he.bind ?_
  simp only [isSymbol_eq_true.2 ht, if_true]
  exact hmore.andThen rfl

theorem block_nil (statement : Reader Node) (fuel : Nat) {t : Token} (rest : List Token)
    (ht : t.kind = .symbol .rbrace) :
    block statement (fuel + 1) (t :: rest) = .ok (([], t), rest) := by
  simp [block, isSymbol_eq_true.2 ht]

theorem block_cons {statement : Reader Node} {fuel room n m : Nat} {ts us rest : List Token}
    {e : Node} {es : List Node} {last : Token}
    (hts : Starts startsStatement ts)
    (he : Reads room n (statement ts) (e, us))
    (hmore : Reads room m (block statement fuel us) ((es, last), rest)) :
    Reads room (max n m) (block statement (fuel + 1) ts) ((e :: es, last), rest) := by
  obtain ⟨t, after, rfl, ht⟩ := hts
  have hbrace : t.isSymbol .rbrace = false := by
    rw [isSymbol_eq_false]
    intro heq
    rw [heq] at ht
    cases ht
  simp only [block, hbrace]
  exact he.bind (hmore.andThen rfl)

theorem stages_stop (stage : Reader Node) (fuel : Nat) {rest : List Token} (h : NoPipe rest) :
    stages stage fuel rest = .ok ([], rest) := by
  cases fuel with
  | zero => rfl
  | succ fuel =>
      cases rest with
      | nil => rfl
      | cons t after => simp [stages, isSymbol_eq_false.2 (h t after rfl)]

theorem stages_cons {stage : Reader Node} {fuel room n m : Nat} {t : Token}
    {ts us rest : List Token} {e : Node} {es : List Node} (ht : t.kind = .symbol .pipe)
    (he : Reads room n (stage ts) (e, us)) (hcall : e.isCall = true)
    (hmore : Reads room m (stages stage fuel us) (es, rest)) :
    Reads room (max n m) (stages stage (fuel + 1) (t :: ts)) (e :: es, rest) := by
  simp only [stages, isSymbol_eq_true.2 ht, if_true]
  refine he.bind ?_
  simp only [hcall, if_true]
  exact hmore.andThen rfl

theorem joinStages_cons (first x : Node) (xs : List Node) :
    joinStages first (x :: xs) =
      .pipe (.at (first.span.upTo ((x :: xs).getLast (by simp)).span)) (first :: x :: xs) := by
  simp [joinStages, List.getLast?_eq_some_getLast]

/-- Without room everything is refused. -/
theorem refused {n : Nat} (s : Setting) (ts : List Token) (hn : 0 < n)
    (value : Node × List Token) : Reads 0 n (refuse s ts) value :=
  ⟨fun h => absurd h (Nat.not_le_of_lt hn), fun _ => ⟨_, rfl⟩⟩

theorem product_stops {s : Setting} {e : Node} {rest : List Token} (room : Nat)
    (h : NoProduct rest) (fuel : Nat) (_ : rest.length ≤ fuel) :
    Reads room 0 (chain productOperator? (operand (inner room) s) fuel e rest) (e, rest) := by
  rw [chain_stop _ _ _ fun t after heq => productOperator?_eq_none (heq ▸ h)]
  exact reads_ok room _

theorem sum_stops {s : Setting} {e : Node} {rest : List Token} (room : Nat)
    (h : NoSum rest) (fuel : Nat) (_ : rest.length ≤ fuel) :
    Reads room 0 (chain sumOperator? (leftGrouped productOperator? (operand (inner room) s))
      fuel e rest) (e, rest) := by
  rw [chain_stop _ _ _ fun t after heq => sumOperator?_eq_none (heq ▸ h)]
  exact reads_ok room _

/-- An operand without a sign is an atom with calls and members behind it. -/
theorem operand_of_starts (inner : Inner) (s : Setting) {ts : List Token}
    (h : Starts startsAtom ts) : operand inner s ts = suffixed inner s ts := by
  obtain ⟨t, after, rfl, ht⟩ := h
  have hsign : sign? t = none := by
    cases hop : sign? t with
    | none => rfl
    | some op =>
        obtain ⟨m, hm, hfront⟩ := sign?_eq_some hop
        rw [hm] at ht
        cases hfront <;> cases ht
  simp only [operand, hsign]

/-- A statement that starts like an expression is one. -/
theorem statement_of_starts (expression : Rule) (s : Setting) {ts : List Token}
    (h : Starts startsExpression ts) :
    statement expression s ts = expressionStatement (expression s) ts := by
  obtain ⟨t, after, rfl, ht⟩ := h
  cases hkind : t.kind with
  | keyword word =>
      rw [hkind] at ht
      cases word <;> first | (simp [statement, hkind, declarator?]; done) | cases ht
  | number | string | identifier | symbol | finish => simp [statement, hkind]

theorem Entry.notAt {s : Setting} {n : Nat} {ts : List Token} {e : Node} {rest : List Token}
    (h : Entry s n ts e rest) : NotAt .rbrace ts := by
  obtain ⟨ht, _, _⟩ := h
  simp [NotAt, Token.isSymbol, ht]

/-! ### Phrases -/

mutual

theorem Atom.reads {s : Setting} {n : Nat} {ts : List Token} {e : Node} {rest : List Token} :
    Atom s n ts e rest → ∀ room, Reads room n (atom (inner room) s ts) (e, rest)
  | .number ht => fun room => by
      simp only [atom, ht]
      exact reads_ok room _
  | .string ht => fun room => by
      simp only [atom, ht]
      exact reads_ok room _
  | .trueWord ht => fun room => by
      simp only [atom, ht]
      exact reads_ok room _
  | .falseWord ht => fun room => by
      simp only [atom, ht]
      exact reads_ok room _
  | .name ht => fun room => by
      simp only [atom, ht]
      exact reads_ok room _
  | .hole ht hs => fun room => by
      simp only [atom, ht, hs, if_true]
      exact reads_ok room _
  | .array ht h _ => fun room => by
      simp only [atom, ht]
      exact (h.reads room _ _ _ rfl rfl (by simp) (Nat.lt_succ_self _)).andThen rfl
  | .object ht h _ => fun room => by
      simp only [atom, ht]
      exact (h.reads room _ _ _ rfl (Nat.lt_succ_self _)).andThen rfl
  | .function ht hhead hu h _ => fun room => by
      simp only [atom, ht, functionHead?_eq_some_iff.2 hhead, functionBody, takeSymbol_cons _ hu]
      exact (h.reads room _ _ _ rfl (Nat.lt_succ_self _)).andThen rfl
  | .parens ht hhead h hu => fun room => by
      simp only [atom, ht, functionHead?_eq_none hhead]
      refine (h.reads room).andThen ?_
      simp only [takeSymbol_cons _ hu]
      rfl

/-- What the loop over calls and members does behind the phrase, the reader does with the phrase in
front. -/
theorem Suffixed.reads {s : Setting} {n : Nat} {ts : List Token} {e : Node} {us : List Token} :
    Suffixed s n ts e us → ∀ room m w,
      (∀ fuel, us.length ≤ fuel →
        Reads room m (suffixes ((inner room).expression s) fuel e us) w) →
      Reads room (max n m) (suffixed (inner room) s ts) w
  | .atom h => fun room m w hgo => (h.reads room).bind (hgo _ (Nat.le_refl _))
  | .member h ht hu => fun room m w hgo => by
      refine h.reads room m w fun fuel hfuel => ?_
      obtain ⟨fuel, rfl⟩ := Nat.exists_eq_add_of_le' (Nat.lt_of_lt_of_le (Nat.succ_pos _) hfuel)
      simp only [suffixes, isSymbol_eq_true.2 ht, if_true, takeName_cons _ _ hu]
      exact hgo fuel (by simp at hfuel; omega)
  | @Suffixed.index _ n k ts e t us key v rest h ht hline hkey hv => fun room m w hgo => by
      have hends := h.ends
      have hlen := hkey.ends.length_lt
      have hstep := h.reads room (max k m) w fun fuel hfuel => by
        obtain ⟨fuel, rfl⟩ := Nat.exists_eq_add_of_le' (Nat.lt_of_lt_of_le (Nat.succ_pos _) hfuel)
        have hdot : t.isSymbol .dot = false := by simp [Token.isSymbol, ht]
        simp only [suffixes, hdot, isSymbol_eq_true.2 ht, hends.onSameLine hline, Bool.and_self,
          if_true]
        refine (hkey.reads room).bind ?_
        simp only [takeSymbol_cons _ hv]
        exact hgo fuel (by simp at hfuel hlen; omega)
      rwa [← Nat.max_assoc] at hstep
  | @Suffixed.call _ n k ts callee t us args v rest h ht hline hargs hv => fun room m w hgo => by
      have hends := h.ends
      have hlen := hargs.suffix.length_le
      have hstep := h.reads room (max k m) w fun fuel hfuel => by
        obtain ⟨fuel, rfl⟩ := Nat.exists_eq_add_of_le' (Nat.lt_of_lt_of_le (Nat.succ_pos _) hfuel)
        have hdot : t.isSymbol .dot = false := by simp [Token.isSymbol, ht]
        have hbracket : t.isSymbol .lbracket = false := by simp [Token.isSymbol, ht]
        simp only [suffixes, hdot, hbracket, isSymbol_eq_true.2 ht, hends.onSameLine hline,
          Bool.and_self, Bool.false_and, if_true]
        refine (hargs.reads room _ _ _ rfl rfl (by simp) (Nat.lt_succ_self _)).bind ?_
        exact hgo fuel (by simp at hfuel hlen; omega)
      rwa [← Nat.max_assoc] at hstep

theorem Operand.reads {s : Setting} {n : Nat} {ts : List Token} {e : Node} {rest : List Token} :
    Operand s n ts e rest → ∀ room, Reads room n (operand (inner room) s ts) (e, rest)
  | .suffixed h hstop => fun room => by
      have hends := h.ends
      have hread := h.reads room 0 (e, rest) fun fuel _ => by
        rw [suffixes_stop _ _ hends hstop]
        exact reads_ok room _
      rw [Nat.max_zero] at hread
      rwa [operand_of_starts _ _ h.starts]
  | .sign ht hm h => fun room => by
      simp only [operand, hm.operator ht]
      have hread := h.reads
      cases room with
      | zero => exact (refused s _ (Nat.succ_pos _) (_, _)).andThen rfl
      | succ room => exact (hread room).succ.andThen rfl

/-- What the chain of products does behind the phrase, the reader does with the phrase in front. -/
theorem Product.reads {s : Setting} {n : Nat} {ts : List Token} {e : Node} {us : List Token} :
    Product s n ts e us → ∀ room m w,
      (∀ fuel, us.length ≤ fuel →
        Reads room m (chain productOperator? (operand (inner room) s) fuel e us) w) →
      Reads room (max n m) (leftGrouped productOperator? (operand (inner room) s) ts) w
  | .first h => fun room m w hgo => (h.reads room).bind (hgo _ (Nat.le_refl _))
  | .more h ht hm hr => fun room m w hgo => by
      have hlen := hr.ends.length_lt
      have hread := hr.reads room
      rw [Nat.max_assoc]
      refine h.reads room _ w fun fuel hfuel => ?_
      obtain ⟨fuel, rfl⟩ := Nat.exists_eq_add_of_le' (Nat.lt_of_lt_of_le (Nat.succ_pos _) hfuel)
      exact chain_cons (hm.operator ht) hread (hgo fuel (by simp at hfuel; omega))

/-- What the chain of sums does behind the phrase, the reader does with the phrase in front. -/
theorem Sum.reads {s : Setting} {n : Nat} {ts : List Token} {e : Node} {us : List Token} :
    Sum s n ts e us → ∀ room m w,
      (∀ fuel, us.length ≤ fuel →
        Reads room m (chain sumOperator?
          (leftGrouped productOperator? (operand (inner room) s)) fuel e us) w) →
      Reads room (max n m) (sum (operand (inner room) s) ts) w
  | .first h hstop => fun room m w hgo => by
      have hread := h.reads room 0 _ (product_stops room hstop)
      rw [Nat.max_zero] at hread
      exact hread.bind (hgo _ (Nat.le_refl _))
  | .more h ht hm hr hstop => fun room m w hgo => by
      have hlen := hr.ends.length_lt
      have hread := hr.reads room 0 _ (product_stops room hstop)
      rw [Nat.max_zero] at hread
      rw [Nat.max_assoc]
      refine h.reads room _ w fun fuel hfuel => ?_
      obtain ⟨fuel, rfl⟩ := Nat.exists_eq_add_of_le' (Nat.lt_of_lt_of_le (Nat.succ_pos _) hfuel)
      exact chain_cons (hm.operator ht) hread (hgo fuel (by simp at hfuel; omega))

theorem Stages.reads {s : Setting} {n : Nat} {ts : List Token} {es : List Node}
    {rest : List Token} : Stages s n ts es rest → ∀ room fuel, ts.length ≤ fuel →
      Reads room n (stages (sum (operand (inner room) { s with inStage := true })) fuel ts)
        (es, rest)
  | .nil hstop => fun room fuel _ => by
      rw [stages_stop _ _ hstop]
      exact reads_ok room _
  | .cons ht h hstop hcall hmore => fun room fuel hfuel => by
      have hlen := h.ends.length_lt
      have hread := h.reads room 0 _ (sum_stops room hstop)
      rw [Nat.max_zero] at hread
      have hrest := hmore.reads room
      obtain ⟨fuel, rfl⟩ := Nat.exists_eq_add_of_le' (Nat.lt_of_lt_of_le (Nat.succ_pos _) hfuel)
      exact stages_cons ht hread hcall (hrest fuel (by simp at hfuel; omega))

theorem Expression.reads {s : Setting} {n : Nat} {ts : List Token} {e : Node}
    {rest : List Token} : Expression s n ts e rest → ∀ room,
      Reads room n ((inner room).expression s ts) (e, rest)
  | .sum h hsum hpipe => fun room => by
      have hread := fun room => h.reads room 0 _ (sum_stops room hsum)
      cases room with
      | zero => exact refused s _ (Nat.succ_pos _) _
      | succ room =>
          refine Reads.succ ?_
          have hfirst := hread room
          rw [Nat.max_zero] at hfirst
          refine hfirst.andThen ?_
          simp only [stages_stop _ _ hpipe]
          rfl
  | .pipe h hsum hstages => fun room => by
      have hread := fun room => h.reads room 0 _ (sum_stops room hsum)
      have hmore := fun room => hstages.reads room _ (Nat.le_refl _)
      cases room with
      | zero => exact refused s _ (Nat.succ_pos _) _
      | succ room =>
          refine Reads.succ ?_
          have hfirst := hread room
          rw [Nat.max_zero] at hfirst
          rw [← joinStages_cons]
          exact hfirst.bind ((hmore room).andThen rfl)

theorem Items.reads {c : Symbol} {s : Setting} {n : Nat} {ts : List Token} {es : List Node}
    {us : List Token} : Items c s n ts es us → ∀ room fuel t rest, us = t :: rest →
      startsExpression (.symbol c) = false → c ≠ .comma → ts.length < fuel →
      Reads room n (items c ((inner room).expression s) fuel ts) ((es, t), rest)
  | .nil ht => fun room fuel t rest heq _ _ hfuel => by
      obtain ⟨fuel, rfl⟩ := Nat.exists_eq_add_of_le' (Nat.lt_of_le_of_lt (Nat.zero_le _) hfuel)
      obtain ⟨rfl, rfl⟩ := List.cons.inj heq
      rw [items_nil _ _ _ ht]
      exact reads_ok room _
  | .last h ht => fun room fuel t rest heq hstart hcomma hfuel => by
      obtain ⟨fuel, rfl⟩ := Nat.exists_eq_add_of_le' (Nat.lt_of_le_of_lt (Nat.zero_le _) hfuel)
      have hread := h.reads room
      obtain ⟨rfl, rfl⟩ := List.cons.inj heq
      exact items_last fuel (h.starts.notAt hstart) hread ht hcomma
  | .more h ht hmore => fun room fuel t rest heq hstart hcomma hfuel => by
      obtain ⟨fuel, rfl⟩ := Nat.exists_eq_add_of_le' (Nat.lt_of_le_of_lt (Nat.zero_le _) hfuel)
      have hlen := h.ends.length_lt
      have hrest := hmore.reads room fuel t rest heq hstart hcomma (by simp at hlen; omega)
      exact items_more (h.starts.notAt hstart) (h.reads room) ht hrest

theorem Entries.reads {s : Setting} {n : Nat} {ts : List Token} {es : List Node}
    {us : List Token} : Entries s n ts es us → ∀ room fuel t rest, us = t :: rest →
      ts.length < fuel →
      Reads room n (items .rbrace (property ((inner room).expression s)) fuel ts) ((es, t), rest)
  | .nil ht => fun room fuel t rest heq hfuel => by
      obtain ⟨fuel, rfl⟩ := Nat.exists_eq_add_of_le' (Nat.lt_of_le_of_lt (Nat.zero_le _) hfuel)
      obtain ⟨rfl, rfl⟩ := List.cons.inj heq
      rw [items_nil _ _ _ ht]
      exact reads_ok room _
  | .last h ht => fun room fuel t rest heq hfuel => by
      obtain ⟨fuel, rfl⟩ := Nat.exists_eq_add_of_le' (Nat.lt_of_le_of_lt (Nat.zero_le _) hfuel)
      have hread := h.reads room
      obtain ⟨rfl, rfl⟩ := List.cons.inj heq
      exact items_last fuel h.notAt hread ht (by simp)
  | .more h ht hmore => fun room fuel t rest heq hfuel => by
      obtain ⟨fuel, rfl⟩ := Nat.exists_eq_add_of_le' (Nat.lt_of_le_of_lt (Nat.zero_le _) hfuel)
      have hlen := h.ends.length_lt
      have hrest := hmore.reads room fuel t rest heq (by simp at hlen; omega)
      exact items_more h.notAt (h.reads room) ht hrest

theorem Entry.reads {s : Setting} {n : Nat} {ts : List Token} {e : Node} {rest : List Token} :
    Entry s n ts e rest → ∀ room,
      Reads room n (property ((inner room).expression s) ts) (e, rest)
  | .mk ht hu h => fun room => by
      simp only [property, takeName_cons _ _ ht, ok_bind,
        takeSymbol_cons _ hu]
      exact (h.reads room).andThen rfl

theorem Block.reads {n : Nat} {ts : List Token} {es : List Node} {us : List Token} :
    Block n ts es us → ∀ room fuel t rest, us = t :: rest → ts.length < fuel →
      Reads room n (block ((inner room).statement ⟨false, true⟩) fuel ts) ((es, t), rest)
  | .nil ht => fun room fuel t rest heq hfuel => by
      obtain ⟨fuel, rfl⟩ := Nat.exists_eq_add_of_le' (Nat.lt_of_le_of_lt (Nat.zero_le _) hfuel)
      obtain ⟨rfl, rfl⟩ := List.cons.inj heq
      rw [block_nil _ _ _ ht]
      exact reads_ok room _
  | .cons h hmore => fun room fuel t rest heq hfuel => by
      obtain ⟨fuel, rfl⟩ := Nat.exists_eq_add_of_le' (Nat.lt_of_le_of_lt (Nat.zero_le _) hfuel)
      have hlen := h.ends.length_lt
      have hread := h.reads
      have hrest := hmore.reads room fuel t rest heq (by omega)
      refine block_cons h.starts ?_ hrest
      cases room with
      | zero => exact refused ⟨false, true⟩ _ (Nat.succ_pos _) _
      | succ room => exact (hread room).succ

theorem Statement.reads {s : Setting} {n : Nat} {ts : List Token} {e : Node} {rest : List Token} :
    Statement s n ts e rest → ∀ room,
      Reads room n (statement (inner room).expression s ts) (e, rest)
  | .expression h => fun room => by
      rw [statement_of_starts _ _ h.starts]
      exact (h.reads room).andThen rfl
  | .declaration ht hword hu hv h => fun room => by
      have hread := h.reads room
      cases hword <;>
        simp only [statement, ht, declarator?, declaration, takeName_cons _ _ hu,
          ok_bind, takeSymbol_cons _ hv] <;>
        exact hread.andThen rfl
  | .giveBack ht hs h => fun room => by
      simp only [statement, ht, hs, if_true]
      exact (h.reads room).andThen rfl

end

end PartScript.Grammar
