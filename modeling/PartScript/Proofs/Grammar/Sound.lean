import PartScript.Proofs.Grammar.Reading

/-!
Whatever is read is a phrase of the grammar, and its nesting fits into the room there was. The
argument is by induction on the room: the readers with some room are made from the readers with less,
so each reader is shown to be sound for readers of nested parts that are sound. The loops are opened
once, one step at a time, by lemmas that say how a step that succeeds can come about.
-/

namespace PartScript.Grammar

open PartScript.Parser

/-- Whatever a reader reads with some room is a phrase whose nesting fits. -/
def Sound (room : Nat) (phrase : Nat → List Token → Node → List Token → Prop)
    (reader : Reader Node) : Prop :=
  ∀ ts e rest, reader ts = .ok (e, rest) → ∃ n, n ≤ room ∧ phrase n ts e rest

/-! ### How a reader succeeds -/

theorem takeSymbol_eq_ok {m : Symbol} {ts rest : List Token} {t : Token}
    (h : takeSymbol m ts = .ok (t, rest)) : ts = t :: rest ∧ t.kind = .symbol m := by
  cases ts with
  | nil => cases h
  | cons u after =>
      simp only [takeSymbol] at h
      split at h
      · rename_i hu
        obtain ⟨rfl, rfl⟩ := Prod.mk.inj (Except.ok.inj h)
        exact ⟨rfl, isSymbol_eq_true.1 hu⟩
      · cases h

theorem takeName_eq_ok {expected : Expectation} {ts rest : List Token} {i : Ident}
    (h : takeName expected ts = .ok (i, rest)) :
    ∃ t name, ts = t :: rest ∧ t.kind = .identifier name ∧ i = .at t.span name := by
  cases ts with
  | nil => cases h
  | cons u after =>
      simp only [takeName] at h
      split at h
      · rename_i name hu
        obtain ⟨rfl, rfl⟩ := Prod.mk.inj (Except.ok.inj h)
        exact ⟨u, name, rfl, hu, rfl⟩
      · cases h

theorem items_eq_ok {c : Symbol} {item : Reader Node} {fuel : Nat} {ts rest : List Token}
    {es : List Node} {last : Token}
    (h : items c item (fuel + 1) ts = .ok ((es, last), rest)) :
    (ts = last :: rest ∧ last.kind = .symbol c ∧ es = []) ∨
    ∃ e t after, item ts = .ok (e, t :: after) ∧
      ((t = last ∧ after = rest ∧ t.kind = .symbol c ∧ es = [e]) ∨
        (t.kind = .symbol .comma ∧ ∃ more, es = e :: more ∧
          items c item fuel after = .ok ((more, last), rest))) := by
  unfold items at h
  split at h
  · rename_i t ht
    obtain ⟨hhead, hc⟩ := Option.filter_eq_some_iff.1 ht
    obtain ⟨hpair, hrest⟩ := Prod.mk.inj (Except.ok.inj h)
    obtain ⟨rfl, rfl⟩ := Prod.mk.inj hpair
    cases ts with
    | nil => cases hhead
    | cons u after =>
        cases hhead
        exact .inl ⟨by rw [← hrest]; rfl, isSymbol_eq_true.1 hc, rfl⟩
  · obtain ⟨⟨e, us⟩, hitem, h⟩ := bind_eq_ok h
    cases us with
    | nil => cases h
    | cons t after =>
        refine .inr ⟨e, t, after, hitem, ?_⟩
        simp only at h
        split at h
        · rename_i hcomma
          obtain ⟨⟨⟨more, last'⟩, rest'⟩, hmore, h⟩ := bind_eq_ok h
          cases h
          exact .inr ⟨isSymbol_eq_true.1 hcomma, more, rfl, hmore⟩
        · split at h
          · rename_i hc
            cases h
            exact .inl ⟨rfl, rfl, isSymbol_eq_true.1 hc, rfl⟩
          · cases h

theorem block_eq_ok {statement : Reader Node} {fuel : Nat} {ts rest : List Token}
    {es : List Node} {last : Token}
    (h : block statement (fuel + 1) ts = .ok ((es, last), rest)) :
    (ts = last :: rest ∧ last.kind = .symbol .rbrace ∧ es = []) ∨
    ∃ e us more, statement ts = .ok (e, us) ∧ es = e :: more ∧
      block statement fuel us = .ok ((more, last), rest) := by
  cases ts with
  | nil => cases h
  | cons t after =>
      unfold block at h
      split at h
      · rename_i ht
        cases h
        exact .inl ⟨rfl, isSymbol_eq_true.1 ht, rfl⟩
      · obtain ⟨⟨e, us⟩, hstatement, h⟩ := bind_eq_ok h
        obtain ⟨⟨⟨more, last'⟩, rest'⟩, hmore, h⟩ := bind_eq_ok h
        cases h
        exact .inr ⟨e, us, more, hstatement, rfl, hmore⟩

theorem chain_eq_ok {operator? : Token → Option BinaryOp} {operand : Reader Node} {fuel : Nat}
    {l e : Node} {us rest : List Token} (hfuel : us.length ≤ fuel)
    (h : chain operator? operand fuel l us = .ok (e, rest)) :
    (e = l ∧ rest = us ∧ ∀ t after, us = t :: after → operator? t = none) ∨
    ∃ fuel' t after op r vs, fuel = fuel' + 1 ∧ us = t :: after ∧ operator? t = some op ∧
      operand after = .ok (r, vs) ∧
      chain operator? operand fuel' (.binary (.at (l.span.upTo r.span)) op l r) vs =
        .ok (e, rest) := by
  cases us with
  | nil =>
      refine .inl ?_
      cases fuel <;> cases h <;> simp
  | cons t after =>
      cases fuel with
      | zero => simp at hfuel
      | succ fuel =>
          unfold chain at h
          split at h
          · rename_i hop
            cases h
            refine .inl ⟨rfl, rfl, fun t' after' heq => ?_⟩
            cases heq
            exact hop
          · rename_i op hop
            obtain ⟨⟨r, vs⟩, hoperand, h⟩ := bind_eq_ok h
            exact .inr ⟨fuel, t, after, op, r, vs, rfl, rfl, hop, hoperand, h⟩

theorem stages_eq_ok {stage : Reader Node} {fuel : Nat} {es : List Node} {us rest : List Token}
    (hfuel : us.length ≤ fuel) (h : stages stage fuel us = .ok (es, rest)) :
    (es = [] ∧ rest = us ∧ NoPipe us) ∨
    ∃ fuel' t after e vs more, fuel = fuel' + 1 ∧ us = t :: after ∧ t.kind = .symbol .pipe ∧
      stage after = .ok (e, vs) ∧ e.isCall = true ∧ es = e :: more ∧
      stages stage fuel' vs = .ok (more, rest) := by
  cases us with
  | nil =>
      refine .inl ?_
      cases fuel <;> cases h <;> simp [NoPipe]
  | cons t after =>
      cases fuel with
      | zero => simp at hfuel
      | succ fuel =>
          unfold stages at h
          split at h
          · rename_i ht
            obtain ⟨⟨e, vs⟩, hstage, h⟩ := bind_eq_ok h
            simp only at h
            split at h
            · rename_i hcall
              obtain ⟨⟨more, rest'⟩, hmore, h⟩ := bind_eq_ok h
              cases h
              exact .inr ⟨fuel, t, after, e, vs, more, rfl, rfl, isSymbol_eq_true.1 ht, hstage,
                hcall, rfl, hmore⟩
            · cases h
          · rename_i ht
            cases h
            refine .inl ⟨rfl, rfl, fun t' after' heq => ?_⟩
            cases heq
            exact isSymbol_eq_false.1 (by simpa using ht)

/-- A step of the loop over calls and members: it stops, or goes on with one of them. -/
theorem suffixes_eq_ok {expression : Reader Node} {fuel : Nat} {e e' : Node}
    {ts us rest : List Token} (hends : Ends ts e.span.stop us) (hfuel : us.length ≤ fuel)
    (h : suffixes expression fuel e us = .ok (e', rest)) :
    (e' = e ∧ rest = us ∧ NoSuffix ts us) ∨
    ∃ fuel' t after, fuel = fuel' + 1 ∧ us = t :: after ∧
      ((t.kind = .symbol .dot ∧ ∃ u name vs, after = u :: vs ∧ u.kind = .identifier name ∧
          suffixes expression fuel' (.member (.at (e.span.upTo u.span)) e (.at u.span name)) vs =
            .ok (e', rest)) ∨
        (t.kind = .symbol .lbracket ∧ Adjoins ts t after ∧ ∃ key v vs,
          expression after = .ok (key, v :: vs) ∧ v.kind = .symbol .rbracket ∧
          suffixes expression fuel' (.index (.at (e.span.upTo v.span)) e key) vs =
            .ok (e', rest)) ∨
        (t.kind = .symbol .lparen ∧ Adjoins ts t after ∧ ∃ callee args v vs,
          e = .identifier callee ∧
          items .rparen expression (after.length + 1) after = .ok ((args, v), vs) ∧
          suffixes expression fuel' (.call (.at (callee.span.upTo v.span)) callee args) vs =
            .ok (e', rest))) := by
  cases us with
  | nil =>
      refine .inl ?_
      cases fuel <;> cases h <;> simp [NoSuffix]
  | cons t after =>
      cases fuel with
      | zero => simp at hfuel
      | succ fuel =>
          have hline : onSameLine e t = true → Adjoins ts t after := fun hsame => by
            rw [hends.adjoins_iff]
            simpa [onSameLine] using hsame
          unfold suffixes at h
          split at h
          · rename_i hdot
            obtain ⟨⟨i, vs⟩, hname, h⟩ := bind_eq_ok h
            obtain ⟨u, name, rfl, hu, rfl⟩ := takeName_eq_ok hname
            exact .inr ⟨fuel, t, _, rfl, rfl, .inl ⟨isSymbol_eq_true.1 hdot, u, name, vs, rfl, hu, h⟩⟩
          split at h
          · rename_i hbracket
            obtain ⟨hm, hsame⟩ := Bool.and_eq_true_iff.1 hbracket
            obtain ⟨⟨key, vs⟩, hkey, hclose⟩ := bind_eq_ok h
            obtain ⟨⟨v, ws⟩, hclosing, hgo⟩ := bind_eq_ok hclose
            obtain ⟨rfl, hv⟩ := takeSymbol_eq_ok hclosing
            exact .inr ⟨fuel, t, after, rfl, rfl,
              .inr (.inl ⟨isSymbol_eq_true.1 hm, hline hsame, key, v, ws, hkey, hv, hgo⟩)⟩
          split at h
          · rename_i hparen
            obtain ⟨hm, hsame⟩ := Bool.and_eq_true_iff.1 hparen
            cases e with
            | identifier callee =>
                obtain ⟨⟨⟨args, v⟩, vs⟩, hargs, hgo⟩ := bind_eq_ok h
                exact .inr ⟨fuel, t, after, rfl, rfl, .inr (.inr ⟨isSymbol_eq_true.1 hm,
                  hline hsame, callee, args, v, vs, rfl, hargs, hgo⟩)⟩
            | _ => cases h
          · rename_i hdot hbracket hparen
            cases h
            refine .inl ⟨rfl, rfl, fun t' after' heq => ?_⟩
            cases heq
            refine ⟨isSymbol_eq_false.1 (by simpa using hdot), fun hm hadjoins => ?_⟩
            have hsame := hends.onSameLine hadjoins
            rcases hm with hm | hm
            · simp [isSymbol_eq_true.2 hm, hsame] at hbracket
            · simp [isSymbol_eq_true.2 hm, hsame] at hparen

/-! ### Rows and loops -/

theorem noProduct_of_operator {us : List Token}
    (h : ∀ t after, us = t :: after → productOperator? t = none) : NoProduct us := by
  intro t after heq m op hm ht
  have hnone := h t after heq
  rw [hm.operator ht] at hnone
  cases hnone

theorem noSum_of_operator {us : List Token}
    (h : ∀ t after, us = t :: after → sumOperator? t = none) : NoSum us := by
  intro t after heq m op hm ht
  have hnone := h t after heq
  rw [hm.operator ht] at hnone
  cases hnone

section Loops

variable {room : Nat} {s : Setting}

theorem items_sound {c : Symbol} {item : Reader Node} (hitem : Sound room (Expression s) item)
    {fuel : Nat} {ts rest : List Token} {es : List Node} {last : Token}
    (h : items c item fuel ts = .ok ((es, last), rest)) :
    last.kind = .symbol c ∧ ∃ n, n ≤ room ∧ Items c s n ts es (last :: rest) := by
  induction fuel generalizing ts es with
  | zero => cases h
  | succ fuel ih =>
      rcases items_eq_ok h with ⟨rfl, hc, rfl⟩ | ⟨e, t, after, he, hmore⟩
      · exact ⟨hc, 0, Nat.zero_le _, .nil hc⟩
      obtain ⟨n, hn, he⟩ := hitem _ _ _ he
      rcases hmore with ⟨rfl, rfl, hc, rfl⟩ | ⟨hcomma, more, rfl, hmore⟩
      · exact ⟨hc, n, hn, .last he hc⟩
      · obtain ⟨hc, m, hm, hmore⟩ := ih hmore
        exact ⟨hc, max n m, Nat.max_le.2 ⟨hn, hm⟩, .more he hcomma hmore⟩

theorem property_sound {expression : Reader Node}
    (hexpression : Sound room (Expression s) expression) :
    Sound room (Entry s) (property expression) := by
  intro ts e rest h
  obtain ⟨⟨key, us⟩, hkey, hrest⟩ := bind_eq_ok h
  obtain ⟨⟨colon, vs⟩, hcolon, hrest⟩ := bind_eq_ok hrest
  obtain ⟨⟨value, ws⟩, hvalue, hrest⟩ := bind_eq_ok hrest
  obtain ⟨n, hn, hvalue⟩ := hexpression _ _ _ hvalue
  cases hrest
  obtain ⟨t, name, rfl, ht, rfl⟩ := takeName_eq_ok hkey
  obtain ⟨rfl, hu⟩ := takeSymbol_eq_ok hcolon
  exact ⟨n, hn, .mk ht hu hvalue⟩

theorem entries_sound {item : Reader Node} (hitem : Sound room (Entry s) item)
    {fuel : Nat} {ts rest : List Token} {es : List Node} {last : Token}
    (h : items .rbrace item fuel ts = .ok ((es, last), rest)) :
    last.kind = .symbol .rbrace ∧ ∃ n, n ≤ room ∧ Entries s n ts es (last :: rest) := by
  induction fuel generalizing ts es with
  | zero => cases h
  | succ fuel ih =>
      rcases items_eq_ok h with ⟨rfl, hc, rfl⟩ | ⟨e, t, after, he, hmore⟩
      · exact ⟨hc, 0, Nat.zero_le _, .nil hc⟩
      obtain ⟨n, hn, he⟩ := hitem _ _ _ he
      rcases hmore with ⟨rfl, rfl, hc, rfl⟩ | ⟨hcomma, more, rfl, hmore⟩
      · exact ⟨hc, n, hn, .last he hc⟩
      · obtain ⟨hc, m, hm, hmore⟩ := ih hmore
        exact ⟨hc, max n m, Nat.max_le.2 ⟨hn, hm⟩, .more he hcomma hmore⟩

/-- The statements of a function, each of which takes one unit of room. -/
theorem block_sound {statement : Reader Node}
    (hstatement : ∀ ts e rest, statement ts = .ok (e, rest) →
      ∃ n, n + 1 ≤ room ∧ Statement ⟨false, true⟩ n ts e rest)
    {fuel : Nat} {ts rest : List Token} {es : List Node} {last : Token}
    (h : block statement fuel ts = .ok ((es, last), rest)) :
    last.kind = .symbol .rbrace ∧ ∃ n, n ≤ room ∧ Block n ts es (last :: rest) := by
  induction fuel generalizing ts es with
  | zero => cases h
  | succ fuel ih =>
      rcases block_eq_ok h with ⟨rfl, hc, rfl⟩ | ⟨e, us, more, he, rfl, hmore⟩
      · exact ⟨hc, 0, Nat.zero_le _, .nil hc⟩
      obtain ⟨n, hn, he⟩ := hstatement _ _ _ he
      obtain ⟨hc, m, hm, hmore⟩ := ih hmore
      exact ⟨hc, max (n + 1) m, Nat.max_le.2 ⟨hn, hm⟩, .cons he hmore⟩

/-- The loop over calls and members keeps the phrase in front of it a phrase. -/
theorem suffixes_sound {expression : Reader Node}
    (hexpression : Sound room (Expression s) expression) {fuel n : Nat} {ts us rest : List Token}
    {e e' : Node} (hn : n ≤ room) (he : Suffixed s n ts e us) (hfuel : us.length ≤ fuel)
    (h : suffixes expression fuel e us = .ok (e', rest)) :
    ∃ n, n ≤ room ∧ Suffixed s n ts e' rest ∧ NoSuffix ts rest := by
  induction fuel generalizing n e us with
  | zero =>
      rcases suffixes_eq_ok he.ends hfuel h with ⟨rfl, rfl, hstop⟩ | ⟨fuel', _, _, hf, _⟩
      · exact ⟨n, hn, he, hstop⟩
      · omega
  | succ fuel ih =>
      rcases suffixes_eq_ok he.ends hfuel h with ⟨rfl, rfl, hstop⟩ | ⟨fuel', t, after, hf, rfl, hgo⟩
      · exact ⟨n, hn, he, hstop⟩
      obtain rfl : fuel = fuel' := by omega
      simp only [List.length_cons] at hfuel
      rcases hgo with ⟨ht, u, name, vs, rfl, hu, h⟩ | ⟨ht, hadj, key, v, vs, hkey, hv, h⟩ |
        ⟨ht, hadj, callee, args, v, vs, rfl, hargs, h⟩
      · exact ih hn (.member he ht hu) (by simp at hfuel; omega) h
      · obtain ⟨m, hm, hkey⟩ := hexpression _ _ _ hkey
        have hlen := hkey.ends.length_lt
        exact ih (Nat.max_le.2 ⟨hn, hm⟩) (.index he ht hadj hkey hv) (by simp at hlen; omega) h
      · obtain ⟨hv, m, hm, hargs⟩ := items_sound hexpression hargs
        have hlen := hargs.suffix.length_le
        exact ih (Nat.max_le.2 ⟨hn, hm⟩) (.call he ht hadj hargs hv) (by simp at hlen; omega) h

/-- The chain of products keeps the phrase in front of it a phrase. -/
theorem products_sound {operand : Reader Node} (hoperand : Sound room (Operand s) operand)
    {fuel n : Nat} {ts us rest : List Token} {l e : Node} (hn : n ≤ room)
    (hl : Product s n ts l us) (hfuel : us.length ≤ fuel)
    (h : chain productOperator? operand fuel l us = .ok (e, rest)) :
    ∃ n, n ≤ room ∧ Product s n ts e rest ∧ NoProduct rest := by
  induction fuel generalizing n l us with
  | zero =>
      rcases chain_eq_ok hfuel h with ⟨rfl, rfl, hstop⟩ | ⟨fuel', _, _, _, _, _, hf, _⟩
      · exact ⟨n, hn, hl, noProduct_of_operator hstop⟩
      · omega
  | succ fuel ih =>
      rcases chain_eq_ok hfuel h with
        ⟨rfl, rfl, hstop⟩ | ⟨fuel', t, after, op, r, vs, hf, rfl, hop, hr, h⟩
      · exact ⟨n, hn, hl, noProduct_of_operator hstop⟩
      obtain rfl : fuel = fuel' := by omega
      obtain ⟨m, ht, hm⟩ := productOperator?_eq_some hop
      obtain ⟨k, hk, hr⟩ := hoperand _ _ _ hr
      have hlen := hr.ends.length_lt
      exact ih (Nat.max_le.2 ⟨hn, hk⟩) (.more hl ht hm hr) (by simp at hfuel; omega) h

theorem product_sound {operand : Reader Node} (hoperand : Sound room (Operand s) operand)
    {ts rest : List Token} {e : Node}
    (h : leftGrouped productOperator? operand ts = .ok (e, rest)) :
    ∃ n, n ≤ room ∧ Product s n ts e rest ∧ NoProduct rest := by
  obtain ⟨⟨l, us⟩, hl, h⟩ := bind_eq_ok h
  obtain ⟨n, hn, hl⟩ := hoperand _ _ _ hl
  exact products_sound hoperand hn (.first hl) (Nat.le_refl _) h

/-- The chain of sums keeps the phrase in front of it a phrase. -/
theorem sums_sound {operand : Reader Node} (hoperand : Sound room (Operand s) operand)
    {fuel n : Nat} {ts us rest : List Token} {l e : Node} (hn : n ≤ room)
    (hl : Sum s n ts l us) (hfuel : us.length ≤ fuel)
    (h : chain sumOperator? (leftGrouped productOperator? operand) fuel l us = .ok (e, rest)) :
    ∃ n, n ≤ room ∧ Sum s n ts e rest ∧ NoSum rest := by
  induction fuel generalizing n l us with
  | zero =>
      rcases chain_eq_ok hfuel h with ⟨rfl, rfl, hstop⟩ | ⟨fuel', _, _, _, _, _, hf, _⟩
      · exact ⟨n, hn, hl, noSum_of_operator hstop⟩
      · omega
  | succ fuel ih =>
      rcases chain_eq_ok hfuel h with
        ⟨rfl, rfl, hstop⟩ | ⟨fuel', t, after, op, r, vs, hf, rfl, hop, hr, h⟩
      · exact ⟨n, hn, hl, noSum_of_operator hstop⟩
      obtain rfl : fuel = fuel' := by omega
      obtain ⟨m, ht, hm⟩ := sumOperator?_eq_some hop
      obtain ⟨k, hk, hr, hproduct⟩ := product_sound hoperand hr
      have hlen := hr.ends.length_lt
      exact ih (Nat.max_le.2 ⟨hn, hk⟩) (.more hl ht hm hr hproduct) (by simp at hfuel; omega) h

theorem sum_sound {operand : Reader Node} (hoperand : Sound room (Operand s) operand)
    {ts rest : List Token} {e : Node} (h : sum operand ts = .ok (e, rest)) :
    ∃ n, n ≤ room ∧ Sum s n ts e rest ∧ NoSum rest := by
  obtain ⟨⟨l, us⟩, hl, h⟩ := bind_eq_ok h
  obtain ⟨n, hn, hl, hproduct⟩ := product_sound hoperand hl
  exact sums_sound hoperand hn (.first hl hproduct) (Nat.le_refl _) h

theorem stages_sound {operand : Reader Node}
    (hoperand : Sound room (Operand { s with inStage := true }) operand) {fuel : Nat}
    {ts rest : List Token} {es : List Node} (hfuel : ts.length ≤ fuel)
    (h : stages (sum operand) fuel ts = .ok (es, rest)) :
    ∃ n, n ≤ room ∧ Stages s n ts es rest := by
  induction fuel generalizing ts es with
  | zero =>
      rcases stages_eq_ok hfuel h with ⟨rfl, rfl, hstop⟩ | ⟨fuel', _, _, _, _, _, hf, _⟩
      · exact ⟨0, Nat.zero_le _, .nil hstop⟩
      · omega
  | succ fuel ih =>
      rcases stages_eq_ok hfuel h with
        ⟨rfl, rfl, hstop⟩ | ⟨fuel', t, after, e, vs, more, hf, rfl, ht, he, hcall, rfl, hmore⟩
      · exact ⟨0, Nat.zero_le _, .nil hstop⟩
      obtain rfl : fuel = fuel' := by omega
      obtain ⟨n, hn, he, hsum⟩ := sum_sound hoperand he
      have hlen := he.ends.length_lt
      obtain ⟨m, hm, hmore⟩ := ih (by simp at hfuel; omega) hmore
      exact ⟨max n m, Nat.max_le.2 ⟨hn, hm⟩, .cons ht he hsum hcall hmore⟩

end Loops

/-! ### Phrases -/

/-- The readers of nested parts are sound for some room. A sign and a statement of a function take one
unit of it themselves. -/
structure InnerSound (room : Nat) (inner : Inner) : Prop where
  operand : ∀ s ts e rest, inner.operand s ts = .ok (e, rest) →
    ∃ n, n + 1 ≤ room ∧ Operand s n ts e rest
  expression : ∀ s, Sound room (Expression s) (inner.expression s)
  statement : ∀ s ts e rest, inner.statement s ts = .ok (e, rest) →
    ∃ n, n + 1 ≤ room ∧ Statement s n ts e rest

section Phrases

variable {room : Nat} {inner : Inner}

theorem functionBody_sound (hinner : InnerSound room inner) {s : Setting} {t : Token}
    {ts us rest : List Token} {params : List Ident} {e : Node} (ht : t.kind = .symbol .lparen)
    (hhead : Head ts params us) (h : functionBody inner t params us = .ok (e, rest)) :
    ∃ n, n ≤ room ∧ Atom s n (t :: ts) e rest := by
  obtain ⟨⟨u, vs⟩, hopening, h⟩ := bind_eq_ok h
  obtain ⟨⟨⟨body, v⟩, ws⟩, hbody, h⟩ := bind_eq_ok h
  obtain ⟨hv, n, hn, hbody⟩ := block_sound (hinner.statement _) hbody
  cases h
  obtain ⟨rfl, hu⟩ := takeSymbol_eq_ok hopening
  exact ⟨n, hn, .function ht hhead hu hbody hv⟩

theorem atom_sound (hinner : InnerSound room inner) (s : Setting) :
    Sound room (Atom s) (atom inner s) := by
  intro ts e rest h
  cases ts with
  | nil => cases h
  | cons t after =>
      simp only [atom] at h
      split at h
      · cases h
        exact ⟨0, Nat.zero_le _, .number ‹_›⟩
      · cases h
        exact ⟨0, Nat.zero_le _, .string ‹_›⟩
      · cases h
        exact ⟨0, Nat.zero_le _, .trueWord ‹_›⟩
      · cases h
        exact ⟨0, Nat.zero_le _, .falseWord ‹_›⟩
      · cases h
        exact ⟨0, Nat.zero_le _, .name ‹_›⟩
      · split at h
        · cases h
          exact ⟨0, Nat.zero_le _, .hole ‹_› ‹_›⟩
        · cases h
      · rename_i ht
        obtain ⟨⟨⟨es, u⟩, us⟩, hitems, hrest⟩ := bind_eq_ok h
        obtain ⟨hu, n, hn, hitems⟩ := items_sound (hinner.expression s) hitems
        cases hrest
        exact ⟨n, hn, .array ht hitems hu⟩
      · rename_i ht
        obtain ⟨⟨⟨ps, u⟩, us⟩, hitems, hrest⟩ := bind_eq_ok h
        obtain ⟨hu, n, hn, hitems⟩ := entries_sound (property_sound (hinner.expression s)) hitems
        cases hrest
        exact ⟨n, hn, .object ht hitems hu⟩
      · rename_i ht
        split at h
        · rename_i params us hhead
          exact functionBody_sound hinner ht (functionHead?_eq_some_iff.1 hhead) h
        · rename_i hhead
          have hnone : ∀ params us, ¬ Head after params us := fun params us hsome => by
            rw [functionHead?_eq_some_iff.2 hsome] at hhead
            cases hhead
          obtain ⟨⟨e, us⟩, he, hrest⟩ := bind_eq_ok h
          obtain ⟨⟨u, vs⟩, hclosing, hrest⟩ := bind_eq_ok hrest
          cases hrest
          obtain ⟨rfl, hu⟩ := takeSymbol_eq_ok hclosing
          obtain ⟨n, hn, he⟩ := hinner.expression s _ _ _ he
          exact ⟨n, hn, .parens ht hnone he hu⟩
      · cases h

theorem operand_sound (hinner : InnerSound room inner) (s : Setting) :
    Sound room (Operand s) (operand inner s) := by
  have hsuffixed : ∀ ts e rest, suffixed inner s ts = .ok (e, rest) →
      ∃ n, n ≤ room ∧ Operand s n ts e rest := by
    intro ts e rest h
    obtain ⟨⟨a, us⟩, ha, h⟩ := bind_eq_ok h
    obtain ⟨n, hn, ha⟩ := atom_sound hinner s _ _ _ ha
    obtain ⟨m, hm, he, hstop⟩ :=
      suffixes_sound (hinner.expression s) hn (.atom ha) (Nat.le_refl _) h
    exact ⟨m, hm, .suffixed he hstop⟩
  intro ts e rest h
  cases ts with
  | nil => exact hsuffixed _ _ _ h
  | cons t after =>
      simp only [operand] at h
      split at h
      · rename_i op hop
        obtain ⟨m, ht, hm⟩ := sign?_eq_some hop
        obtain ⟨⟨a, us⟩, ha, hrest⟩ := bind_eq_ok h
        obtain ⟨n, hn, ha⟩ := hinner.operand _ _ _ _ ha
        cases hrest
        exact ⟨n + 1, hn, .sign ht hm ha⟩
      · exact hsuffixed _ _ _ h

theorem pipeline_sound {operand : Rule} (hoperand : ∀ s, Sound room (Operand s) (operand s))
    (s : Setting) : Sound (room + 1) (Expression s) (pipeline operand s) := by
  intro ts e rest h
  obtain ⟨⟨first, us⟩, hfirst, h⟩ := bind_eq_ok h
  obtain ⟨⟨more, vs⟩, hmore, h⟩ := bind_eq_ok h
  obtain ⟨n, hn, hfirst, hsum⟩ := sum_sound (hoperand s) hfirst
  obtain ⟨m, hm, hmore⟩ := stages_sound (hoperand _) (Nat.le_refl _) hmore
  cases h
  cases more with
  | nil =>
      cases hmore with
      | nil hpipe => exact ⟨n + 1, Nat.succ_le_succ hn, .sum hfirst hsum hpipe⟩
  | cons x xs =>
      rw [joinStages_cons]
      exact ⟨max n m + 1, Nat.succ_le_succ (Nat.max_le.2 ⟨hn, hm⟩), .pipe hfirst hsum hmore⟩

theorem declaration_sound {expression : Reader Node} {s : Setting}
    (hexpression : Sound room (Expression s) expression) {t : Token} {word : Keyword}
    {d : Declarator} {ts rest : List Token} {e : Node} (ht : t.kind = .keyword word)
    (hword : DeclaringWord word d) (h : declaration expression t d ts = .ok (e, rest)) :
    ∃ n, n ≤ room ∧ Statement s n (t :: ts) e rest := by
  obtain ⟨⟨name, us⟩, hname, h⟩ := bind_eq_ok h
  obtain ⟨⟨assign, vs⟩, hassign, h⟩ := bind_eq_ok h
  obtain ⟨⟨init, ws⟩, hinit, h⟩ := bind_eq_ok h
  obtain ⟨n, hn, hinit⟩ := hexpression _ _ _ hinit
  cases h
  obtain ⟨u, label, rfl, hu, rfl⟩ := takeName_eq_ok hname
  obtain ⟨rfl, hv⟩ := takeSymbol_eq_ok hassign
  exact ⟨n, hn, .declaration ht hword hu hv hinit⟩

theorem statement_sound {expression : Rule}
    (hexpression : ∀ s, Sound room (Expression s) (expression s)) (s : Setting) :
    Sound room (Statement s) (statement expression s) := by
  have hplain : ∀ ts e rest, expressionStatement (expression s) ts = .ok (e, rest) →
      ∃ n, n ≤ room ∧ Statement s n ts e rest := by
    intro ts e rest h
    obtain ⟨⟨a, us⟩, ha, h⟩ := bind_eq_ok h
    obtain ⟨n, hn, ha⟩ := hexpression s _ _ _ ha
    cases h
    exact ⟨n, hn, .expression ha⟩
  intro ts e rest h
  cases ts with
  | nil => exact hplain _ _ _ h
  | cons t after =>
      simp only [statement] at h
      split at h
      · rename_i ht
        split at h
        · rename_i hs
          obtain ⟨⟨a, us⟩, ha, hrest⟩ := bind_eq_ok h
          obtain ⟨n, hn, ha⟩ := hexpression s _ _ _ ha
          cases hrest
          exact ⟨n, hn, .giveBack ht hs ha⟩
        · cases h
      · rename_i word _ ht
        split at h
        · rename_i d hd
          exact declaration_sound (hexpression s) ht (declarator?_eq_some hd) h
        · exact hplain _ _ _ h
      · exact hplain _ _ _ h

end Phrases

/-- The readers with some room are sound for it. -/
theorem inner_sound (room : Nat) : InnerSound room (inner room) := by
  induction room with
  | zero =>
      -- With no room nothing is read at all.
      refine ⟨?_, ?_, ?_⟩ <;> (intro s ts e rest h; cases h)
  | succ room ih =>
      refine ⟨?_, pipeline_sound (operand_sound ih), ?_⟩
      · intro s ts e rest h
        obtain ⟨n, hn, he⟩ := operand_sound ih s _ _ _ h
        exact ⟨n, Nat.succ_le_succ hn, he⟩
      · intro s ts e rest h
        obtain ⟨n, hn, he⟩ := statement_sound ih.expression s _ _ _ h
        exact ⟨n, Nat.succ_le_succ hn, he⟩

end PartScript.Grammar
