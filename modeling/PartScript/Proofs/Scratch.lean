import PartScript.Proofs.Grammar.Recognition
import PartScript.Proofs.Pass.Frame
import PartScript.Proofs.Token.Piece
import PartScript.Proofs.Value.Parts
import PartScript.Scratch

/-!
Evaluation from scratch. The script that is run for an expression starts with the declaration of the result,
whatever the expression is, and it is run in a scope of its own, which binds what another scope sees. So a
run of the script that succeeds has a result, and an evaluation fails only where reading or running does.
-/

namespace PartScript

/-! ### How the script starts -/

/-- If a text starts with a lexeme behind blanks then its first token is that, and the other tokens are
read from what follows. -/
theorem Lexer.exists_token_of_lexeme {r : Reading} {kind : TokenKind} {text : List Char}
    (h : Lexeme r.limit kind text) {cs bs : List Char} (hstops : Stops kind cs)
    (hbs : ∀ b ∈ bs, isSpace b = true) {fuel : Nat} {p : Position} {all : List Token}
    (hall : r.tokens (fuel + 1) p (bs ++ (text ++ cs)) = .ok all) :
    ∃ t more q, all = t :: more ∧ t.kind = kind ∧ r.tokens fuel q cs = .ok more := by
  have hskip : skip .between (bs ++ (text ++ cs)) = .ok (text ++ cs) := by
    rw [skip_blanks hbs, h.skip cs hstops]
  have hscan := h.scan cs hstops
  obtain ⟨c, rest, hc⟩ := List.exists_cons_of_ne_nil h.ne_nil
  have hcons : text ++ cs = c :: (rest ++ cs) := by rw [hc]; rfl
  simp only [Reading.tokens, hskip, mapError_ok, ok_bind] at hall
  rw [hcons] at hscan hall
  simp only [hscan, mapError_ok, ok_bind] at hall
  obtain ⟨more, hmore, hall⟩ := bind_eq_ok hall
  cases hall
  exact ⟨_, more, _, rfl, rfl, hmore⟩

namespace Scratch

/-- The first tokens of the script are the word that declares a constant and the name of the result. -/
theorem exists_tokens {expression : String} {file : Option String} {all : List Token}
    (h : tokenize (code expression) file = .ok all) :
    ∃ t u more, all = t :: u :: more ∧ t.kind = .keyword .constWord ∧ u.kind = .identifier resultName := by
  have htext : (code expression).toList =
      [] ++ ("const".toList ++ ([' '] ++ (resultName.toList ++ (" = ".toList ++ expression.toList)))) := by
    simp [code]
  have hconst : Lexer.Lexeme (some Number.maxDigits) (.keyword .constWord) "const".toList :=
    @Lexer.lexeme_word _ 'c' "onst".toList (by decide) (List.all_eq_true.1 (by decide))
  have hname : Lexer.Lexeme (some Number.maxDigits) (.identifier resultName) resultName.toList :=
    @Lexer.lexeme_word _ '_' "_result__".toList (by decide) (List.all_eq_true.1 (by decide))
  have hblank (rest : List Char) : Lexer.Clear Lexer.isNameChar (' ' :: rest) :=
    Lexer.clear_cons rest rfl
  have hspace : ∀ b ∈ [' '], Lexer.isSpace b = true := List.forall_mem_singleton.2 rfl
  rw [tokenize, tokenizeWith, htext] at h
  obtain ⟨t, rest, q, rfl, ht, hrest⟩ := Lexer.exists_token_of_lexeme (r := ⟨file, _, _⟩) hconst
    (hblank _) (by simp) h
  obtain ⟨u, more, -, rfl, hu, -⟩ := Lexer.exists_token_of_lexeme (r := ⟨file, _, _⟩) hname
    (hblank _) hspace hrest
  exact ⟨t, u, more, rfl, ht, hu⟩

end Scratch

/-- A statement that starts with the word for constants is a declaration of the name that follows. -/
theorem Grammar.Statement.declares {s : Parser.Setting} {n : Nat} {t u : Token} {ts rest : List Token}
    {e : Node} {name : String} (ht : t.kind = .keyword .constWord) (hu : u.kind = .identifier name)
    (h : Statement s n (t :: u :: ts) e rest) :
    ∃ m word i init, e = .declaration m word i init ∧ i.name = name := by
  cases h with
  | expression h =>
      obtain ⟨t', after, hts, hstarts⟩ := h.starts
      cases hts
      rw [ht] at hstarts
      cases hstarts
  | declaration _ _ hname =>
      rw [hu] at hname
      cases hname
      exact ⟨_, _, _, _, rfl, rfl⟩
  | giveBack hword =>
      rw [ht] at hword
      cases hword

namespace Scratch

/-- The script starts with the declaration of the result. -/
theorem exists_declaration {expression : String} {file : Option String} {script : Node}
    (h : parse (code expression) file = .ok script) :
    ∃ m m' word i init more,
      script = .program m (.declaration m' word i init :: more) ∧ i.name = resultName := by
  obtain ⟨tokens, htokens, htree⟩ := bind_eq_ok h
  obtain ⟨t, u, more, hall, ht, hu⟩ := exists_tokens htokens
  obtain ⟨ts, finish, rfl⟩ := tokenize_eq_ok htokens
  obtain ⟨n, bare, hscript, -, -, rfl⟩ :=
    Grammar.script_eq_ok_iff.1 (parseTokens_eq_ok_iff.1 htree)
  -- Neither of the two tokens is the one that ends the text.
  obtain ⟨ts, rfl⟩ : ∃ ts', ts = t :: u :: ts' := by
    cases ts with
    | nil => cases hall
    | cons t' ts =>
        cases ts with
        | nil =>
            cases hall
            cases hu
        | cons u' ts =>
            cases hall
            exact ⟨ts, rfl⟩
  cases hscript with
  | body hbody =>
      cases hbody with
      | cons hfirst _ =>
          obtain ⟨m, word, i, init, rfl, hname⟩ := hfirst.declares ht hu
          exact ⟨_, _, _, _, _, _, rfl, hname⟩

/-! ### The scope of the script -/

theorem mem_parts_push {s : Store} {scope : Scope} {part : Part}
    (h : part ∈ (s.push scope).1.parts) : part ∈ s.parts ∨ part ∈ scope.parts := by
  simpa [Store.parts, Store.push] using h

/-- The copy binds nothing that is not in the scopes already. -/
theorem mem_parts_of_snapshot {store : Store} {scope : Option Nat} {names : Option (List String)}
    {part : Part} (h : part ∈ (snapshot store scope names).1.parts) : part ∈ store.parts := by
  cases scope with
  | none => exact (mem_parts_push h).resolve_right List.not_mem_nil
  | some scope =>
      refine (mem_parts_push h).elim id fun hcopy => ?_
      obtain ⟨v, hv, hpart⟩ := Value.mem_partsOf.1 hcopy
      obtain ⟨b, hb, rfl⟩ := List.mem_map.1 hv
      obtain ⟨name, -, hbound⟩ := List.mem_filterMap.1 hb
      obtain ⟨v, hget, rfl⟩ := Option.map_eq_some_iff.1 hbound
      exact Store.mem_parts_of_get? hget hpart

theorem exists_scope?_snapshot (store : Store) (scope : Option Nat) (names : Option (List String)) :
    ∃ s, (snapshot store scope names).1.scope? (snapshot store scope names).2 = some s := by
  cases scope <;> simp [snapshot, Store.snapshot, Store.openRoot, Store.push, Store.scope?]

/-! ### Results -/

theorem exists_get?_of_mem {store : Store} {id : Nat} {s : Scope} (hs : store.scope? id = some s)
    {name : String} (hname : name ∈ s.names) : ∃ v, store.get? id name = some v := by
  obtain ⟨b, hb, rfl⟩ := List.mem_map.1 hname
  have hlocal : (s.get? b.1).isSome = true := by
    rw [Scope.get?, Option.isSome_map, List.find?_isSome]
    exact ⟨b, hb, beq_self_eq_true _⟩
  obtain ⟨v, hv⟩ := Option.isSome_iff_exists.1 hlocal
  refine ⟨v, ?_⟩
  simp [Store.get?, Store.view, Store.chain, Store.chainWithin, hs, hv]

/-- A run of the script that succeeds has bound the result. -/
theorem exists_result {p : Pass} {store : Store} {scope : Nat} {s : Scope}
    (hs : store.scope? scope = some s) {m m' : Mark} {word : Declarator} {i : Ident} {init : Node}
    (hi : i.name = resultName) {last : Option Value}
    (h : (p.run store scope (.program m [.declaration m' word i init])).result = .ok last) :
    ∃ v, (p.run store scope (.program m [.declaration m' word i init])).store.get? scope resultName =
      some v := by
  obtain ⟨k, added, hk, hcompleted, hadded, hnames⟩ :=
    @Pass.runScript_run p scope [.declaration m' word i init] none ⟨0, [], [], store⟩ s hs
  have hone : 1 ≤ k := (hcompleted 1 (Nat.le_refl _)).1 (exists_mapError_eq_ok.1 ⟨last, h⟩)
  obtain rfl : k = 1 := Nat.le_antisymm hk hone
  refine exists_get?_of_mem hadded ?_
  have hdeclared : added.map (·.1) = [i.name] := hnames
  rw [Scope.names, Scope.append, List.map_append, hdeclared, hi]
  exact List.mem_append_right _ (List.mem_singleton.2 rfl)

/-- The run of a script in the copy of what a scope sees. -/
def trial (config : Config) (store : Store) (scope : Option Nat) (names : Option (List String))
    (expression : String) (script : Node) : Outcome :=
  (Pass.under config .standard (code expression)).run (snapshot store scope names).1
    (snapshot store scope names).2 script

section

variable (config : Config) (store : Store) (scope : Option Nat) (names : Option (List String))
  (expression : String)

/-- What can come of an expression: its script cannot be read, it goes on behind the expression, or it is the
declaration of the result, and this is run. -/
theorem evaluate_cases :
    (∃ failure, parse (code expression) none = .error failure ∧
      evaluate config store scope names expression = ⟨code expression, none, none, .error failure⟩) ∨
    (∃ d, evaluate config store scope names expression =
      ⟨code expression, none, none, .error (.diagnostic d)⟩) ∨
    ∃ m m' word i init script, script = .program m [.declaration m' word i init] ∧ i.name = resultName ∧
      parse (code expression) none = .ok script ∧
      evaluate config store scope names expression =
        ⟨code expression, some init, some (trial config store scope names expression script),
          resultOf (snapshot store scope names).2 (trial config store scope names expression script)⟩ := by
  cases hparse : parse (code expression) none with
  | error failure => exact .inl ⟨failure, rfl, by simp only [evaluate, hparse]⟩
  | ok script =>
      obtain ⟨m, m', word, i, init, more, rfl, hname⟩ := exists_declaration hparse
      cases more with
      | nil =>
          refine .inr (.inr ⟨m, m', word, i, init, _, rfl, hname, rfl, ?_⟩)
          simp only [evaluate, hparse, declared, trial]
      | cons extra more =>
          exact .inr (.inl ⟨_, by simp only [evaluate, hparse, declared]; rfl⟩)

variable {config store scope names expression}

theorem resultOf_of_error {o : Outcome} {failure : Failure} (h : o.result = .error failure) (copy : Nat) :
    resultOf copy o = .error failure := by
  rw [resultOf, h]
  rfl

/-- The result is there if its declaration has run without failure. -/
theorem exists_resultOf {m m' : Mark} {word : Declarator} {i : Ident} {init script : Node}
    (hscript : script = .program m [.declaration m' word i init]) (hname : i.name = resultName)
    {last : Option Value}
    (h : (trial config store scope names expression script).result = .ok last) :
    ∃ v, resultOf (snapshot store scope names).2 (trial config store scope names expression script) =
      .ok v := by
  obtain ⟨s, hs⟩ := exists_scope?_snapshot store scope names
  subst hscript
  obtain ⟨v, hv⟩ := exists_result hs hname h
  exact ⟨v, by rw [resultOf, h, ok_bind, trial, hv]; rfl⟩

/-- The evaluation fails only where reading the script or running it does. -/
theorem fault_of_evaluate {f : Fault}
    (h : (evaluate config store scope names expression).result = .error (.fault f)) :
    parse (code expression) none = .error (.fault f) ∨
      ∃ script, parse (code expression) none = .ok script ∧
        (trial config store scope names expression script).result = .error (.fault f) := by
  obtain ⟨failure, hparse, heq⟩ | ⟨d, heq⟩ | ⟨m, m', word, i, init, script, hscript, hname, hparse, heq⟩ :=
    evaluate_cases config store scope names expression
  · rw [heq] at h
    cases h
    exact .inl hparse
  · rw [heq] at h
    cases h
  · refine .inr ⟨script, hparse, ?_⟩
    simp only [heq] at h
    cases htrial : (trial config store scope names expression script).result with
    | error failure =>
        rw [resultOf_of_error htrial] at h
        cases h
        rfl
    | ok last =>
        obtain ⟨v, hv⟩ := exists_resultOf hscript hname htrial
        rw [hv] at h
        cases h

/-- An evaluation whose script has run without failure has a value. -/
theorem exists_value {o : Outcome} (ho : (evaluate config store scope names expression).outcome = some o)
    {last : Option Value} (h : o.result = .ok last) :
    ∃ v, (evaluate config store scope names expression).result = .ok v := by
  obtain ⟨failure, -, heq⟩ | ⟨d, heq⟩ | ⟨m, m', word, i, init, script, hscript, hname, -, heq⟩ :=
    evaluate_cases config store scope names expression
  · rw [heq] at ho
    cases ho
  · rw [heq] at ho
    cases ho
  · rw [heq] at ho ⊢
    cases ho
    exact exists_resultOf hscript hname h

end

end Scratch

end PartScript
