import PartScript.Proofs.Pass.Guard
import PartScript.Proofs.Scratch
import PartScript.Proofs.Token.Numeral

/-!
What keeps a text from being read and run besides what is wrong in it. Whole numbers are converted from and to
digits, and only so many digits are converted. A text may have a numeral with more of them, nearly all
leading zeros. A number that is bound beforehand may have more of them, and then it cannot be written into a
message. Nothing else stops a pass without a diagnostic, and both things do happen.
-/

namespace PartScript

/-- Neither functions nor shapes are bound: only numbers, texts, truth values, and arrays and records of
these. -/
def Store.OnlyNumbers (s : Store) : Prop := ∀ part ∈ s.parts, ∃ n, part = .number n

/-- A whole number with more digits than are written is bound in the store, and the fault says how many
are. -/
inductive LongNumber (store : Store) : Fault → Prop
  | mk {i : Int} (hi : .number (.int i) ∈ store.parts)
      (hlong : powTen Number.maxDigits ≤ i.natAbs) : LongNumber store (.longNumber Number.maxDigits)

/-- Numbers round to floats unless they are bound beforehand, trees are such as can be run, and the fault of
writing a number that is bound beforehand is accepted. -/
def onlyLong (store : Store) : Guard where
  number n := n.Rounds ∨ .number n ∈ store.parts
  node := Node.Runnable
  fault := LongNumber store

theorem onlyLong_lawful (store : Store) : (onlyLong store).Lawful .standard where
  rounds h := .inl h
  shown {n f} hn h := by
    cases n with
    | float x => cases h
    | int i =>
        dsimp only [Pass.shownNumber] at h
        split at h
        · rename_i hlong
          obtain rfl := Except.error.inj h
          refine .mk (hn.resolve_left fun hrounds => ?_) hlong
          exact absurd (Number.natAbs_lt_of_rounds hrounds) (Nat.not_lt.2 hlong)
        · cases h
  literal h := .inl (Number.rounds_of_isFinite h)
  pipe h := absurd rfl h
  object h p hp := .inl (h p hp)
  library := by
    intro entry hentry count haccepts hrefuses
    obtain ⟨b, -, rfl⟩ := List.mem_map.1 hentry
    exact absurd haccepts (Bool.not_eq_true _ ▸ hrefuses)

theorem onlyLong_fits {store : Store} (h : store.OnlyNumbers) : (onlyLong store).Fits store.parts := by
  intro part hpart
  obtain ⟨n, rfl⟩ := h part hpart
  exact Guard.allows_number (.inr hpart)

section

variable {store : Store} {config : Config} {f : Fault}

/-- If a script is run among things that are all in a store, then nothing but a long number of that store
stops it without a diagnostic. -/
theorem Pass.longNumber_of_run (hstore : store.OnlyNumbers) {store' : Store}
    (hsub : ∀ part ∈ store'.parts, part ∈ store.parts) {source : String} {file : Option String}
    {script : Node} (hscript : parse source file = .ok script) {code : String} {scope : Nat}
    (h : ((Pass.under config .standard code).run store' scope script).result = .error (.fault f)) :
    LongNumber store f := by
  obtain ⟨m, body, rfl, hbody⟩ := exists_program (writable_of_parse hscript)
  have hnodes : (onlyLong store).Trees body := fun n hn m hm =>
    Node.WritableAll.runnable body hbody m (Node.mem_walkAll.2 ⟨n, hn, hm⟩)
  exact fault_of_run (onlyLong_lawful store) ((onlyLong_fits hstore).subset hsub) hnodes h

theorem Pass.longNumber_of_runSource (hstore : store.OnlyNumbers) {source : String}
    {file : Option String} {scope : Nat}
    (h : ((Pass.under config .standard source).runSource store scope file).result =
      .error (.fault f)) :
    Lexer.LongNumeral (some Number.maxDigits) source.toList f ∨ LongNumber store f := by
  rw [Pass.runSource] at h
  split at h
  · rename_i script hscript
    exact .inr (longNumber_of_run hstore (fun _ hpart => hpart) hscript h)
  · rename_i failure hfailure
    cases h
    exact .inl (parse_fault hfailure)

theorem Scratch.longNumber_of_evaluate (hstore : store.OnlyNumbers) {scope : Option Nat}
    {names : Option (List String)} {expression : String}
    (h : (evaluate config store scope names expression).result = .error (.fault f)) :
    Lexer.LongNumeral (some Number.maxDigits) (code expression).toList f ∨ LongNumber store f := by
  rcases fault_of_evaluate h with hparse | ⟨script, hscript, htrial⟩
  · exact .inl (parse_fault hparse)
  · exact .inr (Pass.longNumber_of_run hstore (fun _ => mem_parts_of_snapshot) hscript htrial)

end

/-- Take any source text, expression and configuration, and scopes that bind only numbers, texts and truth
values. Cutting the text into tokens and reading it fail with diagnostics, unless a numeral in it is too long.
Running what is read from it fails with diagnostics, unless a number in the scopes is too long. Reading and
running it, and evaluating the expression, fail with diagnostics unless one of these two is too long, and if
what is run for the expression succeeds then it has a value, which rounds to a float if it is a finite
number. -/
theorem faults_of_long_numbers (source code expression : String) (file : Option String)
    (config : Config) {store : Store} (hstore : store.OnlyNumbers) (scope : Nat) (seen : Option Nat)
    (names : Option (List String)) :
    (∀ f, tokenize source file = .error (.fault f) →
      Lexer.LongNumeral (some 4300) source.toList f) ∧
    (∀ f, parse source file = .error (.fault f) → Lexer.LongNumeral (some 4300) source.toList f) ∧
    (∀ script, parse source file = .ok script → ∀ f,
      ((Pass.under config .standard code).run store scope script).result = .error (.fault f) →
        LongNumber store f) ∧
    (∀ f, ((Pass.under config .standard source).runSource store scope file).result =
        .error (.fault f) →
      Lexer.LongNumeral (some 4300) source.toList f ∨ LongNumber store f) ∧
    (∀ f, (Scratch.evaluate config store seen names expression).result = .error (.fault f) →
      Lexer.LongNumeral (some 4300) (Scratch.code expression).toList f ∨ LongNumber store f) ∧
    ∀ o last, (Scratch.evaluate config store seen names expression).outcome = some o →
      o.result = .ok last →
      ∃ v, (Scratch.evaluate config store seen names expression).result = .ok v ∧
        ∀ n, v.number? = some n → n.isFinite = true → ∃ x, n.toFloat? = some x := by
  refine ⟨fun f h => tokenize_fault h, fun f h => parse_fault h, fun script hscript f h => ?_,
    fun f h => Pass.longNumber_of_runSource hstore h,
    fun f h => Scratch.longNumber_of_evaluate hstore h, fun o last ho h => ?_⟩
  · exact Pass.longNumber_of_run hstore (fun _ hpart => hpart) hscript h
  · obtain ⟨v, hv⟩ := Scratch.exists_value ho h
    exact ⟨v, hv, fun n _ hfinite => Number.rounds_of_isFinite hfinite⟩

/-- Behind an index that is not there stands a number that has one digit more than are written. -/
theorem faults_of_long_numbers_index :
    ∃ store f, store =
        (⟨#[⟨none, "root", [("n", .ofNumber (.int (powTen Number.maxDigits)) [])]⟩]⟩ : Store) ∧
      store.OnlyNumbers ∧
      ((Pass.under .standard .standard "[1][n]").runSource store 0 none).result = .error (.fault f) ∧
      LongNumber store f := by
  obtain ⟨store, hstore⟩ : ∃ store, store =
    (⟨#[⟨none, "root", [("n", .ofNumber (.int (powTen Number.maxDigits)) [])]⟩]⟩ : Store) := ⟨_, rfl⟩
  have honly : store.OnlyNumbers := by
    rw [hstore]
    intro part hpart
    exact ⟨_, List.mem_singleton.1 hpart⟩
  have hfails : (match ((Pass.under .standard .standard "[1][n]").runSource store 0 none).result with
      | .error (.fault (.longNumber _)) => true
      | _ => false) = true := by
    rw [hstore]
    decide +kernel
  split at hfails
  · rename_i limit hfault
    obtain ⟨-, -, -, hrun, -⟩ := faults_of_long_numbers "[1][n]" "" "" none .standard honly 0 none none
    refine ⟨store, _, hstore, honly, hfault, (hrun _ hfault).resolve_left fun h => ?_⟩
    cases h
  · cases hfails

/-- The number one, with so many leading zeros that it is not read. -/
theorem parse_zeros_one :
    parse (String.ofList (List.replicate 4300 '0' ++ ['1'])) none =
      .error (.fault (.longNumeral 4300 4301)) := by
  have hdigits : ∀ c ∈ List.replicate 4300 '0' ++ ['1'], Text.isDigit c = true := by
    intro c hc
    rcases List.mem_append.1 hc with hc | hc
    · rw [List.eq_of_mem_replicate hc]
      rfl
    · rw [List.mem_singleton.1 hc]
      rfl
  have hlength : (List.replicate 4300 '0' ++ ['1']).length = 4301 := by
    rw [List.length_append, List.length_replicate, List.length_singleton]
  have hzeros : (List.replicate 4300 '0' ++ ['1']).dropWhile (· == '0') = ['1'] := by
    refine Lexer.dropWhile_run (fun c hc => ?_) (Lexer.clear_cons [] rfl)
    rw [List.eq_of_mem_replicate hc]
    rfl
  have hparse := parse_longNumeral hdigits (by rw [hlength]; decide) (by rw [hzeros]; decide) none
  rw [hlength] at hparse
  exact hparse

end PartScript
