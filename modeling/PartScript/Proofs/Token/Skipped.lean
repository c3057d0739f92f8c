import PartScript.Proofs.Token.Lexeme

/-!
What is skipped in front of a token: blanks, comments up to the end of the line, and block comments, which may
stand in one another. Nothing else is skipped, and all of this is, whatever stands behind it.
-/

namespace PartScript.Lexer

/-! ### Blanks and comments -/

/-- What stands behind the opening of a block comment, its closing included. Block comments in it are whole, and
no other character of it opens or closes one together with the next. -/
inductive Enclosed : List Char → Prop
  | close : Enclosed ['*', '/']
  | char {c cs} (hopen : c = '/' → Clear (· == '*') cs) (hclose : c = '*' → Clear (· == '/') cs)
      (h : Enclosed cs) : Enclosed (c :: cs)
  | comment {inner cs} (hinner : Enclosed inner) (h : Enclosed cs) :
      Enclosed ('/' :: '*' :: (inner ++ cs))

/-- Blanks and comments in front of some text. A comment that is no block goes on up to the next line feed or to
the end of everything. -/
inductive Skipped (after : List Char) : List Char → Prop
  | nil : Skipped after []
  | blank {c cs} (hc : isSpace c = true) (h : Skipped after cs) : Skipped after (c :: cs)
  | line {comment cs} (hcomment : '\n' ∉ comment) (hstop : ∀ c ∈ (cs ++ after).head?, c = '\n')
      (h : Skipped after cs) : Skipped after ('/' :: '/' :: (comment ++ cs))
  | block {comment cs} (hcomment : Enclosed comment) (h : Skipped after cs) :
      Skipped after ('/' :: '*' :: (comment ++ cs))

theorem skipped_blanks {bs : List Char} (hbs : ∀ b ∈ bs, isSpace b = true) (after : List Char) :
    Skipped after bs := by
  induction bs with
  | nil => exact .nil
  | cons b bs ih =>
      obtain ⟨hb, hbs⟩ := List.forall_mem_cons.1 hbs
      exact .blank hb (ih hbs)

theorem Enclosed.ne_nil {cs : List Char} (h : Enclosed cs) : cs ≠ [] := by
  cases h <;> simp

/-! ### What skipping leaves behind -/

/-- A comment that is no block is skipped up to a line feed or the end. -/
theorem exists_of_skip_line {text here : List Char} (h : skip .line text = .ok here) :
    ∃ comment more, text = comment ++ more ∧ '\n' ∉ comment ∧ (∀ c ∈ more.head?, c = '\n') ∧
      skip .between more = .ok here := by
  induction text with
  | nil => exact ⟨[], [], rfl, List.not_mem_nil, nofun, h⟩
  | cons c text ih =>
      rw [skip] at h
      split at h
      · rename_i hc
        obtain rfl := beq_iff_eq.1 hc
        exact ⟨[], '\n' :: text, rfl, List.not_mem_nil, fun d hd => (Option.some.inj hd).symm, h⟩
      · rename_i hc
        obtain ⟨comment, more, rfl, hcomment, hmore, hskip⟩ := ih h
        refine ⟨c :: comment, more, rfl, ?_, hmore, hskip⟩
        rw [List.mem_cons, not_or]
        exact ⟨fun heq => hc (beq_iff_eq.2 heq.symm), hcomment⟩

theorem clear_of_append_ne {b : Char} {cs more : List Char} (h : ∀ rest, cs ++ more ≠ b :: rest) :
    Clear (· == b) cs := by
  intro c hc
  obtain ⟨ds, rfl⟩ := List.head?_eq_some_iff.1 hc
  exact beq_eq_false_iff_ne.2 fun heq => h (ds ++ more) (by rw [heq]; rfl)

/-- A block comment that is open at some depth is skipped up to its closing. -/
theorem exists_of_skip_block {opening : List Char} {depth : Nat} {text here : List Char}
    (h : skip (.block opening (depth + 1)) text = .ok here) :
    ∃ comment more, text = comment ++ more ∧ Enclosed comment ∧
      skip (Gap.closing opening (depth + 1)) more = .ok here := by
  generalize hgap : Gap.block opening (depth + 1) = gap at h
  unfold skip at h
  split at h <;> cases hgap
  · cases h
  · rename_i hopen
    exact (hopen _ _ rfl).elim
  · -- A comment in the comment is skipped first, and then what is left of the outer one.
    obtain ⟨inner, more, rfl, hinner, h⟩ := exists_of_skip_block h
    have hclose : skip (.block opening (depth + 1)) more = .ok here := h
    obtain ⟨outer, more, rfl, houter, h⟩ := exists_of_skip_block hclose
    exact ⟨_, more, by rw [List.cons_append, List.cons_append, List.append_assoc], .comment hinner houter, h⟩
  · exact ⟨_, _, rfl, .close, h⟩
  · rename_i hopen hclose
    obtain ⟨comment, more, rfl, hcomment, h⟩ := exists_of_skip_block h
    refine ⟨_ :: comment, more, rfl, .char (fun hc => ?_) (fun hc => ?_) hcomment, h⟩
    · exact clear_of_append_ne fun rest heq => hopen rest hc heq
    · exact clear_of_append_ne fun rest heq => hclose rest hc heq
termination_by text.length

/-- What is skipped in front of a text is made of blanks and comments. -/
theorem exists_skipped_of_skip {text here : List Char} (h : skip .between text = .ok here) :
    ∃ gap, text = gap ++ here ∧ Skipped here gap := by
  generalize hgap : Gap.between = state at h
  unfold skip at h
  split at h <;> cases hgap
  · cases h
    exact ⟨[], rfl, .nil⟩
  · obtain ⟨comment, more, rfl, hcomment, hstop, h⟩ := exists_of_skip_line h
    obtain ⟨gap, rfl, hgap⟩ := exists_skipped_of_skip h
    exact ⟨_, by rw [List.cons_append, List.cons_append, List.append_assoc], .line hcomment hstop hgap⟩
  · obtain ⟨comment, more, rfl, hcomment, h⟩ := exists_of_skip_block h
    have hclose : skip .between more = .ok here := h
    obtain ⟨gap, rfl, hgap⟩ := exists_skipped_of_skip hclose
    exact ⟨_, by rw [List.cons_append, List.cons_append, List.append_assoc], .block hcomment hgap⟩
  · split at h
    · rename_i hc
      obtain ⟨gap, rfl, hgap⟩ := exists_skipped_of_skip h
      exact ⟨_ :: gap, rfl, .blank hc hgap⟩
    · cases h
      exact ⟨[], rfl, .nil⟩
termination_by text.length

theorem skipped_of_skip {gap here : List Char} (h : skip .between (gap ++ here) = .ok here) :
    Skipped here gap := by
  obtain ⟨gap', hgap', hskipped⟩ := exists_skipped_of_skip h
  rw [List.append_cancel_right hgap']
  exact hskipped

/-! ### What is skipped -/

/-- A block comment is skipped at any depth, and one less is open then. -/
theorem skip_enclosed {comment : List Char} (h : Enclosed comment) (opening : List Char) (depth : Nat)
    (rest : List Char) :
    skip (.block opening (depth + 1)) (comment ++ rest) = skip (Gap.closing opening (depth + 1)) rest := by
  induction h generalizing depth rest with
  | close => rfl
  | @char c cs hopen hclose h ih =>
      obtain ⟨d, ds, rfl⟩ := List.exists_cons_of_ne_nil h.ne_nil
      rw [List.cons_append, skip]
      · exact ih depth rest
      · rintro more hc heq
        have hclear := hopen hc d rfl
        rw [(List.cons.inj heq).1] at hclear
        cases hclear
      · rintro more hc heq
        have hclear := hclose hc d rfl
        rw [(List.cons.inj heq).1] at hclear
        cases hclear
  | @comment inner cs _ _ ihinner ih =>
      rw [List.cons_append, List.cons_append, List.append_assoc, skip, ihinner]
      exact ih depth rest

/-- A comment that is no block is skipped like nothing, if a line feed or the end comes behind it. -/
theorem skip_line {comment more : List Char} (hcomment : '\n' ∉ comment)
    (hstop : ∀ c ∈ more.head?, c = '\n') : skip .line (comment ++ more) = skip .between more := by
  induction comment with
  | nil =>
      cases more with
      | nil => rfl
      | cons c more =>
          obtain rfl := hstop c rfl
          rfl
  | cons c comment ih =>
      rw [List.mem_cons, not_or] at hcomment
      rw [List.cons_append, skip, if_neg fun hc => hcomment.1 (beq_iff_eq.1 hc).symm]
      exact ih hcomment.2

/-- Blanks and comments in front of a text are skipped. -/
theorem skip_skipped {gap here : List Char} (h : Skipped here gap) :
    skip .between (gap ++ here) = skip .between here := by
  induction h with
  | nil => rfl
  | blank hc _ ih => rw [List.cons_append, ← List.singleton_append, skip_blanks (by simpa using hc), ih]
  | line hcomment hstop _ ih =>
      rw [List.cons_append, List.cons_append, List.append_assoc, skip, skip_line hcomment hstop, ih]
  | block hcomment _ ih =>
      rw [List.cons_append, List.cons_append, List.append_assoc, skip]
      exact (skip_enclosed hcomment _ 0 _).trans ih

end PartScript.Lexer
