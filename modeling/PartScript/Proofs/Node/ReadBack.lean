import PartScript.Proofs.Node.Legible
import PartScript.Proofs.Node.Nesting

/-!
What is printed is a phrase of the grammar again. An expression is printed with parentheses exactly
where its parts bind more loosely than the place they stand in, so that the lexemes of an expression of
some strength are a phrase of the level of that strength, and the tree of that phrase is the expression
up to marks. What a phrase asks for is that the next lexeme does not go on with it. Its nesting is that of
the tree with all parentheses that are printed.
-/

namespace PartScript

namespace Node

/-- The statements of a script or a function. -/
def statements : Node → List Node
  | program _ body => body
  | function _ _ body => body
  | _ => []

/-- The text of the statement starts with a minus. -/
def leadsWithMinus (n : Node) : Bool :=
  match Printer.statement .standard 0 n with
  | .ok text => text.startsWith "-"
  | .error _ => false

/-- In none of some scripts and functions does a statement behind another one start with a minus. -/
def Parted (ns : List Node) : Prop :=
  ∀ n ∈ ns, ∀ x ∈ n.statements.tail, x.leadsWithMinus = false

instance (ns : List Node) : Decidable (Parted ns) :=
  inferInstanceAs (Decidable (∀ n ∈ ns, ∀ x ∈ n.statements.tail, x.leadsWithMinus = false))

theorem Parted.mono {ns ms : List Node} (h : Parted ns) (hms : ∀ n ∈ ms, n ∈ ns) : Parted ms :=
  fun n hn => h n (hms n hn)

end Node

namespace Printer

open Lexer
open PartScript.Parser (Setting)
open Node (Writable WritableAll Parted)
open Grammar

/-! ### Phrases by strength -/

/-- The phrases of the level for a strength. -/
def Phrase (k : Nat) (s : Setting) : Nat → List Token → Node → List Token → Prop :=
  match k with
  | 0 => Expression s
  | 1 => Sum s
  | 2 => Product s
  | 3 => Operand s
  | _ => Suffixed s

/-- The levels that a phrase of a strength is by itself: only whole expressions are one. -/
def opens (k : Nat) : Nat := if k = 0 then 1 else 0

@[simp] theorem opens_zero : opens 0 = 1 := rfl

@[simp] theorem opens_succ (k : Nat) : opens (k + 1) = 0 := rfl

/-- The next token satisfies something, if there is one. -/
def Next (rest : List Token) (p : Token → Prop) : Prop := ∀ t after, rest = t :: after → p t

theorem next_cons {t : Token} {after : List Token} {p : Token → Prop} (h : p t) :
    Next (t :: after) p := by
  rintro u us heq
  cases heq
  exact h

/-- The rest of the tokens goes on with no phrase of a strength that stops at a position. -/
structure Closed (k : Nat) (stop : Position) (rest : List Token) : Prop where
  arrow : Next rest fun t => t.kind ≠ .symbol .arrow
  suffix : k ≤ 3 → Next rest fun t => t.kind ≠ .symbol .dot ∧
    (t.kind = .symbol .lbracket ∨ t.kind = .symbol .lparen → stop.line ≠ t.span.start.line)
  product : k ≤ 1 → NoProduct rest
  sum : k = 0 → NoSum rest ∧ NoPipe rest

theorem Closed.mono {k j : Nat} {stop : Position} {rest : List Token} (h : Closed k stop rest)
    (hkj : k ≤ j) : Closed j stop rest :=
  ⟨h.arrow, fun hj => h.suffix (by omega), fun hj => h.product (by omega),
    fun hj => h.sum (by omega)⟩

/-- The symbols that close every phrase, and those that close all phrases but sums or products. -/
def closes (k : Nat) : Symbol → Bool
  | .rparen | .rbracket | .rbrace | .comma => true
  | .pipe | .plus | .minus => decide (1 ≤ k)
  | .star | .slash | .percent => decide (2 ≤ k)
  | .dot | .lbracket => decide (4 ≤ k)
  | _ => false

theorem closed_symbol {k : Nat} (stop : Position) {t : Token} {m : Symbol} (after : List Token)
    (ht : t.kind = .symbol m) (hm : closes k m = true) : Closed k stop (t :: after) := by
  have hne (m' : Symbol) (h : closes k m' ≠ true) : t.kind ≠ .symbol m' := by
    rw [ht]
    rintro heq
    cases heq
    exact h hm
  refine ⟨next_cons (hne _ (by simp [closes])), fun hk => next_cons ⟨hne _ ?_, ?_⟩, ?_, ?_⟩
  · simp [closes]
    omega
  · rintro (h | h)
    · exact absurd h (hne _ (by simp [closes]; omega))
    · exact absurd h (hne _ (by simp [closes]))
  · intro hk u us heq m' op hsign
    cases heq
    cases hsign <;> exact hne _ (by simp [closes]; omega)
  · intro hk
    constructor
    · intro u us heq m' op hsign
      cases heq
      cases hsign <;> exact hne _ (by simp [closes]; omega)
    · intro u us heq
      cases heq
      exact hne _ (by simp [closes]; omega)

theorem next_nil (p : Token → Prop) : Next [] p :=
  fun t after heq => absurd heq (List.cons_ne_nil t after).symm

theorem closed_nil (k : Nat) (stop : Position) : Closed k stop [] :=
  ⟨next_nil _, fun _ => next_nil _, fun _ => noProduct_nil, fun _ => ⟨noSum_nil, noPipe_nil⟩⟩

/-! ### Tokens at their places -/

/-- The token of a kind with a text at a position. -/
def tokenAt (file : Option String) (p : Position) (kind : TokenKind) (text : List Char) : Token :=
  ⟨kind, String.ofList text, ⟨p, p.after text, file⟩⟩

/-- The token of a symbol at a position. -/
def symbolAt (file : Option String) (p : Position) (m : Symbol) : Token :=
  tokenAt file p (.symbol m) m.text.toList

/-- The token of a name at a position. -/
def nameAt (file : Option String) (p : Position) (i : Ident) : Token :=
  tokenAt file p (.identifier i.name) i.name.toList

@[simp] theorem kind_tokenAt (file : Option String) (p : Position) (kind : TokenKind)
    (text : List Char) : (tokenAt file p kind text).kind = kind := rfl

@[simp] theorem kind_symbolAt (file : Option String) (p : Position) (m : Symbol) :
    (symbolAt file p m).kind = .symbol m := rfl

@[simp] theorem span_symbolAt (file : Option String) (p : Position) (m : Symbol) :
    (symbolAt file p m).span = ⟨p, p.after m.text.toList, file⟩ := rfl

@[simp] theorem kind_nameAt (file : Option String) (p : Position) (i : Ident) :
    (nameAt file p i).kind = .identifier i.name := rfl

@[simp] theorem span_nameAt (file : Option String) (p : Position) (i : Ident) :
    (nameAt file p i).span = ⟨p, p.after i.name.toList, file⟩ := rfl

@[simp] theorem placed_symbol (file : Option String) (p : Position) (m : Symbol)
    (ps : List Piece) : placed file p (.symbol m :: ps) =
      symbolAt file p m :: placed file (p.after m.text.toList) ps := rfl

@[simp] theorem placed_word (file : Option String) (p : Position) (kind : TokenKind)
    (text : List Char) (ps : List Piece) : placed file p (.word kind text :: ps) =
      tokenAt file p kind text :: placed file (p.after text) ps := rfl

@[simp] theorem placed_name (file : Option String) (p : Position) (i : Ident) (ps : List Piece) :
    placed file p (namePiece i :: ps) =
      nameAt file p i :: placed file (p.after i.name.toList) ps := rfl

@[simp] theorem placed_space (file : Option String) (p : Position) (ps : List Piece) :
    placed file p (space :: ps) = placed file (p.after [' ']) ps := rfl

@[simp] theorem placed_newLine (file : Option String) (p : Position) (style : Style) (level : Nat)
    (ps : List Piece) : placed file p (newLine style level :: ps) =
      placed file (p.after ('\n' :: (style.indent level).toList)) ps := rfl

/-- Pieces at a position are a phrase of a nesting for a tree up to marks, in front of the rest of the
tokens. -/
def Yields (R : Nat → List Token → Node → List Token → Prop) (n : Nat) (file : Option String)
    (p : Position) (ps : List Piece) (e : Node) (rest : List Token) : Prop :=
  ∃ e', R n (placed file p ps ++ rest) e' rest ∧ e'.bare = e.bare ∧
    e'.span.stop = p.after (chars ps)

variable {s : Setting} {n : Nat} {file : Option String} {p : Position} {ps : List Piece} {e : Node}
  {rest : List Token}

theorem yields_of {R : Nat → List Token → Node → List Token → Prop} {ts : List Token}
    {e' : Node} (h : R n ts e' rest) (hts : placed file p ps ++ rest = ts)
    (hbare : e'.bare = e.bare) (hstop : e'.span.stop = p.after (chars ps)) :
    Yields R n file p ps e rest :=
  ⟨e', hts ▸ h, hbare, hstop⟩

theorem noSuffix_of_closed {k : Nat} {ts : List Token} {stop : Position}
    (h : Closed k stop rest) (hk : k ≤ 3) (hends : Ends ts stop rest) : NoSuffix ts rest := by
  intro t after heq
  subst heq
  obtain ⟨hdot, hline⟩ := h.suffix hk t after rfl
  exact ⟨hdot, fun hopen hadjoins => hline hopen (hends.adjoins_iff.1 hadjoins)⟩

/-- A phrase is one of the next looser level if the rest does not go on with it. -/
theorem Yields.loosen {k : Nat} (hk : k < 4) (h : Yields (Phrase (k + 1) s) n file p ps e rest)
    (hclosed : Closed k (p.after (chars ps)) rest) :
    Yields (Phrase k s) (n + opens k) file p ps e rest := by
  obtain ⟨e', hphrase, hbare, hstop⟩ := h
  match k with
  | 0 =>
      have hsum : Sum s n _ e' rest := hphrase
      exact ⟨e', Expression.sum hsum (hclosed.sum rfl).1 (hclosed.sum rfl).2, hbare, hstop⟩
  | 1 =>
      have hproduct : Product s n _ e' rest := hphrase
      exact ⟨e', Sum.first hproduct (hclosed.product (by omega)), hbare, hstop⟩
  | 2 =>
      have hoperand : Operand s n _ e' rest := hphrase
      exact ⟨e', Product.first hoperand, hbare, hstop⟩
  | 3 =>
      have hsuffixed : Suffixed s n _ e' rest := hphrase
      have hends := hsuffixed.ends
      rw [hstop] at hends
      exact ⟨e', Operand.suffixed hsuffixed (noSuffix_of_closed hclosed (by omega) hends),
        hbare, hstop⟩
  | k + 4 => omega

theorem Yields.loosenTo {j k : Nat} (hkj : k ≤ j) (hj : j ≤ 4)
    (h : Yields (Phrase j s) (n + opens j) file p ps e rest)
    (hclosed : Closed k (p.after (chars ps)) rest) :
    Yields (Phrase k s) (n + opens k) file p ps e rest := by
  obtain ⟨d, rfl⟩ := Nat.exists_eq_add_of_le hkj
  induction d with
  | zero => exact h
  | succ d ih =>
      exact ih (by omega) (by omega) (h.loosen (by omega) (hclosed.mono (by omega)))

/-! ### Parentheses -/

theorem expression_of_suffixed {ts : List Token} (h : Suffixed s n ts e rest)
    (hclosed : Closed 0 e.span.stop rest) : Expression s (n + 1) ts e rest :=
  .sum (.first (.first (.suffixed h (noSuffix_of_closed hclosed (by omega) h.ends)))
    (hclosed.product (by omega))) (hclosed.sum rfl).1 (hclosed.sum rfl).2

/-- An expression in parentheses that no arrow follows is not the head of a function. -/
theorem not_head {ts : List Token} {u : Token} (h : Expression s n ts e (u :: rest))
    (hu : u.kind = .symbol .rparen) (hrest : Next rest fun t => t.kind ≠ .symbol .arrow) :
    ∀ params us, ¬ Head ts params us := by
  -- A name in front of a comma or a parenthesis is a whole expression, and the only one there.
  have hname {t v : Token} {name : String} {m : Symbol} {us : List Token}
      (hts : ts = t :: v :: us) (ht : t.kind = .identifier name) (hv : v.kind = .symbol m)
      (hm : closes 0 m = true) : u :: rest = v :: us := by
    subst hts
    have hsuffixed : Suffixed s 0 (t :: v :: us) _ (v :: us) := .atom (.name ht)
    have hexpression := expression_of_suffixed hsuffixed (closed_symbol _ us hv hm)
    exact ((Statement.expression h).unique (Statement.expression hexpression)).2.2
  intro params us hhead
  cases hhead with
  | nil ht _ =>
      obtain ⟨t', after, heq, hstarts⟩ := h.starts
      cases heq
      rw [ht] at hstarts
      cases hstarts
  | last ht hv hw =>
      obtain ⟨rfl, hafter⟩ := List.cons.inj (hname rfl ht hv rfl)
      exact hrest _ _ hafter hw
  | more ht hv _ =>
      obtain ⟨rfl, -⟩ := List.cons.inj (hname rfl ht hv rfl)
      rw [hu] at hv
      cases hv

/-- An expression in parentheses is an atom. -/
theorem Yields.parens
    (h : ∀ q u after, u.kind = .symbol .rparen → Yields (Phrase 0 s) n file q ps e (u :: after))
    (hrest : Next rest fun t => t.kind ≠ .symbol .arrow) :
    Yields (Phrase 4 s) n file p (enclosed true ps) e rest := by
  let q := p.after Symbol.lparen.text.toList
  obtain ⟨e', hphrase, hbare, -⟩ := h q (symbolAt file (q.after (chars ps)) .rparen) rest rfl
  have hexpression : Expression s n _ e' _ := hphrase
  have hatom := Atom.parens (kind_symbolAt file p .lparen) (not_head hexpression rfl hrest)
    hexpression rfl
  refine yields_of (R := Phrase 4 s) (Suffixed.atom hatom) ?_ ((Node.bare_setMark _ e').trans hbare) ?_
  · simp [enclosed, placed_append, q]
  · simp [enclosed, Mark.at, Position.after_append, q]

/-- An expression that yields a phrase of its strength yields one of any strength, in parentheses if
they are needed. -/
theorem Yields.enclosed {k : Nat} (hk : k ≤ 4) (needed : Bool) {ps : List Piece}
    (h : ∀ q rest, Closed (rank e) (q.after (chars ps)) rest →
      Yields (Phrase (rank e) s) (n + opens (rank e)) file q ps e rest)
    (hneeded : needed = false → k ≤ rank e)
    (hclosed : Closed k (p.after (chars (enclosed needed ps))) rest) :
    Yields (Phrase k s) (n + needed.toNat + opens k) file p (enclosed needed ps) e rest := by
  cases needed with
  | false =>
      have hyields := h p rest (hclosed.mono (hneeded rfl))
      exact hyields.loosenTo (hneeded rfl) (rank_le e) hclosed
  | true =>
      refine (Yields.parens (fun q u after hu => ?_) hclosed.arrow).loosenTo hk (Nat.le_refl 4) hclosed
      have hyields := h q (u :: after) ((closed_symbol _ after hu rfl : Closed 0 _ _).mono (Nat.zero_le _))
      exact hyields.loosenTo (Nat.zero_le _) (rank_le e) (closed_symbol _ after hu rfl)

/-! ### Statements behind each other -/

theorem leadsWithMinus_iff {n : Node} (h : Writable .statement s n) {style : Style} {level : Nat}
    {kind : TokenKind} {text : List Char} (hn : pieces style level n = .word kind text :: ps) :
    n.leadsWithMinus = true ↔ kind = .symbol .minus := by
  obtain ⟨kind', text', ps', hled, hleads⟩ := led_pieces .standard 0 s n .statement (.inr rfl) h
  have hhead := head?_pieces style .standard level 0 s n .statement (.inr rfl) h
  rw [hn, hled] at hhead
  cases hhead
  have hlegible := legible_pieces .standard 0 .statement s n h [] (.inl (clear_nil _))
  rw [hled] at hlegible
  obtain ⟨c, cs, hc⟩ := List.exists_cons_of_ne_nil hlegible.1.ne_nil
  simp only [Node.leadsWithMinus, statement_eq .standard 0 s n h, String.startsWith_string_iff,
    toList_textOf, hled, chars_cons, Piece.chars_word]
  constructor
  · intro hprefix
    rw [hc] at hprefix
    obtain ⟨more, hmore⟩ := hprefix
    obtain ⟨rfl, -⟩ := List.cons.inj hmore
    exact kind_of_minus (hc ▸ hlegible.1)
  · intro hkind
    rw [hleads.symbol _ hkind]
    exact ⟨_, rfl⟩

theorem line_after {cs : List Char} (h : ∀ c ∈ cs, c ≠ '\n') (p : Position) :
    (p.after cs).line = p.line := by
  induction cs generalizing p with
  | nil => rfl
  | cons c cs ih =>
      rw [Position.after_cons, ih (fun d hd => h d (List.mem_cons_of_mem _ hd)), Position.step,
        if_neg (by simpa using h c List.mem_cons_self)]

theorem line_after_newLine (p : Position) (style : Style) (level : Nat) :
    (p.after ('\n' :: (style.indent level).toList)).line = p.line + 1 := by
  rw [Position.after_cons, line_after]
  · rfl
  · intro c hc
    unfold Style.indent at hc
    split at hc
    · rw [String.toList_ofList] at hc
      rw [List.eq_of_mem_replicate hc]
      decide
    · rw [String.toList_ofList] at hc
      rw [List.eq_of_mem_replicate hc]
      decide

/-- A statement on a new line that starts with neither a minus nor the value of a stage goes on with
nothing. -/
theorem closed_statement {stop : Position} {t : Token} (after : List Token)
    (hstarts : startsStatement t.kind = true) (hpercent : t.kind ≠ .symbol .percent)
    (hminus : t.kind ≠ .symbol .minus) (hline : stop.line ≠ t.span.start.line) :
    Closed 0 stop (t :: after) := by
  have hne {m : Symbol} (hm : startsStatement (.symbol m) = false) : t.kind ≠ .symbol m := by
    intro h
    rw [h, hm] at hstarts
    cases hstarts
  refine ⟨next_cons (hne rfl), fun _ => next_cons ⟨hne rfl, fun _ => hline⟩, fun _ => ?_, fun _ => ⟨?_, ?_⟩⟩
  · intro u us heq m op hsign
    cases heq
    cases hsign with
    | star | slash => exact hne rfl
    | percent => exact hpercent
  · intro u us heq m op hsign
    cases heq
    cases hsign with
    | plus => exact hne rfl
    | minus => exact hminus
  · intro u us heq
    cases heq
    exact hne rfl

theorem closed_lines {more : List Node} (h : WritableAll .statement s more)
    (hs : s.inStage = false) (hminus : ∀ x ∈ more, x.leadsWithMinus = false) (style : Style)
    (level : Nat) (hrest : ∀ stop, Closed 0 stop rest) :
    Closed 0 p (placed file p (lines style level more) ++ rest) := by
  cases more with
  | nil => exact hrest p
  | cons x more =>
      obtain ⟨kind, text, ps, hled, hleads⟩ := led_pieces style level s x .statement (.inr rfl) h.1
      simp only [lines, hled, placed_newLine, List.cons_append, placed_word]
      refine closed_statement _ hleads.starts (fun hpercent => ?_) (fun hkind => ?_) ?_
      · rw [hleads.percent hpercent] at hs
        cases hs
      · have htrue := (leadsWithMinus_iff h.1 hled).2 hkind
        rw [hminus x List.mem_cons_self] at htrue
        cases htrue
      · rw [tokenAt, line_after_newLine]
        omega

/-! ### Expressions -/

/-- An expression is printed as a phrase of its strength and its nesting. -/
def ReadsBack (style : Style) (level : Nat) (file : Option String) (s : Setting) (e : Node) : Prop :=
  ∀ p rest, Closed (rank e) (p.after (chars (pieces style level e))) rest →
    Yields (Phrase (rank e) s) (nesting true e + opens (rank e)) file p (pieces style level e) e rest

variable {style : Style} {level : Nat}

/-- A printed expression in front of a closing symbol is a whole expression. -/
theorem ReadsBack.closing (h : ReadsBack style level file s e) {u : Token} {m : Symbol}
    (hu : u.kind = .symbol m) (hm : closes 0 m = true) (after : List Token) (p : Position) :
    Yields (Expression s) (nesting true e + 1) file p (pieces style level e) e (u :: after) := by
  have hclosed (stop : Position) : Closed 0 stop (u :: after) := closed_symbol stop after hu hm
  exact (h p _ ((hclosed _).mono (Nat.zero_le _))).loosenTo (k := 0) (Nat.zero_le _) (rank_le e)
    (hclosed _)

theorem readsBack_literal {m : Mark} {value : Plain} {raw : String}
    (h : Writable .expression s (.literal m value raw)) :
    ReadsBack style level file s (.literal m value raw) := by
  intro p rest _
  have hatom : ∃ e', Atom s 0
      (tokenAt file p ((literalKind? value).getD .finish) raw.toList :: rest) e' rest ∧
        e'.bare = (Node.literal m value raw).bare ∧ e'.span.stop = p.after raw.toList := by
    simp only [Writable] at h
    obtain ⟨kind, hkind, -⟩ := h
    cases value with
    | number v => exact ⟨_, .number rfl, by simp [Node.bare, tokenAt], rfl⟩
    | text v => exact ⟨_, .string rfl, by simp [Node.bare, tokenAt], rfl⟩
    | bool b =>
        cases b with
        | false => exact ⟨_, .falseWord rfl, by simp [Node.bare, tokenAt], rfl⟩
        | true => exact ⟨_, .trueWord rfl, by simp [Node.bare, tokenAt], rfl⟩
    | null | opaqueItem | list _ | tuple _ | record _ => cases hkind
  obtain ⟨e', he', hbare, hstop⟩ := hatom
  rw [nesting]
  refine yields_of (R := Phrase 4 s) (Suffixed.atom he') ?_ hbare ?_
  · simp [pieces]
  · simpa [pieces] using hstop

theorem nesting_binary (m : Mark) (op : BinaryOp) (l r : Node) :
    nesting true (.binary m op l r) =
      max (nesting true l + (decide (rank l < op.strength?.getD 0)).toNat)
        (nesting true r + (decide (rank r ≤ op.strength?.getD 0)).toNat) := by
  simp [nesting, wraps, Nat.lt_succ_iff]

/-- Operands on both sides of an operator of a strength are a phrase of that strength, the right one
being a tighter phrase, if the grammar says so. -/
theorem readsBack_operator {m : Mark} {op : BinaryOp} {l r : Node} {sign : Symbol} {j : Nat}
    (hj : j < 4) (hopens : opens j = 0) (hsymbol : operatorSymbol op = sign)
    (hstrength : op.strength? = some j)
    (hsign : closes j sign = true)
    (combine : ∀ n k ts t us l' r' rest, t.kind = .symbol sign → Phrase j s n ts l' (t :: us) →
      Phrase (j + 1) s k us r' rest → Closed j r'.span.stop rest →
      Phrase j s (max n k) ts (.binary (.at (l'.span.upTo r'.span)) op l' r') rest)
    (hl : ReadsBack style level file s l) (hr : ReadsBack style level file s r) :
    ReadsBack style level file s (.binary m op l r) := by
  intro p rest hclosed
  have hrank : rank (.binary m op l r) = j := by simp [rank, hstrength]
  have hneededl : decide (rank l < op.strength?.getD 0) = false → j ≤ rank l := by
    rw [hstrength, Option.getD_some]
    exact fun h => Nat.not_lt.1 (of_decide_eq_false h)
  have hneededr : decide (rank r ≤ op.strength?.getD 0) = false → j + 1 ≤ rank r := by
    rw [hstrength, Option.getD_some]
    exact fun h => Nat.not_le.1 (of_decide_eq_false h)
  let left := enclosed (rank l < op.strength?.getD 0) (pieces style level l)
  let right := enclosed (rank r ≤ op.strength?.getD 0) (pieces style level r)
  let q := (p.after (chars left)).after [' ']
  have hends : p.after (chars (pieces style level (.binary m op l r))) =
      ((q.after sign.text.toList).after [' ']).after (chars right) := by
    simp [pieces, Position.after_append, hsymbol, space, q, left, right]
  rw [hrank, hends] at hclosed
  obtain ⟨r', hr', hrbare, hrstop⟩ :=
    Yields.enclosed (by omega) _ hr hneededr (hclosed.mono (Nat.le_succ j))
  obtain ⟨l', hl', hlbare, -⟩ :=
    Yields.enclosed (p := p) (by omega) _ hl hneededl
      (closed_symbol (p.after (chars left))
        (placed file ((q.after sign.text.toList).after [' ']) right ++ rest)
        (kind_symbolAt file q sign) hsign)
  have hnesting : nesting true (.binary m op l r) + opens j =
      max (nesting true l + (decide (rank l < op.strength?.getD 0)).toNat + opens j)
        (nesting true r + (decide (rank r ≤ op.strength?.getD 0)).toNat + opens (j + 1)) := by
    rw [nesting_binary, hopens]
    rfl
  rw [hrank, hnesting]
  refine yields_of (R := Phrase j s)
    (combine _ _ _ _ _ l' r' rest (kind_symbolAt file q sign) hl' hr' (hrstop ▸ hclosed)) ?_ ?_ ?_
  · simp [pieces, placed_append, hsymbol, q, left, right]
  · simp [Node.bare, hlbare, hrbare]
  · rw [hends]
    exact hrstop

theorem readsBack_binary {m : Mark} {op : BinaryOp} {l r : Node}
    (hop : ∃ m, SumSign m op ∨ ProductSign m op) (hl : ReadsBack style level file s l)
    (hr : ReadsBack style level file s r) :
    ReadsBack style level file s (.binary m op l r) := by
  obtain ⟨sign, hsign | hsign⟩ := hop
  · obtain ⟨hsymbol, -, hstrength⟩ := sumSign_iff hsign
    refine readsBack_operator (by omega) rfl hsymbol hstrength (by cases hsign <;> rfl) ?_ hl hr
    intro n k ts t us l' r' rest ht hl' hr' hclosed
    exact Sum.more hl' ht hsign hr' (hclosed.product (by omega))
  · obtain ⟨hsymbol, -, hstrength⟩ := productSign_iff hsign
    refine readsBack_operator (by omega) rfl hsymbol hstrength (by cases hsign <;> rfl) ?_ hl hr
    intro n k ts t us l' r' rest ht hl' hr' _
    exact Product.more hl' ht hsign hr'

theorem readsBack_unary {m : Mark} {op : UnaryOp} (hop : ∃ m, FrontSign m op)
    (he : ReadsBack style level file s e) : ReadsBack style level file s (.unary m op e) := by
  intro p rest hclosed
  obtain ⟨sign, hsign⟩ := hop
  obtain ⟨hsymbol, -⟩ := frontSign_iff hsign
  have hends : p.after (chars (pieces style level (.unary m op e))) =
      (p.after sign.text.toList).after
        (chars (enclosed (rank e < signStrength) (pieces style level e))) := by
    simp [pieces, Position.after_append, hsymbol]
  rw [hends] at hclosed
  obtain ⟨e', he', hbare, hstop⟩ := Yields.enclosed (k := 3) (by omega)
    (rank e < signStrength) he (fun hneeded => Nat.not_lt.1 (of_decide_eq_false hneeded)) hclosed
  have hnesting : nesting true (.unary m op e) =
      nesting true e + (decide (rank e < signStrength)).toNat + 1 := by
    simp [nesting, wraps]
  rw [hnesting]
  refine yields_of (R := Phrase 3 s) (Operand.sign (kind_symbolAt file p sign) hsign he') ?_ ?_ ?_
  · simp [pieces, hsymbol]
  · simp [Node.bare, hbare]
  · rw [hends]
    exact hstop

/-- The target of a member or an index. -/
theorem yields_target (he : ReadsBack style level file s e) {t : Token} {m : Symbol}
    (ht : t.kind = .symbol m) (hm : closes 4 m = true) (after : List Token) (p : Position) :
    Yields (Suffixed s) (nesting true e + (wrapsTarget true e).toNat) file p
      (enclosed (rank e < atomStrength || isBareNumber e) (pieces style level e)) e
      (t :: after) := by
  have hwraps : wrapsTarget true e = (decide (rank e < atomStrength) || isBareNumber e) := by
    simp [wrapsTarget, wraps]
  rw [hwraps]
  refine Yields.enclosed (k := 4) (by omega) _ he (fun hneeded => ?_) (closed_symbol _ after ht hm)
  simp only [Bool.or_eq_false_iff, decide_eq_false_iff_not] at hneeded
  have hle : ¬ rank e < 4 := hneeded.1
  omega

theorem readsBack_member {m : Mark} {label : Ident} (he : ReadsBack style level file s e) :
    ReadsBack style level file s (.member m e label) := by
  intro p rest _
  let q := p.after (chars (enclosed (rank e < atomStrength || isBareNumber e)
    (pieces style level e)))
  obtain ⟨e', he', hbare, -⟩ := yields_target he (kind_symbolAt file q .dot) rfl
    (nameAt file (q.after ['.']) label :: rest) p
  rw [nesting]
  refine yields_of (R := Phrase 4 s) (Suffixed.member he' rfl rfl) ?_ ?_ ?_
  · simp [pieces, placed_append, q, Symbol.text]
  · simp [Node.bare, hbare, Ident.bare, Ident.at]
  · simp [pieces, Position.after_append, namePiece, Node.span, Node.mark, Mark.at, q, Symbol.text]

theorem readsBack_index {m : Mark} {key : Node} (he : ReadsBack style level file s e)
    (hkey : ReadsBack style level file s key) :
    ReadsBack style level file s (.index m e key) := by
  intro p rest _
  let q := p.after (chars (enclosed (rank e < atomStrength || isBareNumber e)
    (pieces style level e)))
  let q' := (q.after ['[']).after (chars (pieces style level key))
  obtain ⟨key', hkey', hkeybare, -⟩ :=
    hkey.closing (kind_symbolAt file q' .rbracket) rfl rest (q.after ['['])
  obtain ⟨e', he', hbare, hstop⟩ := yields_target he (kind_symbolAt file q .lbracket) rfl
    (placed file (q.after ['[']) (pieces style level key) ++ symbolAt file q' .rbracket :: rest) p
  have hadjoins : Adjoins _ (symbolAt file q .lbracket) _ :=
    he'.ends.adjoins_iff.2 (by rw [hstop]; rfl)
  rw [nesting]
  refine yields_of (R := Phrase 4 s) (Suffixed.index he' rfl hadjoins hkey' rfl) ?_ ?_ ?_
  · simp [pieces, placed_append, q, q', Symbol.text]
  · simp [Node.bare, hbare, hkeybare]
  · simp [pieces, Position.after_append, Node.span, Node.mark, Mark.at, q, q', Symbol.text]

/-! ### Rows -/

/-- A printed row up to a closing symbol, as the grammar reads it. -/
def YieldsRow (R : Nat → List Token → List Node → List Token → Prop) (file : Option String)
    (m : Symbol) (ps : List Piece) (es : List Node) : Prop :=
  ∀ p u after, u.kind = .symbol m → ∃ es',
    R (nestingAll true 1 es) (placed file p ps ++ u :: after) es' (u :: after) ∧
      Node.bareAll es' = Node.bareAll es

theorem yieldsRow_items_nil (m : Symbol) : YieldsRow (Items m s) file m [] [] :=
  fun _ _ _ hu => ⟨[], .nil hu, rfl⟩

theorem yieldsRow_items_cons {m : Symbol} (hm : closes 0 m = true) {es : List Node}
    (he : ReadsBack style level file s e)
    (hes : YieldsRow (Items m s) file m (row style level es) es) :
    YieldsRow (Items m s) file m (row style level (e :: es)) (e :: es) := by
  intro p u after hu
  cases es with
  | nil =>
      obtain ⟨e', he', hbare, -⟩ := he.closing hu hm after p
      refine ⟨[e'], ?_, by simp [Node.bareAll, hbare]⟩
      simpa [row, comma, nestingAll] using Items.last he' hu
  | cons x es =>
      let q := p.after (chars (pieces style level e))
      obtain ⟨es', hes', hbares⟩ := hes ((q.after [',']).after [' ']) u after hu
      obtain ⟨e', he', hbare, -⟩ := he.closing (kind_symbolAt file q .comma) rfl _ p
      refine ⟨e' :: es', ?_, by rw [Node.bareAll, hbare, hbares]; rfl⟩
      rw [nestingAll]
      have hitems := Items.more he' rfl hes'
      simpa [row, comma, placed_append, q, Symbol.text] using hitems

theorem yieldsRow_entries_nil : YieldsRow (Entries s) file .rbrace [] [] :=
  fun _ _ _ hu => ⟨[], .nil hu, rfl⟩

theorem yields_entry (m : Mark) (key : Ident) (he : ReadsBack style level file s e) {u : Token}
    {c : Symbol} (hu : u.kind = .symbol c) (hc : closes 0 c = true) (after : List Token)
    (p : Position) :
    Yields (Entry s) (nesting true e + 1) file p (pieces style level (.property m key e))
      (.property m key e) (u :: after) := by
  let q := (p.after key.name.toList).after [':']
  obtain ⟨e', he', hbare, hstop⟩ := he.closing hu hc after (q.after [' '])
  refine yields_of (Entry.mk (kind_nameAt file p key)
    (kind_symbolAt file (p.after key.name.toList) .colon) he') ?_ ?_ ?_
  · simp [pieces, q, Symbol.text]
  · simp [Node.bare, hbare, Ident.bare, Ident.at]
  · simp [pieces, Position.after_append, namePiece, Node.span, Node.mark, Mark.at, Symbol.text,
      space]
    exact hstop

theorem yieldsRow_entries_cons {m : Mark} {key : Ident} {es : List Node}
    (he : ReadsBack style level file s e)
    (hes : YieldsRow (Entries s) file .rbrace (row style level es) es) :
    YieldsRow (Entries s) file .rbrace (row style level (.property m key e :: es))
      (.property m key e :: es) := by
  intro p u after hu
  cases es with
  | nil =>
      obtain ⟨e', he', hbare, -⟩ := yields_entry m key he hu rfl after p
      refine ⟨[e'], ?_, by simp [Node.bareAll, hbare]⟩
      simpa [row, comma, nestingAll, nesting] using Entries.last he' hu
  | cons x es =>
      let q := p.after (chars (pieces style level (.property m key e)))
      obtain ⟨es', hes', hbares⟩ := hes ((q.after [',']).after [' ']) u after hu
      obtain ⟨e', he', hbare, -⟩ :=
        yields_entry m key he (kind_symbolAt file q .comma) rfl _ p
      refine ⟨e' :: es', ?_, by rw [Node.bareAll, hbare, hbares]; rfl⟩
      rw [nestingAll, nesting]
      have hitems := Entries.more he' rfl hes'
      simpa [row, comma, placed_append, q, Symbol.text] using hitems

theorem readsBack_call {m : Mark} {callee : Ident} {args : List Node}
    (hargs : YieldsRow (Items .rparen s) file .rparen (row style level args) args) :
    ReadsBack style level file s (.call m callee args) := by
  intro p rest _
  let q := p.after callee.name.toList
  let q' := (q.after ['(']).after (chars (row style level args))
  obtain ⟨args', hargs', hbares⟩ :=
    hargs (q.after ['(']) (symbolAt file q' .rparen) rest rfl
  have hname (us : List Token) : Suffixed s 0 (nameAt file p callee :: us)
      (.identifier (.at (nameAt file p callee).span callee.name)) us :=
    .atom (.name (kind_nameAt file p callee))
  have hadjoins (us : List Token) : Adjoins (nameAt file p callee :: symbolAt file q .lparen :: us)
      (symbolAt file q .lparen) us :=
    (hname _).ends.adjoins_iff.2 rfl
  rw [nesting]
  have hcall := Suffixed.call (hname _) rfl (hadjoins _) hargs' rfl
  rw [Nat.zero_max] at hcall
  refine yields_of (R := Phrase 4 s) hcall ?_ ?_ ?_
  · simp [pieces, placed_append, q, q', Symbol.text]
  · simp [Node.bare, hbares, Ident.bare, Ident.at]
  · simp [pieces, Position.after_append, namePiece, Node.span, Node.mark, Mark.at, q, q',
      Symbol.text]

theorem readsBack_array {m : Mark} {es : List Node}
    (hes : YieldsRow (Items .rbracket s) file .rbracket (row style level es) es) :
    ReadsBack style level file s (.array m es) := by
  intro p rest _
  let q := (p.after ['[']).after (chars (row style level es))
  obtain ⟨es', hes', hbares⟩ := hes (p.after ['[']) (symbolAt file q .rbracket) rest rfl
  rw [nesting]
  refine yields_of (R := Phrase 4 s)
    (Suffixed.atom (Atom.array (kind_symbolAt file p .lbracket) hes' rfl)) ?_ ?_ ?_
  · simp [pieces, placed_append, q, Symbol.text]
  · simp [Node.bare, hbares]
  · simp [pieces, Position.after_append, Node.span, Node.mark, Mark.at, q, Symbol.text]

theorem readsBack_object {m : Mark} {es : List Node}
    (hes : YieldsRow (Entries s) file .rbrace (row style level es) es) :
    ReadsBack style level file s (.object m es) := by
  intro p rest _
  let q := (p.after ['\x7b']).after (chars (row style level es))
  obtain ⟨es', hes', hbares⟩ := hes (p.after ['\x7b']) (symbolAt file q .rbrace) rest rfl
  rw [nesting]
  refine yields_of (R := Phrase 4 s)
    (Suffixed.atom (Atom.object (kind_symbolAt file p .lbrace) hes' rfl)) ?_ ?_ ?_
  · simp [pieces, placed_append, q, Symbol.text]
  · simp [Node.bare, hbares]
  · simp [pieces, Position.after_append, Node.span, Node.mark, Mark.at, q, Symbol.text]

/-! ### Pipes -/

theorem isCall_of_bare_eq {n m : Node} (h : n.bare = m.bare) : n.isCall = m.isCall := by
  cases n <;> cases m <;> simp [Node.bare] at h <;> rfl

/-- Printed stages, as the grammar reads them. -/
def YieldsStages (style : Style) (level : Nat) (file : Option String) (s : Setting)
    (es : List Node) : Prop :=
  ∀ p rest, Closed 0 (p.after (chars (stagePieces style level es))) rest →
    ∃ es', Stages s (nestingAll true 0 es) (placed file p (stagePieces style level es) ++ rest) es' rest ∧
      Node.bareAll es' = Node.bareAll es ∧
      ∀ h : es' ≠ [], (es'.getLast h).span.stop = p.after (chars (stagePieces style level es))

/-- Stages, or what stands behind the last one, go on with no sum. -/
theorem closed_stages {es : List Node} (file : Option String)
    (h : Closed 0 (p.after (chars (stagePieces style level es))) rest) :
    Closed 1 p (placed file p (stagePieces style level es) ++ rest) ∧
      NoSum (placed file p (stagePieces style level es) ++ rest) := by
  cases es with
  | nil => exact ⟨h.mono (Nat.zero_le 1), (h.sum rfl).1⟩
  | cons x es =>
      simp only [stagePieces, placed_newLine, placed_symbol, List.cons_append]
      refine ⟨closed_symbol _ _ (kind_symbolAt _ _ _) rfl, ?_⟩
      intro t after heq m op hsign
      cases heq
      cases hsign <;> simp

theorem yieldsStages_nil : YieldsStages style level file s [] :=
  fun _ _ hclosed => ⟨[], .nil (hclosed.sum rfl).2, rfl, fun h => absurd rfl h⟩

theorem yieldsStages_cons {es : List Node} (hcall : e.isCall = true)
    (he : ReadsBack style level file { s with inStage := true } e)
    (hes : YieldsStages style level file s es) : YieldsStages style level file s (e :: es) := by
  intro p rest hclosed
  let q := p.after ('\n' :: (style.indent level).toList)
  let q' := (q.after Symbol.pipe.text.toList).after [' ']
  let q'' := q'.after (chars (pieces style level e))
  have hends : p.after (chars (stagePieces style level (e :: es))) =
      q''.after (chars (stagePieces style level es)) := by
    simp [stagePieces, Position.after_append, newLine, space, q, q', q'']
  rw [hends] at hclosed
  obtain ⟨es', hes', hbares, hlast⟩ := hes q'' rest hclosed
  obtain ⟨hnext, hsum⟩ := closed_stages (p := q'') file hclosed
  have hrank : rank e = 4 := by
    cases e <;> first | rfl | cases hcall
  obtain ⟨e', he', hbare, hstop⟩ :=
    (he q' _ (hnext.mono (by omega))).loosenTo (k := 1) (by omega) (by omega) hnext
  have hcall' : e'.isCall = true := by
    rw [isCall_of_bare_eq hbare, hcall]
  refine ⟨e' :: es', ?_, by rw [Node.bareAll, hbare, hbares]; rfl, fun _ => ?_⟩
  · rw [nestingAll]
    have hstages := Stages.cons (kind_symbolAt file q .pipe) he' hsum hcall' hes'
    simpa [stagePieces, placed_append, q, q', q''] using hstages
  · cases es' with
    | nil =>
        cases es with
        | nil =>
            rw [hends]
            simpa only [List.getLast_singleton, stagePieces, chars_nil, Position.after_nil] using hstop
        | cons x es => simp only [Node.bareAll, reduceCtorEq] at hbares
    | cons x es' =>
        rw [List.getLast_cons (by simp), hlast (by simp), hends]

theorem readsBack_pipe {m : Mark} {first : Node} {more : List Node} (hne : more ≠ [])
    (hfirst : ReadsBack style level file s first)
    (hmore : YieldsStages style (level + 1) file s more) :
    ReadsBack style level file s (.pipe m (first :: more)) := by
  intro p rest hclosed
  let start := enclosed (rank first ≤ looseStrength) (pieces style level first)
  have hends : p.after (chars (pieces style level (.pipe m (first :: more)))) =
      (p.after (chars start)).after (chars (stagePieces style (level + 1) more)) := by
    simp [pieces, Position.after_append, start]
  rw [hends] at hclosed
  obtain ⟨more', hmore', hbares, hlast⟩ := hmore (p.after (chars start)) rest hclosed
  obtain ⟨hnext, hsum⟩ := closed_stages (p := p.after (chars start)) file hclosed
  obtain ⟨first', hfirst', hbare, -⟩ := Yields.enclosed (k := 1) (p := p)
    (by omega) (rank first ≤ looseStrength) hfirst
    (fun hneeded => Nat.not_le.1 (of_decide_eq_false hneeded)) hnext
  cases more' with
  | nil =>
      cases more with
      | nil => exact absurd rfl hne
      | cons x more => cases hbares
  | cons x more' =>
      have hnesting : nesting true (.pipe m (first :: more)) =
          max (nesting true first + (decide (rank first ≤ looseStrength)).toNat)
            (nestingAll true 0 more) := by
        simp [nesting, wraps, Nat.lt_succ_iff]
      rw [hnesting]
      refine yields_of (R := Phrase 0 s) (Expression.pipe hfirst' hsum hmore') ?_ ?_ ?_
      · simp [pieces, placed_append, start]
      · rw [Node.bare, Node.bareAll, hbare, hbares]
        rfl
      · rw [hends]
        exact hlast (by simp)

/-! ### Functions and statements -/

theorem head_params (file : Option String) (params : List Ident) (q : Position) {u v : Token}
    (hu : u.kind = .symbol .rparen) (hv : v.kind = .symbol .arrow) (after : List Token) :
    ∃ params', Head (placed file q (paramPieces params) ++ u :: v :: after) params' after ∧
      params'.map Ident.bare = params.map Ident.bare := by
  induction params generalizing q with
  | nil => exact ⟨[], .nil hu hv, rfl⟩
  | cons i rest ih =>
      cases rest with
      | nil => exact ⟨_, .last (kind_nameAt file q i) hu hv, rfl⟩
      | cons j rest =>
          let q' := q.after i.name.toList
          obtain ⟨params', hhead, hbares⟩ := ih ((q'.after [',']).after [' '])
          refine ⟨_ :: params', .more (kind_nameAt file q i) (kind_symbolAt file q' .comma) hhead, ?_⟩
          simp only [List.map_cons, hbares]
          rfl

/-- A statement is printed as one. -/
def ReadsBackStatement (style : Style) (level : Nat) (file : Option String) (s : Setting)
    (n : Node) : Prop :=
  ∀ p rest, Closed 0 (p.after (chars (pieces style level n))) rest →
    Yields (Statement s) (nesting true n + 1) file p (pieces style level n) n rest

theorem ReadsBack.whole (h : ReadsBack style level file s e)
    (hclosed : Closed 0 (p.after (chars (pieces style level e))) rest) :
    Yields (Expression s) (nesting true e + 1) file p (pieces style level e) e rest :=
  (h p rest (hclosed.mono (Nat.zero_le _))).loosenTo (k := 0) (Nat.zero_le _) (rank_le e) hclosed

theorem readsBack_statement {m : Mark} (he : ReadsBack style level file s e) :
    ReadsBackStatement style level file s (.statement m e) := by
  intro p rest hclosed
  simp only [pieces] at hclosed ⊢
  obtain ⟨e', he', hbare, hstop⟩ := he.whole hclosed
  rw [nesting]
  exact ⟨_, .expression he', by simp [Node.bare, hbare], hstop⟩

theorem readsBack_declaration {m : Mark} {word : Declarator} {name : Ident}
    (hword : ∃ w, DeclaringWord w word) (he : ReadsBack style level file s e) :
    ReadsBackStatement style level file s (.declaration m word name e) := by
  intro p rest hclosed
  obtain ⟨w, hword⟩ := hword
  obtain ⟨hw, -⟩ := declaringWord_iff hword
  let q := (p.after w.text.toList).after [' ']
  let q' := (q.after name.name.toList).after [' ']
  let q'' := (q'.after ['=']).after [' ']
  have hends : p.after (chars (pieces style level (.declaration m word name e))) =
      q''.after (chars (pieces style level e)) := by
    simp [pieces, Position.after_append, wordPiece, namePiece, space, Symbol.text, hw, q, q', q'']
  rw [hends] at hclosed
  obtain ⟨e', he', hbare, hstop⟩ := he.whole hclosed
  rw [nesting]
  refine yields_of (Statement.declaration (kind_tokenAt file p (.keyword w) w.text.toList) hword
    (kind_nameAt file q name) (kind_symbolAt file q' .assign) he') ?_ ?_ ?_
  · simp [pieces, wordPiece, Symbol.text, hw, q, q', q'']
  · simp [Node.bare, hbare, Ident.bare, Ident.at]
  · rw [hends]
    exact hstop

theorem readsBack_giveBack {m : Mark} (hs : s.inFunction = true)
    (he : ReadsBack style level file s e) :
    ReadsBackStatement style level file s (.giveBack m e) := by
  intro p rest hclosed
  let q := (p.after Keyword.returnWord.text.toList).after [' ']
  have hends : p.after (chars (pieces style level (.giveBack m e))) =
      q.after (chars (pieces style level e)) := by
    simp [pieces, Position.after_append, wordPiece, space, q]
  rw [hends] at hclosed
  obtain ⟨e', he', hbare, hstop⟩ := he.whole hclosed
  rw [nesting]
  refine yields_of (Statement.giveBack
    (kind_tokenAt file p (.keyword .returnWord) Keyword.returnWord.text.toList) hs he') ?_ ?_ ?_
  · simp [pieces, wordPiece, q]
  · simp [Node.bare, hbare]
  · rw [hends]
    exact hstop

/-- Statements in a row up to some rest, each of which stands in some levels of its own. -/
inductive Run (levels : Nat) (s : Setting) : Nat → List Token → List Node → List Token → Prop
  | nil {rest : List Token} : Run levels s 0 rest [] rest
  | cons {n m : Nat} {ts us rest : List Token} {e : Node} {es : List Node} :
      Statement s n ts e us → Run levels s m us es rest →
      Run levels s (max (n + levels) m) ts (e :: es) rest

theorem Run.block {ts us : List Token} {es : List Node} {v : Token}
    (h : Run 1 ⟨false, true⟩ n ts es us) (hus : us = v :: rest) (hv : v.kind = .symbol .rbrace) :
    Block n ts es (v :: rest) := by
  induction h with
  | nil =>
      subst hus
      exact .nil hv
  | cons hfirst _ ih => exact .cons hfirst (ih hus)

theorem Run.statements {ts us : List Token} {es : List Node} (h : Run 0 ⟨false, false⟩ n ts es us)
    (hus : us = []) : Statements n ts es := by
  induction h with
  | nil =>
      subst hus
      exact .nil
  | cons hfirst _ ih => exact .cons hfirst (ih hus)

/-- Printed statements on lines of their own, as the grammar reads them. -/
def YieldsLines (style : Style) (level : Nat) (file : Option String) (s : Setting)
    (body : List Node) : Prop :=
  ∀ levels p rest, (∀ stop, Closed 0 stop rest) →
    ∃ body', Run levels s (nestingAll true (1 + levels) body)
        (placed file p (lines style level body) ++ rest) body' rest ∧
      Node.bareAll body' = Node.bareAll body

theorem yieldsLines_nil : YieldsLines style level file s [] :=
  fun _ _ _ _ => ⟨[], .nil, rfl⟩

/-- A statement is read back in front of others that do not start with a minus. -/
theorem run_cons {x : Node} {more : List Node} (hx : ReadsBackStatement style level file s x)
    (hmore : YieldsLines style level file s more) (hwritable : WritableAll .statement s more)
    (hs : s.inStage = false) (hminus : ∀ y ∈ more, y.leadsWithMinus = false)
    (hrest : ∀ stop, Closed 0 stop rest) (levels : Nat) (p : Position) :
    ∃ body', Run levels s (nestingAll true (1 + levels) (x :: more))
        (placed file p (pieces style level x ++ lines style level more) ++ rest) body' rest ∧
      Node.bareAll body' = Node.bareAll (x :: more) := by
  let q := p.after (chars (pieces style level x))
  obtain ⟨more', hrun, hbares⟩ := hmore levels q rest hrest
  obtain ⟨x', hx', hbare, -⟩ := hx p _ (closed_lines hwritable hs hminus style level hrest)
  refine ⟨x' :: more', ?_, by rw [Node.bareAll, hbare, hbares]; rfl⟩
  rw [placed_append, List.append_assoc, nestingAll, ← Nat.add_assoc]
  exact .cons hx' hrun

theorem yieldsLines_cons {x : Node} {more : List Node}
    (hx : ReadsBackStatement style level file s x) (hmore : YieldsLines style level file s more)
    (hwritable : WritableAll .statement s more) (hs : s.inStage = false)
    (hminus : ∀ y ∈ more, y.leadsWithMinus = false) :
    YieldsLines style level file s (x :: more) :=
  fun levels _ _ hrest => run_cons hx hmore hwritable hs hminus hrest levels _

theorem readsBack_function {m : Mark} {params : List Ident} {body : List Node}
    (hbody : YieldsLines style (level + 1) file ⟨false, true⟩ body) :
    ReadsBack style level file s (.function m params body) := by
  intro p rest hclosed
  let q := (p.after ['(']).after (chars (paramPieces params))
  let q' := ((q.after [')']).after [' '])
  let q'' := ((q'.after ['=', '>']).after [' '])
  let end_ := ((q''.after ['\x7b']).after (chars (lines style (level + 1) body))).after
    (chars (lastLine style level body))
  have hends : p.after (chars (pieces style level (.function m params body))) =
      end_.after ['\x7d'] := by
    simp [pieces, Position.after_append, space, Symbol.text, q, q', q'', end_]
  rw [hends] at hclosed
  obtain ⟨params', hhead, hparams⟩ := head_params file params (p.after ['('])
    (kind_symbolAt file q .rparen) (kind_symbolAt file q' .arrow)
    (symbolAt file q'' .lbrace :: (placed file (q''.after ['\x7b'])
      (lines style (level + 1) body) ++ symbolAt file end_ .rbrace :: rest))
  obtain ⟨body', hrun, hbares⟩ := hbody 1 (q''.after ['\x7b']) (symbolAt file end_ .rbrace :: rest)
    fun stop => closed_symbol stop rest (kind_symbolAt file end_ .rbrace) rfl
  have hblock := hrun.block rfl (kind_symbolAt file end_ .rbrace)
  have hatom : Atom s (nestingAll true 2 body) _ _ rest := .function (kind_symbolAt file p .lparen) hhead
    (kind_symbolAt file q'' .lbrace) hblock (kind_symbolAt file end_ .rbrace)
  have hyields : Yields (Phrase 4 s) (nestingAll true 2 body) file p
      (pieces style level (.function m params body)) (.function m params body) rest := by
    refine yields_of (R := Phrase 4 s) (Suffixed.atom hatom) ?_ ?_ ?_
    · cases body <;>
        simp [pieces, placed_append, Symbol.text, q, q', q'', end_, lastLine, lines,
          Position.after_append, newLine, placed]
    · simp [Node.bare, hparams, hbares]
    · rw [hends]
      rfl
  rw [nesting]
  exact hyields.loosenTo (k := 0) (by omega) (by omega) (hends ▸ hclosed)

/-! ### All trees -/

mutual

/-- Every expression that can be written and in which statements are kept apart is read back. -/
theorem readsBack_expression (style : Style) (level : Nat) (file : Option String) (s : Setting) :
    (e : Node) → Writable .expression s e → Parted e.walk → ReadsBack style level file s e
  | .literal m value raw, h, _ => readsBack_literal h
  | .identifier i, _, _ => by
      intro p rest _
      rw [nesting]
      refine yields_of (R := Phrase 4 s) (Suffixed.atom (Atom.name (kind_nameAt file p i))) ?_ ?_ ?_
      · simp [pieces]
      · simp [Node.bare, Ident.bare, Ident.at]
      · simp [pieces, namePiece, Node.span, Node.mark, Ident.at, Mark.at]
  | .binary _ op l r, h, hparted => by
      simp only [Writable] at h
      exact readsBack_binary h.1
        (readsBack_expression style level file s l h.2.1
          (hparted.mono fun n hn => by simp [Node.walk, hn]))
        (readsBack_expression style level file s r h.2.2
          (hparted.mono fun n hn => by simp [Node.walk, hn]))
  | .unary _ op e, h, hparted => by
      simp only [Writable] at h
      exact readsBack_unary h.1 (readsBack_expression style level file s e h.2
        (hparted.mono fun n hn => by simp [Node.walk, hn]))
  | .call _ callee args, h, hparted => by
      simp only [Writable] at h
      exact readsBack_call (yieldsRow_items style level file s .rparen rfl args h.2
        (hparted.mono fun n hn => by simp [Node.walk, hn]))
  | .array _ es, h, hparted => by
      simp only [Writable] at h
      exact readsBack_array (yieldsRow_items style level file s .rbracket rfl es h
        (hparted.mono fun n hn => by simp [Node.walk, hn]))
  | .object _ ps, h, hparted => by
      simp only [Writable] at h
      exact readsBack_object (yieldsRow_entries style level file s ps h
        (hparted.mono fun n hn => by simp [Node.walk, hn]))
  | .member _ e label, h, hparted => by
      simp only [Writable] at h
      exact readsBack_member (readsBack_expression style level file s e h.1
        (hparted.mono fun n hn => by simp [Node.walk, hn]))
  | .index _ e key, h, hparted => by
      simp only [Writable] at h
      exact readsBack_index
        (readsBack_expression style level file s e h.1
          (hparted.mono fun n hn => by simp [Node.walk, hn]))
        (readsBack_expression style level file s key h.2
          (hparted.mono fun n hn => by simp [Node.walk, hn]))
  | .hole _, h, _ => by
      simp only [Writable] at h
      intro p rest _
      rw [nesting]
      refine yields_of (R := Phrase 4 s)
        (Suffixed.atom (Atom.hole (kind_symbolAt file p .percent) h)) ?_ ?_ ?_
      · simp [pieces]
      · simp [Node.bare]
      · simp [pieces, Node.span, Node.mark, Mark.at]
  | .pipe _ [], h, _ => by simp only [Writable] at h
  | .pipe _ (first :: more), h, hparted => by
      simp only [Writable] at h
      exact readsBack_pipe h.2.1
        (readsBack_expression style level file s first h.1
          (hparted.mono fun n hn => by simp [Node.walk, Node.walkAll, hn]))
        (yieldsStages style (level + 1) file s more h.2.2
          (hparted.mono fun n hn => by simp [Node.walk, Node.walkAll, hn]))
  | .function m params body, h, hparted => by
      simp only [Writable] at h
      refine readsBack_function (yieldsLines style (level + 1) file ⟨false, true⟩ body h.2 rfl
        (hparted.mono fun n hn => by simp [Node.walk, hn]) ?_)
      exact hparted (.function m params body) (by simp [Node.walk])
  | .program _ _, h, _ | .declaration _ _ _ _, h, _ | .statement _ _, h, _ | .giveBack _ _, h, _
  | .property _ _ _, h, _ => by simp only [Writable] at h

theorem readsBack_statements (style : Style) (level : Nat) (file : Option String) (s : Setting) :
    (n : Node) → Writable .statement s n → Parted n.walk → ReadsBackStatement style level file s n
  | .declaration _ word name init, h, hparted => by
      simp only [Writable] at h
      exact readsBack_declaration h.1 (readsBack_expression style level file s init h.2.2
        (hparted.mono fun n hn => by simp [Node.walk, hn]))
  | .statement _ e, h, hparted => by
      simp only [Writable] at h
      exact readsBack_statement (readsBack_expression style level file s e h
        (hparted.mono fun n hn => by simp [Node.walk, hn]))
  | .giveBack _ e, h, hparted => by
      simp only [Writable] at h
      exact readsBack_giveBack h.1 (readsBack_expression style level file s e h.2
        (hparted.mono fun n hn => by simp [Node.walk, hn]))
  | .program _ _, h, _ | .literal _ _ _, h, _ | .identifier _, h, _ | .binary _ _ _ _, h, _
  | .unary _ _ _, h, _ | .call _ _ _, h, _ | .array _ _, h, _ | .object _ _, h, _
  | .property _ _ _, h, _ | .member _ _ _, h, _ | .index _ _ _, h, _ | .pipe _ _, h, _
  | .hole _, h, _ | .function _ _ _, h, _ => by simp only [Writable] at h

theorem yieldsRow_items (style : Style) (level : Nat) (file : Option String) (s : Setting)
    (m : Symbol) (hm : closes 0 m = true) : (es : List Node) → WritableAll .expression s es →
      Parted (Node.walkAll es) → YieldsRow (Items m s) file m (row style level es) es
  | [], _, _ => yieldsRow_items_nil m
  | e :: rest, h, hparted =>
      yieldsRow_items_cons hm
        (readsBack_expression style level file s e h.1
          (hparted.mono fun n hn => by simp [Node.walkAll, hn]))
        (yieldsRow_items style level file s m hm rest h.2
          (hparted.mono fun n hn => by simp [Node.walkAll, hn]))

theorem yieldsRow_entries (style : Style) (level : Nat) (file : Option String) (s : Setting) :
    (es : List Node) → WritableAll .entry s es → Parted (Node.walkAll es) →
      YieldsRow (Entries s) file .rbrace (row style level es) es
  | [], _, _ => yieldsRow_entries_nil
  | .property _ key e :: rest, h, hparted => by
      simp only [WritableAll, Writable] at h
      exact yieldsRow_entries_cons
        (readsBack_expression style level file s e h.1.2
          (hparted.mono fun n hn => by simp [Node.walkAll, Node.walk, hn]))
        (yieldsRow_entries style level file s rest h.2
          (hparted.mono fun n hn => by simp [Node.walkAll, hn]))
  | .program _ _ :: _, h, _ | .declaration _ _ _ _ :: _, h, _ | .statement _ _ :: _, h, _
  | .giveBack _ _ :: _, h, _ | .literal _ _ _ :: _, h, _ | .identifier _ :: _, h, _
  | .binary _ _ _ _ :: _, h, _ | .unary _ _ _ :: _, h, _ | .call _ _ _ :: _, h, _
  | .array _ _ :: _, h, _ | .object _ _ :: _, h, _ | .member _ _ _ :: _, h, _
  | .index _ _ _ :: _, h, _ | .pipe _ _ :: _, h, _ | .hole _ :: _, h, _
  | .function _ _ _ :: _, h, _ => by simp only [WritableAll, Writable, false_and] at h

theorem yieldsStages (style : Style) (level : Nat) (file : Option String) (s : Setting) :
    (es : List Node) → WritableAll .stage { s with inStage := true } es →
      Parted (Node.walkAll es) → YieldsStages style level file s es
  | [], _, _ => yieldsStages_nil
  | e :: rest, h, hparted => by
      obtain ⟨hcall, he⟩ := Node.writable_stage_iff.1 h.1
      exact yieldsStages_cons hcall
        (readsBack_expression style level file { s with inStage := true } e he
          (hparted.mono fun n hn => by simp [Node.walkAll, hn]))
        (yieldsStages style level file s rest h.2
          (hparted.mono fun n hn => by simp [Node.walkAll, hn]))

theorem yieldsLines (style : Style) (level : Nat) (file : Option String) (s : Setting) :
    (body : List Node) → WritableAll .statement s body → s.inStage = false →
      Parted (Node.walkAll body) → (∀ x ∈ body.tail, x.leadsWithMinus = false) →
      YieldsLines style level file s body
  | [], _, _, _, _ => yieldsLines_nil
  | x :: more, h, hs, hparted, hminus =>
      yieldsLines_cons
        (readsBack_statements style level file s x h.1
          (hparted.mono fun n hn => by simp [Node.walkAll, hn]))
        (yieldsLines style level file s more h.2 hs
          (hparted.mono fun n hn => by simp [Node.walkAll, hn])
          fun y hy => hminus y (List.mem_of_mem_tail hy))
        h.2 hs hminus

end

end Printer

end PartScript
