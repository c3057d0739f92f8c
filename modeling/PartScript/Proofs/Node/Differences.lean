import PartScript.Proofs.Node.ReadBack

/-!
Counting differences. A minus behind a complete operand is always the operator of a difference, so the
differences of a tree can be counted in the tokens it was read from. In printed text a statement behind
another one that starts with a minus adds to that count, though it is no difference. So a text in which
there is such a statement is not read back as the tree it was printed from.
-/

namespace PartScript

/-! ### Minuses behind operands -/

namespace Lexer

/-- Is an operand complete behind a token, given whether one was in front of it? -/
def completes (complete : Bool) : TokenKind → Bool
  | .number _ | .string _ | .identifier _ => true
  | .keyword .trueWord | .keyword .falseWord => true
  | .symbol .rparen | .symbol .rbracket | .symbol .rbrace => true
  | .symbol .percent => !complete
  | _ => false

/-- Is an operand complete behind some tokens? -/
def ending : Bool → List TokenKind → Bool
  | complete, [] => complete
  | complete, kind :: rest => ending (completes complete kind) rest

/-- The number of minuses that stand behind complete operands. -/
def minuses : Bool → List TokenKind → Nat
  | _, [] => 0
  | complete, kind :: rest =>
    (if complete && kind == .symbol .minus then 1 else 0) + minuses (completes complete kind) rest

theorem ending_append (complete : Bool) (ks ls : List TokenKind) :
    ending complete (ks ++ ls) = ending (ending complete ks) ls := by
  induction ks generalizing complete with
  | nil => rfl
  | cons kind ks ih => exact ih _

theorem minuses_append (complete : Bool) (ks ls : List TokenKind) :
    minuses complete (ks ++ ls) = minuses complete ks + minuses (ending complete ks) ls := by
  induction ks generalizing complete with
  | nil => simp [minuses, ending]
  | cons kind ks ih => simp [minuses, ending, ih, Nat.add_assoc]

end Lexer

/-! ### Differences in trees -/

namespace Node

/-- Is the node a difference? -/
def isDifference : Node → Bool
  | binary _ op _ _ => op == .sub
  | _ => false

/-- The number of differences among some nodes. -/
def differences (ns : List Node) : Nat := ns.countP isDifference

@[simp] theorem differences_append (ns ms : List Node) :
    differences (ns ++ ms) = differences ns + differences ms := List.countP_append

@[simp] theorem differences_nil : differences [] = 0 := rfl

theorem differences_cons (n : Node) (ns : List Node) :
    differences (n :: ns) = differences ns + if n.isDifference then 1 else 0 :=
  List.countP_cons

@[simp] theorem differences_identifiers (params : List Ident) :
    differences (params.map identifier) = 0 := by
  induction params with
  | nil => rfl
  | cons i rest ih => simp [differences_cons, isDifference, ih]

theorem differences_setMark (m : Mark) (n : Node) :
    differences (n.setMark m).walk = differences n.walk := by
  cases n <;> simp [setMark, walk, differences_cons, isDifference]

mutual

theorem differences_bare : (n : Node) → differences n.bare.walk = differences n.walk
  | program _ body => by
      simp [bare, walk, differences_cons, isDifference, differences_bareAll body]
  | declaration _ _ _ e | statement _ e | giveBack _ e | unary _ _ e | property _ _ e
  | member _ e _ => by
      simp [bare, walk, differences_cons, isDifference, differences_bare e]
  | literal _ _ _ | identifier _ | hole _ => by
      simp [bare, walk, differences_cons, isDifference]
  | binary _ _ l r | index _ l r => by
      simp [bare, walk, differences_cons, isDifference, differences_bare l, differences_bare r]
  | call _ _ es | array _ es | object _ es | pipe _ es => by
      simp [bare, walk, differences_cons, isDifference, differences_bareAll es]
  | function _ params body => by
      simp [bare, walk, differences_cons, isDifference, differences_bareAll body,
        -List.map_map]

theorem differences_bareAll : (ns : List Node) → differences (walkAll (bareAll ns)) =
    differences (walkAll ns)
  | [] => rfl
  | n :: rest => by
      simp [bareAll, walkAll, differences_bare n, differences_bareAll rest]

end

end Node

/-! ### Differences in what is read -/

namespace Grammar

open Lexer
open Node (differences)
open PartScript.Parser (Setting)

/-- The tokens up to some rest have a number of minuses behind complete operands, where it is known
whether an operand is complete in front of them and behind them. -/
def Scans (complete : Bool) (ts : List Token) (k : Nat) (complete' : Bool) (rest : List Token) :
    Prop :=
  ∃ us, ts = us ++ rest ∧ minuses complete (us.map Token.kind) = k ∧
    ending complete (us.map Token.kind) = complete'

variable {o o' o'' : Bool} {ts us rest : List Token} {k j : Nat} {t : Token}

theorem scans_nil : Scans o rest 0 o rest := ⟨[], rfl, rfl, rfl⟩

theorem Scans.trans (h : Scans o ts k o' us) (h' : Scans o' us j o'' rest) :
    Scans o ts (k + j) o'' rest := by
  obtain ⟨vs, rfl, rfl, rfl⟩ := h
  obtain ⟨ws, rfl, rfl, rfl⟩ := h'
  exact ⟨vs ++ ws, by simp, by simp [minuses_append], by simp [ending_append]⟩

/-- A token that is no minus, or not behind a complete operand. -/
theorem Scans.cons {kind : TokenKind} (ht : t.kind = kind)
    (hminus : (o && kind == .symbol .minus) = false)
    (h : Scans (completes o kind) ts k o' rest) : Scans o (t :: ts) k o' rest := by
  obtain ⟨us, rfl, rfl, rfl⟩ := h
  subst ht
  exact ⟨t :: us, rfl, by simp [minuses, hminus], rfl⟩

theorem scans_token {kind : TokenKind} (ht : t.kind = kind)
    (hminus : (o && kind == .symbol .minus) = false) :
    Scans o (t :: rest) 0 (completes o kind) rest :=
  Scans.cons ht hminus scans_nil

/-- Whether an operand is complete in front of some tokens makes no difference if the first of them is
neither a minus nor a percent sign. -/
theorem Scans.restart (h : Scans false ts k true rest)
    (hts : NoSum ts ∧ NoProduct ts) : Scans o ts k true rest := by
  obtain ⟨us, rfl, rfl, hending⟩ := h
  cases us with
  | nil => cases hending
  | cons t us =>
      have hminus : t.kind ≠ .symbol .minus := hts.1 t _ rfl _ _ .minus
      have hpercent : t.kind ≠ .symbol .percent := hts.2 t _ rfl _ _ .percent
      have hcompletes : completes o t.kind = completes false t.kind := by
        unfold completes
        split <;> first | rfl | exact absurd ‹_› hpercent
      refine ⟨t :: us, rfl, ?_, ?_⟩
      · simp [minuses, hminus, hcompletes]
      · simpa [ending, hcompletes] using hending

theorem Head.scans {params : List Ident} (h : Head ts params rest) (o : Bool) :
    Scans o ts 0 false rest := by
  induction h generalizing o with
  | nil ht hu => exact (scans_token ht (by simp)).trans (scans_token hu (by simp))
  | last ht hu hv =>
      exact (scans_token ht (by simp)).trans
        ((scans_token hu (by simp)).trans (scans_token hv (by simp)))
  | more ht hu _ ih => exact .cons ht (by simp) (.cons hu (by simp) (ih _))

/-- A closing bracket completes an operand. -/
theorem Scans.close {m : Symbol} (h : Scans o ts k o' (t :: rest)) (ht : t.kind = .symbol m)
    (hm : m = .rparen ∨ m = .rbracket ∨ m = .rbrace) : Scans o ts k true rest := by
  rcases hm with rfl | rfl | rfl <;> exact h.trans (scans_token ht (by simp))

/-- A symbol that is no minus and completes nothing. -/
theorem Scans.symbol {m : Symbol} (h : Scans o ts k o' (t :: us)) (ht : t.kind = .symbol m)
    (hm : m ≠ .minus) (hcompletes : completes o' (.symbol m) = false)
    (h' : Scans false us j o'' rest) : Scans o ts (k + j) o'' rest :=
  h.trans (Scans.cons ht (by simp [hm]) (hcompletes ▸ h'))

/-- A minus behind a complete operand counts. -/
theorem Scans.minus (h : Scans o ts k true (t :: us)) (ht : t.kind = .symbol .minus)
    (h' : Scans false us j o'' rest) : Scans o ts (k + (1 + j)) o'' rest := by
  have hminus : Scans true (t :: us) 1 false us :=
    ⟨[t], rfl, by simp [minuses, ht], by simp [ending, ht, completes]⟩
  exact h.trans (hminus.trans h')

theorem Sum.noProduct {s : Setting} {n : Nat} {e : Node} : Sum s n ts e rest → NoProduct rest
  | .first _ h => h
  | .more _ _ _ _ h => h

theorem Stages.complete {s : Setting} {n : Nat} {ts : List Token} {es : List Node}
    {rest : List Token} : Stages s n ts es rest → NoSum ts ∧ NoProduct ts →
      NoSum rest ∧ NoProduct rest
  | .nil _, hts => hts
  | .cons _ h hsum _ hmore, _ => hmore.complete ⟨hsum, h.noProduct⟩

/-- Neither a sum nor a product goes on behind an expression. -/
theorem Expression.complete {s : Setting} {n : Nat} {e : Node} :
    Expression s n ts e rest → NoSum rest ∧ NoProduct rest
  | .sum h hsum _ => ⟨hsum, h.noProduct⟩
  | .pipe h hsum hstages => hstages.complete ⟨hsum, h.noProduct⟩

theorem Statement.complete {s : Setting} {n : Nat} {e : Node} :
    Statement s n ts e rest → NoSum rest ∧ NoProduct rest
  | .expression h => h.complete
  | .declaration _ _ _ _ h => h.complete
  | .giveBack _ _ h => h.complete

mutual

theorem Atom.scans {s : Setting} {n : Nat} {ts : List Token} {e : Node} {rest : List Token} :
    Atom s n ts e rest → Scans false ts (differences e.walk) true rest
  | .number h => scans_token h rfl
  | .string h => scans_token h rfl
  | .trueWord h => scans_token h rfl
  | .falseWord h => scans_token h rfl
  | .name h => scans_token h rfl
  | .hole h _ => scans_token h rfl
  | .array ht h hu => by
      obtain ⟨o, h⟩ := h.scans
      exact .cons ht rfl (h.close hu (by simp))
  | .object ht h hu => by
      obtain ⟨o, h⟩ := h.scans
      exact .cons ht rfl (h.close hu (by simp))
  | .function ht hhead hu h hv => by
      obtain ⟨o, h⟩ := h.scans false nofun
      have hbody := (hhead.scans false).symbol hu (by simp) rfl (h.close hv (by simp))
      have hfunction := Scans.cons (o := false) ht rfl hbody
      simpa [Node.walk, Node.differences_cons, Node.isDifference] using hfunction
  | .parens ht _ h hu => by
      rw [Node.differences_setMark]
      exact .cons ht rfl (h.scans.close hu (by simp))

theorem Suffixed.scans {s : Setting} {n : Nat} {ts : List Token} {e : Node} {rest : List Token} :
    Suffixed s n ts e rest → Scans false ts (differences e.walk) true rest
  | .atom h => h.scans
  | .member h ht hu => by
      have hmember := h.scans.symbol ht (by simp) rfl (scans_token hu rfl)
      simpa [Node.walk, Node.differences_cons, Node.isDifference, completes] using hmember
  | .index h ht _ hkey hv => by
      have hindex := h.scans.symbol ht (by simp) rfl (hkey.scans.close hv (by simp))
      simpa [Node.walk, Node.differences_cons, Node.isDifference] using hindex
  | .call h ht _ hargs hv => by
      obtain ⟨o, hargs⟩ := hargs.scans
      have hcall := h.scans.symbol ht (by simp) rfl (hargs.close hv (by simp))
      simpa [Node.walk, Node.differences_cons, Node.isDifference] using hcall

theorem Operand.scans {s : Setting} {n : Nat} {ts : List Token} {e : Node} {rest : List Token} :
    Operand s n ts e rest → Scans false ts (differences e.walk) true rest
  | .suffixed h _ => h.scans
  | .sign ht .minus h => .cons ht rfl h.scans
  | .sign ht .bang h => .cons ht rfl h.scans

theorem Product.scans {s : Setting} {n : Nat} {ts : List Token} {e : Node} {rest : List Token} :
    Product s n ts e rest → Scans false ts (differences e.walk) true rest
  | .first h => h.scans
  | .more h ht hsign hr => by
      have hproduct := h.scans.symbol ht (by cases hsign <;> simp) (by cases hsign <;> rfl) hr.scans
      cases hsign <;>
        simpa [Node.walk, Node.differences_cons, Node.isDifference] using hproduct

theorem Sum.scans {s : Setting} {n : Nat} {ts : List Token} {e : Node} {rest : List Token} :
    Sum s n ts e rest → Scans false ts (differences e.walk) true rest
  | .first h _ => h.scans
  | .more h ht .plus hr _ => by
      have hsum := h.scans.symbol ht (by simp) rfl hr.scans
      simpa [Node.walk, Node.differences_cons, Node.isDifference] using hsum
  | .more h ht .minus hr _ => by
      have hsum := h.scans.minus ht hr.scans
      simpa [Node.walk, Node.differences_cons, Node.isDifference, Nat.add_assoc, Nat.add_comm,
        Nat.add_left_comm] using hsum

theorem Stages.scans {s : Setting} {n : Nat} {ts : List Token} {es : List Node}
    {rest : List Token} : Stages s n ts es rest →
      Scans true ts (differences (Node.walkAll es)) true rest
  | .nil _ => scans_nil
  | .cons ht h _ _ hmore => by
      have hstage := Scans.cons (o := true) ht rfl (h.scans.trans hmore.scans)
      simpa [Node.walkAll] using hstage

theorem Expression.scans {s : Setting} {n : Nat} {ts : List Token} {e : Node}
    {rest : List Token} : Expression s n ts e rest →
      Scans false ts (differences e.walk) true rest
  | .sum h _ _ => h.scans
  | .pipe h _ hstages => by
      have hpipe := h.scans.trans hstages.scans
      simpa [Node.walk, Node.walkAll, Node.differences_cons, Node.isDifference] using hpipe

theorem Items.scans {c : Symbol} {s : Setting} {n : Nat} {ts : List Token} {es : List Node}
    {rest : List Token} : Items c s n ts es rest →
      ∃ o, Scans false ts (differences (Node.walkAll es)) o rest
  | .nil _ => ⟨false, scans_nil⟩
  | .last h _ => ⟨true, by simpa [Node.walkAll] using h.scans⟩
  | .more h ht hmore => by
      obtain ⟨o, hmore⟩ := hmore.scans
      exact ⟨o, by simpa [Node.walkAll] using h.scans.symbol ht (by simp) rfl hmore⟩

theorem Entries.scans {s : Setting} {n : Nat} {ts : List Token} {es : List Node}
    {rest : List Token} : Entries s n ts es rest →
      ∃ o, Scans false ts (differences (Node.walkAll es)) o rest
  | .nil _ => ⟨false, scans_nil⟩
  | .last h _ => ⟨true, by simpa [Node.walkAll] using h.scans⟩
  | .more h ht hmore => by
      obtain ⟨o, hmore⟩ := hmore.scans
      exact ⟨o, by simpa [Node.walkAll] using h.scans.symbol ht (by simp) rfl hmore⟩

theorem Entry.scans {s : Setting} {n : Nat} {ts : List Token} {e : Node} {rest : List Token} :
    Entry s n ts e rest → Scans false ts (differences e.walk) true rest
  | .mk ht hu h => .cons ht rfl (.cons hu rfl h.scans)

theorem Block.scans {n : Nat} {ts : List Token} {es : List Node} {rest : List Token} :
    Block n ts es rest → ∀ o, (o = true → NoSum ts ∧ NoProduct ts) →
      ∃ o', Scans o ts (differences (Node.walkAll es)) o' rest
  | .nil _, o, _ => ⟨o, scans_nil⟩
  | .cons h hmore, o, ho => by
      obtain ⟨o', hmore⟩ := hmore.scans true fun _ => h.complete
      refine ⟨o', ?_⟩
      rw [Node.walkAll, Node.differences_append]
      cases o with
      | false => exact h.scans.trans hmore
      | true => exact (h.scans.restart (ho rfl)).trans hmore

theorem Statement.scans {s : Setting} {n : Nat} {ts : List Token} {e : Node}
    {rest : List Token} : Statement s n ts e rest → Scans false ts (differences e.walk) true rest
  | .expression h => h.scans
  | .declaration ht hword hu hv h => by
      cases hword <;> exact .cons ht rfl (.cons hu rfl (.cons hv rfl h.scans))
  | .giveBack ht _ h => .cons ht rfl h.scans

end

theorem Statements.scans {n : Nat} {es : List Node} (h : Statements n ts es) (o : Bool)
    (ho : o = true → NoSum ts ∧ NoProduct ts) :
    ∃ o', Scans o ts (differences (Node.walkAll es)) o' [] := by
  induction h generalizing o with
  | nil => exact ⟨o, scans_nil⟩
  | cons hfirst _ ih =>
      obtain ⟨o', hmore⟩ := ih true fun _ => hfirst.complete
      refine ⟨o', ?_⟩
      rw [Node.walkAll, Node.differences_append]
      cases o with
      | false => exact hfirst.scans.trans hmore
      | true => exact (hfirst.scans.restart (ho rfl)).trans hmore

/-- The differences of a script are the minuses behind complete operands in its tokens. -/
theorem Statements.minuses {n : Nat} {es : List Node} (h : Statements n ts es) :
    Lexer.minuses false (ts.map Token.kind) = differences (Node.walkAll es) := by
  obtain ⟨o', us, hts, hcount, -⟩ := h.scans false nofun
  rw [hts, List.append_nil, hcount]

end Grammar

/-! ### Differences in what is printed -/

namespace Node

/-- The number of statements behind other ones, in some scripts and functions, that start with a
minus. -/
def swallowed : List Node → Nat
  | [] => 0
  | n :: rest => n.statements.tail.countP leadsWithMinus + swallowed rest

@[simp] theorem swallowed_nil : swallowed [] = 0 := rfl

theorem swallowed_cons (n : Node) (ns : List Node) :
    swallowed (n :: ns) = n.statements.tail.countP leadsWithMinus + swallowed ns := rfl

@[simp] theorem swallowed_append (ns ms : List Node) :
    swallowed (ns ++ ms) = swallowed ns + swallowed ms := by
  induction ns with
  | nil => simp
  | cons n ns ih => simp [swallowed, ih, Nat.add_assoc]

@[simp] theorem swallowed_identifiers (params : List Ident) :
    swallowed (params.map identifier) = 0 := by
  induction params with
  | nil => rfl
  | cons i rest ih => simp [swallowed, statements, ih]

theorem swallowed_eq_zero_iff {ns : List Node} : swallowed ns = 0 ↔ Parted ns := by
  induction ns with
  | nil => simp [Parted]
  | cons n ns ih =>
      simp only [swallowed, Nat.add_eq_zero_iff, ih, Parted, List.mem_cons, forall_eq_or_imp,
        List.countP_eq_zero, Bool.not_eq_true]

end Node

namespace Printer

open Lexer
open PartScript.Parser (Setting)
open Node (Writable WritableAll differences swallowed)

/-- Pieces behind no operand have a number of minuses behind complete operands, and complete one. -/
def Counts (ps : List Piece) (k : Nat) : Prop :=
  minuses false (kinds ps) = k ∧ ending false (kinds ps) = true

theorem Counts.enclosed {ps : List Piece} {k : Nat} (h : Counts ps k) (needed : Bool) :
    Counts (enclosed needed ps) k := by
  obtain ⟨hcount, hending⟩ := h
  cases needed with
  | false => exact ⟨hcount, hending⟩
  | true =>
      simp [Printer.enclosed, Counts, minuses, ending, completes, minuses_append, ending_append,
        hcount]

/-- The count of a tree as it is printed. -/
def printed (ns : List Node) : Nat := differences ns + swallowed ns

theorem counts_binary {op : BinaryOp} {sign : Symbol} {left right : List Piece} {k j : Nat}
    (hsign : Grammar.SumSign sign op ∨ Grammar.ProductSign sign op) (hl : Counts left k)
    (hr : Counts right j) :
    Counts (left ++ space :: .symbol (operatorSymbol op) :: space :: right)
      (k + j + if op == .sub then 1 else 0) := by
  obtain ⟨hlcount, hlending⟩ := hl
  obtain ⟨hrcount, hrending⟩ := hr
  rcases hsign with hsign | hsign <;> cases hsign <;>
    simp [Counts, space, minuses_append, ending_append, minuses, ending, completes, hlcount,
      hlending, hrcount, hrending, operatorSymbol]
  omega

theorem counts_params (params : List Ident) :
    minuses false (kinds (paramPieces params)) = 0 := by
  induction params with
  | nil => rfl
  | cons i rest ih =>
      cases rest with
      | nil => rfl
      | cons j rest =>
          simp only [paramPieces, comma, List.isEmpty_cons, namePiece, space] at ih ⊢
          simpa [minuses, completes] using ih

theorem printed_append (ns ms : List Node) : printed (ns ++ ms) = printed ns + printed ms := by
  simp [printed]
  omega

/-- A node that is neither a difference nor a script or function counts nothing. -/
theorem printed_cons {n : Node} (ns : List Node) (hdifference : n.isDifference = false)
    (hstatements : n.statements = []) : printed (n :: ns) = printed ns := by
  simp [printed, Node.differences_cons, Node.swallowed_cons, hdifference, hstatements]

/-- A statement behind a complete operand counts once more if it starts with a minus. -/
theorem counts_statement {style : Style} {level : Nat} {s : Setting} {n : Node} {k : Nat}
    (h : Writable .statement s n) (hs : s.inStage = false) (hk : Counts (pieces style level n) k)
    (o : Bool) :
    minuses o (kinds (pieces style level n)) = k + (if o && n.leadsWithMinus then 1 else 0) ∧
      ending o (kinds (pieces style level n)) = true := by
  obtain ⟨kind, text, ps, hled, hleads⟩ := led_pieces style level s n .statement (.inr rfl) h
  have hpercent : kind ≠ .symbol .percent := by
    intro hkind
    rw [hleads.percent hkind] at hs
    cases hs
  have hcompletes : completes o kind = completes false kind := by
    unfold completes
    split <;> first | rfl | exact absurd rfl hpercent
  have hminus : (kind == .symbol .minus) = n.leadsWithMinus := by
    rw [Bool.eq_iff_iff, beq_iff_eq, leadsWithMinus_iff h hled]
  obtain ⟨hcount, hending⟩ := hk
  rw [hled] at hcount hending ⊢
  simp only [kinds_word, minuses, ending, Bool.false_and, Bool.false_eq_true, if_false,
    Nat.zero_add, hcompletes, hminus] at hcount hending ⊢
  exact ⟨by omega, hending⟩

theorem counts_literal {s : Setting} {m : Mark} {value : Plain} {raw : String}
    (h : Writable .expression s (.literal m value raw)) :
    Counts [.word ((literalKind? value).getD .finish) raw.toList] 0 := by
  simp only [Writable] at h
  obtain ⟨kind, hkind, -⟩ := h
  cases value with
  | number v => exact ⟨rfl, rfl⟩
  | text v => exact ⟨rfl, rfl⟩
  | bool b => cases b <;> exact ⟨rfl, rfl⟩
  | null | opaqueItem | list _ | tuple _ | record _ => cases hkind

mutual

theorem counts_pieces (style : Style) (level : Nat) (role : Role) (s : Setting)
    (hrole : role ≠ .script) (hs : role = .statement → s.inStage = false) :
    (e : Node) → Writable role s e → Counts (pieces style level e) (printed e.walk)
  | .literal m value raw, h => by
      cases role <;> try simp only [Writable] at h
      rw [pieces]
      exact counts_literal (s := s) (m := m) (by simpa only [Writable] using h)
  | .identifier _, _ | .hole _, _ => by
      rw [pieces]
      exact ⟨rfl, rfl⟩
  | .binary m op l r, h => by
      cases role <;> simp only [Writable] at h
      obtain ⟨⟨sign, hsign⟩, hl, hr⟩ := h
      have hcounts := counts_binary hsign
        ((counts_pieces style level .expression s nofun nofun l hl).enclosed
          (rank l < op.strength?.getD 0))
        ((counts_pieces style level .expression s nofun nofun r hr).enclosed
          (rank r ≤ op.strength?.getD 0))
      have hprinted : printed (Node.binary m op l r).walk =
          printed l.walk + printed r.walk + if op == .sub then 1 else 0 := by
        cases op <;>
          simp [Node.walk, printed, Node.differences_cons, Node.swallowed_cons, Node.isDifference,
            Node.statements] <;>
          omega
      rw [hprinted, pieces]
      exact hcounts
  | .unary _ op e, h => by
      cases role <;> simp only [Writable] at h
      obtain ⟨hcount, hending⟩ :=
        (counts_pieces style level .expression s nofun nofun e h.2).enclosed
          (rank e < signStrength)
      rw [pieces, Node.walk, printed_cons _ rfl rfl]
      cases op <;> exact ⟨by simpa [minuses, completes, signSymbol] using hcount, hending⟩
  | .call _ _ args, h => by
      have hargs : WritableAll .expression s args := by
        cases role <;> simp only [Writable] at h
        · exact h.2
        · exact h.2
      have hcount := counts_row style level .expression s nofun nofun args hargs
      rw [pieces, Node.walk, printed_cons _ rfl rfl, printed_cons _ rfl rfl]
      simp [Counts, namePiece, minuses, ending, completes, minuses_append, ending_append, hcount]
  | .array _ es, h => by
      cases role <;> simp only [Writable] at h
      have hcount := counts_row style level .expression s nofun nofun es h
      rw [pieces, Node.walk, printed_cons _ rfl rfl]
      simp [Counts, minuses, ending, completes, minuses_append, ending_append, hcount]
  | .object _ ps, h => by
      cases role <;> simp only [Writable] at h
      have hcount := counts_row style level .entry s nofun nofun ps h
      rw [pieces, Node.walk, printed_cons _ rfl rfl]
      simp [Counts, minuses, ending, completes, minuses_append, ending_append, hcount]
  | .property _ key e, h => by
      cases role <;> simp only [Writable] at h
      obtain ⟨hcount, hending⟩ := counts_pieces style level .expression s nofun nofun e h.2
      rw [pieces, Node.walk, printed_cons _ rfl rfl, printed_cons _ rfl rfl]
      simp [Counts, namePiece, space, minuses, ending, completes, hcount, hending]
  | .member _ e label, h => by
      cases role <;> simp only [Writable] at h
      obtain ⟨hcount, hending⟩ :=
        (counts_pieces style level .expression s nofun nofun e h.1).enclosed
          (rank e < atomStrength || isBareNumber e)
      rw [pieces, Node.walk, printed_cons _ rfl rfl, printed_append]
      simp only [Counts, namePiece, kinds_append, minuses_append, ending_append, hcount, hending]
      exact ⟨rfl, rfl⟩
  | .index _ e key, h => by
      cases role <;> simp only [Writable] at h
      obtain ⟨hcount, hending⟩ :=
        (counts_pieces style level .expression s nofun nofun e h.1).enclosed
          (rank e < atomStrength || isBareNumber e)
      obtain ⟨hkey, -⟩ := counts_pieces style level .expression s nofun nofun key h.2
      rw [pieces, Node.walk, printed_cons _ rfl rfl, printed_append]
      simp [Counts, minuses_append, ending_append, minuses, ending, completes, hcount, hending,
        hkey]
  | .pipe _ [], h => by cases role <;> simp only [Writable] at h
  | .pipe _ (first :: more), h => by
      cases role <;> simp only [Writable] at h
      obtain ⟨hcount, hending⟩ :=
        (counts_pieces style level .expression s nofun nofun first h.1).enclosed
          (rank first ≤ looseStrength)
      obtain ⟨hmore, hlast⟩ := counts_stages style (level + 1) _ more h.2.2
      rw [pieces, Node.walk, printed_cons _ rfl rfl, Node.walkAll, printed_append]
      simp [Counts, minuses_append, ending_append, hcount, hending, hmore, hlast]
  | .function m params body, h => by
      cases role <;> simp only [Writable] at h
      obtain ⟨hlines, -⟩ := counts_lines style (level + 1) ⟨false, true⟩ rfl body h.2 false
      have hprinted : printed (Node.function m params body).walk =
          printed (Node.walkAll body) + body.tail.countP Node.leadsWithMinus := by
        simp [Node.walk, printed, Node.differences_cons, Node.swallowed_cons, Node.isDifference,
          Node.statements]
        omega
      have hlast : kinds (lastLine style level body) = [] := by cases body <;> rfl
      rw [hprinted, pieces]
      simp [Counts, space, minuses_append, ending_append, minuses, ending, completes,
        counts_params, hlines, hlast]
  | .declaration _ word _ e, h => by
      cases role <;> simp only [Writable] at h
      obtain ⟨hcount, hending⟩ := counts_pieces style level .expression s nofun nofun e h.2.2
      obtain ⟨⟨w, hword⟩, -⟩ := h
      rw [pieces, Node.walk, printed_cons _ rfl rfl, printed_cons _ rfl rfl]
      cases hword <;>
        simp [Counts, wordPiece, declaringWord, namePiece, space, minuses, ending, completes,
          hcount, hending]
  | .statement _ e, h => by
      cases role <;> simp only [Writable] at h
      rw [pieces, Node.walk, printed_cons _ rfl rfl]
      exact counts_pieces style level .expression s nofun nofun e h
  | .giveBack _ e, h => by
      cases role <;> simp only [Writable] at h
      obtain ⟨hcount, hending⟩ := counts_pieces style level .expression s nofun nofun e h.2
      rw [pieces, Node.walk, printed_cons _ rfl rfl]
      simp [Counts, wordPiece, space, minuses, ending, completes, hcount, hending]
  | .program _ _, h => by
      cases role <;> simp only [Writable] at h
      exact absurd rfl hrole

theorem counts_row (style : Style) (level : Nat) (role : Role) (s : Setting)
    (hrole : role ≠ .script) (hs : role = .statement → s.inStage = false) :
    (es : List Node) → WritableAll role s es →
      minuses false (kinds (row style level es)) = printed (Node.walkAll es)
  | [], _ => rfl
  | e :: rest, h => by
      obtain ⟨hcount, -⟩ := counts_pieces style level role s hrole hs e h.1
      have hrest := counts_row style level role s hrole hs rest h.2
      rw [row, Node.walkAll, printed_append, ← hrest]
      cases rest with
      | nil => simp [row, comma, minuses, hcount]
      | cons x rest =>
          simp [comma, space, minuses_append, minuses, completes, hcount]

theorem counts_stages (style : Style) (level : Nat) (s : Setting) :
    (es : List Node) → WritableAll .stage s es →
      minuses true (kinds (stagePieces style level es)) = printed (Node.walkAll es) ∧
        ending true (kinds (stagePieces style level es)) = true
  | [], _ => ⟨rfl, rfl⟩
  | e :: rest, h => by
      obtain ⟨hcount, hending⟩ := counts_pieces style level .stage s nofun nofun e h.1
      obtain ⟨hrest, hlast⟩ := counts_stages style level s rest h.2
      rw [stagePieces, Node.walkAll, printed_append]
      simp [newLine, space, minuses_append, ending_append, minuses, ending, completes, hcount,
        hending, hrest, hlast]

theorem counts_lines (style : Style) (level : Nat) (s : Setting) (hs : s.inStage = false) :
    (body : List Node) → WritableAll .statement s body → ∀ o,
      minuses o (kinds (lines style level body)) = printed (Node.walkAll body) +
        (if o then body else body.tail).countP Node.leadsWithMinus ∧
      ending o (kinds (lines style level body)) = (o || !body.isEmpty)
  | [], _, o => by cases o <;> exact ⟨rfl, rfl⟩
  | x :: more, h, o => by
      have hx := counts_pieces style level .statement s nofun (fun _ => hs) x h.1
      obtain ⟨hcount, hending⟩ := counts_statement h.1 hs hx o
      obtain ⟨hmore, hlast⟩ := counts_lines style level s hs more h.2 true
      rw [lines, Node.walkAll, printed_append]
      simp only [newLine, kinds_blank, kinds_append, minuses_append, ending_append, hcount,
        hending, hmore, hlast, if_true]
      cases o with
      | false => exact ⟨by simp; omega, rfl⟩
      | true => exact ⟨by simp [List.countP_cons]; omega, rfl⟩

end

end Printer

end PartScript
