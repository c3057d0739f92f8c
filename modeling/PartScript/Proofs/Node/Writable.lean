import PartScript.Edit.Negation
import PartScript.Edit.Rename
import PartScript.Proofs.Grammar.Recognition
import PartScript.Proofs.Node.Bare
import PartScript.Proofs.Number.Lexed
import PartScript.Proofs.Token.Piece

/-!
Trees that scripts can write. Literals and names have texts that are read as what they stand for,
operators and declaring words are those of the language, later stages are calls, the value of a stage
is used only where there is one, and only functions give back a value. Every tree that is read from a
text is such a tree, and edits that only move, drop or rename things keep it one.
-/

namespace PartScript

open PartScript.Parser (Setting)
open Lexer (Lexeme Spelled Proper)

/-! ### Texts of names and literals -/

/-- The kind of token that a literal is read from. -/
def literalKind? : Plain → Option TokenKind
  | .number v => some (.number v)
  | .text v => some (.string v)
  | .bool b => some (.keyword (if b then .trueWord else .falseWord))
  | _ => none

/-- The text of a literal is read as its value. -/
def WrittenLiteral (value : Plain) (raw : String) : Prop :=
  ∃ kind, literalKind? value = some kind ∧ Spelled (some Number.maxDigits) kind raw.toList

/-- The name is read as a name. -/
def WrittenName (name : String) : Prop :=
  Lexeme (some Number.maxDigits) (.identifier name) name.toList

theorem literalKind?_injective {v w : Plain} {kind : TokenKind} (hv : literalKind? v = some kind)
    (hw : literalKind? w = some kind) : v = w := by
  cases v <;> cases w <;> simp_all [literalKind?] <;> grind

/-- A text is the lexeme of one kind at most. -/
theorem Lexer.Lexeme.unique {limit : Option Nat} {k k' : TokenKind} {text : List Char}
    (h : Lexeme limit k text) (h' : Lexeme limit k' text) : k = k' := by
  have hstops (kind : TokenKind) : Lexer.Stops kind [] := by
    unfold Lexer.Stops
    split <;> first | exact Lexer.clear_nil _ | trivial
  have hscan := h.scan [] (hstops k)
  rw [h'.scan [] (hstops k')] at hscan
  simp at hscan
  exact hscan.symm

theorem WrittenLiteral.unique {v w : Plain} {raw : String} (hv : WrittenLiteral v raw)
    (hw : WrittenLiteral w raw) : v = w := by
  obtain ⟨k, hk, hspelled⟩ := hv
  obtain ⟨k', hk', hspelled'⟩ := hw
  obtain rfl := hspelled.lexeme.unique hspelled'.lexeme
  exact literalKind?_injective hk hk'

theorem writtenName_of_isName {s : String} (h : Edit.isName s = true) : WrittenName s := by
  unfold Edit.isName at h
  split at h
  · cases h
  · rename_i c rest hs
    simp only [Bool.and_eq_true, List.all_eq_true, Option.isNone_iff_eq_none] at h
    obtain ⟨⟨hc, hrest⟩, hword⟩ := h
    have hlexeme := Lexer.lexeme_word (some Number.maxDigits) hc hrest
    rw [← hs, String.ofList_toList, Lexer.wordKind, hword] at hlexeme
    exact hlexeme

theorem Lexer.Proper.spelled {limit : Option Nat} {t : Token} {kind : TokenKind} (h : Proper limit t)
    (hkind : t.kind = kind) (hfinish : kind ≠ .finish) (hsymbol : ∀ m, kind ≠ .symbol m) :
    Spelled limit kind t.lexeme.toList := by
  subst hkind
  rcases h with h | ⟨m, h⟩ | h
  · exact absurd h hfinish
  · exact absurd h (hsymbol m)
  · exact h

theorem Lexer.Proper.writtenName {t : Token} {name : String} (h : Proper (some Number.maxDigits) t)
    (hkind : t.kind = .identifier name) : WrittenName name := by
  have hspelled := h.spelled hkind (by simp) (by simp)
  have hname := hspelled.name name rfl
  rw [String.ofList_toList] at hname
  rw [WrittenName, hname]
  rw [hname] at hspelled
  exact hspelled.lexeme

/-! ### Writable trees -/

/-- What a node is meant to be. -/
inductive Role where
  | script | statement | expression | stage | entry
  deriving DecidableEq

namespace Node

open Grammar (SumSign ProductSign FrontSign DeclaringWord)

mutual

/-- The tree can be written where it has a role in some surroundings. -/
def Writable : Role → Setting → Node → Prop
  | .script, s, program _ body => WritableAll .statement s body
  | .statement, s, declaration _ word name init =>
    (∃ w, DeclaringWord w word) ∧ WrittenName name.name ∧ Writable .expression s init
  | .statement, s, statement _ e => Writable .expression s e
  | .statement, s, giveBack _ e => s.inFunction = true ∧ Writable .expression s e
  | .expression, _, literal _ value raw => WrittenLiteral value raw
  | .expression, _, identifier i => WrittenName i.name
  | .expression, s, binary _ op l r =>
    (∃ m, SumSign m op ∨ ProductSign m op) ∧ Writable .expression s l ∧ Writable .expression s r
  | .expression, s, unary _ op e => (∃ m, FrontSign m op) ∧ Writable .expression s e
  | .expression, s, call _ callee args => WrittenName callee.name ∧ WritableAll .expression s args
  | .expression, s, array _ es => WritableAll .expression s es
  | .expression, s, object _ ps => WritableAll .entry s ps
  | .expression, s, member _ e label => Writable .expression s e ∧ WrittenName label.name
  | .expression, s, index _ e key => Writable .expression s e ∧ Writable .expression s key
  | .expression, s, pipe _ (first :: more) =>
    Writable .expression s first ∧ more ≠ [] ∧ WritableAll .stage { s with inStage := true } more
  | .expression, s, hole _ => s.inStage = true
  | .expression, _, function _ params body =>
    (∀ i ∈ params, WrittenName i.name) ∧ WritableAll .statement ⟨false, true⟩ body
  | .stage, s, call _ callee args => WrittenName callee.name ∧ WritableAll .expression s args
  | .entry, s, property _ key e => WrittenName key.name ∧ Writable .expression s e
  | _, _, _ => False

/-- Every tree of a row can be written. -/
def WritableAll (role : Role) (s : Setting) : List Node → Prop
  | [] => True
  | n :: rest => Writable role s n ∧ WritableAll role s rest

end

variable {role : Role} {s : Setting}

theorem writable_stage_iff {n : Node} :
    Writable .stage s n ↔ n.isCall = true ∧ Writable .expression s n := by
  cases n <;> simp [Writable, isCall]

theorem writable_setMark {m : Mark} {n : Node} :
    Writable role s (n.setMark m) ↔ Writable role s n := by
  cases n <;> cases role <;> simp only [setMark, Writable]
  rename_i stages
  cases stages <;> simp [Writable]

theorem bareAll_eq_nil_iff {ns : List Node} : bareAll ns = [] ↔ ns = [] := by
  cases ns <;> simp [bareAll]

mutual

theorem writable_bare (role : Role) (s : Setting) :
    (n : Node) → (Writable role s n.bare ↔ Writable role s n)
  | program _ body => by cases role <;> simp [bare, Writable, writableAll_bare .statement s body]
  | declaration _ _ _ e | statement _ e | giveBack _ e | unary _ _ e | property _ _ e
  | member _ e _ => by
      cases role <;> simp [bare, Writable, writable_bare .expression s e]
  | literal _ _ _ | identifier _ | hole _ => by cases role <;> simp [bare, Writable]
  | binary _ _ l r | index _ l r => by
      cases role <;>
        simp [bare, Writable, writable_bare .expression s l, writable_bare .expression s r]
  | call _ _ args | array _ args => by
      cases role <;> simp [bare, Writable, writableAll_bare .expression s args]
  | object _ ps => by cases role <;> simp [bare, Writable, writableAll_bare .entry s ps]
  | pipe _ [] => by cases role <;> simp [bare, bareAll, Writable]
  | pipe _ (first :: more) => by
      cases role <;>
        simp [bare, bareAll, bareAll_eq_nil_iff, Writable, writable_bare .expression s first,
          writableAll_bare .stage { s with inStage := true } more]
  | function _ params body => by
      cases role <;> simp [bare, Writable, writableAll_bare .statement ⟨false, true⟩ body]

theorem writableAll_bare (role : Role) (s : Setting) :
    (ns : List Node) → (WritableAll role s (bareAll ns) ↔ WritableAll role s ns)
  | [] => Iff.rfl
  | n :: rest => by
      simp [bareAll, WritableAll, writable_bare role s n, writableAll_bare role s rest]

end

theorem Writable.of_bare_eq {n m : Node} (h : Writable role s n) (heq : m.bare = n.bare) :
    Writable role s m := by
  rw [← writable_bare, heq, writable_bare]
  exact h

end Node

/-! ### Trees that are read -/

/-- Every token of a row is proper. -/
abbrev ProperAll (ts : List Token) : Prop := ∀ t ∈ ts, Proper (some Number.maxDigits) t

theorem ProperAll.suffix {ts us : List Token} (h : ProperAll ts) (hus : us <:+ ts) :
    ProperAll us :=
  fun t ht => h t (hus.mem ht)

theorem ProperAll.tail {t : Token} {ts us : List Token} (h : ProperAll ts)
    (hus : t :: us <:+ ts) : ProperAll us :=
  h.suffix ((List.suffix_cons t us).trans hus)

namespace Grammar

open Node (Writable WritableAll)

theorem writtenLiteral {t : Token} {value : Plain} {kind : TokenKind}
    (h : Proper (some Number.maxDigits) t) (ht : t.kind = kind)
    (hkind : literalKind? value = some kind) : WrittenLiteral value t.lexeme := by
  refine ⟨kind, hkind, h.spelled ht ?_ ?_⟩
  · rintro rfl
    cases value <;> simp [literalKind?] at hkind
  · rintro m rfl
    cases value <;> simp [literalKind?] at hkind

theorem Head.written {ts : List Token} {params : List Ident} {rest : List Token}
    (h : Head ts params rest) (hts : ProperAll ts) : ∀ i ∈ params, WrittenName i.name := by
  induction h with
  | nil _ _ => simp
  | last ht _ _ =>
      intro i hi
      obtain rfl := List.mem_singleton.1 hi
      exact (hts _ List.mem_cons_self).writtenName ht
  | more ht _ _ ih =>
      intro i hi
      rcases List.mem_cons.1 hi with rfl | hi
      · exact (hts _ List.mem_cons_self).writtenName ht
      · exact ih (hts.suffix ⟨[_, _], rfl⟩) i hi

mutual

theorem Atom.writable {s : Setting} {n : Nat} {ts : List Token} {e : Node} {rest : List Token} :
    Atom s n ts e rest → ProperAll ts → Writable .expression s e
  | .number h, hts => by
      simpa only [Writable] using writtenLiteral (hts _ List.mem_cons_self) h rfl
  | .string h, hts => by
      simpa only [Writable] using writtenLiteral (hts _ List.mem_cons_self) h rfl
  | .trueWord h, hts => by
      simpa only [Writable] using writtenLiteral (hts _ List.mem_cons_self) h rfl
  | .falseWord h, hts => by
      simpa only [Writable] using writtenLiteral (hts _ List.mem_cons_self) h rfl
  | .name h, hts => by
      simp only [Writable]
      exact (hts _ List.mem_cons_self).writtenName h
  | .hole _ h, _ => by simpa only [Writable] using h
  | .array _ h _, hts => by
      simpa only [Writable] using h.writable (hts.suffix (List.suffix_cons _ _))
  | .object _ h _, hts => by
      simpa only [Writable] using h.writable (hts.suffix (List.suffix_cons _ _))
  | .function _ hhead _ h _, hts => by
      have htail := hts.suffix (List.suffix_cons _ _)
      simp only [Writable]
      exact ⟨hhead.written htail, h.writable (htail.tail hhead.suffix)⟩
  | .parens _ _ h _, hts => by
      rw [Node.writable_setMark]
      exact h.writable (hts.suffix (List.suffix_cons _ _))

theorem Suffixed.writable {s : Setting} {n : Nat} {ts : List Token} {e : Node}
    {rest : List Token} : Suffixed s n ts e rest → ProperAll ts → Writable .expression s e
  | .atom h, hts => h.writable hts
  | .member h _ hu, hts => by
      have hmem := (hts.tail h.ends.suffix) _ List.mem_cons_self
      simp only [Writable]
      exact ⟨h.writable hts, hmem.writtenName hu⟩
  | .index h _ _ hkey _, hts => by
      simp only [Writable]
      exact ⟨h.writable hts, hkey.writable (hts.tail h.ends.suffix)⟩
  | .call h _ _ hargs _, hts => by
      have hcallee := h.writable hts
      simp only [Writable] at hcallee ⊢
      exact ⟨hcallee, hargs.writable (hts.tail h.ends.suffix)⟩

theorem Operand.writable {s : Setting} {n : Nat} {ts : List Token} {e : Node}
    {rest : List Token} : Operand s n ts e rest → ProperAll ts → Writable .expression s e
  | .suffixed h _, hts => h.writable hts
  | .sign _ hsign h, hts => by
      simp only [Writable]
      exact ⟨⟨_, hsign⟩, h.writable (hts.suffix (List.suffix_cons _ _))⟩

theorem Product.writable {s : Setting} {n : Nat} {ts : List Token} {e : Node}
    {rest : List Token} : Product s n ts e rest → ProperAll ts → Writable .expression s e
  | .first h, hts => h.writable hts
  | .more h _ hsign hr, hts => by
      simp only [Writable]
      exact ⟨⟨_, .inr hsign⟩, h.writable hts, hr.writable (hts.tail h.ends.suffix)⟩

theorem Sum.writable {s : Setting} {n : Nat} {ts : List Token} {e : Node}
    {rest : List Token} : Sum s n ts e rest → ProperAll ts → Writable .expression s e
  | .first h _, hts => h.writable hts
  | .more h _ hsign hr _, hts => by
      simp only [Writable]
      exact ⟨⟨_, .inl hsign⟩, h.writable hts, hr.writable (hts.tail h.ends.suffix)⟩

theorem Stages.writable {s : Setting} {n : Nat} {ts : List Token} {es : List Node}
    {rest : List Token} : Stages s n ts es rest → ProperAll ts →
      WritableAll .stage { s with inStage := true } es
  | .nil _, _ => trivial
  | .cons _ h _ hcall hmore, hts => by
      have htail := hts.suffix (List.suffix_cons _ _)
      exact ⟨Node.writable_stage_iff.2 ⟨hcall, h.writable htail⟩,
        hmore.writable (htail.suffix h.ends.suffix)⟩

theorem Expression.writable {s : Setting} {n : Nat} {ts : List Token} {e : Node}
    {rest : List Token} : Expression s n ts e rest → ProperAll ts → Writable .expression s e
  | .sum h _ _, hts => h.writable hts
  | .pipe h _ hstages, hts => by
      simp only [Writable]
      exact ⟨h.writable hts, by simp, hstages.writable (hts.suffix h.ends.suffix)⟩

theorem Items.writable {c : Symbol} {s : Setting} {n : Nat} {ts : List Token} {es : List Node}
    {rest : List Token} : Items c s n ts es rest → ProperAll ts → WritableAll .expression s es
  | .nil _, _ => trivial
  | .last h _, hts => ⟨h.writable hts, trivial⟩
  | .more h _ hmore, hts => ⟨h.writable hts, hmore.writable (hts.tail h.ends.suffix)⟩

theorem Entries.writable {s : Setting} {n : Nat} {ts : List Token} {es : List Node}
    {rest : List Token} : Entries s n ts es rest → ProperAll ts → WritableAll .entry s es
  | .nil _, _ => trivial
  | .last h _, hts => ⟨h.writable hts, trivial⟩
  | .more h _ hmore, hts => ⟨h.writable hts, hmore.writable (hts.tail h.ends.suffix)⟩

theorem Entry.writable {s : Setting} {n : Nat} {ts : List Token} {e : Node} {rest : List Token} :
    Entry s n ts e rest → ProperAll ts → Writable .entry s e
  | .mk ht _ h, hts => by
      simp only [Writable]
      exact ⟨(hts _ List.mem_cons_self).writtenName ht, h.writable (hts.suffix ⟨[_, _], rfl⟩)⟩

theorem Block.writable {n : Nat} {ts : List Token} {es : List Node} {rest : List Token} :
    Block n ts es rest → ProperAll ts → WritableAll .statement ⟨false, true⟩ es
  | .nil _, _ => trivial
  | .cons h hmore, hts => ⟨h.writable hts, hmore.writable (hts.suffix h.ends.suffix)⟩

theorem Statement.writable {s : Setting} {n : Nat} {ts : List Token} {e : Node}
    {rest : List Token} : Statement s n ts e rest → ProperAll ts → Writable .statement s e
  | .expression h, hts => by simpa only [Writable] using h.writable hts
  | .declaration _ hword hu _ h, hts => by
      have hmem := (hts.suffix (List.suffix_cons _ _)) _ List.mem_cons_self
      simp only [Writable]
      exact ⟨⟨_, hword⟩, hmem.writtenName hu, h.writable (hts.suffix ⟨[_, _, _], rfl⟩)⟩
  | .giveBack _ hs h, hts => by
      simp only [Writable]
      exact ⟨hs, h.writable (hts.suffix (List.suffix_cons _ _))⟩

end

theorem Statements.writable {n : Nat} {ts : List Token} {es : List Node} (h : Statements n ts es)
    (hts : ProperAll ts) : WritableAll .statement ⟨false, false⟩ es := by
  induction h with
  | nil => trivial
  | cons hfirst _ ih =>
      exact ⟨hfirst.writable hts, ih (hts.suffix hfirst.ends.suffix)⟩

theorem Script.writable {finish : Span} {n : Nat} {ts : List Token} {tree : Node}
    (h : Script finish n ts tree) (hts : ProperAll ts) :
    Writable .script ⟨false, false⟩ tree := by
  cases h with
  | empty => simp [Writable, WritableAll]
  | body h => simpa only [Writable] using h.writable hts

end Grammar

/-- The surroundings of the statements of a script. -/
abbrev Parser.Setting.outside : Setting := ⟨false, false⟩

/-- What is read from a text can be written. -/
theorem writable_of_parse {source : String} {file : Option String} {tree : Node}
    (h : parse source file = .ok tree) : tree.Writable .script .outside := by
  obtain ⟨tokens, htokens, htree⟩ := bind_eq_ok h
  obtain ⟨ts, finish, rfl⟩ := tokenize_eq_ok htokens
  obtain ⟨n, bare, hscript, -, -, rfl⟩ :=
    Grammar.script_eq_ok_iff.1 (parseTokens_eq_ok_iff.1 htree)
  have hproper : ProperAll ts :=
    fun t ht => Lexer.proper_of_tokenize htokens t (List.mem_append_left _ ht)
  exact (hscript.writable hproper).of_bare_eq (Node.bare_withPaths bare)

theorem exists_program {s : Setting} {p : Node} (h : p.Writable .script s) :
    ∃ m body, p = .program m body ∧ Node.WritableAll .statement s body := by
  cases p <;> simp only [Node.Writable] at h
  exact ⟨_, _, rfl, h⟩

end PartScript
