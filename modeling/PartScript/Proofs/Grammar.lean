import PartScript.Node.Parser

/-!
The grammar of scripts, as a relation between tokens and trees. A phrase takes the tokens up to some
rest and stands for a node; the levels of binding are phrases of their own, and the levels that group
to the left are left-recursive, as in a textbook. A phrase that could go on with the next token is not
complete, and every place that uses one asks for a complete one.

The number of a phrase is its nesting: how many expressions, signs and statements of functions are open
at the same time where most of them are. It is part of the relation so that a bound on it can be stated,
but no rule asks for one.
-/

namespace PartScript.Grammar

open PartScript.Parser (Setting)

/-! ### Operators -/

/-- The symbols between the parts of a sum. -/
inductive SumSign : Symbol → BinaryOp → Prop
  | plus : SumSign .plus .add
  | minus : SumSign .minus .sub

/-- The symbols between the parts of a product. -/
inductive ProductSign : Symbol → BinaryOp → Prop
  | star : ProductSign .star .mul
  | slash : ProductSign .slash .div
  | percent : ProductSign .percent .rem

/-- The symbols in front of an operand. -/
inductive FrontSign : Symbol → UnaryOp → Prop
  | minus : FrontSign .minus .minus
  | bang : FrontSign .bang .not

/-- The words that start a declaration. -/
inductive DeclaringWord : Keyword → Declarator → Prop
  | constWord : DeclaringWord .constWord .constWord
  | letWord : DeclaringWord .letWord .letWord
  | varWord : DeclaringWord .varWord .varWord
  | fnWord : DeclaringWord .fnWord .fnWord

/-! ### What can go on -/

/-- The token `t` comes right after the tokens of a phrase and starts on the line where the last of
these ends. -/
def Adjoins (ts : List Token) (t : Token) (after : List Token) : Prop :=
  ∃ us p, ts = us ++ p :: t :: after ∧ p.span.stop.line = t.span.start.line

/-- No call and no member goes on behind a phrase: the next token is no point, and if it opens a
parenthesis or a bracket it stands on a new line. -/
def NoSuffix (ts rest : List Token) : Prop :=
  ∀ t after, rest = t :: after →
    t.kind ≠ .symbol .dot ∧
      (t.kind = .symbol .lbracket ∨ t.kind = .symbol .lparen → ¬ Adjoins ts t after)

/-- No product goes on. -/
def NoProduct (rest : List Token) : Prop :=
  ∀ t after, rest = t :: after → ∀ m op, ProductSign m op → t.kind ≠ .symbol m

/-- No sum goes on. -/
def NoSum (rest : List Token) : Prop :=
  ∀ t after, rest = t :: after → ∀ m op, SumSign m op → t.kind ≠ .symbol m

/-- No pipe goes on. -/
def NoPipe (rest : List Token) : Prop :=
  ∀ t after, rest = t :: after → t.kind ≠ .symbol .pipe

theorem noSuffix_nil (ts : List Token) : NoSuffix ts [] :=
  fun t after heq => absurd heq (List.cons_ne_nil t after).symm

theorem noProduct_nil : NoProduct [] := fun t after heq => absurd heq (List.cons_ne_nil t after).symm

theorem noSum_nil : NoSum [] := fun t after heq => absurd heq (List.cons_ne_nil t after).symm

theorem noPipe_nil : NoPipe [] := fun t after heq => absurd heq (List.cons_ne_nil t after).symm

/-! ### Phrases -/

/-- The head of a function behind its opening parenthesis: names separated by commas, one of which may
stand behind the last name, a closing parenthesis and an arrow. -/
inductive Head : List Token → List Ident → List Token → Prop
  | nil {t u : Token} {rest : List Token} :
      t.kind = .symbol .rparen → u.kind = .symbol .arrow → Head (t :: u :: rest) [] rest
  | last {t u v : Token} {name : String} {rest : List Token} :
      t.kind = .identifier name → u.kind = .symbol .rparen → v.kind = .symbol .arrow →
      Head (t :: u :: v :: rest) [.at t.span name] rest
  | more {t u : Token} {name : String} {params : List Ident} {ts rest : List Token} :
      t.kind = .identifier name → u.kind = .symbol .comma → Head ts params rest →
      Head (t :: u :: ts) (.at t.span name :: params) rest

mutual

/-- What is held together by itself or by brackets. An opening parenthesis starts a function exactly
if the head of one follows; otherwise it encloses an expression, which takes its span. -/
inductive Atom : Setting → Nat → List Token → Node → List Token → Prop
  | number {s t v rest} : t.kind = .number v →
      Atom s 0 (t :: rest) (.literal (.at t.span) (.number v) t.lexeme) rest
  | string {s t v rest} : t.kind = .string v →
      Atom s 0 (t :: rest) (.literal (.at t.span) (.text v) t.lexeme) rest
  | trueWord {s t rest} : t.kind = .keyword .trueWord →
      Atom s 0 (t :: rest) (.literal (.at t.span) (.bool true) t.lexeme) rest
  | falseWord {s t rest} : t.kind = .keyword .falseWord →
      Atom s 0 (t :: rest) (.literal (.at t.span) (.bool false) t.lexeme) rest
  | name {s t name rest} : t.kind = .identifier name →
      Atom s 0 (t :: rest) (.identifier (.at t.span name)) rest
  | hole {s t rest} : t.kind = .symbol .percent → s.inStage = true →
      Atom s 0 (t :: rest) (.hole (.at t.span)) rest
  | array {s n t ts es u rest} : t.kind = .symbol .lbracket →
      Items .rbracket s n ts es (u :: rest) → u.kind = .symbol .rbracket →
      Atom s n (t :: ts) (.array (.at (t.span.upTo u.span)) es) rest
  | object {s n t ts ps u rest} : t.kind = .symbol .lbrace →
      Entries s n ts ps (u :: rest) → u.kind = .symbol .rbrace →
      Atom s n (t :: ts) (.object (.at (t.span.upTo u.span)) ps) rest
  | function {s n t ts params u us body v rest} : t.kind = .symbol .lparen →
      Head ts params (u :: us) → u.kind = .symbol .lbrace →
      Block n us body (v :: rest) → v.kind = .symbol .rbrace →
      Atom s n (t :: ts) (.function (.at (t.span.upTo v.span)) params body) rest
  | parens {s n t ts e u rest} : t.kind = .symbol .lparen →
      (∀ params us, ¬ Head ts params us) →
      Expression s n ts e (u :: rest) → u.kind = .symbol .rparen →
      Atom s n (t :: ts) (e.setMark (.at (t.span.upTo u.span))) rest

/-- An atom with calls and members behind it. Only a name can be called, and a bracket or parenthesis
has to stand on the line where the token before it ends. -/
inductive Suffixed : Setting → Nat → List Token → Node → List Token → Prop
  | atom {s n ts e rest} : Atom s n ts e rest → Suffixed s n ts e rest
  | member {s n ts e t u name rest} : Suffixed s n ts e (t :: u :: rest) →
      t.kind = .symbol .dot → u.kind = .identifier name →
      Suffixed s n ts (.member (.at (e.span.upTo u.span)) e (.at u.span name)) rest
  | index {s n m ts e t us key v rest} : Suffixed s n ts e (t :: us) →
      t.kind = .symbol .lbracket → Adjoins ts t us →
      Expression s m us key (v :: rest) → v.kind = .symbol .rbracket →
      Suffixed s (max n m) ts (.index (.at (e.span.upTo v.span)) e key) rest
  | call {s n m ts callee t us args v rest} : Suffixed s n ts (.identifier callee) (t :: us) →
      t.kind = .symbol .lparen → Adjoins ts t us →
      Items .rparen s m us args (v :: rest) → v.kind = .symbol .rparen →
      Suffixed s (max n m) ts (.call (.at (callee.span.upTo v.span)) callee args) rest

/-- An operand with its signs. -/
inductive Operand : Setting → Nat → List Token → Node → List Token → Prop
  | suffixed {s n ts e rest} : Suffixed s n ts e rest → NoSuffix ts rest → Operand s n ts e rest
  | sign {s n t ts m op e rest} : t.kind = .symbol m → FrontSign m op → Operand s n ts e rest →
      Operand s (n + 1) (t :: ts) (.unary (.at (t.span.upTo e.span)) op e) rest

/-- Operands with the operators of a product between them. -/
inductive Product : Setting → Nat → List Token → Node → List Token → Prop
  | first {s n ts e rest} : Operand s n ts e rest → Product s n ts e rest
  | more {s n k ts l t us m op r rest} : Product s n ts l (t :: us) →
      t.kind = .symbol m → ProductSign m op → Operand s k us r rest →
      Product s (max n k) ts (.binary (.at (l.span.upTo r.span)) op l r) rest

/-- Products with the operators of a sum between them. -/
inductive Sum : Setting → Nat → List Token → Node → List Token → Prop
  | first {s n ts e rest} : Product s n ts e rest → NoProduct rest → Sum s n ts e rest
  | more {s n k ts l t us m op r rest} : Sum s n ts l (t :: us) →
      t.kind = .symbol m → SumSign m op → Product s k us r rest → NoProduct rest →
      Sum s (max n k) ts (.binary (.at (l.span.upTo r.span)) op l r) rest

/-- The stages of a pipe after the first. Each is a sum that is a call, and sees a value. -/
inductive Stages : Setting → Nat → List Token → List Node → List Token → Prop
  | nil {s rest} : NoPipe rest → Stages s 0 rest [] rest
  | cons {s n m t ts e us es rest} : t.kind = .symbol .pipe →
      Sum { s with inStage := true } n ts e us → NoSum us → e.isCall = true →
      Stages s m us es rest →
      Stages s (max n m) (t :: ts) (e :: es) rest

/-- A sum, or a pipe that starts with one. -/
inductive Expression : Setting → Nat → List Token → Node → List Token → Prop
  | sum {s n ts e rest} : Sum s n ts e rest → NoSum rest → NoPipe rest →
      Expression s (n + 1) ts e rest
  | pipe {s n m ts e us x xs rest} : Sum s n ts e us → NoSum us →
      Stages s m us (x :: xs) rest →
      Expression s (max n m + 1) ts
        (.pipe (.at (e.span.upTo ((x :: xs).getLast (by simp)).span)) (e :: x :: xs)) rest

/-- Expressions separated by commas up to a closing symbol, which may have a comma before it. -/
inductive Items : Symbol → Setting → Nat → List Token → List Node → List Token → Prop
  | nil {c s t rest} : t.kind = .symbol c → Items c s 0 (t :: rest) [] (t :: rest)
  | last {c s n ts e t rest} : Expression s n ts e (t :: rest) → t.kind = .symbol c →
      Items c s n ts [e] (t :: rest)
  | more {c s n m ts e t us es rest} : Expression s n ts e (t :: us) → t.kind = .symbol .comma →
      Items c s m us es rest → Items c s (max n m) ts (e :: es) rest

/-- The entries of an object up to its closing brace. -/
inductive Entries : Setting → Nat → List Token → List Node → List Token → Prop
  | nil {s t rest} : t.kind = .symbol .rbrace → Entries s 0 (t :: rest) [] (t :: rest)
  | last {s n p rest t u} : Entry s n p u (t :: rest) → t.kind = .symbol .rbrace →
      Entries s n p [u] (t :: rest)
  | more {s n m p u t us es rest} : Entry s n p u (t :: us) → t.kind = .symbol .comma →
      Entries s m us es rest → Entries s (max n m) p (u :: es) rest

/-- One entry of an object. -/
inductive Entry : Setting → Nat → List Token → Node → List Token → Prop
  | mk {s n t u ts name e rest} : t.kind = .identifier name → u.kind = .symbol .colon →
      Expression s n ts e rest →
      Entry s n (t :: u :: ts) (.property (.at (t.span.upTo e.span)) (.at t.span name) e) rest

/-- The statements of a function up to its closing brace. The function sees no value of a pipe
around it. -/
inductive Block : Nat → List Token → List Node → List Token → Prop
  | nil {t rest} : t.kind = .symbol .rbrace → Block 0 (t :: rest) [] (t :: rest)
  | cons {n m ts e us es rest} : Statement ⟨false, true⟩ n ts e us → Block m us es rest →
      Block (max (n + 1) m) ts (e :: es) rest

/-- A statement. Only functions give back a value. -/
inductive Statement : Setting → Nat → List Token → Node → List Token → Prop
  | expression {s n ts e rest} : Expression s n ts e rest →
      Statement s n ts (.statement (.at e.span) e) rest
  | declaration {s n t u v ts word d name e rest} : t.kind = .keyword word → DeclaringWord word d →
      u.kind = .identifier name → v.kind = .symbol .assign → Expression s n ts e rest →
      Statement s n (t :: u :: v :: ts)
        (.declaration (.at (t.span.upTo e.span)) d (.at u.span name) e) rest
  | giveBack {s n t ts e rest} : t.kind = .keyword .returnWord → s.inFunction = true →
      Expression s n ts e rest →
      Statement s n (t :: ts) (.giveBack (.at (t.span.upTo e.span)) e) rest

end

/-- Statements up to the end of the tokens. -/
inductive Statements : Nat → List Token → List Node → Prop
  | nil : Statements 0 [] []
  | cons {n m ts e us es} : Statement ⟨false, false⟩ n ts e us → Statements m us es →
      Statements (max n m) ts (e :: es)

/-- A whole script, whose text ends at a span. An empty script stands at that end. -/
inductive Script (finish : Span) : Nat → List Token → Node → Prop
  | empty : Script finish 0 [] (.program (.at finish) [])
  | body {n ts e es} : Statements n ts (e :: es) →
      Script finish n ts
        (.program (.at (e.span.upTo ((e :: es).getLast (by simp)).span)) (e :: es))

end PartScript.Grammar
