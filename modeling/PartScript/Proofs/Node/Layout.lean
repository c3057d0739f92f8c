import PartScript.Node.Printer
import PartScript.Proofs.Node.Writable

/-!
The printed text of a tree, piece by piece. A tree that can be written is printed without fail, and its
text is a row of lexemes and blanks that does not depend on marks.
-/

namespace PartScript.Printer

open Lexer Text
open PartScript.Parser (Setting)
open Node (Writable WritableAll)

/-! ### Pieces -/

/-- The symbol of an operator between operands. -/
def operatorSymbol : BinaryOp → Symbol
  | .add => .plus
  | .sub => .minus
  | .mul => .star
  | .div => .slash
  | .rem => .percent
  | .other _ => .bang

/-- The symbol of an operator in front of an operand. -/
def signSymbol : UnaryOp → Symbol
  | .minus => .minus
  | _ => .bang

/-- The word of a declaration. -/
def declaringWord : Declarator → Keyword
  | .constWord => .constWord
  | .letWord => .letWord
  | .varWord => .varWord
  | .fnWord => .fnWord
  | .other _ => .returnWord

/-- How tightly an expression that can be written holds together. -/
def rank : Node → Nat
  | .binary _ op _ _ => op.strength?.getD 0
  | .unary _ _ _ => signStrength
  | .function _ _ _ => looseStrength
  | .pipe _ _ => looseStrength
  | _ => atomStrength

/-- The piece for a name. -/
def namePiece (i : Ident) : Piece := .word (.identifier i.name) i.name.toList

/-- The piece for a reserved word. -/
def wordPiece (w : Keyword) : Piece := .word (.keyword w) w.text.toList

/-- One blank. -/
def space : Piece := .blank [' ']

/-- The start of a new line at a level. -/
def newLine (style : Style) (level : Nat) : Piece := .blank ('\n' :: (style.indent level).toList)

/-- Pieces in parentheses, if they are needed. -/
def enclosed (needed : Bool) (ps : List Piece) : List Piece :=
  if needed then .symbol .lparen :: (ps ++ [.symbol .rparen]) else ps

/-- A comma in front of what is left of a row, if anything is. -/
def comma {α : Type} (rest : List α) : List Piece :=
  if rest.isEmpty then [] else [.symbol .comma, space]

/-- The start of the line on which a function ends, if it has statements. -/
def lastLine (style : Style) (level : Nat) (body : List Node) : List Piece :=
  if body.isEmpty then [] else [newLine style level]

/-- The parameters of a function. -/
def paramPieces : List Ident → List Piece
  | [] => []
  | i :: rest => namePiece i :: (comma rest ++ paramPieces rest)

mutual

/-- The pieces of a statement, an expression or an entry of an object at a level. -/
def pieces (style : Style) (level : Nat) : Node → List Piece
  | .literal _ value raw => [.word ((literalKind? value).getD .finish) raw.toList]
  | .identifier i => [namePiece i]
  | .binary _ op l r =>
    enclosed (rank l < op.strength?.getD 0) (pieces style level l) ++
      space :: .symbol (operatorSymbol op) :: space ::
        enclosed (rank r ≤ op.strength?.getD 0) (pieces style level r)
  | .unary _ op e =>
    .symbol (signSymbol op) :: enclosed (rank e < signStrength) (pieces style level e)
  | .call _ callee args =>
    namePiece callee :: .symbol .lparen :: (row style level args ++ [.symbol .rparen])
  | .array _ es => .symbol .lbracket :: (row style level es ++ [.symbol .rbracket])
  | .object _ ps => .symbol .lbrace :: (row style level ps ++ [.symbol .rbrace])
  | .property _ key e => namePiece key :: .symbol .colon :: space :: pieces style level e
  | .member _ e label =>
    enclosed (rank e < atomStrength || isBareNumber e) (pieces style level e) ++
      [.symbol .dot, namePiece label]
  | .index _ e key =>
    enclosed (rank e < atomStrength || isBareNumber e) (pieces style level e) ++
      .symbol .lbracket :: (pieces style level key ++ [.symbol .rbracket])
  | .hole _ => [.symbol .percent]
  | .pipe _ [] => []
  | .pipe _ (first :: more) =>
    enclosed (rank first ≤ looseStrength) (pieces style level first) ++
      stagePieces style (level + 1) more
  | .function _ params body =>
    .symbol .lparen :: (paramPieces params ++
      .symbol .rparen :: space :: .symbol .arrow :: space :: .symbol .lbrace ::
        (lines style (level + 1) body ++
          (lastLine style level body ++ [.symbol .rbrace])))
  | .declaration _ word name init =>
    wordPiece (declaringWord word) :: space :: namePiece name :: space :: .symbol .assign ::
      space :: pieces style level init
  | .statement _ e => pieces style level e
  | .giveBack _ e => wordPiece .returnWord :: space :: pieces style level e
  | .program _ _ => []

/-- Things separated by commas. -/
def row (style : Style) (level : Nat) : List Node → List Piece
  | [] => []
  | e :: rest => pieces style level e ++ (comma rest ++ row style level rest)

/-- The later stages of a pipe, each on a line of its own. -/
def stagePieces (style : Style) (level : Nat) : List Node → List Piece
  | [] => []
  | e :: rest =>
    newLine style level :: .symbol .pipe :: space ::
      (pieces style level e ++ stagePieces style level rest)

/-- Statements, each on a line of its own. -/
def lines (style : Style) (level : Nat) : List Node → List Piece
  | [] => []
  | s :: rest => newLine style level :: (pieces style level s ++ lines style level rest)

end

/-! ### Symbols and words -/

theorem sumSign_iff {m : Symbol} {op : BinaryOp} (h : Grammar.SumSign m op) :
    operatorSymbol op = m ∧ m.text = op.text ∧ op.strength? = some 1 := by
  cases h <;> exact ⟨rfl, rfl, rfl⟩

theorem productSign_iff {m : Symbol} {op : BinaryOp} (h : Grammar.ProductSign m op) :
    operatorSymbol op = m ∧ m.text = op.text ∧ op.strength? = some 2 := by
  cases h <;> exact ⟨rfl, rfl, rfl⟩

theorem frontSign_iff {m : Symbol} {op : UnaryOp} (h : Grammar.FrontSign m op) :
    signSymbol op = m ∧ m.text = op.text := by
  cases h <;> exact ⟨rfl, rfl⟩

theorem declaringWord_iff {w : Keyword} {d : Declarator} (h : Grammar.DeclaringWord w d) :
    declaringWord d = w ∧ w.text = d.text := by
  cases h <;> exact ⟨rfl, rfl⟩

/-! ### Texts -/

/-- The text of a row of pieces. -/
def textOf (ps : List Piece) : String := String.ofList (chars ps)

@[simp] theorem toList_textOf (ps : List Piece) : (textOf ps).toList = chars ps :=
  String.toList_ofList

theorem textOf_eq_iff {ps : List Piece} {s : String} : s = textOf ps ↔ s.toList = chars ps := by
  rw [← toList_textOf, String.toList_inj]

theorem textOf_enclosed (needed : Bool) (ps : List Piece) :
    parenthesized needed (textOf ps) = textOf (enclosed needed ps) := by
  rw [textOf_eq_iff]
  cases needed <;> simp [parenthesized, enclosed, Symbol.text]

theorem chars_comma {α : Type} (x : α) (rest : List α) : chars (comma (x :: rest)) = [',', ' '] :=
  rfl

theorem commas_names (params : List Ident) :
    commas (params.map (·.name)) = textOf (paramPieces params) := by
  rw [textOf_eq_iff]
  induction params with
  | nil => rfl
  | cons i rest ih =>
      cases rest with
      | nil => simp [commas, paramPieces, comma, namePiece]
      | cons j rest =>
          simp only [commas, List.map_cons, String.intercalate_cons_cons] at ih ⊢
          simp [paramPieces, namePiece, chars_comma, ih]

theorem commas_row (style : Style) (level : Nat) (es : List Node) :
    commas (es.map fun e => textOf (pieces style level e)) = textOf (row style level es) := by
  rw [textOf_eq_iff]
  induction es with
  | nil => rfl
  | cons e rest ih =>
      cases rest with
      | nil => simp [commas, row, comma]
      | cons x rest =>
          simp only [commas, List.map_cons, String.intercalate_cons_cons] at ih ⊢
          simp [row, chars_comma, ih]

theorem join_stages (style : Style) (level : Nat) (es : List Node) :
    String.join ((es.map fun e => textOf (pieces style level e)).map
      ("\n" ++ style.indent level ++ "|> " ++ ·)) = textOf (stagePieces style level es) := by
  rw [textOf_eq_iff]
  induction es with
  | nil => rfl
  | cons e rest ih =>
      simp only [List.map_cons, String.join_cons, String.toList_append, ih]
      simp [stagePieces, newLine, Symbol.text, space]

theorem join_lines (style : Style) (level : Nat) (s : Node) (rest : List Node) :
    "\n" ++ String.intercalate "\n"
      ((s :: rest).map fun s => style.indent level ++ textOf (pieces style level s)) =
      textOf (lines style level (s :: rest)) := by
  rw [textOf_eq_iff]
  induction rest generalizing s with
  | nil => simp [lines, newLine]
  | cons x rest ih =>
      have hx := ih x
      simp only [List.map_cons, String.intercalate_cons_cons, String.toList_append] at hx ⊢
      simp only [List.append_assoc] at hx ⊢
      rw [hx]
      simp [lines, newLine]

/-! ### Printing -/

theorem raw_ne_nil {value : Plain} {raw : String} (h : WrittenLiteral value raw) :
    raw.isEmpty = false := by
  obtain ⟨kind, -, hspelled⟩ := h
  have hne := hspelled.lexeme.ne_nil
  rw [Bool.eq_false_iff]
  intro hempty
  rw [String.isEmpty_iff.1 hempty] at hne
  exact hne rfl

theorem literalText_eq {value : Plain} {raw : String} (h : WrittenLiteral value raw) :
    literalText value raw = .ok raw := by
  simp [literalText, raw_ne_nil h]

/-- Only a minus starts with a minus. -/
theorem kind_of_minus {limit : Option Nat} {kind : TokenKind} {cs : List Char}
    (h : Lexeme limit kind ('-' :: cs)) : kind = .symbol .minus := by
  have hscan := h.scan ['\n'] (by
    unfold Stops
    split <;> first | exact clear_cons _ rfl | trivial)
  have hsymbol : scanToken limit ('-' :: cs ++ ['\n']) = .ok (.symbol .minus, cs ++ ['\n']) := by
    rw [List.cons_append, scanToken_symbol limit rfl (startsNumber_of_ne _ rfl (by decide)) rfl,
      scanSymbol_single rfl (bind_ofPair?_eq_none (by decide) _)]
  rw [hsymbol] at hscan
  exact (Prod.mk.inj (Except.ok.inj hscan)).1.symm

theorem strength_eq {s : Setting} {e : Node} (h : Writable .expression s e) :
    strength e = .ok (rank e) := by
  cases e with
  | literal _ value raw =>
      simp only [Writable] at h
      have hstart : raw.startsWith "-" = false := by
        rw [Bool.eq_false_iff]
        intro hstart
        obtain ⟨cs, hcs⟩ := String.startsWith_string_iff.1 hstart
        obtain ⟨kind, hkind, hspelled⟩ := h
        have hlexeme := hspelled.lexeme
        rw [← hcs] at hlexeme
        rw [kind_of_minus hlexeme] at hkind
        cases value <;> simp [literalKind?] at hkind
      simp only [strength, literalText_eq h, ok_bind, hstart]
      rfl
  | binary _ op l r =>
      simp only [Writable] at h
      obtain ⟨m, hsign | hsign⟩ := h.1
      · simp [strength, operatorStrength, rank, (sumSign_iff hsign).2.2]
      · simp [strength, operatorStrength, rank, (productSign_iff hsign).2.2]
  | program | declaration | statement | giveBack | property => simp only [Writable] at h
  | identifier | unary | call | array | object | member | index | pipe | hole | function => rfl

theorem writableAll_of_stage {s : Setting} {es : List Node} (h : WritableAll .stage s es) :
    WritableAll .expression s es := by
  induction es with
  | nil => trivial
  | cons e rest ih => exact ⟨(Node.writable_stage_iff.1 h.1).2, ih h.2⟩

mutual

theorem expression_eq (style : Style) (level : Nat) (s : Setting) :
    (e : Node) → Writable .expression s e →
      expression style level e = .ok (textOf (pieces style level e))
  | .literal _ value raw, h => by
      simp only [Writable] at h
      rw [expression, literalText_eq h]
      simp [pieces, textOf]
  | .identifier i, _ => by
      rw [expression, pieces]
      simp [namePiece, textOf]
  | .binary _ op l r, h => by
      simp only [Writable] at h
      have hop : operatorStrength op = .ok (op.strength?.getD 0) ∧
          (operatorSymbol op).text = op.text := by
        obtain ⟨m, hsign | hsign⟩ := h.1
        · obtain ⟨rfl, htext, hstrength⟩ := sumSign_iff hsign
          exact ⟨by simp [operatorStrength, hstrength], htext⟩
        · obtain ⟨rfl, htext, hstrength⟩ := productSign_iff hsign
          exact ⟨by simp [operatorStrength, hstrength], htext⟩
      simp only [expression, hop.1, strength_eq h.2.1, strength_eq h.2.2,
        expression_eq style level s l h.2.1, expression_eq style level s r h.2.2, ok_bind,
        textOf_enclosed]
      refine congrArg Except.ok (textOf_eq_iff.2 ?_)
      simp [pieces, hop.2, space]
  | .unary _ op e, h => by
      simp only [Writable] at h
      obtain ⟨⟨m, hsign⟩, he⟩ := h
      obtain ⟨rfl, htext⟩ := frontSign_iff hsign
      simp only [expression, strength_eq he, expression_eq style level s e he, ok_bind,
        textOf_enclosed]
      refine congrArg Except.ok (textOf_eq_iff.2 ?_)
      simp [pieces, htext]
  | .call _ callee args, h => by
      simp only [Writable] at h
      simp only [expression, expressions_eq style level s args h.2, ok_bind, commas_row]
      refine congrArg Except.ok (textOf_eq_iff.2 ?_)
      simp [pieces, namePiece, Symbol.text]
  | .array _ es, h => by
      simp only [Writable] at h
      simp only [expression, expressions_eq style level s es h, ok_bind, commas_row]
      refine congrArg Except.ok (textOf_eq_iff.2 ?_)
      simp [pieces, Symbol.text]
  | .object _ ps, h => by
      simp only [Writable] at h
      simp only [expression, properties_eq style level s ps h, ok_bind, commas_row]
      refine congrArg Except.ok (textOf_eq_iff.2 ?_)
      simp [pieces, Symbol.text]
  | .member _ e label, h => by
      simp only [Writable] at h
      simp only [expression, strength_eq h.1, expression_eq style level s e h.1, ok_bind,
        textOf_enclosed]
      refine congrArg Except.ok (textOf_eq_iff.2 ?_)
      simp [pieces, namePiece, Symbol.text]
  | .index _ e key, h => by
      simp only [Writable] at h
      simp only [expression, strength_eq h.1, expression_eq style level s e h.1,
        expression_eq style level s key h.2, ok_bind, textOf_enclosed]
      refine congrArg Except.ok (textOf_eq_iff.2 ?_)
      simp [pieces, Symbol.text]
  | .hole _, _ => rfl
  | .pipe _ [], h => by simp only [Writable] at h
  | .pipe _ (first :: more), h => by
      simp only [Writable] at h
      simp only [expression, strength_eq h.1, expression_eq style level s first h.1,
        expressions_eq style (level + 1) _ more (writableAll_of_stage h.2.2), ok_bind,
        textOf_enclosed, join_stages]
      refine congrArg Except.ok (textOf_eq_iff.2 ?_)
      simp [pieces]
  | .function _ params body, h => by
      simp only [Writable] at h
      cases body with
      | nil =>
          simp only [expression, commas_names, List.isEmpty_nil, if_true]
          refine congrArg Except.ok (textOf_eq_iff.2 ?_)
          simp [pieces, lines, lastLine, space, Symbol.text]
      | cons x rest =>
          simp only [expression, commas_names, List.isEmpty_cons, Bool.false_eq_true, if_false,
            statements_eq style (level + 1) _ (x :: rest) h.2, ok_bind]
          refine congrArg Except.ok (textOf_eq_iff.2 ?_)
          have hlines := congrArg String.toList (join_lines style (level + 1) x rest)
          simp only [String.toList_append, toList_textOf] at hlines
          simp only [pieces, chars_cons, chars_append, ← hlines]
          simp [space, Symbol.text, lastLine, newLine]
  | .program _ _, h | .declaration _ _ _ _, h | .statement _ _, h | .giveBack _ _, h
  | .property _ _ _, h => by simp only [Writable] at h

theorem expressions_eq (style : Style) (level : Nat) (s : Setting) :
    (es : List Node) → WritableAll .expression s es →
      expressions style level es = .ok (es.map fun e => textOf (pieces style level e))
  | [], _ => rfl
  | e :: rest, h => by
      simp only [expressions, expression_eq style level s e h.1,
        expressions_eq style level s rest h.2, ok_bind]
      rfl

theorem properties_eq (style : Style) (level : Nat) (s : Setting) :
    (ps : List Node) → WritableAll .entry s ps →
      properties style level ps = .ok (ps.map fun e => textOf (pieces style level e))
  | [], _ => rfl
  | .property _ key e :: rest, h => by
      simp only [WritableAll, Writable] at h
      simp only [properties, expression_eq style level s e h.1.2,
        properties_eq style level s rest h.2, ok_bind]
      refine congrArg Except.ok (congrArg (· :: _) (textOf_eq_iff.2 ?_))
      simp [pieces, namePiece, space, Symbol.text]
  | .program _ _ :: _, h | .declaration _ _ _ _ :: _, h | .statement _ _ :: _, h
  | .giveBack _ _ :: _, h | .literal _ _ _ :: _, h | .identifier _ :: _, h
  | .binary _ _ _ _ :: _, h | .unary _ _ _ :: _, h | .call _ _ _ :: _, h | .array _ _ :: _, h
  | .object _ _ :: _, h | .member _ _ _ :: _, h | .index _ _ _ :: _, h | .pipe _ _ :: _, h
  | .hole _ :: _, h | .function _ _ _ :: _, h => by simp only [WritableAll, Writable, false_and] at h

theorem statement_eq (style : Style) (level : Nat) (s : Setting) :
    (n : Node) → Writable .statement s n →
      statement style level n = .ok (textOf (pieces style level n))
  | .declaration _ word name init, h => by
      simp only [Writable] at h
      obtain ⟨⟨w, hword⟩, -, hinit⟩ := h
      obtain ⟨rfl, htext⟩ := declaringWord_iff hword
      simp only [statement, expression_eq style level s init hinit, ok_bind]
      refine congrArg Except.ok (textOf_eq_iff.2 ?_)
      simp [pieces, wordPiece, namePiece, space, Symbol.text, htext]
  | .statement _ e, h => by
      simp only [Writable] at h
      rw [statement, expression_eq style level s e h, pieces]
  | .giveBack _ e, h => by
      simp only [Writable] at h
      simp only [statement, expression_eq style level s e h.2, ok_bind]
      refine congrArg Except.ok (textOf_eq_iff.2 ?_)
      simp [pieces, wordPiece, space, Keyword.text]
  | .program _ _, h | .literal _ _ _, h | .identifier _, h
  | .binary _ _ _ _, h | .unary _ _ _, h | .call _ _ _, h | .array _ _, h
  | .object _ _, h | .property _ _ _, h | .member _ _ _, h | .index _ _ _, h | .pipe _ _, h
  | .hole _, h | .function _ _ _, h => by simp only [Writable] at h

theorem statements_eq (style : Style) (level : Nat) (s : Setting) :
    (body : List Node) → WritableAll .statement s body →
      statements style level body =
        .ok (body.map fun n => style.indent level ++ textOf (pieces style level n))
  | [], _ => rfl
  | n :: rest, h => by
      simp only [statements, statement_eq style level s n h.1,
        statements_eq style level s rest h.2, ok_bind]
      rfl

end

/-! ### Marks -/

@[simp] theorem rank_bare (e : Node) : rank e.bare = rank e := by
  cases e <;> simp [Node.bare, rank]

@[simp] theorem isBareNumber_bare (e : Node) : isBareNumber e.bare = isBareNumber e := by
  cases e with
  | literal _ value _ => cases value <;> simp [Node.bare, isBareNumber]
  | _ => simp [Node.bare, isBareNumber]

theorem comma_bareAll (es : List Node) : comma (Node.bareAll es) = comma es := by
  cases es <;> simp [Node.bareAll, comma]

@[simp] theorem namePiece_bare (i : Ident) : namePiece i.bare = namePiece i := rfl

theorem paramPieces_bare (params : List Ident) :
    paramPieces (params.map Ident.bare) = paramPieces params := by
  induction params with
  | nil => rfl
  | cons i rest ih => cases rest <;> simp_all [paramPieces, comma]

mutual

theorem pieces_bare (style : Style) (level : Nat) :
    (e : Node) → pieces style level e.bare = pieces style level e
  | .literal _ _ _ | .identifier _ | .hole _ | .program _ _ => by simp [Node.bare, pieces]
  | .binary _ _ l r | .index _ l r => by
      simp [Node.bare, pieces, pieces_bare style level l, pieces_bare style level r]
  | .unary _ _ e | .property _ _ e | .member _ e _ | .declaration _ _ _ e | .statement _ e
  | .giveBack _ e => by simp [Node.bare, pieces, pieces_bare style level e]
  | .call _ _ es | .array _ es | .object _ es => by
      simp [Node.bare, pieces, row_bare style level es]
  | .pipe _ [] => by simp [Node.bare, Node.bareAll, pieces]
  | .pipe _ (first :: more) => by
      simp [Node.bare, Node.bareAll, pieces, pieces_bare style level first,
        stagePieces_bare style (level + 1) more]
  | .function _ params body => by
      have hlast : lastLine style level (Node.bareAll body) = lastLine style level body := by
        cases body <;> simp [Node.bareAll, lastLine]
      simp [Node.bare, pieces, paramPieces_bare, lines_bare style (level + 1) body, hlast]

theorem row_bare (style : Style) (level : Nat) :
    (es : List Node) → row style level (Node.bareAll es) = row style level es
  | [] => rfl
  | e :: rest => by
      simp [Node.bareAll, row, pieces_bare style level e, comma_bareAll,
        row_bare style level rest]

theorem stagePieces_bare (style : Style) (level : Nat) :
    (es : List Node) → stagePieces style level (Node.bareAll es) = stagePieces style level es
  | [] => rfl
  | e :: rest => by
      simp [Node.bareAll, stagePieces, pieces_bare style level e,
        stagePieces_bare style level rest]

theorem lines_bare (style : Style) (level : Nat) :
    (body : List Node) → lines style level (Node.bareAll body) = lines style level body
  | [] => rfl
  | n :: rest => by
      simp [Node.bareAll, lines, pieces_bare style level n, lines_bare style level rest]

end

end PartScript.Printer
