import PartScript.Proofs.Node.Paths
import PartScript.Proofs.Parentheses.Depths

/-!
The depths of what is printed. The text of a node is a row of pieces of its own and of parts, and a part has
parentheses around it if it binds more loosely than its place asks for, or if it is a number in front of a
member. Printed texts have their trees at depths that these trees can have, as texts that are read have.
-/

namespace PartScript.Printer

open Lexer

/-! ### Items -/

/-- A piece of the text of a node, or a part of the node in a place for expressions of some strength, printed
at a level. -/
inductive Item where
  | piece (p : Piece)
  | part (k level : Nat) (e : Node)

/-- Is what is printed in a place put in parentheses? -/
def parenthesizes (k : Nat) (e : Node) : Bool :=
  decide (rank e < k) || (k == atomStrength && isBareNumber e)

/-- The items of things separated by commas. -/
def rowItems (level : Nat) : List Node → List Item
  | [] => []
  | e :: rest => .part 0 level e :: ((comma rest).map .piece ++ rowItems level rest)

/-- The items of the later stages of a pipe. -/
def stageItems (style : Style) (level : Nat) (es : List Node) : List Item :=
  es.flatMap fun e =>
    [.piece (newLine style level), .piece (.symbol .pipe), .piece space, .part 0 level e]

/-- The items of statements. -/
def lineItems (style : Style) (level : Nat) (es : List Node) : List Item :=
  es.flatMap fun e => [.piece (newLine style level), .part 0 level e]

/-- What the text of a node is made of. -/
def items (style : Style) (level : Nat) : Node → List Item
  | .binary _ op l r =>
    [.part (op.strength?.getD 0) level l, .piece space, .piece (.symbol (operatorSymbol op)),
      .piece space, .part (op.strength?.getD 0 + 1) level r]
  | .unary _ op e => [.piece (.symbol (signSymbol op)), .part signStrength level e]
  | .call _ callee args =>
    .part atomStrength level (.identifier callee) :: .piece (.symbol .lparen) ::
      (rowItems level args ++ [.piece (.symbol .rparen)])
  | .array _ es => .piece (.symbol .lbracket) :: (rowItems level es ++ [.piece (.symbol .rbracket)])
  | .object _ ps => .piece (.symbol .lbrace) :: (rowItems level ps ++ [.piece (.symbol .rbrace)])
  | .property _ key e =>
    [.piece (namePiece key), .piece (.symbol .colon), .piece space, .part 0 level e]
  | .member _ e label =>
    [.part atomStrength level e, .piece (.symbol .dot), .piece (namePiece label)]
  | .index _ e key =>
    [.part atomStrength level e, .piece (.symbol .lbracket), .part 0 level key,
      .piece (.symbol .rbracket)]
  | .pipe _ [] => []
  | .pipe _ (first :: more) =>
    .part (looseStrength + 1) level first :: stageItems style (level + 1) more
  | .function _ params body =>
    .piece (.symbol .lparen) :: ((paramPieces params).map .piece ++
      .piece (.symbol .rparen) :: .piece space :: .piece (.symbol .arrow) :: .piece space ::
        .piece (.symbol .lbrace) :: (lineItems style (level + 1) body ++
          ((lastLine style level body).map .piece ++ [.piece (.symbol .rbrace)])))
  | .declaration _ word name init =>
    [.piece (wordPiece (declaringWord word)), .piece space, .piece (namePiece name), .piece space,
      .piece (.symbol .assign), .piece space, .part 0 level init]
  | .statement _ e => [.part 0 level e]
  | .giveBack _ e => [.piece (wordPiece .returnWord), .piece space, .part 0 level e]
  | .program _ _ => []
  | .literal _ value raw => [.piece (.word ((literalKind? value).getD .finish) raw.toList)]
  | .identifier i => [.piece (namePiece i)]
  | .hole _ => [.piece (.symbol .percent)]

/-! ### Texts -/

/-- The pieces of an item. -/
def Item.pieces (style : Style) : Item → List Piece
  | .piece p => [p]
  | .part k level e => enclosed (parenthesizes k e) (Printer.pieces style level e)

/-- The pieces of items in a row. -/
def flat (style : Style) (is : List Item) : List Piece := is.flatMap (Item.pieces style)

section

variable {style : Style} {level k : Nat}

@[simp] theorem flat_nil : flat style [] = [] := rfl

@[simp] theorem flat_piece (p : Piece) (is : List Item) : flat style (.piece p :: is) = p :: flat style is :=
  rfl

@[simp] theorem flat_part (e : Node) (is : List Item) : flat style (.part k level e :: is) =
    enclosed (parenthesizes k e) (pieces style level e) ++ flat style is :=
  rfl

@[simp] theorem flat_append (is js : List Item) : flat style (is ++ js) = flat style is ++ flat style js :=
  List.flatMap_append

@[simp] theorem flat_map_piece (ps : List Piece) : flat style (ps.map .piece) = ps := by
  induction ps with
  | nil => rfl
  | cons p ps ih => rw [List.map_cons, flat_piece, ih]

@[simp] theorem parenthesizes_zero (e : Node) : parenthesizes 0 e = false := rfl

theorem parenthesizes_target (e : Node) :
    parenthesizes atomStrength e = (decide (rank e < atomStrength) || isBareNumber e) := rfl

theorem parenthesizes_name (i : Ident) : parenthesizes atomStrength (.identifier i) = false := rfl

theorem parenthesizes_lt (hk : k < atomStrength) (e : Node) :
    parenthesizes k e = decide (rank e < k) := by
  have hne : (k == atomStrength) = false := by simpa using Nat.ne_of_lt hk
  rw [parenthesizes, hne, Bool.false_and, Bool.or_false]

theorem parenthesizes_of_not_number {e : Node} (he : isBareNumber e = false) :
    parenthesizes k e = decide (rank e < k) := by
  rw [parenthesizes, he, Bool.and_false, Bool.or_false]

theorem strength_le (op : BinaryOp) : op.strength?.getD 0 ≤ 2 := by
  cases op <;> simp [BinaryOp.strength?]

theorem flat_rowItems (es : List Node) : flat style (rowItems level es) = row style level es := by
  induction es with
  | nil => rfl
  | cons e rest ih => simp [rowItems, row, ih, enclosed]

theorem flat_stageItems (es : List Node) :
    flat style (stageItems style level es) = stagePieces style level es := by
  induction es with
  | nil => rfl
  | cons e rest ih =>
      simp only [stageItems] at ih ⊢
      simp [stagePieces, ih, enclosed]

theorem flat_lineItems (es : List Node) :
    flat style (lineItems style level es) = lines style level es := by
  induction es with
  | nil => rfl
  | cons e rest ih =>
      simp only [lineItems] at ih ⊢
      simp [lines, ih, enclosed]

/-- The text of a node is that of its items. -/
theorem flat_items (e : Node) : flat style (items style level e) = pieces style level e := by
  cases e with
  | binary _ op l r =>
      have hop := strength_le op
      have hl := parenthesizes_lt (k := op.strength?.getD 0) (by simp [atomStrength]; omega) l
      have hr := parenthesizes_lt (k := op.strength?.getD 0 + 1) (by simp [atomStrength]; omega) r
      simp [items, pieces, hl, hr, Nat.lt_succ_iff]
  | unary _ op e =>
      have he := parenthesizes_lt (k := signStrength) (by decide) e
      simp [items, pieces, he]
  | pipe _ stages =>
      cases stages with
      | nil => simp [items, pieces]
      | cons first more =>
          have hfirst := parenthesizes_lt (k := looseStrength + 1) (by decide) first
          simp [items, pieces, flat_stageItems, hfirst, Nat.lt_succ_iff]
  | member _ e _ | index _ e _ => simp [items, pieces, parenthesizes_target, enclosed]
  | _ => simp [items, pieces, flat_rowItems, flat_lineItems, parenthesizes_name, enclosed]

/-! ### Slots -/

/-- The slots of an item: none for blanks and commas. -/
def Item.slots : Item → List Slot
  | .piece (.blank _) => []
  | .piece (.word kind _) => if weigh kind = .nothing then [] else [.token (weigh kind)]
  | .part k _ e => [.part k e.bare]

/-- The slots of items in a row. -/
def slotsOf (is : List Item) : List Slot := is.flatMap Item.slots

@[simp] theorem slotsOf_nil : slotsOf [] = [] := rfl

@[simp] theorem slotsOf_blank (text : List Char) (is : List Item) :
    slotsOf (.piece (.blank text) :: is) = slotsOf is := rfl

@[simp] theorem slotsOf_word (kind : TokenKind) (text : List Char) (is : List Item) :
    slotsOf (.piece (.word kind text) :: is) =
      (if weigh kind = .nothing then [] else [.token (weigh kind)]) ++ slotsOf is := rfl

@[simp] theorem slotsOf_part (e : Node) (is : List Item) :
    slotsOf (.part k level e :: is) = .part k e.bare :: slotsOf is := rfl

@[simp] theorem slotsOf_append (is js : List Item) : slotsOf (is ++ js) = slotsOf is ++ slotsOf js :=
  List.flatMap_append

theorem slotsOf_comma {α : Type} (rest : List α) : slotsOf ((comma rest).map .piece) = [] := by
  cases rest <;> rfl

theorem slotsOf_rowItems (es : List Node) :
    slotsOf (rowItems level es) = es.map fun e => .part 0 e.bare := by
  induction es with
  | nil => rfl
  | cons e rest ih => simp [rowItems, ih, slotsOf_comma]

theorem slotsOf_stageItems (es : List Node) : slotsOf (stageItems style level es) =
    es.flatMap fun e => [.token .own, .part 0 e.bare] := by
  induction es with
  | nil => rfl
  | cons e rest ih => exact congrArg (.token .own :: .part 0 e.bare :: ·) ih

theorem slotsOf_lineItems (es : List Node) :
    slotsOf (lineItems style level es) = es.map fun e => .part 0 e.bare := by
  induction es with
  | nil => rfl
  | cons e rest ih => exact congrArg (.part 0 e.bare :: ·) ih

theorem slotsOf_params (params : List Ident) :
    slotsOf ((paramPieces params).map .piece) = params.map fun _ => .token .own := by
  induction params with
  | nil => rfl
  | cons i rest ih => simp [paramPieces, namePiece, slotsOf_comma, ih, weigh]

theorem weigh_literalKind (value : Plain) : weigh ((literalKind? value).getD .finish) = .own := by
  cases value with
  | bool b => cases b <;> rfl
  | _ => rfl

/-- The slots of a node are those of its items. -/
theorem slotsOf_items (style : Style) (level : Nat) (e : Node) : slotsOf (items style level e) = slots e := by
  cases e with
  | literal _ value _ => simp [items, slots, weigh_literalKind]
  | binary _ op _ _ => cases op <;> rfl
  | unary _ op _ => cases op <;> rfl
  | pipe _ stages => cases stages <;> simp [items, slots, slotsOf_stageItems]
  | function _ params body =>
      have hlast : slotsOf ((lastLine style level body).map .piece) = [] := by
        cases body <;> rfl
      simp [items, slots, Piece.symbol, space, weigh, slotsOf_params, slotsOf_lineItems, hlast]
  | call _ _ es | array _ es | object _ es =>
      simp [items, slots, Piece.symbol, weigh, slotsOf_rowItems, Node.bare]
  | _ => rfl

/-! ### Depths -/

/-- A tree that is printed in parentheses, or needs none, is where its place asks for it. -/
theorem holds_enclosed {e : Node} {ps : List Piece} {needed : Bool}
    (h : ∀ rest, Fills (slots e) (kinds ps ++ rest) rest)
    (hneeded : needed = false → wraps false k e = false) (rest : List TokenKind) :
    Holds k e (kinds (enclosed needed ps) ++ rest) rest := by
  cases needed with
  | false => exact holds_of_fills (hneeded rfl) (h rest)
  | true =>
      have hinner := holds_of_fills (k := 0) (wraps_of_le (Nat.zero_le _)) (h (.symbol .rparen :: rest))
      have hkinds : kinds (enclosed true ps) ++ rest =
          .symbol .lparen :: (kinds ps ++ .symbol .rparen :: rest) := by
        simp [enclosed]
      rw [hkinds]
      exact hinner.parens k

/-- What needs parentheses in any text of its tree is printed with them. -/
theorem wraps_of_parenthesizes {e : Node} (h : parenthesizes k e = false) : wraps false k e = false := by
  have hrank := (Bool.or_eq_false_iff.1 h).1
  rw [wraps, hrank, Bool.false_and]

/-- Items fill their slots if the parts among them do. -/
theorem fills_flat (is : List Item)
    (h : ∀ k l e, .part k l e ∈ is → ∀ rest, Fills (slots e) (kinds (pieces style l e) ++ rest) rest)
    (rest : List TokenKind) : Fills (slotsOf is) (kinds (flat style is) ++ rest) rest := by
  induction is with
  | nil => exact fills_nil
  | cons i is ih =>
      have hmore := ih fun k l e he => h k l e (List.mem_cons_of_mem i he)
      cases i with
      | piece p =>
          cases p with
          | blank text => exact hmore
          | word kind text =>
              by_cases hkind : weigh kind = .nothing
              · simpa [hkind] using hmore.skip (rfl : kind = kind) hkind
              · simpa [hkind] using hmore.token (rfl : kind = kind) rfl
      | part k l e =>
          rw [slotsOf_part, flat_part, kinds_append, List.append_assoc]
          exact hmore.part (holds_enclosed (h k l e List.mem_cons_self) wraps_of_parenthesizes _)

theorem mem_of_part_mem_row {l : Nat} {e : Node} {es : List Node} (h : .part k l e ∈ rowItems level es) :
    e ∈ es := by
  induction es with
  | nil => cases h
  | cons x rest ih =>
      have hcases : e = x ∨ .part k l e ∈ rowItems level rest := by
        grind [rowItems]
      exact List.mem_cons.2 (hcases.imp id ih)

/-- The parts of a node are children of it. -/
theorem mem_children_of_part_mem {l : Nat} {e n : Node} (h : .part k l e ∈ items style level n) :
    e ∈ n.children := by
  cases n with
  | literal _ _ _ | identifier _ | hole _ | program _ _ => simp [items] at h
  | pipe _ stages =>
      cases stages with
      | nil => cases h
      | cons first more =>
          simp only [items, stageItems, List.mem_cons, Item.part.injEq, List.mem_flatMap, reduceCtorEq,
            List.not_mem_nil, or_false, false_or] at h
          rw [Node.children, List.mem_cons]
          rcases h with ⟨-, -, rfl⟩ | ⟨x, hx, -, -, rfl⟩
          · exact .inl rfl
          · exact .inr hx
  | function _ params body =>
      have hbody : e ∈ body ∧ k = 0 ∧ l = level + 1 := by
        simpa [items, lineItems] using h
      exact List.mem_append_right _ hbody.1
  | call _ callee args =>
      have hcases : e = .identifier callee ∨ .part k l e ∈ rowItems level args := by
        simp [items] at h
        tauto
      exact List.mem_cons.2 (hcases.imp id mem_of_part_mem_row)
  | array _ es | object _ es =>
      rw [Node.children]
      exact mem_of_part_mem_row (by simpa [items] using h)
  | _ =>
      simp only [items, List.mem_cons, Item.part.injEq, reduceCtorEq, List.not_mem_nil, or_false,
        false_or] at h
      simp only [Node.children, List.mem_cons, List.not_mem_nil, or_false]
      tauto

end

/-- Every printed tree has its tokens at depths that it can have, with nothing around its own. -/
theorem fills_pieces (style : Style) (level : Nat) (e : Node) (rest : List TokenKind) :
    Fills (slots e) (kinds (pieces style level e) ++ rest) rest := by
  rw [← slotsOf_items style level, ← flat_items]
  exact fills_flat _ (fun _ l x _ => fills_pieces style l x) rest
termination_by e.walk.length
decreasing_by exact Node.length_walk_lt (mem_children_of_part_mem ‹_›)

/-- Items fill their slots. -/
theorem fills_items (style : Style) (is : List Item) (rest : List TokenKind) :
    Fills (slotsOf is) (kinds (flat style is) ++ rest) rest :=
  fills_flat is (fun _ level e _ => fills_pieces style level e) rest

end PartScript.Printer
