import PartScript.Proofs.Parentheses.Frames

/-!
What is printed around a part. The text of a tree with a part of it left open is a row of pieces in front of
the part and another one behind it, neither of which depends on what is put in. Anything may follow the
pieces in front, and no number goes on with those behind.
-/

namespace PartScript.Printer

open Lexer
open PartScript.Parser (Setting)
open Node (Frame plugAll)

variable {style : Style} {level : Nat}

/-! ### Items around a part -/

/-- Items behind which anything may stand, since the last of them is such a piece. -/
def Opens (is : List Item) : Prop := ∃ js p, is = js ++ [.piece p] ∧ p.Frees

/-- Items that no number goes on with, since the first of them is such a piece. -/
def Closes (is : List Item) : Prop := ∃ p js, is = .piece p :: js ∧ p.Shields

theorem opens_concat {p : Piece} (hp : p.Frees) (is : List Item) : Opens (is ++ [.piece p]) :=
  ⟨is, p, rfl, hp⟩

theorem closes_cons {p : Piece} (hp : p.Shields) (is : List Item) : Closes (.piece p :: is) :=
  ⟨p, is, rfl, hp⟩

theorem frees_space : space.Frees := List.cons_ne_nil _ _

theorem frees_newLine (style : Style) (level : Nat) : (newLine style level).Frees := List.cons_ne_nil _ _

theorem frees_symbol {m : Symbol} (hm : ∀ cs, Stops (.symbol m) cs) : (Piece.symbol m).Frees :=
  ⟨by cases m <;> decide, hm⟩

theorem frees_sign (op : UnaryOp) : (Piece.symbol (signSymbol op)).Frees := by
  cases op <;> exact frees_symbol fun _ => trivial

theorem shields_space : space.Shields := .inr ⟨' ', [], rfl, rfl⟩

theorem shields_newLine (style : Style) (level : Nat) : (newLine style level).Shields :=
  .inr ⟨'\n', _, rfl, rfl⟩

theorem shields_symbol {m : Symbol} {c : Char} {cs : List Char} (hm : m.text.toList = c :: cs)
    (hc : isNumberEnd c = false) : (Piece.symbol m).Shields :=
  .inr ⟨c, cs, hm, hc⟩

/-- What stands around one thing of a row that has opening items in front and a closing piece behind. -/
theorem exists_rowItems (level : Nat) (before after : List Node) {front : List Item} (hfront : Opens front)
    {p : Piece} (hp : p.Shields) :
    ∃ A B, Opens A ∧ Closes B ∧
      ∀ e, front ++ (rowItems level (before ++ e :: after) ++ [.piece p]) = A ++ .part 0 level e :: B := by
  induction before generalizing front with
  | nil =>
      refine ⟨front, (comma after).map .piece ++ rowItems level after ++ [.piece p], hfront, ?_, fun e => rfl⟩
      cases after with
      | nil => exact closes_cons hp _
      | cons x rest => exact closes_cons (shields_symbol rfl rfl) _
  | cons b before ih =>
      obtain ⟨A, B, hA, hB, heq⟩ :=
        ih (opens_concat frees_space (front ++ [.part 0 level b, .piece (.symbol .comma)]))
      refine ⟨A, B, hA, hB, fun e => ?_⟩
      have hcomma : comma (before ++ e :: after) = [.symbol .comma, space] := by
        cases before <;> rfl
      rw [← heq e]
      simp [rowItems, hcomma]

/-- The items of a node with a part put in are those around the part and the part itself. -/
theorem exists_items (f : Frame) (style : Style) (level : Nat) :
    ∃ A B inner, (A = [] ∨ Opens A) ∧ (B = [] ∨ Closes B) ∧
      ∀ e, items style level (f.plug e) = A ++ .part f.strength inner e :: B := by
  cases f with
  | initial _ word name =>
      exact ⟨[_, _, _, _, _, _], [], level, .inr (opens_concat frees_space [_, _, _, _, _]), .inl rfl,
        fun e => rfl⟩
  | alone _ => exact ⟨[], [], level, .inl rfl, .inl rfl, fun e => rfl⟩
  | result _ => exact ⟨[_, _], [], level, .inr (opens_concat frees_space [_]), .inl rfl, fun e => rfl⟩
  | left _ op r =>
      exact ⟨[], [_, _, _, _], level, .inl rfl, .inr (closes_cons shields_space _), fun e => rfl⟩
  | right _ op l =>
      exact ⟨[_, _, _, _], [], level, .inr (opens_concat frees_space [_, _, _]), .inl rfl, fun e => rfl⟩
  | signed _ op =>
      exact ⟨[_], [], level, .inr (opens_concat (frees_sign op) []), .inl rfl, fun e => rfl⟩
  | argument _ callee before after =>
      obtain ⟨A, B, hA, hB, heq⟩ := exists_rowItems level before after
        (opens_concat (frees_symbol (m := .lparen) fun _ => trivial)
          [.part atomStrength level (.identifier callee)])
        (shields_symbol (m := .rparen) rfl rfl)
      exact ⟨A, B, level, .inr hA, .inr hB, heq⟩
  | element _ before after =>
      obtain ⟨A, B, hA, hB, heq⟩ := exists_rowItems level before after
        (opens_concat (frees_symbol (m := .lbracket) fun _ => trivial) [])
        (shields_symbol (m := .rbracket) rfl rfl)
      exact ⟨A, B, level, .inr hA, .inr hB, heq⟩
  | entry _ before after =>
      obtain ⟨A, B, hA, hB, heq⟩ := exists_rowItems level before after
        (opens_concat (frees_symbol (m := .lbrace) fun _ => trivial) [])
        (shields_symbol (m := .rbrace) rfl rfl)
      exact ⟨A, B, level, .inr hA, .inr hB, heq⟩
  | value _ key =>
      exact ⟨[_, _, _], [], level, .inr (opens_concat frees_space [_, _]), .inl rfl, fun e => rfl⟩
  | owner _ label => exact ⟨[], [_, _], level, .inl rfl, .inr (closes_cons (.inl rfl) _), fun e => rfl⟩
  | indexed _ key =>
      exact ⟨[], [_, _, _], level, .inl rfl, .inr (closes_cons (shields_symbol rfl rfl) _), fun e => rfl⟩
  | key _ target =>
      exact ⟨[_, _], [_], level, .inr (opens_concat (frees_symbol (m := .lbracket) fun _ => trivial) [_]),
        .inr (closes_cons (shields_symbol rfl rfl) _), fun e => rfl⟩
  | first _ second more =>
      exact ⟨[], stageItems style (level + 1) (second :: more), level, .inl rfl,
        .inr (closes_cons (shields_newLine style (level + 1)) _), fun e => rfl⟩
  | stage _ start before after =>
      refine ⟨.part (looseStrength + 1) level start :: (stageItems style (level + 1) before ++
        [.piece (newLine style (level + 1)), .piece (.symbol .pipe)]) ++ [.piece space],
        stageItems style (level + 1) after, level + 1, .inr (opens_concat frees_space _), ?_, fun e => ?_⟩
      · cases after with
        | nil => exact .inl rfl
        | cons x rest => exact .inr (closes_cons (shields_newLine style (level + 1)) _)
      · simp [items, Frame.plug, Frame.strength, stageItems]
  | line _ params before after =>
      refine ⟨.piece (.symbol .lparen) :: ((paramPieces params).map .piece ++
        [.piece (.symbol .rparen), .piece space, .piece (.symbol .arrow), .piece space,
          .piece (.symbol .lbrace)] ++ lineItems style (level + 1) before) ++
            [.piece (newLine style (level + 1))],
        lineItems style (level + 1) after ++ [.piece (newLine style level), .piece (.symbol .rbrace)],
        level + 1, .inr (opens_concat (frees_newLine style _) _), .inr ?_, fun e => ?_⟩
      · cases after with
        | nil => exact closes_cons (shields_newLine style _) _
        | cons x rest => exact closes_cons (shields_newLine style _) _
      · simp [items, Frame.plug, Frame.strength, lineItems, lastLine]

/-! ### Parentheses that may be there -/

/-- An opening parenthesis, if one is needed. -/
def openings (needed : Bool) : List Piece := if needed then [.symbol .lparen] else []

/-- A closing parenthesis, if one is needed. -/
def closings (needed : Bool) : List Piece := if needed then [.symbol .rparen] else []

theorem enclosed_eq (needed : Bool) (ps : List Piece) :
    enclosed needed ps = openings needed ++ (ps ++ closings needed) := by
  cases needed with
  | false => exact (List.append_nil ps).symm
  | true => rfl

theorem depths_openings (needed : Bool) (d : Nat) (ks : List TokenKind) :
    depths d (kinds (openings needed) ++ ks) = depths (d + needed.toNat) ks := by
  cases needed <;> rfl

theorem depths_closings (needed : Bool) (d : Nat) (ks : List TokenKind) :
    depths (d + needed.toNat) (kinds (closings needed) ++ ks) = depths d ks := by
  cases needed <;> rfl

theorem loose_openings (needed : Bool) : Loose (some Number.maxDigits) (openings needed) := by
  cases needed with
  | false => exact loose_nil
  | true => exact loose_concat (frees_symbol (m := .lparen) fun _ => trivial) []

/-- Parentheses do not count among the tokens that lie somewhere. -/
theorem countP_enclosed (needed : Bool) (ps : List Piece) :
    (kinds (enclosed needed ps)).countP (weigh · == .own) = (kinds ps).countP (weigh · == .own) := by
  cases needed <;> simp [enclosed, weigh]

/-! ### The text around a part -/

/-- Pieces with nothing in front that a number could go on with. -/
def Shielded (ps : List Piece) : Prop := ps = [] ∨ ∃ p qs, ps = p :: qs ∧ p.Shields

theorem Shielded.append {ps qs : List Piece} (h : Shielded ps) (hqs : Shielded qs) : Shielded (ps ++ qs) := by
  rcases h with rfl | ⟨p, rest, rfl, hp⟩
  · exact hqs
  · exact .inr ⟨p, rest ++ qs, rfl, hp⟩

theorem Shielded.guards {ps : List Piece} (h : Shielded ps) : Guards ps := by
  rcases h with rfl | ⟨p, qs, rfl, hp⟩
  · exact guards_nil
  · exact hp.guards qs

theorem shielded_closings (needed : Bool) : Shielded (closings needed) := by
  cases needed with
  | false => exact .inl rfl
  | true => exact .inr ⟨_, _, rfl, shields_symbol rfl rfl⟩

theorem shielded_flat {is : List Item} (h : is = [] ∨ Closes is) : Shielded (flat style is) := by
  rcases h with rfl | ⟨p, js, rfl, hp⟩
  · exact .inl rfl
  · exact .inr ⟨p, flat style js, rfl, hp⟩

theorem loose_flat {is : List Item} (h : is = [] ∨ Opens is) :
    Loose (some Number.maxDigits) (flat style is) := by
  rcases h with rfl | ⟨js, p, rfl, hp⟩
  · exact loose_nil
  · rw [flat_append]
    exact loose_concat hp _

/-- The pieces in front of a part that stands in a place for expressions of some strength, and those behind
it, the part being printed at some level. Without parentheses around a part that needs them the text is none of
the tree. -/
structure Around (style : Style) (level : Nat) (place : Node → Node) (k inner : Nat)
    (before after : List Piece) : Prop where
  loose : Loose (some Number.maxDigits) before
  shielded : Shielded after
  rank_eq : ∀ e e', rank (place e) = rank (place e')
  not_number : ∀ e, isBareNumber (place e) = false
  pieces_eq : ∀ e, isBareNumber e = false → pieces style level (place e) =
    before ++ (enclosed (decide (rank e < k)) (pieces style inner e) ++ after)
  not_laid : ∀ x, Anchored x → wraps false k x = true → isBareNumber x = false → ∀ d rest,
    ∃ ds, (∀ d', ¬ Laid (place x) d' ds) ∧
      depths d (kinds (before ++ (pieces style inner x ++ after)) ++ rest) = ds ++ depths d rest

theorem rank_plug (f : Frame) (e e' : Node) : rank (f.plug e) = rank (f.plug e') := by
  cases f <;> rfl

theorem isBareNumber_plug (f : Frame) (e : Node) : isBareNumber (f.plug e) = false := by
  cases f <;> rfl

/-- Where parentheses may be needed there are tokens around the part, none of which is a parenthesis. -/
theorem anchored_plug {f : Frame} (hf : 0 < f.strength) (e : Node) : Anchored (f.plug e) := by
  cases f with
  | left | right | signed | owner | indexed | first => simp [Anchored, Flat, Frame.plug, slots]
  | _ => cases hf

theorem slots_plug {f : Frame} {A B : List Item} {inner : Nat} {e : Node}
    (h : items style level (f.plug e) = A ++ .part f.strength inner e :: B) :
    slots (f.plug e) = slotsOf A ++ .part f.strength e.bare :: slotsOf B := by
  rw [← slotsOf_items style level, h, slotsOf_append, slotsOf_part]

theorem pieces_plug {f : Frame} {A B : List Item} {inner : Nat} {e : Node}
    (h : items style level (f.plug e) = A ++ .part f.strength inner e :: B)
    (he : isBareNumber e = false) : pieces style level (f.plug e) =
      flat style A ++ (enclosed (decide (rank e < f.strength)) (pieces style inner e) ++ flat style B) := by
  rw [← flat_items, h, flat_append, flat_part, parenthesizes_of_not_number he]

/-- The text around a part of a node itself. -/
theorem exists_around_plug (f : Frame) (style : Style) (level : Nat) :
    ∃ inner before after, Around style level f.plug f.strength inner before after := by
  obtain ⟨A, B, inner, hA, hB, hitems⟩ := exists_items f style level
  refine ⟨inner, flat style A, flat style B, loose_flat hA, shielded_flat hB, rank_plug f,
    isBareNumber_plug f, fun e he => pieces_plug (hitems e) he, fun x hx hwraps hnumber d rest => ?_⟩
  have hstrength : 0 < f.strength := by
    by_contra h
    rw [Nat.eq_zero_of_not_pos h] at hwraps
    simp [wraps] at hwraps
  have hanchored := anchored_plug hstrength x
  have hslots := slots_plug (hitems x)
  have hA : behind (slotsOf A) d = d :=
    behind_of_flat (fun w hw => hanchored.1 w (by rw [hslots]; exact List.mem_append_left _ hw)) d
  have hB : behind (slotsOf B) d = d :=
    behind_of_flat (fun w hw => hanchored.1 w (by
      rw [hslots]
      exact List.mem_append_right _ (List.mem_cons_of_mem _ hw))) d
  obtain ⟨xs, hxs, hfirst⟩ :=
    fills_items style A (kinds (pieces style inner x) ++ (kinds (flat style B) ++ rest)) d
  obtain ⟨ds, hds, hpart⟩ := fills_pieces style inner x (kinds (flat style B) ++ rest) d
  obtain ⟨ys, hys, hlast⟩ := fills_items style B rest d
  refine ⟨xs ++ (ds ++ ys), ?_, ?_⟩
  · have hbare : Anchored x.bare := by rwa [Anchored, slots_bare]
    exact not_laid_of_wraps hslots hanchored hbare (by rwa [wraps_bare]) hxs
      (laid_bare.2 (.mk hds)) hys
  · rw [hA] at hfirst
    rw [behind_slots] at hpart
    rw [hB] at hlast
    simp only [kinds_append, List.append_assoc, hfirst, hpart, hlast]

/-- Without the parentheses around a part that needs them the text fills no slots of a larger tree, whatever
stands in front of it and behind it. -/
theorem Around.exists_not_filled {place : Node → Node} {k inner : Nat} {before after : List Piece}
    (h : Around style level place k inner before after) {x : Node} (hx : Anchored x)
    (hwraps : wraps false k x = true) (hnumber : isBareNumber x = false) (d : Nat) (rest : List TokenKind) :
    ∃ ds, depths d (kinds (before ++ (pieces style inner x ++ after)) ++ rest) = ds ++ depths d rest ∧
      ∀ {ss tt : List Slot} {d₁ : Nat} {xs ys : List Nat} (k' d₂ : Nat), Filled ss d₁ xs →
        ¬ Filled (ss ++ .part k' (place x).bare :: tt) d₂ (xs ++ (ds ++ ys)) := by
  obtain ⟨ds, hnot, hpart⟩ := h.not_laid x hx hwraps hnumber d rest
  obtain ⟨zs, hzs, hwhole⟩ := fills_pieces style level (place x) [] 0
  -- with the parentheses the text has as many tokens, and it is one of the tree
  have hlength : zs.length = ds.length := by
    rw [length_of_depths hwhole, length_of_depths hpart, h.pieces_eq x hnumber]
    simp only [kinds_append, List.countP_append, countP_enclosed]
  exact ⟨ds, hpart, fun k' d₂ hxs => not_filled_of_part (fun d hd => hnot d (laid_bare.1 hd)) hlength
    (laid_bare.2 (.mk hzs)) hxs d₂⟩

/-- The text around a part of something that is itself a part of a node. -/
theorem Around.plug {place : Node → Node} {k inner mid : Nat} {before after : List Piece}
    (h : Around style mid place k inner before after) {f : Frame} {A B : List Item} (hA : A = [] ∨ Opens A)
    (hB : B = [] ∨ Closes B)
    (hitems : ∀ e, items style level (f.plug e) = A ++ .part f.strength mid e :: B) :
    ∃ needed, Around style level (fun e => f.plug (place e)) k inner
      (flat style A ++ (openings needed ++ before)) (after ++ (closings needed ++ flat style B)) := by
  obtain ⟨needed, hneeded⟩ : ∃ needed, ∀ e, decide (rank (place e) < f.strength) = needed :=
    ⟨_, fun e => by rw [h.rank_eq e (.hole default)]⟩
  refine ⟨needed, (loose_flat hA).append ((loose_openings needed).append h.loose),
    h.shielded.append ((shielded_closings needed).append (shielded_flat hB)),
    fun e e' => rank_plug f _ _, fun e => isBareNumber_plug f _, fun e he => ?_,
    fun x hx hwraps hnumber d rest => ?_⟩
  · rw [pieces_plug (hitems _) (h.not_number e), hneeded, h.pieces_eq e he, enclosed_eq needed]
    simp only [List.append_assoc]
  · let d' := behind (slotsOf A) d
    have hslots := slots_plug (hitems (place x))
    have hend : behind (slotsOf B) d' = d := by
      have hwhole := behind_slots (f.plug (place x)) d
      rw [hslots, behind_append] at hwhole
      exact hwhole
    obtain ⟨ys, hys, hlast⟩ := fills_items style B rest d'
    obtain ⟨ds, hpart, hnot⟩ := h.exists_not_filled hx hwraps hnumber (d' + needed.toNat)
      (kinds (closings needed) ++ (kinds (flat style B) ++ rest))
    obtain ⟨xs, hxs, hfirst⟩ := fills_items style A (kinds (openings needed) ++
      (kinds (before ++ (pieces style inner x ++ after)) ++
        (kinds (closings needed) ++ (kinds (flat style B) ++ rest)))) d
    refine ⟨xs ++ (ds ++ ys), fun d'' hlaid => ?_, ?_⟩
    · rw [laid_iff, hslots] at hlaid
      exact hnot f.strength d'' hxs hlaid
    · rw [depths_openings, hpart, depths_closings, hlast, hend] at hfirst
      simp only [kinds_append, List.append_assoc] at hfirst ⊢
      exact hfirst

/-- The text around a part that stands in some frames, as deep as it may be. -/
theorem exists_around (outer : List Frame) (f : Frame) (style : Style) (level : Nat) :
    ∃ inner before after,
      Around style level (fun e => plugAll outer (f.plug e)) f.strength inner before after := by
  induction outer generalizing level with
  | nil => exact exists_around_plug f style level
  | cons g outer ih =>
      obtain ⟨A, B, mid, hA, hB, hitems⟩ := exists_items g style level
      obtain ⟨inner, before, after, h⟩ := ih mid
      obtain ⟨needed, hplug⟩ := h.plug hA hB hitems
      exact ⟨inner, _, _, hplug⟩

end PartScript.Printer
