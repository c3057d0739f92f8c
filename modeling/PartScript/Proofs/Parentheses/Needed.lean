import PartScript.Proofs.Node.RoundTrip
import PartScript.Proofs.Parentheses.Around
import PartScript.Proofs.Parentheses.Read

/-!
Printed parentheses are needed. Where the printer puts parentheses around an operation, a sign or a pipe, the
same text without that pair is no text of the tree: if it can be read at all, something else is read. The
tokens outside of parentheses and commas are the same in both texts, so that a tree that is read from the
second one has them at the same places, and the part would lie as deep as the node it binds too loosely for.
-/

namespace PartScript

open PartScript.Parser (Setting)
open Node (Frame plugAll Writable WritableAll)

namespace Printer

open Lexer

/-! ### Scripts with a part left open -/

variable {style : Style}

/-- The end of the text of a script with statements. -/
def scriptEnd (style : Style) : List Piece := if style.finalNewline then [.blank ['\n']] else []

/-- What stands in front of a statement in the text of a script. -/
def scriptFront (style : Style) (before : List Node) : List Piece :=
  (lines style 0 before ++ [newLine style 0]).tail

theorem lines_middle (style : Style) (level : Nat) (before after : List Node) (n : Node) :
    lines style level (before ++ n :: after) =
      lines style level before ++
        newLine style level :: (pieces style level n ++ lines style level after) := by
  induction before with
  | nil => rfl
  | cons x before ih => simp [lines, ih]

/-- The text of a script with a part put into one of its statements. -/
theorem scriptPieces_place {place : Node → Node} {k inner : Nat} {ps qs : List Piece}
    (h : Around style 0 place k inner ps qs) (before after : List Node) {e : Node}
    (he : isBareNumber e = false) :
    scriptPieces style (before ++ place e :: after) = (scriptFront style before ++ ps) ++
      (enclosed (decide (rank e < k)) (pieces style inner e) ++
        (qs ++ (lines style 0 after ++ scriptEnd style))) := by
  have hempty : (before ++ place e :: after).isEmpty = false := by
    cases before <;> rfl
  have htail : (lines style 0 before ++ newLine style 0 ::
      (pieces style 0 (place e) ++ lines style 0 after)).tail =
      scriptFront style before ++ (pieces style 0 (place e) ++ lines style 0 after) := by
    rw [scriptFront, List.append_cons, List.tail_append_of_ne_nil (by simp)]
  have hend : (if (false || !style.finalNewline) = true then [] else [Piece.blank ['\n']]) =
      scriptEnd style := by
    cases hfinal : style.finalNewline <;> simp [scriptEnd, hfinal]
  rw [scriptPieces, lines_middle, htail, hempty, hend, h.pieces_eq e he]
  simp only [List.append_assoc]

theorem loose_scriptFront (before : List Node) :
    Loose (some Number.maxDigits) (scriptFront style before) := by
  cases before with
  | nil => exact loose_nil
  | cons x rest => exact loose_concat (frees_newLine style 0) _

theorem kinds_scriptFront (before : List Node) :
    kinds (scriptFront style before) = kinds (lines style 0 before) := by
  cases before with
  | nil => rfl
  | cons x rest => simp [scriptFront, lines, newLine]

theorem shielded_scriptEnd (after : List Node) : Shielded (lines style 0 after ++ scriptEnd style) := by
  cases after with
  | nil =>
      rw [scriptEnd]
      split
      · exact .inr ⟨_, [], rfl, .inr ⟨'\n', [], rfl, rfl⟩⟩
      · exact .inl rfl
  | cons x rest => exact .inr ⟨_, _, rfl, shields_newLine style 0⟩

/-! ### Texts without a pair of parentheses -/

theorem textOf_append (ps qs : List Piece) : textOf (ps ++ qs) = textOf ps ++ textOf qs := by
  refine (textOf_eq_iff.2 ?_).symm
  simp

/-- An expression that is printed in parentheses can be read without them: the text falls into the same tokens
but for the two. -/
theorem readable_without {s : Setting} {e : Node} {needed : Bool} {level : Nat} {before after : List Piece}
    (he : Writable .expression s e) (hloose : Loose (some Number.maxDigits) before)
    (hshielded : Shielded after)
    (h : Legible (some Number.maxDigits) [] (before ++ (enclosed needed (pieces style level e) ++ after))) :
    Readable (some Number.maxDigits) [] (before ++ (pieces style level e ++ after)) := by
  rw [legible_append, legible_append] at h
  obtain ⟨hbefore, -, hafter⟩ := h
  simp only [readable_append, List.append_nil]
  exact ⟨(hloose _ _ hbefore).readable, readable_pieces he hshielded.guards hafter, hafter.readable⟩

/-- What is read from readable pieces has its tokens at the depths where the pieces are. -/
theorem filled_of_parse {ps : List Piece} (hps : Readable (some Number.maxDigits) [] ps)
    {file : Option String} {q : Node} (hq : parse (textOf ps) file = .ok q) {m : Mark} {body : List Node}
    (hbare : q.bare = (Node.program m body).bare) :
    Filled (body.map fun e => .part 0 e.bare) 0 (depths 0 (kinds ps)) := by
  obtain ⟨finish, htokens⟩ := tokenizeWith_readable hps file
  obtain ⟨tokens, htokens', hparse⟩ := bind_eq_ok hq
  obtain rfl : _ = tokens := Except.ok.inj (htokens.symm.trans htokens')
  obtain ⟨n, tree, hscript, -, -, rfl⟩ :=
    Grammar.script_eq_ok_iff.1 (parseTokens_eq_ok_iff.1 hparse)
  obtain ⟨body', hstatements, rfl⟩ := Grammar.script_iff.1 hscript
  rw [Node.bare_withPaths, bare_joinStatements] at hbare
  have hbodies : body'.map Node.bare = body.map Node.bare := by
    rw [← Node.bareAll_eq_map, ← Node.bareAll_eq_map]
    exact (Node.program.inj hbare).2
  have hslots : body'.map (fun e => Slot.part 0 e.bare) = body.map fun e => .part 0 e.bare := by
    simpa [Function.comp_def] using congrArg (List.map (Slot.part 0)) hbodies
  obtain ⟨ds, hds, hdepths⟩ := hstatements.fills 0
  rw [Grammar.kindsOf, map_kind_placed] at hdepths
  rw [hdepths, ← hslots]
  simpa [depths] using hds

end Printer

/-! ### Parentheses -/

namespace Node

/-- Is the node an operation, a sign or a pipe? -/
def isCompound : Node → Bool
  | .binary _ _ _ _ | .unary _ _ _ | .pipe _ _ => true
  | _ => false

end Node

open Printer Lexer

theorem anchored_of_isCompound {s : Setting} {e : Node} (he : Writable .expression s e)
    (hcompound : e.isCompound = true) : Anchored e := by
  cases e with
  | binary | unary => simp [Anchored, Flat, slots]
  | pipe m stages =>
      cases stages with
      | nil => simp only [Writable] at he
      | cons first more =>
          simp only [Writable] at he
          obtain ⟨x, rest, rfl⟩ := List.exists_cons_of_ne_nil he.2.1
          simp [Anchored, Flat, slots]
  | _ => cases hcompound

theorem wraps_of_isCompound {e : Node} (hcompound : e.isCompound = true) (k : Nat) :
    wraps false k e = decide (rank e < k) := by
  cases e with
  | function => cases hcompound
  | _ => simp [wraps, isFunction]

theorem isBareNumber_of_isCompound {e : Node} (hcompound : e.isCompound = true) :
    isBareNumber e = false := by
  cases e with
  | literal => cases hcompound
  | _ => rfl

/-- Parentheses around a part that binds too loosely for its place cannot be taken away: what is read from the
text without them, if anything is, is another tree. -/
theorem bare_ne_of_parse_without {style : Style} {s : Setting} {m : Mark} {before after : List Node}
    {place : Node → Node} {k inner : Nat} {ps qs : List Piece} {x : Node}
    (h : Around style 0 place k inner ps qs)
    (hbody : WritableAll .statement .outside (before ++ place x :: after)) (hx : Writable .expression s x)
    (hcompound : x.isCompound = true) (hk : rank x < k) {file : Option String} {q : Node}
    (hq : parse (textOf (scriptFront style before ++ ps ++ (pieces style inner x ++
      (qs ++ (lines style 0 after ++ scriptEnd style))))) file = .ok q) :
    q.bare ≠ (Node.program m (before ++ place x :: after)).bare := by
  intro hbare
  have hnumber := isBareNumber_of_isCompound hcompound
  have hlegible : Legible _ [] (scriptPieces style _) := legible_script hbody
  rw [scriptPieces_place h before after hnumber] at hlegible
  have hreadable := readable_without hx ((loose_scriptFront before).append h.loose)
    (h.shielded.append (shielded_scriptEnd after)) hlegible
  have hfilled := filled_of_parse hreadable hq hbare
  rw [List.map_append, List.map_cons] at hfilled
  let back := kinds (lines style 0 after ++ scriptEnd style)
  let d := behind (slotsOf (lineItems style 0 before)) 0
  obtain ⟨xs, hxs, hfirst⟩ := fills_items style (lineItems style 0 before)
    (kinds (ps ++ (pieces style inner x ++ qs)) ++ back) 0
  obtain ⟨ds, hpart, hnot⟩ := h.exists_not_filled (anchored_of_isCompound hx hcompound)
    (by simpa [wraps_of_isCompound hcompound] using hk) hnumber d back
  rw [slotsOf_lineItems] at hxs
  rw [hpart, flat_lineItems] at hfirst
  have hdepths : depths 0 (kinds (scriptFront style before ++ ps ++ (pieces style inner x ++
      (qs ++ (lines style 0 after ++ scriptEnd style))))) = xs ++ (ds ++ depths d back) := by
    rw [← hfirst]
    simp only [back, kinds_append, kinds_scriptFront, List.append_assoc]
  rw [hdepths] at hfilled
  exact hnot 0 0 hxs hfilled

/-- The text of a script with a part put into one of its statements, in parentheses if it binds too loosely for
its place. -/
theorem print_place {style : Style} {m : Mark} {before after : List Node} {place : Node → Node} {k inner : Nat}
    {ps qs : List Piece} (h : Around style 0 place k inner ps qs) {e : Node}
    (hbody : WritableAll .statement .outside (before ++ place e :: after)) (he : isBareNumber e = false) :
    (Node.program m (before ++ place e :: after)).print style =
      .ok (textOf (scriptFront style before ++ ps) ++
        parenthesized (decide (rank e < k)) (textOf (pieces style inner e)) ++
          textOf (qs ++ (lines style 0 after ++ scriptEnd style))) := by
  rw [print_eq (by simpa only [Writable] using hbody), scriptPieces_place h before after he, textOf_enclosed]
  simp only [textOf_append, String.append_assoc]

/-- The text around an operand of a script, the target of a member or the first element of a pipe is the same
whatever stands there. An operation, a sign or a pipe is printed there in parentheses exactly if it binds more
loosely than the place asks for, and then the text without this pair is not read as a script that is alike. -/
theorem print_around {source : String} {file : Option String} {m : Mark} {outer : List Frame}
    {f : Frame} {x : Node} {before after : List Node}
    (hscript : parse source file = .ok (.program m (before ++ plugAll outer (f.plug x) :: after)))
    (hplace : 0 < f.strength) (hcompound : x.isCompound = true) (style : Style) :
    ∃ front back inner level n, strength x = .ok n ∧ expression style level x = .ok inner ∧
      (∀ i : Ident, Edit.isName i.name = true →
        (Node.program m (before ++ plugAll outer (f.plug (.identifier i)) :: after)).print style =
          .ok (front ++ i.name ++ back)) ∧
      (Node.program m (before ++ plugAll outer (f.plug x) :: after)).print style =
        .ok (front ++ parenthesized (decide (n < f.strength)) inner ++ back) ∧
      (n < f.strength → ∀ file' q, parse (front ++ inner ++ back) file' = .ok q →
        (Node.program m (before ++ plugAll outer (f.plug x) :: after)).alike q = false) := by
  have hwritable := writable_of_parse hscript
  have hbody : WritableAll .statement .outside (before ++ plugAll outer (f.plug x) :: after) := by
    simpa only [Writable] using hwritable
  obtain ⟨hbefore, hstatement, hafter⟩ := Node.writableAll_middle.1 hbody
  obtain ⟨role, s, hframe, houter⟩ := Node.writable_plugAll hstatement
  obtain ⟨hx, hput⟩ := f.writable hframe
  rw [Frame.role_eq_expression hplace] at hx hput
  obtain ⟨level, ps, qs, h⟩ := exists_around outer f style 0
  refine ⟨textOf (scriptFront style before ++ ps), textOf (qs ++ (lines style 0 after ++ scriptEnd style)),
    textOf (pieces style level x), level, rank x, strength_eq hx, expression_eq style level _ x hx,
    fun i hi => ?_, print_place h hbody (isBareNumber_of_isCompound hcompound), fun hn file' q hq => ?_⟩
  · have hname : Writable .expression (f.inside s) (.identifier i) := by
      simpa only [Writable] using writtenName_of_isName hi
    have hplaced := Node.writableAll_middle.2 ⟨hbefore, houter _ (hput _ hname), hafter⟩
    have hloose : decide (rank (.identifier i) < f.strength) = false :=
      decide_eq_false (Nat.not_lt.2 f.strength_le)
    have htext : textOf (pieces style level (.identifier i)) = i.name := by
      simp [pieces, namePiece, textOf]
    rw [print_place h hplaced rfl, hloose, htext]
    rfl
  · rw [Bool.eq_false_iff]
    intro halike
    rw [← textOf_append, ← textOf_append, List.append_assoc] at hq
    exact bare_ne_of_parse_without h hbody hx hcompound hn hq
      ((Node.alike_iff hwritable (writable_of_parse hq)).1 halike).symm

/-- Printed parentheses are needed. A node of a script that has an operand, a target of a member or a first
element of a pipe stands in frames in one of the statements. Let an operation, a sign or a pipe stand in that
place. In every style there are a text in front of it and one behind it, between which any name is printed
that is put in its place; between them it is printed itself, in parentheses exactly if it binds more loosely
than the place asks for; and if it does, what is read from the text without this pair, if anything is, is not
alike. -/
theorem print_parentheses_needed {source : String} {file : Option String} {script : Node} {f : Frame}
    {x : Node}
    (hscript : parse source file = .ok script) (hnode : f.plug x ∈ script.walk) (hplace : 0 < f.strength)
    (hcompound : x.isCompound = true) (style : Style) :
    (∃ m before outer after, script = .program m (before ++ plugAll outer (f.plug x) :: after)) ∧
    ∀ m before outer after, script = .program m (before ++ plugAll outer (f.plug x) :: after) →
      ∃ front back inner level n, strength x = .ok n ∧ expression style level x = .ok inner ∧
        (∀ i : Ident, Edit.isName i.name = true →
          (Node.program m (before ++ plugAll outer (f.plug (.identifier i)) :: after)).print style =
            .ok (front ++ i.name ++ back)) ∧
        script.print style = .ok (front ++ parenthesized (decide (n < f.strength)) inner ++ back) ∧
        (n < f.strength → ∀ file' q, parse (front ++ inner ++ back) file' = .ok q →
          script.alike q = false) := by
  constructor
  · refine Node.exists_plugAll_of_mem_script (writable_of_parse hscript) hnode ?_ ?_
    · intro i
      cases f <;> simp [Frame.plug]
    · intro m body
      cases f <;> simp [Frame.plug]
  · rintro m before outer after rfl
    exact print_around hscript hplace hcompound style

/-- The sum in a product is printed in parentheses, and the text without them is that of another script. -/
theorem print_parentheses_needed_product :
    ∃ (script : Node) (f : Frame) (x : Node), parse "a * (b + c)" none = .ok script ∧
      f.plug x ∈ script.walk ∧ 0 < f.strength ∧ x.isCompound = true ∧
      ∃ front back inner, front ++ "(" ++ inner ++ ")" ++ back = "a * (b + c)\n" ∧
        script.print .standard = .ok (front ++ "(" ++ inner ++ ")" ++ back) ∧
        ∀ file' q, parse (front ++ inner ++ back) file' = .ok q → script.alike q = false := by
  have hchecked : (parse "a * (b + c)" none).toOption.any (fun script =>
      decide ((script.print .standard).toOption = some "a * (b + c)\n") &&
        script.walk.any fun n => decide (rank n = 2) && n.children.any fun x =>
          x.isCompound && decide ((strength x).toOption = some 1)) = true := by decide +kernel
  obtain ⟨script, hscript, hchecked⟩ := exists_of_any_toOption hchecked
  obtain ⟨htext, hchecked⟩ := Bool.and_eq_true_iff.1 hchecked
  obtain ⟨n, hnode, hchecked⟩ := List.any_eq_true.1 hchecked
  obtain ⟨hrank, hchecked⟩ := Bool.and_eq_true_iff.1 hchecked
  obtain ⟨x, hx, hchecked⟩ := List.any_eq_true.1 hchecked
  obtain ⟨hcompound, hsum⟩ := Bool.and_eq_true_iff.1 hchecked
  obtain ⟨f, rfl, hf⟩ : ∃ f : Frame, n = f.plug x ∧ 1 < f.strength := by
    have hrank := of_decide_eq_true hrank
    cases n with
    | binary m op l r =>
        have hop : op.strength?.getD 0 = 2 := hrank
        rcases List.mem_cons.1 hx with rfl | hx
        · exact ⟨.left m op r, rfl, by rw [Frame.strength, hop]; decide⟩
        · obtain rfl := List.mem_singleton.1 hx
          exact ⟨.right m op l, rfl, by rw [Frame.strength, hop]; decide⟩
    | _ => simp [rank, atomStrength, signStrength, looseStrength] at hrank
  have hplace : 0 < f.strength := Nat.lt_of_succ_lt hf
  obtain ⟨⟨m, before, outer, after, hplugged⟩, hneeded⟩ :=
    print_parentheses_needed hscript hnode hplace hcompound .standard
  obtain ⟨front, back, inner, level, k, hstrength, -, -, hprint, halike⟩ :=
    hneeded m before outer after hplugged
  obtain rfl : k = 1 := by
    have hsum := of_decide_eq_true hsum
    rw [hstrength] at hsum
    exact Option.some.inj hsum
  have hwhole : parenthesized (decide (1 < f.strength)) inner = "(" ++ inner ++ ")" := by
    rw [decide_eq_true hf]
    rfl
  rw [hwhole, ← String.append_assoc, ← String.append_assoc] at hprint
  rw [hprint] at htext
  exact ⟨script, f, x, hscript, hnode, hplace, hcompound, front, back, inner,
    Option.some.inj (of_decide_eq_true htext), hprint, halike hf⟩

end PartScript
