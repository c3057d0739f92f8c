import PartScript.Proofs.Library.Effects
import PartScript.Proofs.Pass.Frame
import PartScript.Proofs.Value.Origins

/-!
The trails of results. A call that draws or that finds a wall hands on the trails of its arguments, all but
that of a tag; a member hands on the trails of its item and of what the item was found in. A value that
only stands for another one is looked through, and its own trail is left behind.
-/

namespace PartScript

/-! ### Calls of the library -/

namespace Builtin

/-- The arguments whose trails are handed on to the result. -/
def sources : Builtin → List Value → List Value
  | startSketchAt, args | extrude, args => args
  | lineTo, args | line, args => args.eraseIdx 2
  | close, args => args.eraseIdx 1
  | wallTransform, args => args.eraseIdx 0
  | _, _ => []

/-- The tag among the arguments, if the function takes one and it is given. -/
def tagAmong? : Builtin → List Value → Option Value
  | lineTo, args | line, args => args[2]?
  | close, args => args[1]?
  | wallTransform, args => args[0]?
  | _, _ => none

/-- The functions whose results carry the trails of arguments. -/
def tracing : List Builtin := [startSketchAt, lineTo, line, close, extrude, wallTransform]

theorem sources_subset (b : Builtin) (args : List Value) : b.sources args ⊆ args := by
  cases b with
  | startSketchAt | extrude => exact List.Subset.refl _
  | lineTo | line | close | wallTransform => exact (List.eraseIdx_sublist _ _).subset
  | _ => exact List.nil_subset _

/-- An argument that is at no place but one is among the others. -/
theorem mem_eraseIdx_or {v : Value} {args : List Value} (k : Nat) (h : v ∈ args) :
    v ∈ args.eraseIdx k ∨ args[k]? = some v := by
  obtain ⟨i, hi⟩ := List.mem_iff_getElem?.1 h
  by_cases heq : i = k
  · exact .inr (heq ▸ hi)
  · exact .inl (List.mem_eraseIdx_iff_getElem?.2 ⟨i, heq, hi⟩)

/-- Where trails are handed on, an argument is a source or the tag. -/
theorem mem_sources_or {b : Builtin} (hb : b ∈ tracing) {args : List Value} {v : Value}
    (h : v ∈ args) : v ∈ b.sources args ∨ b.tagAmong? args = some v := by
  simp only [tracing, List.mem_cons, List.not_mem_nil, or_false] at hb
  rcases hb with rfl | rfl | rfl | rfl | rfl | rfl
  · exact .inl h
  · exact mem_eraseIdx_or 2 h
  · exact mem_eraseIdx_or 2 h
  · exact mem_eraseIdx_or 1 h
  · exact .inl h
  · exact mem_eraseIdx_or 0 h

theorem mem_of_tagAmong? {b : Builtin} {args : List Value} {v : Value}
    (h : b.tagAmong? args = some v) : v ∈ args := by
  cases b with
  | lineTo | line | close | wallTransform => exact List.mem_of_getElem? h
  | _ => cases h

section

variable {site : CallSite} {e : Effect}

theorem trail_of_calculated {x : Except Refusal Number}
    (h : (do return calculated site (← x)) = Except.ok e) :
    e.value.trail = mergeTrails site.mark.origin [] := by
  obtain ⟨n, -, h⟩ := bind_eq_ok h
  cases h
  rfl

theorem trail_of_extended {target extra : Value} {s : Sketch} {stop : Point} {tag : Option String}
    {fields : List (String × Host)} (h : extended site target s stop tag fields extra = .ok e) :
    e.value.trail = mergeTrails site.mark.origin [extra, target] := by
  obtain ⟨c, -, h⟩ := bind_eq_ok h
  cases h
  rfl

theorem trail_of_runLineTo {stop target : Value} {label : Option Value}
    (h : runLineTo site stop target label = .ok e) :
    e.value.trail = mergeTrails site.mark.origin [stop, target] := by
  obtain ⟨p, -, h⟩ := bind_eq_ok h
  obtain ⟨s, -, h⟩ := bind_eq_ok h
  obtain ⟨t, -, h⟩ := bind_eq_ok h
  exact trail_of_extended h

theorem trail_of_runLine {offset target : Value} {label : Option Value}
    (h : runLine site offset target label = .ok e) :
    e.value.trail = mergeTrails site.mark.origin [offset, target] := by
  obtain ⟨d, -, h⟩ := bind_eq_ok h
  obtain ⟨s, -, h⟩ := bind_eq_ok h
  obtain ⟨t, -, h⟩ := bind_eq_ok h
  obtain ⟨x, -, h⟩ := bind_eq_ok h
  obtain ⟨y, -, h⟩ := bind_eq_ok h
  exact trail_of_extended h

theorem trail_of_runClose {target : Value} {label : Option Value}
    (h : runClose site target label = .ok e) :
    e.value.trail = mergeTrails site.mark.origin [target] := by
  obtain ⟨s, -, h⟩ := bind_eq_ok h
  obtain ⟨t, -, h⟩ := bind_eq_ok h
  obtain ⟨c, -, h⟩ := bind_eq_ok h
  cases h
  rfl

theorem trail_of_runExtrude {length target : Value} (h : runExtrude site length target = .ok e) :
    e.value.trail = mergeTrails site.mark.origin [length, target] := by
  obtain ⟨distance, -, h⟩ := bind_eq_ok h
  obtain ⟨s, -, h⟩ := bind_eq_ok h
  obtain ⟨c, -, h⟩ := bind_eq_ok h
  obtain ⟨walls, -, h⟩ := bind_eq_ok h
  cases h
  rfl

theorem trail_of_runWall {label target : Value} (h : runWall site label target = .ok e) :
    e.value.trail = mergeTrails site.mark.origin [target] := by
  obtain ⟨name, -, h⟩ := bind_eq_ok h
  obtain ⟨extruded, -, h⟩ := bind_eq_ok h
  cases hwall : extruded.wall? name with
  | none =>
      rw [hwall] at h
      cases h
  | some w =>
      rw [hwall] at h
      cases h
      rfl

/-- A call that shows its arguments gives back the first of them; the result of any other call has the
origin of the call and the trails of the sources. -/
theorem trail_of_run {b : Builtin} {args : List Value} (h : b.run site args = .ok e) :
    (b = showValues ∧ e.value ∈ args) ∨
      e.value.trail = mergeTrails site.mark.origin (b.sources args) := by
  unfold run at h
  split at h
  case h_1 | h_2 | h_3 =>
    obtain ⟨x, -, h⟩ := bind_eq_ok h
    exact .inr (trail_of_calculated h)
  case h_4 =>
    obtain ⟨n, -, h⟩ := bind_eq_ok h
    split at h
    · cases h
    · obtain ⟨x, -, h⟩ := bind_eq_ok h
      exact .inr (trail_of_calculated h)
  case h_5 | h_11 | h_12 =>
    obtain ⟨x, -, h⟩ := bind_eq_ok h
    cases h
    exact .inr rfl
  case h_6 | h_7 | h_10 =>
    obtain ⟨x, -, h⟩ := bind_eq_ok h
    exact .inr (trail_of_calculated h)
  case h_8 =>
    obtain ⟨x, -, h⟩ := bind_eq_ok h
    obtain ⟨y, -, h⟩ := bind_eq_ok h
    exact .inr (trail_of_calculated h)
  case h_9 =>
    cases h
    exact .inr rfl
  case h_13 =>
    cases h
    exact .inl ⟨rfl, List.mem_cons_self⟩
  case h_14 | h_24 => cases h
  case h_15 =>
    obtain ⟨p, -, h⟩ := bind_eq_ok h
    obtain ⟨c, -, h⟩ := bind_eq_ok h
    cases h
    exact .inr rfl
  case h_16 | h_17 => exact .inr (trail_of_runLineTo h)
  case h_18 | h_19 => exact .inr (trail_of_runLine h)
  case h_20 | h_21 => exact .inr (trail_of_runClose h)
  case h_22 => exact .inr (trail_of_runExtrude h)
  case h_23 => exact .inr (trail_of_runWall h)

/-- No function that hands trails on shows its arguments. -/
theorem trail_of_tracing {b : Builtin} (hb : b ∈ tracing) {args : List Value}
    (h : b.run site args = .ok e) :
    e.value.trail = mergeTrails site.mark.origin (b.sources args) := by
  rcases trail_of_run h with ⟨rfl, -⟩ | htrail
  · simp [tracing] at hb
  · exact htrail

/-- A result has all origins of the arguments just when those of the tag are among the others anyway. -/
theorem subset_trail_iff {b : Builtin} (hb : b ∈ tracing) {args : List Value}
    (h : b.run site args = .ok e) :
    (∀ v ∈ args, v.trail ⊆ e.value.trail) ↔
      ∀ tag ∈ b.tagAmong? args, ∀ o ∈ tag.trail,
        o = site.mark.origin ∨ ∃ v ∈ b.sources args, o ∈ v.trail := by
  rw [trail_of_tracing hb h]
  constructor
  · intro hall tag htag o ho
    exact mem_mergeTrails.1 (hall tag (mem_of_tagAmong? htag) ho)
  · intro htag v hv o ho
    rcases mem_sources_or hb hv with hsource | hlabel
    · exact mem_mergeTrails.2 (.inr ⟨v, hsource, ho⟩)
    · exact mem_mergeTrails.2 (htag v hlabel o ho)

end

end Builtin

/-! ### Members -/

namespace Pass

/-- The item at a whole number of a row. -/
def itemInRow? (items : List Host) : MemberKey → Option Host
  | .text _ => none
  | .number n => n.whole?.bind fun i => if i < 0 then none else items[i.toNat]?

/-- The item of a value at a key, once values that only stand for others are looked through. -/
def item? (target : Value) (key : MemberKey) : Option Host :=
  match (unwrapped target).data, key with
  | .array items, key => itemInRow? (items.map .value) key
  | .host (.list items), key | .host (.tuple items), key => itemInRow? items key
  | .host (.record entries), .text name => itemAt? name entries
  | _, _ => none

theorem itemInRow?_of_element {items : List Host} {key : MemberKey} {span : Span} {w w' : World}
    {item : Host} (h : (element items key span).run w = (.ok item, w')) :
    itemInRow? items key = some item := by
  unfold element at h
  cases key with
  | text s => cases h
  | number n =>
      simp only [itemInRow?]
      cases hwhole : n.whole? with
      | none =>
          simp only [hwhole] at h
          obtain ⟨s, w₁, -, h⟩ := run_bind_eq_ok h
          cases h
      | some i =>
          simp only [hwhole] at h
          rw [Option.bind_some]
          cases hitem : if i < 0 then none else items[i.toNat]? with
          | none =>
              rw [hitem] at h
              cases h
          | some found =>
              rw [hitem] at h
              cases h
              rfl

theorem itemAt?_of_entry {entries : List (Key × Host)} {key : MemberKey} {span : Span} {w w' : World}
    {item : Host} (h : (entry entries key span).run w = (.ok item, w')) :
    ∃ name, key = .text name ∧ itemAt? name entries = some item := by
  unfold entry at h
  cases key with
  | number n =>
      obtain ⟨s, w₁, -, h⟩ := run_bind_eq_ok h
      cases h
  | text name =>
      cases hitem : itemAt? name entries with
      | none =>
          simp only [hitem] at h
          cases h
      | some found =>
          simp only [hitem] at h
          cases h
          exact ⟨name, rfl, hitem⟩

/-- A member is the item that was asked for, with the trails of the item and of what the item was found in,
but not those of the values that were looked through. -/
theorem member_eq_ok {m : Mark} {target : Value} {key : MemberKey} {span : Span} {w w' : World}
    {v : Value} (h : (member m target key span).run w = (.ok v, w')) :
    ∃ item, item? target key = some item ∧
      v.trail = mergeTrails m.origin [item.toValue [], unwrapped target] := by
  unfold member at h
  dsimp only at h
  unfold item?
  split at h
  case h_1 hdata | h_2 hdata | h_3 hdata =>
    obtain ⟨item, w₁, hitem, h⟩ := run_bind_eq_ok h
    cases h
    rw [hdata]
    exact ⟨item, itemInRow?_of_element hitem, rfl⟩
  case h_4 hdata =>
    obtain ⟨item, w₁, hitem, h⟩ := run_bind_eq_ok h
    cases h
    obtain ⟨name, rfl, hfound⟩ := itemAt?_of_entry hitem
    rw [hdata]
    exact ⟨item, hfound, rfl⟩
  case h_5 =>
    obtain ⟨item, w₁, hitem, h⟩ := run_bind_eq_ok h
    cases hitem

end Pass

/-- The expression that a member is taken from. -/
def Node.target? : Node → Option Node
  | member _ e _ | index _ e _ => some e
  | _ => none

namespace Pass

/-- What is nested in an expression is evaluated after one more step, and with less room. -/
theorem run_opening_eq_ok {α : Type} {p : Pass} {f : Frame} {span : Span} {k : Frame → Eval α}
    {w w' : World} {a : α} (h : (p.step span >>= fun _ => deeper f >>= k).run w = (.ok a, w')) :
    (k { f with room := f.room.map (· - 1) }).run { w with steps := w.steps + 1 } = (.ok a, w') := by
  obtain ⟨_, w₁, hstep, h⟩ := run_bind_eq_ok h
  rw [run_step, Prod.mk.injEq] at hstep
  obtain ⟨-, rfl⟩ := hstep
  obtain ⟨inner, w₂, hdeeper, h⟩ := run_bind_eq_ok h
  obtain ⟨scope, hole, room⟩ := f
  match room with
  | none | some (_ + 1) =>
      cases hdeeper
      exact h
  | some 0 => cases hdeeper

/-- Evaluating a member evaluates its target first, and then takes an item from it. -/
theorem member_of_evaluate {p : Pass} {enter : Enter} {f : Frame} {n e : Node} {w w' : World} {v : Value}
    (hn : n.target? = some e) (h : (evaluate p enter f n).run w = (.ok v, w')) :
    ∃ target w₁ key item,
      (evaluate p enter { f with room := f.room.map (· - 1) } e).run { w with steps := w.steps + 1 } =
        (.ok target, w₁) ∧
      item? target key = some item ∧
      v.trail = mergeTrails n.mark.origin [item.toValue [], unwrapped target] := by
  unfold evaluate at h
  have h := run_opening_eq_ok h
  cases n with
  | member m e' label =>
      cases hn
      obtain ⟨target, w₁, htarget, h⟩ := run_bind_eq_ok h
      obtain ⟨item, hitem, htrail⟩ := member_eq_ok h
      exact ⟨target, w₁, _, item, htarget, hitem, htrail⟩
  | index m e' key =>
      cases hn
      obtain ⟨target, w₁, htarget, h⟩ := run_bind_eq_ok h
      obtain ⟨k, w₂, -, h⟩ := run_bind_eq_ok h
      obtain ⟨key, w₃, -, h⟩ := run_bind_eq_ok h
      obtain ⟨item, hitem, htrail⟩ := member_eq_ok h
      exact ⟨target, w₁, key, item, htarget, hitem, htrail⟩
  | _ => cases hn

/-- Which trails are complete. The result of a call that hands trails on has the origin of the call first,
no origin twice, and the origins of all arguments but the tag; those of the tag it has only if they are
among these anyway. A member has its own origin first, no origin twice, and the origins of its item; those
of the evaluated target it has only if they are among these anyway, or among those of what the target
stands for. -/
theorem trails_complete_iff (p : Pass) (enter : Enter) :
    (∀ b ∈ Builtin.tracing, ∀ site args e, b.run site args = .ok e →
      (∃ rest, e.value.trail = site.mark.origin :: rest) ∧ e.value.trail.Nodup ∧
      (∀ v ∈ b.sources args, v.trail ⊆ e.value.trail) ∧
      ((∀ v ∈ args, v.trail ⊆ e.value.trail) ↔
        ∀ tag ∈ b.tagAmong? args, ∀ o ∈ tag.trail,
          o = site.mark.origin ∨ ∃ v ∈ b.sources args, o ∈ v.trail)) ∧
    ∀ f n e w w' v, n.target? = some e → (evaluate p enter f n).run w = (.ok v, w') →
      ∃ target w₁ key item,
        (evaluate p enter { f with room := f.room.map (· - 1) } e).run { w with steps := w.steps + 1 } =
          (.ok target, w₁) ∧
        item? target key = some item ∧
        (∃ rest, v.trail = n.mark.origin :: rest) ∧ v.trail.Nodup ∧
        (item.toValue []).trail ⊆ v.trail ∧
        (target.trail ⊆ v.trail ↔ ∀ o ∈ target.trail,
          o = n.mark.origin ∨ o ∈ (item.toValue []).trail ∨ o ∈ (unwrapped target).trail) := by
  constructor
  · intro b hb site args e h
    refine ⟨?_, ?_, fun v hv o ho => ?_, Builtin.subset_trail_iff hb h⟩
    · exact Builtin.trail_of_tracing hb h ▸ exists_mergeTrails_eq _ _
    · exact Builtin.trail_of_tracing hb h ▸ nodup_mergeTrails _ _
    · exact Builtin.trail_of_tracing hb h ▸ mem_mergeTrails.2 (.inr ⟨v, hv, ho⟩)
  · intro f n e w w' v hn h
    obtain ⟨target, w₁, key, item, htarget, hitem, htrail⟩ := member_of_evaluate hn h
    refine ⟨target, w₁, key, item, htarget, hitem, ?_⟩
    rw [htrail]
    have hmem : ∀ o, o ∈ mergeTrails n.mark.origin [item.toValue [], unwrapped target] ↔
        o = n.mark.origin ∨ o ∈ (item.toValue []).trail ∨ o ∈ (unwrapped target).trail := by
      intro o
      simp only [mem_mergeTrails, List.mem_cons, List.not_mem_nil, or_false, exists_eq_or_imp,
        exists_eq_left]
    exact ⟨exists_mergeTrails_eq _ _, nodup_mergeTrails _ _,
      fun o ho => (hmem o).2 (.inr (.inl ho)), forall₂_congr fun o _ => hmem o⟩

/-- A tag with an origin. -/
def markedTag : Value := .mk (.text "side") [⟨⟨24, 30⟩, [0, 1]⟩]

/-- A solid with one wall, and without a trail. -/
def plainSolid : Value :=
  .mk (.extrusion ⟨"", "", .int 1, .origin, .none, [⟨"side", .origin, .none, ⟨0, 0⟩⟩]⟩) []

/-- A value with an origin that stands for a record without one. -/
def boxedRecord : Value :=
  .mk (.host (.value (.mk (.host (.record [(.text "width", .number (.int 7))])) []))) [⟨⟨3, 4⟩, [9]⟩]

/-- A member of what comes in through the pipe. -/
def widthOfHole : Node := .member default (.hole default) ⟨default, "width"⟩

/-- The origin of the tag is missing from the place of a wall, and that of a value which stands for a record
from the member of the record. -/
theorem trails_incomplete :
    (∃ e, Builtin.wallTransform.run ⟨"", default⟩ [markedTag, plainSolid] = .ok e ∧
      ¬ ∀ v ∈ [markedTag, plainSolid], v.trail ⊆ e.value.trail) ∧
    ∃ v w', (evaluate (.under .standard .standard "") (call (.under .standard .standard "") 64)
        ⟨0, some boxedRecord, none⟩ widthOfHole).run ⟨0, [], [], .empty⟩ = (.ok v, w') ∧
      ¬ boxedRecord.trail ⊆ v.trail := by
  obtain ⟨hcalls, hmembers⟩ := trails_complete_iff (.under .standard .standard "")
    (call (.under .standard .standard "") 64)
  refine ⟨⟨_, rfl, fun hall => ?_⟩, ⟨_, _, rfl, fun hall => ?_⟩⟩
  · have hcomplete := (hcalls .wallTransform (by decide) _ _ _ rfl).2.2.2.1 hall
    have h := hcomplete markedTag rfl _ (List.mem_singleton_self _)
    revert h
    decide
  · obtain ⟨target, w₁, key, item, htarget, hitem, -, -, -, hiff⟩ :=
      hmembers ⟨0, some boxedRecord, none⟩ widthOfHole (.hole default) ⟨0, [], [], .empty⟩ _ _ rfl rfl
    cases htarget
    -- The record has one item, and neither the item nor the record has an origin.
    have hnumber : item = .number (.int 7) := by
      cases key with
      | number n => cases hitem
      | text name =>
          obtain ⟨e, he, rfl⟩ := Option.map_eq_some_iff.1 hitem
          rw [List.mem_singleton.1 (List.mem_of_find?_eq_some he)]
    subst hnumber
    have h := hiff.1 hall _ (List.mem_singleton_self _)
    revert h
    decide

end Pass

end PartScript
