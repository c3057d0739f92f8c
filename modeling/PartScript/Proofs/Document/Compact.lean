import PartScript.Proofs.Document.Quoting

/-!
The compact form of a document can be taken apart again. Its brackets and quotes are balanced, so the end
of an item is known from the item alone, and equal forms have equal parts: a list its items, a record
its entries in the order of their keys. Only numbers are not looked into.
-/

namespace PartScript.Document

open Text

/-! ### Where an item ends -/

/-- Where a reader stands: between texts, inside a text, or behind a backslash in one. -/
inductive Place where
  | between | inside | behind
  deriving DecidableEq

/-- The number of open brackets and the place behind one more character; nothing if the item ends
before it. -/
def advance (depth : Nat) : Place → Char → Option (Nat × Place)
  | .between, c =>
    if c = '"' then some (depth, .inside)
    else if c = '[' ∨ c = '\x7b' then some (depth + 1, .between)
    else if c = ']' ∨ c = '\x7d' then if depth = 0 then none else some (depth - 1, .between)
    else if c = ',' then if depth = 0 then none else some (depth, .between)
    else some (depth, .between)
  | .inside, c =>
    if c = '"' then some (depth, .between)
    else if c = '\\' then some (depth, .behind)
    else some (depth, .inside)
  | .behind, _ => some (depth, .inside)

/-- The number of characters up to the end of an item. -/
def extent : Nat → Place → List Char → Nat
  | _, _, [] => 0
  | depth, place, c :: cs =>
    match advance depth place c with
    | none => 0
    | some (depth', place') => extent depth' place' cs + 1

theorem extent_cons {depth depth' : Nat} {place place' : Place} {c : Char} (cs : List Char)
    (h : advance depth place c = some (depth', place')) :
    extent depth place (c :: cs) = extent depth' place' cs + 1 := by
  simp only [extent, h]

/-- The characters leave the reader where it was, if at least some brackets are open. -/
def Balanced (least : Nat) (cs : List Char) : Prop :=
  ∀ depth rest, least ≤ depth →
    extent depth .between (cs ++ rest) = extent depth .between rest + cs.length

theorem balanced_nil (least : Nat) : Balanced least [] := fun _ _ _ => rfl

theorem Balanced.append {least : Nat} {cs ds : List Char} (hc : Balanced least cs)
    (hd : Balanced least ds) : Balanced least (cs ++ ds) := by
  intro depth rest h
  rw [List.append_assoc, hc _ _ h, hd _ _ h, List.length_append]
  omega

theorem Balanced.mono {least least' : Nat} {cs : List Char} (h : Balanced least cs)
    (hle : least ≤ least') : Balanced least' cs :=
  fun depth rest hdepth => h depth rest (Nat.le_trans hle hdepth)

theorem balanced_comma : Balanced 1 [','] := by
  intro depth rest h
  have hadvance : advance depth .between ',' = some (depth, .between) := by
    have hne : depth ≠ 0 := by omega
    simp [advance, hne]
  exact extent_cons rest hadvance

/-- Characters inside brackets are balanced with the brackets. -/
theorem Balanced.enclose {cs : List Char} {opening closing : Char} (h : Balanced 1 cs)
    (hopen : ∀ depth, advance depth .between opening = some (depth + 1, .between))
    (hclose : ∀ depth, advance (depth + 1) .between closing = some (depth, .between)) :
    Balanced 0 (opening :: (cs ++ [closing])) := by
  intro depth rest _
  rw [List.cons_append, extent_cons _ (hopen depth), List.append_assoc,
    h _ _ (Nat.le_add_left _ _), List.singleton_append, extent_cons _ (hclose depth)]
  simp
  omega

/-- Characters between texts that are neither quotes, nor brackets, nor commas. -/
def isQuiet (c : Char) : Bool := !(['"', '[', '\x7b', ']', '\x7d', ','].contains c)

theorem advance_of_isQuiet {c : Char} (h : isQuiet c = true) (depth : Nat) :
    advance depth .between c = some (depth, .between) := by
  simp only [isQuiet, List.contains_cons, List.contains_nil, Bool.not_eq_true', Bool.or_eq_false_iff,
    beq_eq_false_iff_ne] at h
  obtain ⟨h₁, h₂, h₃, h₄, h₅, h₆, -⟩ := h
  simp [advance, h₁, h₂, h₃, h₄, h₅, h₆]

theorem balanced_of_isQuiet {cs : List Char} (h : ∀ c ∈ cs, isQuiet c = true) : Balanced 0 cs := by
  induction cs with
  | nil => exact balanced_nil 0
  | cons c cs ih =>
      intro depth rest hdepth
      rw [List.cons_append, extent_cons _ (advance_of_isQuiet (h c (.head _)) depth),
        ih (fun d hd => h d (.tail _ hd)) _ _ hdepth]
      rfl

/-! ### Quoted texts -/

/-- Characters that leave a reader inside a text. -/
def Contained (cs : List Char) : Prop :=
  ∀ depth rest, extent depth .inside (cs ++ rest) = extent depth .inside rest + cs.length

theorem Contained.append {cs ds : List Char} (hc : Contained cs) (hd : Contained ds) :
    Contained (cs ++ ds) := by
  intro depth rest
  rw [List.append_assoc, hc, hd, List.length_append]
  omega

theorem contained_single {c : Char} (hquote : c ≠ '"') (hslash : c ≠ '\\') : Contained [c] := by
  intro depth rest
  exact extent_cons rest (by simp [advance, hquote, hslash])

theorem contained_pair (letter : Char) : Contained ['\\', letter] := by
  intro depth rest
  have hslash : advance depth .inside '\\' = some (depth, .behind) := by simp [advance]
  have hletter : advance depth .behind letter = some (depth, .inside) := rfl
  rw [List.cons_append, extent_cons _ hslash, List.cons_append, extent_cons _ hletter]
  rfl

theorem contained_hexDigit {n : Nat} (h : n < 16) : Contained [hexDigit n] := by
  have hall : hexDigits.all (fun c => c != '"' && c != '\\') = true := rfl
  have hdigit := List.all_eq_true.1 hall _ (List.mem_of_getElem? (hexDigit_eq h))
  simp only [Bool.and_eq_true, bne_iff_ne] at hdigit
  exact contained_single hdigit.1 hdigit.2

theorem contained_hex (places n : Nat) : Contained (hex places n) := by
  induction places generalizing n with
  | zero => exact fun _ _ => rfl
  | succ places ih =>
      exact (ih (n / 16)).append (contained_hexDigit (Nat.mod_lt _ (by decide)))

theorem contained_unitEscape (n : Nat) : Contained (unitEscape n) :=
  (contained_pair 'u').append (contained_hex 4 n)

theorem contained_escapeChar (c : Char) : Contained (escapeChar c) := by
  have h := escape_escapeChar c
  generalize escapeChar c = cs at h
  cases h with
  | short => exact contained_pair _
  | plain hquote hslash => exact contained_single hquote hslash
  | unit => exact contained_unitEscape _
  | units => exact (contained_unitEscape _).append (contained_unitEscape _)

theorem contained_escaped (cs : List Char) : Contained (cs.flatMap escapeChar) := by
  induction cs with
  | nil => exact fun _ _ => rfl
  | cons c cs ih => exact (contained_escapeChar c).append ih

theorem balanced_quote (s : String) : Balanced 0 (quote s).toList := by
  intro depth rest _
  have hopen : advance depth .between '"' = some (depth, .inside) := by simp [advance]
  have hclose : advance depth .inside '"' = some (depth, .between) := by simp [advance]
  rw [toList_quote, List.cons_append, extent_cons _ hopen, List.append_assoc, contained_escaped,
    List.singleton_append, extent_cons _ hclose]
  simp
  omega

/-! ### Numbers -/

/-- A text of characters that mean nothing to a reader. -/
def Quiet (s : String) : Prop := ∀ c ∈ s.toList, isQuiet c = true

theorem quiet_of_all {s : String} (h : s.toList.all isQuiet = true) : Quiet s :=
  List.all_eq_true.1 h

theorem Quiet.append {s t : String} (hs : Quiet s) (ht : Quiet t) : Quiet (s ++ t) := by
  intro c hc
  rw [String.toList_append, List.mem_append] at hc
  exact hc.elim (hs c) (ht c)

theorem quiet_ofList {cs : List Char} (h : ∀ c ∈ cs, isQuiet c = true) :
    Quiet (String.ofList cs) := by
  intro c hc
  rw [String.toList_ofList] at hc
  exact h c hc

theorem isQuiet_of_isDigit {c : Char} (h : c.isDigit = true) : isQuiet c = true := by
  simp only [isQuiet, List.contains_cons, List.contains_nil, Bool.not_eq_true', Bool.or_eq_false_iff,
    beq_eq_false_iff_ne]
  refine ⟨?_, ?_, ?_, ?_, ?_, ?_, trivial⟩ <;> (rintro rfl; revert h; decide)

theorem quiet_repr (n : Nat) : Quiet n.repr := by
  intro c hc
  rw [Nat.toList_repr] at hc
  exact isQuiet_of_isDigit (Nat.isDigit_of_mem_toDigits (by decide) (by decide) hc)

theorem quiet_zeros (n : Nat) : Quiet (Layout.zeros n) := by
  refine quiet_ofList fun c hc => ?_
  rw [(List.mem_replicate.1 hc).2]
  rfl

theorem quiet_exponentText (places : Nat) (e : Int) : Quiet (Layout.exponentText places e) := by
  unfold Layout.exponentText
  dsimp only
  refine (Quiet.append ?_ (quiet_zeros _)).append (quiet_repr _)
  split
  · exact quiet_of_all (by decide)
  · exact quiet_of_all (by decide)

theorem quiet_scientific (places : Nat) {digits : List Char} (e : Int)
    (h : ∀ c ∈ digits, isQuiet c = true) : Quiet (Layout.scientific places digits e) := by
  have hmark : Quiet "e" := quiet_of_all (by decide)
  unfold Layout.scientific
  dsimp only
  refine (Quiet.append ?_ hmark).append (quiet_exponentText _ _)
  split
  · exact quiet_of_all (by decide)
  · exact quiet_ofList h
  · refine quiet_ofList fun c hc => ?_
    simp only [List.mem_cons] at hc
    rcases hc with rfl | rfl | hc
    · exact h _ (.head _)
    · rfl
    · exact h _ (.tail _ hc)

theorem quiet_positional {digits : List Char} (point : Int) (h : ∀ c ∈ digits, isQuiet c = true) :
    Quiet (Layout.positional digits point) := by
  have hstart : Quiet "0." := quiet_of_all (by decide)
  have hend : Quiet ".0" := quiet_of_all (by decide)
  have hmark : Quiet "." := quiet_of_all (by decide)
  unfold Layout.positional
  dsimp only
  split
  · exact (hstart.append (quiet_zeros _)).append (quiet_ofList h)
  · split
    · exact ((quiet_ofList h).append (quiet_zeros _)).append hend
    · exact ((quiet_ofList fun c hc => h c (List.mem_of_mem_take hc)).append hmark).append
        (quiet_ofList fun c hc => h c (List.mem_of_mem_drop hc))

theorem quiet_magnitude (l : Layout) (d : Dyadic) : Quiet (l.magnitude d) := by
  unfold Layout.magnitude
  dsimp only
  split
  · exact quiet_of_all (by decide)
  · split
    · exact quiet_positional _ (quiet_repr _)
    · exact quiet_scientific _ _ (quiet_repr _)

theorem quiet_write {l : Layout} (x : Float) (hinfinity : Quiet l.infinity)
    (hnotANumber : Quiet l.notANumber) : Quiet (l.write x) := by
  have hminus : Quiet "-" := quiet_of_all (by decide)
  unfold Layout.write
  split
  · refine Quiet.append ?_ (quiet_magnitude _ _)
    split
    · exact hminus
    · exact quiet_of_all (by decide)
  · split
    · exact hnotANumber
    · split
      · exact hminus.append hinfinity
      · exact hinfinity

theorem quiet_toString (n : Int) : Quiet (toString n) := by
  cases n with
  | ofNat n => exact quiet_repr n
  | negSucc n =>
      have hminus : Quiet "-" := quiet_of_all (by decide)
      exact hminus.append (quiet_repr _)

theorem quiet_number (n : Number) : Quiet (number n) := by
  cases n with
  | int n => exact quiet_toString n
  | float x => exact quiet_write x (quiet_of_all (by decide)) (quiet_of_all (by decide))

theorem number_ne_nil (n : Number) : (number n).toList ≠ [] := by
  cases n with
  | int n =>
      have hrepr (k : Nat) : k.repr.toList ≠ [] := by
        rw [Nat.toList_repr]
        exact Nat.toDigits_ne_nil
      cases n with
      | ofNat n => exact hrepr n
      | negSucc n =>
          have htext : (number (.int (.negSucc n))).toList = '-' :: (n + 1).repr.toList :=
            String.toList_append
          rw [htext]
          exact List.cons_ne_nil _ _
  | float x =>
      simp only [number, Layout.write, Layout.magnitude, Layout.positional, Layout.scientific]
      repeat' split
      all_goals simp [Layout.document, Layout.display]

/-! ### Items in a row -/

/-- A text that a reader takes for one item. -/
structure Item (s : String) : Prop where
  balanced : Balanced 0 s.toList
  ne_nil : s.toList ≠ []

/-- What stands behind an item: nothing, or a character that ends it. -/
def Closes (cs : List Char) : Prop := extent 0 .between cs = 0

theorem closes_nil : Closes [] := rfl

theorem closes_comma (cs : List Char) : Closes (',' :: cs) := rfl

theorem Item.append_inj {s t : String} {cs ds : List Char} (hs : Item s) (ht : Item t)
    (hc : Closes cs) (hd : Closes ds) (h : s.toList ++ cs = t.toList ++ ds) : s = t ∧ cs = ds := by
  have hlength : s.toList.length = t.toList.length := by
    have hextent := congrArg (extent 0 .between) h
    rw [hs.balanced _ _ (Nat.le_refl 0), ht.balanced _ _ (Nat.le_refl 0), hc, hd] at hextent
    omega
  obtain ⟨htext, hrest⟩ := List.append_inj h hlength
  exact ⟨String.toList_inj.1 htext, hrest⟩

theorem toList_intercalate_cons (s t : String) (rest : List String) :
    (String.intercalate "," (s :: t :: rest)).toList =
      s.toList ++ ',' :: (String.intercalate "," (t :: rest)).toList := by
  rw [String.intercalate_cons_cons, String.toList_append, String.toList_append, List.append_assoc]
  rfl

theorem balanced_intercalate {items : List String} (h : ∀ s ∈ items, Item s) :
    Balanced 1 (String.intercalate "," items).toList := by
  induction items with
  | nil => exact balanced_nil 1
  | cons s rest ih =>
      have hs := (h s (.head _)).balanced.mono (Nat.zero_le 1)
      cases rest with
      | nil => rwa [String.intercalate_singleton]
      | cons t rest =>
          rw [toList_intercalate_cons]
          exact hs.append (balanced_comma.append (ih fun u hu => h u (.tail _ hu)))

theorem ne_nil_of_intercalate {s : String} {rest : List String} (h : Item s) :
    (String.intercalate "," (s :: rest)).toList ≠ [] := by
  cases rest with
  | nil => rw [String.intercalate_singleton]; exact h.ne_nil
  | cons t rest => rw [toList_intercalate_cons]; simp

/-- Items in a row are known from the row. -/
theorem intercalate_inj {items items' : List String} (h : ∀ s ∈ items, Item s)
    (h' : ∀ s ∈ items', Item s)
    (heq : (String.intercalate "," items).toList = (String.intercalate "," items').toList) :
    items = items' := by
  induction items generalizing items' with
  | nil =>
      cases items' with
      | nil => rfl
      | cons t rest => exact absurd heq.symm (ne_nil_of_intercalate (h' t (.head _)))
  | cons s rest ih =>
      cases items' with
      | nil => exact absurd heq (ne_nil_of_intercalate (h s (.head _)))
      | cons t rest' =>
          have hs := h s (.head _)
          have ht := h' t (.head _)
          -- One item on either side is the whole row; two or more have a comma behind the first.
          cases rest with
          | nil =>
              cases rest' with
              | nil =>
                  rw [String.intercalate_singleton, String.intercalate_singleton] at heq
                  rw [String.toList_inj.1 heq]
              | cons u rest' =>
                  rw [String.intercalate_singleton, toList_intercalate_cons,
                    ← List.append_nil s.toList] at heq
                  cases (hs.append_inj ht closes_nil (closes_comma _) heq).2
          | cons v rest =>
              cases rest' with
              | nil =>
                  rw [String.intercalate_singleton, toList_intercalate_cons,
                    ← List.append_nil t.toList] at heq
                  cases (hs.append_inj ht (closes_comma _) closes_nil heq).2
              | cons u rest' =>
                  rw [toList_intercalate_cons, toList_intercalate_cons] at heq
                  obtain ⟨rfl, hmore⟩ := hs.append_inj ht (closes_comma _) (closes_comma _) heq
                  rw [ih (fun x hx => h x (.tail _ hx)) (fun x hx => h' x (.tail _ hx))
                    (List.cons.inj hmore).2]

theorem item_enclosed {items : List String} {opening closing : String} {o c : Char}
    (ho : opening.toList = [o]) (hc : closing.toList = [c]) (h : ∀ s ∈ items, Item s)
    (hopen : ∀ depth, advance depth .between o = some (depth + 1, .between))
    (hclose : ∀ depth, advance (depth + 1) .between c = some (depth, .between)) :
    Item (opening ++ String.intercalate "," items ++ closing) := by
  have htext : (opening ++ String.intercalate "," items ++ closing).toList =
      o :: ((String.intercalate "," items).toList ++ [c]) := by
    rw [String.toList_append, String.toList_append, ho, hc]
    rfl
  refine ⟨?_, ?_⟩
  · rw [htext]
    exact (balanced_intercalate h).enclose hopen hclose
  · rw [htext]
    exact List.cons_ne_nil _ _

/-! ### Documents -/

theorem item_of_quiet {s : String} (h : Quiet s) (hne : s.toList ≠ []) : Item s :=
  ⟨balanced_of_isQuiet h, hne⟩

theorem item_quote (s : String) : Item (quote s) :=
  ⟨balanced_quote s, by rw [toList_quote]; exact List.cons_ne_nil _ _⟩

/-- The text of an entry of a record. -/
def entryText (e : String × String) : String := quote e.1 ++ ":" ++ e.2

theorem toList_entryText (e : String × String) :
    (entryText e).toList = (quote e.1).toList ++ ':' :: e.2.toList := by
  rw [entryText, String.toList_append, String.toList_append, List.append_assoc]
  rfl

theorem item_entryText {e : String × String} (h : Item e.2) : Item (entryText e) := by
  have hcolon : Balanced 0 [':'] := balanced_of_isQuiet (List.all_eq_true.1 (by decide))
  refine ⟨?_, ?_⟩
  · rw [toList_entryText]
    exact (balanced_quote _).append (hcolon.append h.balanced)
  · rw [toList_entryText, toList_quote]
    exact List.cons_ne_nil _ _

theorem entryText_inj {e f : String × String} (h : entryText e = entryText f) : e = f := by
  have htext := congrArg String.toList h
  rw [toList_entryText, toList_entryText] at htext
  obtain ⟨hkey, hitem⟩ := quote_append_inj htext
  exact Prod.ext hkey (String.toList_inj.1 (List.cons.inj hitem).2)

theorem item_list {items : List String} (h : ∀ s ∈ items, Item s) :
    Item ("[" ++ String.intercalate "," items ++ "]") :=
  item_enclosed (o := '[') (c := ']') rfl rfl h (fun _ => by simp [advance])
    (fun _ => by simp [advance])

theorem item_record {entries : List (String × String)} (h : ∀ e ∈ entries, Item e.2) :
    Item ("\x7b" ++ String.intercalate "," (entries.map entryText) ++ "\x7d") := by
  refine item_enclosed (o := '\x7b') (c := '\x7d') rfl rfl ?_ (fun _ => by simp [advance])
    (fun _ => by simp [advance])
  intro s hs
  obtain ⟨e, he, rfl⟩ := List.mem_map.1 hs
  exact item_entryText (h e he)

mutual

theorem item_compact (p : Plain) : Item (compact p) := by
  cases p with
  | null | opaqueItem => exact item_of_quiet (quiet_of_all (by decide)) (by decide)
  | bool b =>
      cases b with
      | false => exact item_of_quiet (quiet_of_all (by decide)) (by decide)
      | true => exact item_of_quiet (quiet_of_all (by decide)) (by decide)
  | number n => exact item_of_quiet (quiet_number n) (number_ne_nil n)
  | text s => exact item_quote s
  | list items => exact item_list (item_compactItems items)
  | tuple items => exact item_list (item_compactItems items)
  | record entries =>
      refine item_record fun e he => ?_
      exact item_compactEntries entries e (List.mem_mergeSort.1 he)

theorem item_compactItems (items : List Plain) : ∀ s ∈ compactItems items, Item s := by
  cases items with
  | nil => exact nofun
  | cons item rest =>
      intro s hs
      rcases List.mem_cons.1 hs with rfl | hs
      · exact item_compact item
      · exact item_compactItems rest s hs

theorem item_compactEntries (entries : List (Key × Plain)) :
    ∀ e ∈ compactEntries entries, Item e.2 := by
  cases entries with
  | nil => exact nofun
  | cons entry rest =>
      obtain ⟨key, item⟩ := entry
      intro e he
      rcases List.mem_cons.1 he with rfl | he
      · exact item_compact item
      · exact item_compactEntries rest e he

end

theorem enclosed_inj {s t opening closing : String}
    (h : opening ++ s ++ closing = opening ++ t ++ closing) : s.toList = t.toList := by
  have htext := congrArg String.toList h
  simp only [String.toList_append] at htext
  exact List.append_cancel_left (List.append_cancel_right htext)

/-- Equal lists have equal items. -/
theorem compactItems_eq_of_compact_eq {items items' : List Plain}
    (h : compact (.list items) = compact (.list items')) : compactItems items = compactItems items' :=
  intercalate_inj (item_compactItems items) (item_compactItems items') (enclosed_inj h)

/-- Equal records have the same entries, perhaps in another order. -/
theorem compactEntries_perm_of_compact_eq {entries entries' : List (Key × Plain)}
    (h : compact (.record entries) = compact (.record entries')) :
    (compactEntries entries).Perm (compactEntries entries') := by
  have hitems (es : List (Key × Plain)) :
      ∀ s ∈ ((compactEntries es).mergeSort keyLe).map entryText, Item s := by
    intro s hs
    obtain ⟨e, he, rfl⟩ := List.mem_map.1 hs
    exact item_entryText (item_compactEntries es e (List.mem_mergeSort.1 he))
  have hrow := intercalate_inj (hitems entries) (hitems entries') (enclosed_inj h)
  have hsorted : (compactEntries entries).mergeSort keyLe = (compactEntries entries').mergeSort keyLe :=
    (List.map_inj_right fun _ _ => entryText_inj).1 hrow
  have hperm := (List.mergeSort_perm (compactEntries entries) keyLe).symm
  rw [hsorted] at hperm
  exact hperm.trans (List.mergeSort_perm _ _)

/-! ### Records with given names -/

theorem compactEntries_named (fields : List (String × Plain)) :
    compactEntries (fields.map fun (name, item) => (.text name, item)) =
      fields.map fun f => (f.1, compact f.2) := by
  induction fields with
  | nil => rfl
  | cons f rest ih => simp only [List.map_cons, compactEntries, keyText, ih]

/-- Only the compact forms of the items count. -/
theorem compact_named_congr {fields fields' : List (String × Plain)}
    (h : (fields.map fun f => (f.1, compact f.2)) = fields'.map fun f => (f.1, compact f.2)) :
    compact (.named fields) = compact (.named fields') := by
  simp only [Plain.named, compact, compactEntries_named, h]

theorem names_perm_of_compact_eq {fields fields' : List (String × Plain)}
    (h : compact (.named fields) = compact (.named fields')) :
    (fields.map (·.1)).Perm (fields'.map (·.1)) := by
  have hperm := (compactEntries_perm_of_compact_eq h).map Prod.fst
  rw [compactEntries_named, compactEntries_named, List.map_map, List.map_map] at hperm
  exact hperm

theorem eq_of_perm_of_keys {α : Type} {xs ys : List (String × α)} (h : xs.Perm ys)
    (hkeys : xs.map (·.1) = ys.map (·.1)) (hnodup : (xs.map (·.1)).Nodup) : xs = ys := by
  induction xs generalizing ys with
  | nil => exact (List.nil_perm.1 h).symm
  | cons x xs ih =>
      cases ys with
      | nil => cases hkeys
      | cons y ys =>
          obtain ⟨hkey, hrest⟩ := List.cons.inj hkeys
          obtain ⟨hnot, hnodup⟩ := List.nodup_cons.1 hnodup
          -- The key of the first entry is not among the others, so the first entries agree.
          have hx : x = y := by
            rcases List.mem_cons.1 (h.subset (.head xs)) with hx | hx
            · exact hx
            · rw [hrest] at hnot
              exact absurd (List.mem_map_of_mem hx) hnot
          subst hx
          rw [ih h.cons_inv hrest hnodup]

/-- Records with the same names have equal items one by one. -/
theorem items_eq_of_compact_eq {fields fields' : List (String × Plain)}
    (hnames : fields.map (·.1) = fields'.map (·.1)) (hnodup : (fields.map (·.1)).Nodup)
    (h : compact (.named fields) = compact (.named fields')) :
    (fields.map fun f => (f.1, compact f.2)) = fields'.map fun f => (f.1, compact f.2) := by
  have hperm := compactEntries_perm_of_compact_eq h
  rw [compactEntries_named, compactEntries_named] at hperm
  refine eq_of_perm_of_keys hperm ?_ ?_
  · rw [List.map_map, List.map_map]
    exact hnames
  · rw [List.map_map]
    exact hnodup

/-! ### Whole numbers -/

theorem repr_inj {m n : Nat} (h : m.repr = n.repr) : m = n := by
  have hdigits := congrArg (fun s => Nat.ofDigitChars 10 s.toList 0) h
  simp only [Nat.toList_repr] at hdigits
  rwa [Nat.ofDigitChars_toDigits (by decide) (by decide),
    Nat.ofDigitChars_toDigits (by decide) (by decide)] at hdigits

theorem repr_ne_minus {m n : Nat} (h : m.repr = "-" ++ n.repr) : False := by
  have hminus : '-' ∈ m.repr.toList := by
    rw [h, String.toList_append]
    exact .head _
  rw [Nat.toList_repr] at hminus
  have hdigit := Nat.isDigit_of_mem_toDigits (by decide) (by decide) hminus
  revert hdigit
  decide

theorem toString_int_inj {a b : Int} (h : toString a = toString b) : a = b := by
  cases a with
  | ofNat m =>
      cases b with
      | ofNat n => exact congrArg Int.ofNat (repr_inj h)
      | negSucc n => exact (repr_ne_minus (n := n + 1) h).elim
  | negSucc m =>
      cases b with
      | ofNat n => exact (repr_ne_minus (n := m + 1) h.symm).elim
      | negSucc n =>
          have htext := congrArg String.toList h
          have hdigits : (m + 1).repr.toList = (n + 1).repr.toList := List.append_cancel_left
            (show ("-" : String).toList ++ _ = ("-" : String).toList ++ _ by
              rw [← String.toList_append, ← String.toList_append]; exact htext)
          have hsucc := repr_inj (String.toList_inj.1 hdigits)
          exact congrArg Int.negSucc (Nat.succ.inj hsucc)

theorem wholes_inj {ns ns' : List Int} (h : compact (.wholes ns) = compact (.wholes ns')) :
    ns = ns' := by
  have hitems (ks : List Int) : compactItems (ks.map .whole) = ks.map toString := by
    induction ks with
    | nil => rfl
    | cons k ks ih => simp only [List.map_cons, compactItems, ih]; rfl
  have hrow := compactItems_eq_of_compact_eq h
  rw [hitems, hitems] at hrow
  exact (List.map_inj_right fun _ _ => toString_int_inj).1 hrow

end PartScript.Document
