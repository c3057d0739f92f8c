import PartScript.Proofs.Node.Nesting

/-!
How deep the tokens of a text lie in parentheses, and what the tree of the text says about it. All tokens
of a tree that are in none of its parts lie equally deep, but for those between parentheses of its own, and a
part that binds more loosely than its place asks for lies deeper. Parentheses that nobody needs may take any
part deeper still. So the depths are not told by the tree, but where the tree is known they tell how deep each
of its parts was written.
-/

namespace PartScript.Printer

/-! ### Depths of tokens -/

/-- What a token does to the depth: it lies somewhere, it opens or closes parentheses, or it is a comma, of
which there may be more or fewer for the same tree. -/
inductive Weight where
  | own | opening | closing | nothing
  deriving DecidableEq

namespace Weight

/-- The depth behind a token. -/
def behind : Weight → Nat → Nat
  | opening, d => d + 1
  | closing, d => d - 1
  | _, d => d

/-- What is noted of the depth of a token. -/
def noted : Weight → Nat → List Nat
  | own, d => [d]
  | _, _ => []

end Weight

/-- The weight of a token. -/
def weigh : TokenKind → Weight
  | .symbol .lparen => .opening
  | .symbol .rparen => .closing
  | .symbol .comma => .nothing
  | _ => .own

/-- The depths of the tokens of a text that starts at some depth, parentheses and commas left out. -/
def depths : Nat → List TokenKind → List Nat
  | _, [] => []
  | d, kind :: ks => (weigh kind).noted d ++ depths ((weigh kind).behind d) ks

theorem length_depths (d : Nat) (ks : List TokenKind) :
    (depths d ks).length = ks.countP (weigh · == .own) := by
  induction ks generalizing d with
  | nil => rfl
  | cons kind ks ih =>
      rw [depths, List.length_append, ih, List.countP_cons, Nat.add_comm]
      cases weigh kind <;> rfl

theorem length_of_depths {d d' : Nat} {ks rest : List TokenKind} {ds : List Nat}
    (h : depths d (ks ++ rest) = ds ++ depths d' rest) : ds.length = ks.countP (weigh · == .own) := by
  have hlength := congrArg List.length h
  rw [List.length_append, length_depths, length_depths, List.countP_append] at hlength
  exact (Nat.add_right_cancel hlength).symm

/-! ### Slots of a tree -/

/-- What a node is written with: tokens of its own and parts, each of which stands where expressions of some
strength do. -/
inductive Slot where
  | token (w : Weight)
  | part (k : Nat) (e : Node)

/-- The tokens and parts of a node in the order of the text. Parts are without marks. The name of a call is a
part, since it may be in parentheses. -/
def slots : Node → List Slot
  | .binary _ op l r =>
    [.part (op.strength?.getD 0) l.bare, .token .own, .part (op.strength?.getD 0 + 1) r.bare]
  | .unary _ _ e => [.token .own, .part signStrength e.bare]
  | .call _ callee args =>
    .part atomStrength (.identifier callee.bare) :: .token .opening ::
      (args.map (fun e => .part 0 e.bare) ++ [.token .closing])
  | .array _ es => .token .own :: (es.map (fun e => .part 0 e.bare) ++ [.token .own])
  | .object _ ps => .token .own :: (ps.map (fun e => .part 0 e.bare) ++ [.token .own])
  | .property _ _ e => [.token .own, .token .own, .part 0 e.bare]
  | .member _ e _ => [.part atomStrength e.bare, .token .own, .token .own]
  | .index _ e key => [.part atomStrength e.bare, .token .own, .part 0 key.bare, .token .own]
  | .pipe _ [] => []
  | .pipe _ (first :: more) =>
    .part (looseStrength + 1) first.bare :: more.flatMap fun e => [.token .own, .part 0 e.bare]
  | .function _ params body =>
    .token .opening :: (params.map (fun _ => .token .own) ++
      .token .closing :: .token .own :: .token .own ::
        (body.map (fun e => .part 0 e.bare) ++ [.token .own]))
  | .declaration _ _ _ e => [.token .own, .token .own, .token .own, .part 0 e.bare]
  | .statement _ e => [.part 0 e.bare]
  | .giveBack _ e => [.token .own, .part 0 e.bare]
  | .program _ _ => []
  | .literal _ _ _ | .identifier _ | .hole _ => [.token .own]

theorem slots_bare (e : Node) : slots e.bare = slots e := by
  cases e with
  | pipe _ stages =>
      cases stages <;>
        simp [slots, Node.bare, Node.bareAll, Node.bareAll_eq_map, List.flatMap_map]
  | _ => simp [slots, Node.bare, Node.bareAll_eq_map, Function.comp_def]

/-- The depth behind slots. -/
def behind : List Slot → Nat → Nat
  | [], d => d
  | .token w :: ss, d => behind ss (w.behind d)
  | .part _ _ :: ss, d => behind ss d

@[simp] theorem behind_append (ss tt : List Slot) (d : Nat) :
    behind (ss ++ tt) d = behind tt (behind ss d) := by
  induction ss generalizing d with
  | nil => rfl
  | cons s ss ih => cases s <;> exact ih _

/-- The slots have no parentheses among them. -/
def Flat (ss : List Slot) : Prop := ∀ w, .token w ∈ ss → w = .own

theorem Flat.tail {s : Slot} {ss : List Slot} (h : Flat (s :: ss)) : Flat ss :=
  fun w hw => h w (List.mem_cons_of_mem s hw)

theorem behind_of_flat {ss : List Slot} (h : Flat ss) (d : Nat) : behind ss d = d := by
  induction ss generalizing d with
  | nil => rfl
  | cons s ss ih =>
      cases s with
      | token w =>
          rw [h w List.mem_cons_self]
          exact ih h.tail d
      | part k e => exact ih h.tail d

/-- Behind a node the text is as deep as in front of it. -/
theorem behind_slots (e : Node) (d : Nat) : behind (slots e) d = d := by
  have hparts (es : List Node) (d : Nat) : behind (es.map fun e => .part 0 e.bare) d = d :=
    behind_of_flat (by simp [Flat]) d
  have hstages (es : List Node) (d : Nat) :
      behind (es.flatMap fun e => [.token .own, .part 0 e.bare]) d = d :=
    behind_of_flat (by simp [Flat]) d
  have hparams (params : List Ident) (d : Nat) :
      behind (params.map fun _ => .token .own) d = d :=
    behind_of_flat (by simp [Flat]) d
  cases e with
  | pipe _ stages => cases stages <;> simp [slots, behind, hstages]
  | function _ params body =>
      simp only [slots, behind, behind_append, hparams, hparts, Weight.behind, Nat.add_sub_cancel]
  | _ => simp [slots, behind, hparts, Weight.behind]

/-! ### Trees at their depths -/

mutual

/-- A tree whose own tokens lie `d` deep is written with tokens of these depths. -/
inductive Laid : Node → Nat → List Nat → Prop
  | mk {e : Node} {d : Nat} {ds : List Nat} : Filled (slots e) d ds → Laid e d ds

/-- Slots that start `d` deep are filled with tokens of these depths. A part lies as deep as its surroundings
or deeper, and deeper if it binds too loosely for its place. -/
inductive Filled : List Slot → Nat → List Nat → Prop
  | nil {d : Nat} : Filled [] d []
  | token {w : Weight} {ss : List Slot} {d : Nat} {ds : List Nat} :
      Filled ss (w.behind d) ds → Filled (.token w :: ss) d (w.noted d ++ ds)
  | part {k i : Nat} {e : Node} {ss : List Slot} {d : Nat} {xs ds : List Nat} :
      (wraps false k e = true → 1 ≤ i) → Laid e (d + i) xs → Filled ss d ds →
      Filled (.part k e :: ss) d (xs ++ ds)

end

/-- A tree in a place for expressions of some strength, with the parentheses it needs there and perhaps
others. -/
def Held (k : Nat) (e : Node) (d : Nat) (ds : List Nat) : Prop :=
  ∃ i, (wraps false k e = true → 1 ≤ i) ∧ Laid e (d + i) ds

section

variable {e e' x : Node} {k j d d' : Nat} {ss tt : List Slot} {ds xs ys : List Nat} {w : Weight}

theorem laid_iff : Laid e d ds ↔ Filled (slots e) d ds :=
  ⟨fun ⟨h⟩ => h, .mk⟩

/-- Marks say nothing of depths. -/
theorem Laid.of_bare_eq (h : Laid e d ds) (heq : e'.bare = e.bare) : Laid e' d ds := by
  rw [laid_iff, ← slots_bare, heq, slots_bare]
  exact laid_iff.1 h

theorem laid_bare : Laid e.bare d ds ↔ Laid e d ds :=
  ⟨fun h => h.of_bare_eq (Node.bare_bare e).symm, fun h => h.of_bare_eq (Node.bare_bare e)⟩

theorem filled_nil_iff : Filled [] d ds ↔ ds = [] :=
  ⟨fun h => by cases h; rfl, fun h => h ▸ .nil⟩

theorem filled_token_iff :
    Filled (.token w :: ss) d ds ↔ ∃ xs, ds = w.noted d ++ xs ∧ Filled ss (w.behind d) xs := by
  constructor
  · intro h
    cases h with
    | token h => exact ⟨_, rfl, h⟩
  · rintro ⟨xs, rfl, h⟩
    exact .token h

theorem filled_part_iff :
    Filled (.part k e :: ss) d ds ↔ ∃ xs ys, ds = xs ++ ys ∧ Held k e d xs ∧ Filled ss d ys := by
  constructor
  · intro h
    cases h with
    | part hi hx h => exact ⟨_, _, rfl, ⟨_, hi, hx⟩, h⟩
  · rintro ⟨xs, ys, rfl, ⟨i, hi, hx⟩, h⟩
    exact .part hi hx h

theorem filled_append :
    Filled (ss ++ tt) d ds ↔ ∃ xs ys, ds = xs ++ ys ∧ Filled ss d xs ∧ Filled tt (behind ss d) ys := by
  induction ss generalizing d ds with
  | nil =>
      constructor
      · exact fun h => ⟨[], ds, rfl, .nil, h⟩
      · rintro ⟨xs, ys, rfl, hxs, h⟩
        rw [filled_nil_iff.1 hxs]
        exact h
  | cons s ss ih =>
      cases s with
      | token w =>
          simp only [List.cons_append, filled_token_iff, ih, behind]
          constructor
          · rintro ⟨_, rfl, xs, ys, rfl, hxs, hys⟩
            exact ⟨_, ys, (List.append_assoc _ _ _).symm, ⟨xs, rfl, hxs⟩, hys⟩
          · rintro ⟨_, ys, rfl, ⟨xs, rfl, hxs⟩, hys⟩
            exact ⟨_, List.append_assoc _ _ _, xs, ys, rfl, hxs, hys⟩
      | part k e =>
          simp only [List.cons_append, filled_part_iff, ih, behind]
          constructor
          · rintro ⟨zs, _, rfl, hzs, xs, ys, rfl, hxs, hys⟩
            exact ⟨_, ys, (List.append_assoc _ _ _).symm, ⟨zs, xs, rfl, hzs, hxs⟩, hys⟩
          · rintro ⟨_, ys, rfl, ⟨zs, xs, rfl, hzs, hxs⟩, hys⟩
            exact ⟨zs, _, List.append_assoc _ _ _, hzs, xs, ys, rfl, hxs, hys⟩

/-! ### What the tree tells -/

theorem length_noted (w : Weight) (d d' : Nat) : (w.noted d).length = (w.noted d').length := by
  cases w <;> rfl

mutual

/-- The number of tokens does not depend on the depths. -/
theorem Laid.length_eq {e : Node} {d d' : Nat} {xs ys : List Nat} :
    Laid e d xs → Laid e d' ys → xs.length = ys.length
  | .mk h, .mk h' => h.length_eq h'

theorem Filled.length_eq {ss : List Slot} {d d' : Nat} {xs ys : List Nat} :
    Filled ss d xs → Filled ss d' ys → xs.length = ys.length
  | .nil, .nil => rfl
  | .token h, .token h' => by
      rw [List.length_append, List.length_append, h.length_eq h', length_noted]
  | .part _ hx h, .part _ hx' h' => by
      rw [List.length_append, List.length_append, hx.length_eq hx', h.length_eq h']

end

/-- Slots without parentheses and with a token start at one depth only. -/
theorem Filled.depth_eq (h : Filled ss d ds) (h' : Filled ss d' ds) (hflat : Flat ss)
    (hown : .token .own ∈ ss) : d = d' := by
  induction ss generalizing ds with
  | nil => cases hown
  | cons s ss ih =>
      cases s with
      | token w =>
          obtain rfl := hflat w List.mem_cons_self
          obtain ⟨xs, rfl, -⟩ := filled_token_iff.1 h
          obtain ⟨ys, heq, -⟩ := filled_token_iff.1 h'
          exact (List.cons.inj heq).1
      | part k e =>
          have hmem : .token .own ∈ ss := by simpa using hown
          obtain ⟨xs, ys, rfl, ⟨i, -, hx⟩, hrest⟩ := filled_part_iff.1 h
          obtain ⟨xs', ys', heq, ⟨i', -, hx'⟩, hrest'⟩ := filled_part_iff.1 h'
          obtain ⟨-, rfl⟩ := List.append_inj heq (hx.length_eq hx')
          exact ih hrest hrest' hflat.tail hmem

/-- In the middle of slots that are filled there are the depths of the part that stands there. -/
theorem Filled.middle (h : Filled (ss ++ .part k e :: tt) d (xs ++ (ds ++ ys)))
    {d₁ d₂ : Nat} {zs : List Nat} (hxs : Filled ss d₁ xs) (hds : zs.length = ds.length)
    (hzs : Laid e d₂ zs) :
    Filled ss d xs ∧ Held k e (behind ss d) ds ∧ Filled tt (behind ss d) ys := by
  obtain ⟨xs', _, hwhole, hxs', hrest⟩ := filled_append.1 h
  obtain ⟨ds', ys', rfl, ⟨i, hi, he⟩, hys'⟩ := filled_part_iff.1 hrest
  obtain ⟨rfl, hback⟩ := List.append_inj hwhole (hxs.length_eq hxs')
  obtain ⟨rfl, rfl⟩ := List.append_inj hback (hds.symm.trans (hzs.length_eq he))
  exact ⟨hxs', ⟨i, hi, he⟩, hys'⟩

/-- The node has tokens of its own, and all of them lie equally deep. -/
def Anchored (e : Node) : Prop := Flat (slots e) ∧ .token .own ∈ slots e

theorem Anchored.depth_eq (h : Anchored e) (hd : Laid e d ds) (hd' : Laid e d' ds) : d = d' :=
  (laid_iff.1 hd).depth_eq (laid_iff.1 hd') h.1 h.2

/-- A part that binds too loosely for its place does not lie as deep as the tokens around it. -/
theorem not_laid_of_wraps (hslots : slots e = ss ++ .part k x :: tt) (he : Anchored e) (hx : Anchored x)
    (hwraps : wraps false k x = true) (hxs : Filled ss d xs) (hds : Laid x d ds) (hys : Filled tt d ys)
    (d' : Nat) : ¬ Laid e d' (xs ++ (ds ++ ys)) := by
  intro h
  obtain ⟨hflat, hown⟩ := he
  rw [hslots] at hflat hown
  rw [laid_iff, hslots] at h
  have hss : Flat ss := fun w hw => hflat w (List.mem_append_left _ hw)
  have htt : Flat tt := fun w hw => hflat w (List.mem_append_right _ (List.mem_cons_of_mem _ hw))
  obtain ⟨hxs', ⟨i, hi, hlaid⟩, hys'⟩ := h.middle hxs rfl hds
  rw [behind_of_flat hss] at hlaid hys'
  have hd : d = d' := by
    have hmem : .token .own ∈ ss ∨ .token .own ∈ tt := by simpa using hown
    rcases hmem with hmem | hmem
    · exact hxs.depth_eq hxs' hss hmem
    · exact hys.depth_eq hys' htt hmem
  have hdeeper : d = d' + i := hx.depth_eq hds hlaid
  have hi := hi hwraps
  omega

/-- Slots are not filled with depths that a part among them cannot have. -/
theorem not_filled_of_part {zs : List Nat} {d₁ d₂ : Nat} (hds : ∀ d, ¬ Laid x d ds)
    (hlength : zs.length = ds.length) (hzs : Laid x d₁ zs) (hxs : Filled ss d₂ xs) (d : Nat) :
    ¬ Filled (ss ++ .part k x :: tt) d (xs ++ (ds ++ ys)) := by
  intro h
  obtain ⟨-, ⟨i, -, hlaid⟩, -⟩ := h.middle hxs hlength hzs
  exact hds _ hlaid

end

/-! ### Texts of trees -/

/-- The tokens up to some rest fill the slots, however deep they start. -/
def Fills (ss : List Slot) (ks rest : List TokenKind) : Prop :=
  ∀ d, ∃ ds, Filled ss d ds ∧ depths d ks = ds ++ depths (behind ss d) rest

/-- The tokens up to some rest are those of a tree in a place for expressions of some strength. -/
def Holds (k : Nat) (e : Node) (ks rest : List TokenKind) : Prop :=
  ∀ d, ∃ ds, Held k e d ds ∧ depths d ks = ds ++ depths d rest

section

variable {e e' : Node} {j k : Nat} {ss tt : List Slot} {ks ls rest : List TokenKind}
  {kind kind' : TokenKind} {w : Weight}

theorem fills_nil : Fills [] ks ks := fun _ => ⟨[], .nil, rfl⟩

theorem Fills.token (h : Fills ss ks rest) (hkind : kind = kind') (hw : weigh kind' = w) :
    Fills (.token w :: ss) (kind :: ks) rest := by
  intro d
  obtain ⟨ds, hds, heq⟩ := h (w.behind d)
  refine ⟨_, .token hds, ?_⟩
  rw [depths, hkind, hw, heq, List.append_assoc]
  rfl

/-- Commas fill no slot. -/
theorem Fills.skip (h : Fills ss ks rest) (hkind : kind = kind') (hw : weigh kind' = .nothing) :
    Fills ss (kind :: ks) rest := by
  intro d
  obtain ⟨ds, hds, heq⟩ := h d
  refine ⟨ds, hds, ?_⟩
  rw [depths, hkind, hw]
  exact heq

theorem Fills.part (h : Fills ss ls rest) (hheld : Holds k e ks ls) :
    Fills (.part k e.bare :: ss) ks rest := by
  intro d
  obtain ⟨xs, ⟨i, hi, hx⟩, hfirst⟩ := hheld d
  obtain ⟨ds, hds, hmore⟩ := h d
  refine ⟨xs ++ ds, .part (by simpa using hi) (laid_bare.2 hx) hds, ?_⟩
  rw [hfirst, hmore, List.append_assoc]
  rfl

theorem Fills.append (h : Fills ss ks ls) (h' : Fills tt ls rest) : Fills (ss ++ tt) ks rest := by
  intro d
  obtain ⟨xs, hxs, hfirst⟩ := h d
  obtain ⟨ys, hys, hmore⟩ := h' (behind ss d)
  refine ⟨xs ++ ys, filled_append.2 ⟨xs, ys, rfl, hxs, hys⟩, ?_⟩
  rw [hfirst, hmore, behind_append, List.append_assoc]

/-- The tokens of a tree by itself are those of it in any place where it needs no parentheses. -/
theorem holds_of_fills (hk : wraps false k e = false) (h : Fills (slots e) ks rest) :
    Holds k e ks rest := by
  intro d
  obtain ⟨ds, hds, heq⟩ := h d
  refine ⟨ds, ⟨0, by simp [hk], .mk hds⟩, ?_⟩
  rw [heq, behind_slots]

theorem Holds.mono (h : Holds k e ks rest) (hjk : j ≤ k) : Holds j e ks rest := by
  intro d
  obtain ⟨ds, ⟨i, hi, hx⟩, heq⟩ := h d
  have hmono : (wraps false j e).toNat ≤ (wraps false k e).toNat := wraps_mono hjk e
  refine ⟨ds, ⟨i, fun hj => hi ?_, hx⟩, heq⟩
  cases hk : wraps false k e with
  | true => rfl
  | false => simp [hj, hk] at hmono

/-- With parentheses around it a tree can stand anywhere. -/
theorem Holds.parens (h : Holds j e ks (.symbol .rparen :: rest)) (k : Nat) :
    Holds k e (.symbol .lparen :: ks) rest := by
  intro d
  obtain ⟨ds, ⟨i, -, hx⟩, heq⟩ := h (d + 1)
  refine ⟨ds, ⟨i + 1, fun _ => Nat.le_add_left 1 i, ?_⟩, heq⟩
  rwa [Nat.add_right_comm, Nat.add_assoc d] at hx

theorem Holds.of_bare_eq (h : Holds k e ks rest) (heq : e'.bare = e.bare) : Holds k e' ks rest := by
  intro d
  obtain ⟨ds, ⟨i, hi, hx⟩, hdepths⟩ := h d
  refine ⟨ds, ⟨i, fun hwraps => hi ?_, hx.of_bare_eq heq⟩, hdepths⟩
  rwa [← wraps_bare, ← heq, wraps_bare]

end

end PartScript.Printer
