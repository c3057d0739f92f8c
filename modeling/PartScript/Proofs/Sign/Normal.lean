import PartScript.Proofs.Edit.Placement
import PartScript.Proofs.Node.Excerpt
import PartScript.Proofs.Number.Sign
import PartScript.Proofs.Number.Spelling

/-!
Signs in normal form. One pass from the inside to the outside leaves nothing to simplify, so that a second one
changes nothing. Chains of minus signs get shorter, and negative literals below them become positive, but each
chain turns what is below it around as often as before, the sign of a literal counted in.
-/

namespace PartScript

/-! ### What holds everywhere in a tree -/

namespace Node

/-- What holds of every node of a tree. -/
def Everywhere (p : Node → Prop) (n : Node) : Prop := ∀ m ∈ n.walk, p m

variable {p : Node → Prop}

instance [DecidablePred p] {n : Node} : Decidable (n.Everywhere p) :=
  inferInstanceAs (Decidable (∀ m ∈ n.walk, p m))

theorem everywhere_iff {n : Node} : n.Everywhere p ↔ p n ∧ ∀ c ∈ n.children, c.Everywhere p := by
  simp only [Everywhere, walk_eq_cons n, List.forall_mem_cons, List.forall_mem_flatMap]

theorem Everywhere.children {n : Node} (h : n.Everywhere p) : ∀ c ∈ n.children, c.Everywhere p :=
  (everywhere_iff.1 h).2

/-- What does not look at paths holds everywhere after new paths are given. -/
theorem Everywhere.place {n : Node} (h : n.Everywhere p) (hp : ∀ m path, p m → p (m.place path))
    (path : List Nat) : (n.place path).Everywhere p := by
  intro m hm
  obtain ⟨k, hk, below, rfl⟩ := exists_of_mem_walk_place hm
  exact hp k below (h k hk)

end Node

/-! ### Normal form -/

namespace Node

/-- A minus directly under a minus. -/
def isDoubleMinus : Node → Bool
  | unary _ .minus (unary _ .minus _) => true
  | _ => false

/-- A minus directly over a negative literal. -/
def isMinusOverNegative : Node → Bool
  | unary _ .minus (literal _ (.number v) _) => v.isNegative
  | _ => false

/-- The node is not a literal for a number that is not finite. -/
def isFinite : Node → Bool
  | literal _ (.number v) _ => v.isFinite
  | _ => true

/-- Every number in a tree is finite. -/
abbrev FiniteNumbers (n : Node) : Prop := n.Everywhere (·.isFinite = true)

end Node

namespace Edit

variable {rules : NegationRules} {n : Node}

/-- There is nothing to simplify at the root of a tree. -/
structure NegationRules.Settled (rules : NegationRules) (n : Node) : Prop where
  collapsed : rules.collapse = true → n.isDoubleMinus = false
  folded : rules.fold = true → n.isMinusOverNegative = false

/-- There is nothing to simplify in a tree. -/
abbrev NegationRules.Normal (rules : NegationRules) (n : Node) : Prop := n.Everywhere rules.Settled

/-! ### Simplification at the root -/

theorem isDoubleMinus_collapse (n : Node) : (collapse n).isDoubleMinus = false := by
  fun_induction collapse n with
  | case1 _ _ e ih => exact ih
  | case2 n h =>
      unfold Node.isDoubleMinus
      split
      · exact (h _ _ _ rfl).elim
      · rfl

theorem collapse_eq (h : n.isDoubleMinus = false) : collapse n = n := by
  unfold collapse
  split
  · cases h
  · rfl

theorem isDoubleMinus_fold (h : n.isDoubleMinus = false) : (fold n).isDoubleMinus = false := by
  unfold fold
  split
  · split <;> rfl
  · exact h

theorem isMinusOverNegative_fold (n : Node) : (fold n).isMinusOverNegative = false := by
  unfold fold
  split
  · split
    · rfl
    · exact eq_false_of_ne_true ‹_›
  · rename_i h
    unfold Node.isMinusOverNegative
    split
    · exact (h _ _ _ _ rfl).elim
    · rfl

theorem fold_eq (h : n.isMinusOverNegative = false) : fold n = n := by
  unfold fold
  split
  · exact if_neg (Bool.eq_false_iff.1 h)
  · rfl

/-- Nothing is left to simplify at the root. -/
theorem settled_simplify (rules : NegationRules) (n : Node) : rules.Settled (simplify rules n) := by
  refine ⟨fun hcollapse => ?_, fun hfold => ?_⟩
  · simp only [simplify, hcollapse, if_true]
    split
    · exact isDoubleMinus_fold (isDoubleMinus_collapse n)
    · exact isDoubleMinus_collapse n
  · simp only [simplify, hfold, if_true]
    exact isMinusOverNegative_fold _

theorem simplify_eq (h : rules.Settled n) : simplify rules n = n := by
  have hcollapse : (if rules.collapse = true then collapse n else n) = n := by
    split
    · exact collapse_eq (h.collapsed ‹_›)
    · rfl
  rw [simplify, hcollapse]
  split
  · exact fold_eq (h.folded ‹_›)
  · rfl

theorem everywhere_collapse {p : Node → Prop} (h : ∀ c ∈ n.children, c.Everywhere p) :
    ∀ c ∈ (collapse n).children, c.Everywhere p := by
  fun_induction collapse n with
  | case1 _ _ e ih =>
      have he := (h _ List.mem_cons_self).children
      exact ih (he e List.mem_cons_self).children
  | case2 n _ => exact h

theorem everywhere_fold {p : Node → Prop} (h : ∀ c ∈ n.children, c.Everywhere p) :
    ∀ c ∈ (fold n).children, c.Everywhere p := by
  unfold fold
  split
  · split
    · exact fun c hc => absurd hc List.not_mem_nil
    · exact h
  · exact h

/-- What dropping pairs and folding keep is kept by simplification. -/
theorem simplify_induction {motive : Node → Prop} (hcollapse : ∀ k, motive k → motive (collapse k))
    (hfold : ∀ k, motive k → motive (fold k)) (h : motive n) : motive (simplify rules n) := by
  have hcollapsed : motive (if rules.collapse = true then collapse n else n) := by
    split
    · exact hcollapse n h
    · exact h
  unfold simplify
  dsimp only
  split
  · exact hfold _ hcollapsed
  · exact hcollapsed

/-- What is below the root after simplification was below it before. -/
theorem everywhere_simplify {p : Node → Prop} (h : ∀ c ∈ n.children, c.Everywhere p) :
    ∀ c ∈ (simplify rules n).children, c.Everywhere p :=
  simplify_induction (motive := fun k => ∀ c ∈ k.children, c.Everywhere p)
    (fun _ => everywhere_collapse) (fun _ => everywhere_fold) h

theorem finiteNumbers_collapse (h : n.FiniteNumbers) : (collapse n).FiniteNumbers := by
  fun_induction collapse n with
  | case1 _ _ e ih =>
      have he := h.children _ List.mem_cons_self
      exact ih (he.children e List.mem_cons_self)
  | case2 n _ => exact h

theorem finiteNumbers_fold (h : n.FiniteNumbers) : (fold n).FiniteNumbers := by
  unfold fold
  split
  · split
    · have hv := h.children _ List.mem_cons_self _ (Node.mem_walk _)
      exact Node.everywhere_iff.2 ⟨Number.isFinite_neg hv, fun c hc => absurd hc List.not_mem_nil⟩
    · exact h
  · exact h

/-- Simplification makes no infinite number. -/
theorem finiteNumbers_simplify (h : n.FiniteNumbers) : (simplify rules n).FiniteNumbers :=
  simplify_induction (motive := (·.FiniteNumbers)) (fun _ => finiteNumbers_collapse)
    (fun _ => finiteNumbers_fold) h

/-! ### One pass -/

/-- A tree is simplified by simplifying its children first and then the root. -/
theorem exists_simplifyAll_eq (rules : NegationRules) (n : Node) :
    ∃ k, simplifyAll rules n = simplify rules k ∧ k.children = n.children.map (simplifyAll rules) ∧
      k.isFinite = n.isFinite := by
  have hrow (ns : List Node) : simplifyEach rules ns = ns.map (simplifyAll rules) := by
    induction ns with
    | nil => rfl
    | cons n ns ih => rw [simplifyEach, ih, List.map_cons]
  have hroot {n k : Node} (hsame : simplifyAll rules n = k) (hsettled : rules.Settled k)
      (hchildren : k.children = n.children.map (simplifyAll rules)) (hfinite : k.isFinite = n.isFinite) :
      ∃ k, simplifyAll rules n = simplify rules k ∧ k.children = n.children.map (simplifyAll rules) ∧
        k.isFinite = n.isFinite :=
    ⟨k, by rw [hsame, simplify_eq hsettled], hchildren, hfinite⟩
  have hplain {n : Node} (hdouble : n.isDoubleMinus = false) (hminus : n.isMinusOverNegative = false) :
      rules.Settled n := ⟨fun _ => hdouble, fun _ => hminus⟩
  cases n with
  | unary m op e => exact ⟨.unary m op (simplifyAll rules e), rfl, rfl, rfl⟩
  | function m params body =>
      refine hroot rfl (hplain rfl rfl) ?_ rfl
      simp [Node.children, hrow, simplifyAll, Function.comp_def]
  | _ => exact hroot rfl (hplain rfl rfl) (by simp [Node.children, hrow, simplifyAll]) rfl

/-- One pass leaves nothing to simplify. -/
theorem normal_simplifyAll (rules : NegationRules) (n : Node) : rules.Normal (simplifyAll rules n) := by
  obtain ⟨k, hroot, hchildren, -⟩ := exists_simplifyAll_eq rules n
  rw [hroot]
  refine Node.everywhere_iff.2 ⟨settled_simplify rules k, everywhere_simplify ?_⟩
  rw [hchildren, List.forall_mem_map]
  intro c hc
  have hlt := Node.length_walk_lt hc
  exact normal_simplifyAll rules c
termination_by n.walk.length

mutual

/-- A pass changes nothing where there is nothing to simplify. -/
theorem simplifyAll_eq (rules : NegationRules) : (n : Node) → rules.Normal n → simplifyAll rules n = n
  | .literal _ _ _, _ | .identifier _, _ | .hole _, _ => rfl
  | .declaration _ _ _ e, h | .property _ _ e, h => by
      rw [simplifyAll, simplifyAll_eq rules e (h.children e (by simp [Node.children]))]
  | .statement _ e, h | .giveBack _ e, h | .member _ e _, h => by
      rw [simplifyAll, simplifyAll_eq rules e (h.children e List.mem_cons_self)]
  | .unary m op e, h => by
      rw [simplifyAll, simplifyAll_eq rules e (h.children e List.mem_cons_self)]
      exact simplify_eq (h _ (Node.mem_walk _))
  | .binary _ _ l r, h | .index _ l r, h => by
      rw [simplifyAll, simplifyAll_eq rules l (h.children l (by simp [Node.children])),
        simplifyAll_eq rules r (h.children r (by simp [Node.children]))]
  | .program _ ns, h | .array _ ns, h | .object _ ns, h | .pipe _ ns, h => by
      rw [simplifyAll, simplifyEach_eq rules ns h.children]
  | .call _ _ ns, h => by
      rw [simplifyAll, simplifyEach_eq rules ns fun c hc => h.children c (List.mem_cons_of_mem _ hc)]
  | .function _ _ ns, h => by
      rw [simplifyAll, simplifyEach_eq rules ns fun c hc => h.children c (List.mem_append_right _ hc)]

theorem simplifyEach_eq (rules : NegationRules) : (ns : List Node) → (∀ n ∈ ns, rules.Normal n) →
    simplifyEach rules ns = ns
  | [], _ => rfl
  | n :: rest, h => by
      rw [simplifyEach, simplifyAll_eq rules n (h n List.mem_cons_self),
        simplifyEach_eq rules rest fun c hc => h c (List.mem_cons_of_mem n hc)]

end

/-- A pass makes no infinite number. -/
theorem finiteNumbers_simplifyAll (rules : NegationRules) (n : Node) (h : n.FiniteNumbers) :
    (simplifyAll rules n).FiniteNumbers := by
  obtain ⟨k, hroot, hchildren, hfinite⟩ := exists_simplifyAll_eq rules n
  rw [hroot]
  refine finiteNumbers_simplify (Node.everywhere_iff.2 ⟨hfinite.trans (h n n.mem_walk), ?_⟩)
  rw [hchildren, List.forall_mem_map]
  intro c hc
  have hlt := Node.length_walk_lt hc
  exact finiteNumbers_simplifyAll rules c (h.children c hc)
termination_by n.walk.length

end Edit

/-! ### What the signs say -/

/-- Data as it stands in a literal without a sign. The text of a number goes as well. -/
def Plain.unsigned (raw : String) : Plain → Node
  | .number v => .literal .blank (.number v.abs) ""
  | item => .literal .blank item raw

/-- Data that is a number below zero. -/
def Plain.isNegative : Plain → Bool
  | .number v => v.isNegative
  | _ => false

namespace Node

mutual

/-- A tree without minus signs and without marks. Numbers have their absolute value. -/
def unsigned : Node → Node
  | program _ body => program .blank (unsignedAll body)
  | declaration _ word name init => declaration .blank word name.bare (unsigned init)
  | statement _ e => statement .blank (unsigned e)
  | giveBack _ e => giveBack .blank (unsigned e)
  | literal _ value raw => value.unsigned raw
  | identifier i => identifier i.bare
  | binary _ op l r => binary .blank op (unsigned l) (unsigned r)
  | unary _ op e => if op = .minus then unsigned e else unary .blank op (unsigned e)
  | call _ callee args => call .blank callee.bare (unsignedAll args)
  | array _ es => array .blank (unsignedAll es)
  | object _ ps => object .blank (unsignedAll ps)
  | property _ key e => property .blank key.bare (unsigned e)
  | member _ e label => member .blank (unsigned e) label.bare
  | index _ e key => index .blank (unsigned e) (unsigned key)
  | pipe _ stages => pipe .blank (unsignedAll stages)
  | hole _ => hole .blank
  | function _ params body => function .blank (params.map Ident.bare) (unsignedAll body)

/-- Trees in a row without minus signs and without marks. -/
def unsignedAll : List Node → List Node
  | [] => []
  | n :: rest => unsigned n :: unsignedAll rest

end

mutual

/-- The signs of everything in a tree but the minus signs and names, in the order of the source: whether the
minus signs directly above turn it around, and for a number whether it is below zero then. The flag says
whether the signs above the tree turn it around. -/
def signs (flipped : Bool) : Node → List Bool
  | program _ body => flipped :: signsAll body
  | declaration _ _ _ e | statement _ e | giveBack _ e | property _ _ e | member _ e _ =>
    flipped :: signs false e
  | literal _ value _ => [flipped != value.isNegative]
  | identifier _ | hole _ => [flipped]
  | binary _ _ l r | index _ l r => flipped :: (signs false l ++ signs false r)
  | unary _ op e => if op = .minus then signs (!flipped) e else flipped :: signs false e
  | call _ _ ns | array _ ns | object _ ns | pipe _ ns | function _ _ ns => flipped :: signsAll ns

/-- The signs of everything in trees in a row. -/
def signsAll : List Node → List Bool
  | [] => []
  | n :: rest => signs false n ++ signsAll rest

end

/-- Two trees are the same but for minus signs and the signs of numbers, and all signs together say the
same. -/
structure SameSigned (n k : Node) : Prop where
  unsigned : n.unsigned = k.unsigned
  signs (flipped : Bool) : n.signs flipped = k.signs flipped

theorem SameSigned.trans {n k l : Node} (h : n.SameSigned k) (h' : k.SameSigned l) : n.SameSigned l :=
  ⟨h.unsigned.trans h'.unsigned, fun flipped => (h.signs flipped).trans (h'.signs flipped)⟩

end Node

namespace Edit

variable {rules : NegationRules} {n : Node}

theorem sameSigned_collapse (n : Node) : (collapse n).SameSigned n := by
  fun_induction collapse n with
  | case1 _ _ e ih =>
      refine ⟨ih.unsigned, fun flipped => ?_⟩
      simp only [ih.signs, Node.signs, if_true, Bool.not_not]
  | case2 n _ => exact ⟨rfl, fun _ => rfl⟩

theorem sameSigned_fold (h : n.FiniteNumbers) : (fold n).SameSigned n := by
  unfold fold
  split
  · split
    · rename_i m m' v raw hnegative
      have hfinite : v.isFinite = true := h.children _ List.mem_cons_self _ (Node.mem_walk _)
      have hpositive := (Number.positive_neg hfinite hnegative).not_negative
      refine ⟨?_, fun flipped => ?_⟩
      · simp [Node.unsigned, Plain.unsigned, Number.abs_neg]
      · simp [Node.signs, Plain.isNegative, hpositive, hnegative]
    · exact ⟨rfl, fun _ => rfl⟩
  · exact ⟨rfl, fun _ => rfl⟩

theorem sameSigned_simplify (rules : NegationRules) (h : n.FiniteNumbers) :
    (simplify rules n).SameSigned n := by
  have hboth : (simplify rules n).FiniteNumbers ∧ (simplify rules n).SameSigned n :=
    simplify_induction (motive := fun k => k.FiniteNumbers ∧ k.SameSigned n)
      (fun k hk => ⟨finiteNumbers_collapse hk.1, (sameSigned_collapse k).trans hk.2⟩)
      (fun k hk => ⟨finiteNumbers_fold hk.1, (sameSigned_fold hk.1).trans hk.2⟩) ⟨h, rfl, fun _ => rfl⟩
  exact hboth.2

mutual

/-- A pass keeps everything but signs, and keeps what they say together. -/
theorem sameSigned_simplifyAll (rules : NegationRules) : (n : Node) → n.FiniteNumbers →
    (simplifyAll rules n).SameSigned n
  | .literal _ _ _, _ | .identifier _, _ | .hole _, _ => ⟨rfl, fun _ => rfl⟩
  | .declaration _ _ _ e, h | .property _ _ e, h | .statement _ e, h | .giveBack _ e, h
  | .member _ e _, h => by
      have he := sameSigned_simplifyAll rules e (h.children e (by simp [Node.children]))
      exact ⟨by simp only [simplifyAll, Node.unsigned, he.unsigned],
        fun _ => by simp only [simplifyAll, Node.signs, he.signs]⟩
  | .unary m op e, h => by
      have he := sameSigned_simplifyAll rules e (h.children e List.mem_cons_self)
      have hfinite := finiteNumbers_simplifyAll rules e (h.children e List.mem_cons_self)
      have hroot : (Node.unary m op (simplifyAll rules e)).FiniteNumbers :=
        Node.everywhere_iff.2 ⟨rfl, List.forall_mem_singleton.2 hfinite⟩
      exact (sameSigned_simplify rules hroot).trans
        ⟨by simp only [Node.unsigned, he.unsigned], fun _ => by simp only [Node.signs, he.signs]⟩
  | .binary _ _ l r, h | .index _ l r, h => by
      have hl := sameSigned_simplifyAll rules l (h.children l (by simp [Node.children]))
      have hr := sameSigned_simplifyAll rules r (h.children r (by simp [Node.children]))
      exact ⟨by simp only [simplifyAll, Node.unsigned, hl.unsigned, hr.unsigned],
        fun _ => by simp only [simplifyAll, Node.signs, hl.signs, hr.signs]⟩
  | .program _ ns, h | .array _ ns, h | .object _ ns, h | .pipe _ ns, h | .call _ _ ns, h
  | .function _ _ ns, h => by
      obtain ⟨hunsigned, hsigns⟩ := sameSigned_simplifyEach rules ns fun c hc =>
        h.children c (by simp [Node.children, hc])
      exact ⟨by simp only [simplifyAll, Node.unsigned, hunsigned],
        fun _ => by simp only [simplifyAll, Node.signs, hsigns]⟩

theorem sameSigned_simplifyEach (rules : NegationRules) : (ns : List Node) →
    (∀ n ∈ ns, n.FiniteNumbers) →
    Node.unsignedAll (simplifyEach rules ns) = Node.unsignedAll ns ∧
      Node.signsAll (simplifyEach rules ns) = Node.signsAll ns
  | [], _ => ⟨rfl, rfl⟩
  | n :: rest, h => by
      have hn := sameSigned_simplifyAll rules n (h n List.mem_cons_self)
      obtain ⟨hunsigned, hsigns⟩ :=
        sameSigned_simplifyEach rules rest fun c hc => h c (List.mem_cons_of_mem n hc)
      exact ⟨by simp only [simplifyEach, Node.unsignedAll, hn.unsigned, hunsigned],
        by simp only [simplifyEach, Node.signsAll, hn.signs, hsigns]⟩

end

/-! ### Places -/

theorem placedExpression_collapse (n : Node) : placedExpression (collapse n) = placedExpression n := by
  fun_induction collapse n with
  | case1 _ _ e ih => exact ih
  | case2 n _ => rfl

theorem placedExpression_fold (n : Node) : placedExpression (fold n) = placedExpression n := by
  unfold fold
  split
  · split <;> rfl
  · rfl

theorem placedExpression_simplify (rules : NegationRules) (n : Node) :
    placedExpression (simplify rules n) = placedExpression n :=
  simplify_induction (motive := fun k => placedExpression k = placedExpression n)
    (fun k hk => (placedExpression_collapse k).trans hk) (fun k hk => (placedExpression_fold k).trans hk) rfl

mutual

/-- A pass leaves everything in place. -/
theorem placedExpression_simplifyAll (rules : NegationRules) : (n : Node) → placedExpression n = .ok () →
    placedExpression (simplifyAll rules n) = .ok ()
  | .literal _ _ _, _ | .identifier _, _ | .hole _, _ => rfl
  | .binary _ _ l r, h => by
      obtain ⟨_, hl, hr⟩ := bind_eq_ok h
      rw [simplifyAll, placedExpression, placedExpression_simplifyAll rules l hl]
      exact placedExpression_simplifyAll rules r hr
  | .index _ e key, h => by
      obtain ⟨_, hkey, he⟩ := bind_eq_ok h
      rw [simplifyAll, placedExpression, placedExpression_simplifyAll rules key hkey]
      exact placedExpression_simplifyAll rules e he
  | .unary m op e, h => by
      rw [simplifyAll, placedExpression_simplify]
      exact placedExpression_simplifyAll rules e h
  | .member _ e _, h => placedExpression_simplifyAll rules e h
  | .call _ _ ns, h | .array _ ns, h | .pipe _ ns, h => placedExpressions_simplifyEach rules ns h
  | .object _ ps, h => placedProperties_simplifyEach rules ps h
  | .function _ _ body, h => placedStatements_simplifyEach rules body h

theorem placedExpressions_simplifyEach (rules : NegationRules) : (ns : List Node) →
    placedExpressions ns = .ok () → placedExpressions (simplifyEach rules ns) = .ok ()
  | [], _ => rfl
  | n :: rest, h => by
      obtain ⟨_, hn, hrest⟩ := bind_eq_ok h
      rw [simplifyEach, placedExpressions, placedExpression_simplifyAll rules n hn]
      exact placedExpressions_simplifyEach rules rest hrest

theorem placedProperties_simplifyEach (rules : NegationRules) : (ps : List Node) →
    placedProperties ps = .ok () → placedProperties (simplifyEach rules ps) = .ok ()
  | [], _ => rfl
  | .property _ _ e :: rest, h => by
      obtain ⟨_, he, hrest⟩ := bind_eq_ok h
      rw [simplifyEach, simplifyAll, placedProperties, placedExpression_simplifyAll rules e he]
      exact placedProperties_simplifyEach rules rest hrest

theorem placedStatement_simplifyAll (rules : NegationRules) : (n : Node) → placedStatement n = .ok () →
    placedStatement (simplifyAll rules n) = .ok ()
  | .declaration _ _ _ e, h | .statement _ e, h | .giveBack _ e, h => placedExpression_simplifyAll rules e h

theorem placedStatements_simplifyEach (rules : NegationRules) : (ns : List Node) →
    placedStatements ns = .ok () → placedStatements (simplifyEach rules ns) = .ok ()
  | [], _ => rfl
  | n :: rest, h => by
      obtain ⟨_, hn, hrest⟩ := bind_eq_ok h
      rw [simplifyEach, placedStatements, placedStatement_simplifyAll rules n hn]
      exact placedStatements_simplifyEach rules rest hrest

end

end Edit

/-! ### New paths -/

namespace Node

theorem isDoubleMinus_place (path : List Nat) (n : Node) :
    (n.place path).isDoubleMinus = n.isDoubleMinus := by
  cases n with
  | unary m op e =>
      cases e with
      | unary m' op' e => cases op <;> cases op' <;> rfl
      | _ => cases op <;> rfl
  | _ => rfl

theorem isMinusOverNegative_place (path : List Nat) (n : Node) :
    (n.place path).isMinusOverNegative = n.isMinusOverNegative := by
  cases n with
  | unary m op e =>
      cases e with
      | literal m' value raw => cases op <;> cases value <;> rfl
      | _ => cases op <;> rfl
  | _ => rfl

theorem normal_place {rules : Edit.NegationRules} {n : Node} (h : rules.Normal n) (path : List Nat) :
    rules.Normal (n.place path) :=
  h.place (fun m below hm =>
    ⟨fun hcollapse => (isDoubleMinus_place below m).trans (hm.collapsed hcollapse),
      fun hfold => (isMinusOverNegative_place below m).trans (hm.folded hfold)⟩) path

mutual

theorem sameSigned_place (path : List Nat) : (n : Node) → (n.place path).SameSigned n
  | .literal _ _ _ | .identifier _ | .hole _ => ⟨rfl, fun _ => rfl⟩
  | .declaration _ _ _ e | .property _ _ e | .statement _ e | .giveBack _ e | .member _ e _ | .unary _ _ e =>
      have he (below : List Nat) := sameSigned_place below e
      ⟨by simp only [place, unsigned, bare_placeIdent, (he _).unsigned],
        fun _ => by simp only [place, signs, (he _).signs]⟩
  | .binary _ _ l r | .index _ l r =>
      have hl (below : List Nat) := sameSigned_place below l
      have hr (below : List Nat) := sameSigned_place below r
      ⟨by simp only [place, unsigned, (hl _).unsigned, (hr _).unsigned],
        fun _ => by simp only [place, signs, (hl _).signs, (hr _).signs]⟩
  | .program _ ns | .array _ ns | .object _ ns | .pipe _ ns | .call _ _ ns | .function _ _ ns =>
      have hrow (k : Nat) := sameSigned_placeAll path k ns
      ⟨by simp only [place, unsigned, bare_placeIdent, map_bare_placeIdents, (hrow _).1],
        fun _ => by simp only [place, signs, (hrow _).2]⟩

theorem sameSigned_placeAll (path : List Nat) (k : Nat) : (ns : List Node) →
    unsignedAll (placeAll path k ns) = unsignedAll ns ∧ signsAll (placeAll path k ns) = signsAll ns
  | [] => ⟨rfl, rfl⟩
  | n :: rest =>
      have hn := sameSigned_place (path ++ [k]) n
      have hrest := sameSigned_placeAll path (k + 1) rest
      ⟨by simp only [placeAll, unsignedAll, hn.unsigned, hrest.1],
        by simp only [placeAll, signsAll, hn.signs, hrest.2]⟩

end

end Node

/-! ### Scripts -/

namespace Edit

/-- Signs are in normal form after one pass. Let everything in a tree be in place, and let its numbers be
finite, of any sign. Its signs can be simplified by any rules. Then nowhere in the result, as far as the rules
say, is a minus directly under a minus or directly over a negative literal, and simplifying once more gives the
result again, with all spans and paths. Without minus signs and with absolute values for its numbers the tree
is the same as before, and the chain of minus signs above anything in it says the same, together with the sign
of the number below it. Simplifying the root of any expression for the sign one changes nothing the second
time. -/
theorem normalize_normal_form (rules : NegationRules) :
    (∀ script, placed script = .ok () → script.FiniteNumbers →
      ∃ simpler, normalize rules script = .ok simpler ∧
        (∀ n ∈ simpler.walk, (rules.collapse = true → n.isDoubleMinus = false) ∧
          (rules.fold = true → n.isMinusOverNegative = false)) ∧
        normalize rules simpler = .ok simpler ∧
        simpler.unsigned = script.unsigned ∧ simpler.signs false = script.signs false) ∧
      ∀ e, ∃ simpler, withSign rules (.number (.int 1)) none e = .ok simpler ∧
        withSign rules (.number (.int 1)) none simpler = .ok simpler := by
  refine ⟨fun script hplaced hfinite => ?_, fun e => ⟨simplify rules e, rfl, ?_⟩⟩
  · have hnormal := Node.normal_place (normal_simplifyAll rules script) []
    have hsame := (Node.sameSigned_place [] _).trans (sameSigned_simplifyAll rules script hfinite)
    have hfixed : simplifyAll rules (simplifyAll rules script).withPaths =
        (simplifyAll rules script).withPaths := simplifyAll_eq rules _ hnormal
    have hplaced' : placed (simplifyAll rules script).withPaths = .ok () := by
      cases script with
      | program m body =>
          exact (placedStatements_placeAll [] 0 _).trans (placedStatements_simplifyEach rules body hplaced)
      | _ => cases hplaced
    refine ⟨(simplifyAll rules script).withPaths, ?_, fun n hn => ?_, ?_, hsame.unsigned, hsame.signs false⟩
    · rw [normalize, apply, hplaced]
      rfl
    · exact ⟨(hnormal n hn).collapsed, (hnormal n hn).folded⟩
    · rw [normalize, apply, hplaced', hfixed]
      exact congrArg Except.ok (Node.place_place [] [] _)
  · exact congrArg Except.ok (simplify_eq (settled_simplify rules e))

/-- The signs of a tree made by hand. Two minus signs stand over a negative literal, three over a name, and
one over another negative literal. -/
theorem normalize_normal_form_chains :
    ∃ script simpler, script =
        Node.program .blank [.declaration .blank .constWord ⟨.blank, "x"⟩
          (.unary .blank .minus (.unary .blank .minus (.literal .blank (.number (.int (-5))) "-5"))),
          .statement .blank (.binary .blank .sub
            (.unary .blank .minus (.unary .blank .minus (.unary .blank .minus (.identifier ⟨.blank, "x"⟩))))
            (.unary .blank .minus (.literal .blank (.number (.int (-7))) "-7")))] ∧
      placed script = .ok () ∧ script.FiniteNumbers ∧ normalize .all script = .ok simpler ∧
      simpler.print .standard = .ok "const x = -5\n-x - 7\n" ∧ normalize .all simpler = .ok simpler ∧
      simpler.unsigned = script.unsigned ∧ simpler.signs false = script.signs false ∧
      simpler.signs false = [false, false, true, false, false, true, false] := by
  obtain ⟨script, hscript⟩ : ∃ script, script =
      Node.program .blank [.declaration .blank .constWord ⟨.blank, "x"⟩
        (.unary .blank .minus (.unary .blank .minus (.literal .blank (.number (.int (-5))) "-5"))),
        .statement .blank (.binary .blank .sub
          (.unary .blank .minus (.unary .blank .minus (.unary .blank .minus (.identifier ⟨.blank, "x"⟩))))
          (.unary .blank .minus (.literal .blank (.number (.int (-7))) "-7")))] := ⟨_, rfl⟩
  have hplaced : placed script = .ok () := by rw [hscript]; rfl
  have hfinite : script.FiniteNumbers := by rw [hscript]; decide +kernel
  have hsigns : script.signs false = [false, false, true, false, false, true, false] := by
    rw [hscript]
    decide +kernel
  have hchecked : ((normalize .all script).toOption.any fun simpler =>
      (simpler.print .standard).toOption.any (· == "const x = -5\n-x - 7\n")) = true := by
    rw [hscript]
    decide +kernel
  obtain ⟨simpler, hsimpler, hchecked⟩ := exists_of_any_toOption hchecked
  obtain ⟨text, hprint, htext⟩ := exists_of_any_toOption hchecked
  obtain rfl := eq_of_beq htext
  obtain ⟨other, hother, -, hagain, hunsigned, hsame⟩ := (normalize_normal_form .all).1 script hplaced hfinite
  obtain rfl : other = simpler := Except.ok.inj (hother.symm.trans hsimpler)
  exact ⟨script, other, hscript, hplaced, hfinite, hother, hprint, hagain, hunsigned, hsame,
    hsame.trans hsigns⟩

end Edit

end PartScript
