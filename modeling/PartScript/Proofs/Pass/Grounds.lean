import PartScript.Proofs.Library.Refusals
import PartScript.Proofs.Library.Trails
import PartScript.Proofs.Node.Runnable
import PartScript.Proofs.Pass.Drawing
import PartScript.Proofs.Pipe.Nested

/-!
What a pass rests on. Every origin of a value, every range in a shape and every place of a diagnostic goes
back to a node that was run, and every function to trees in which the value of a stage is used only where
there is one. So a function cannot tell whether it was called inside a pipe: nothing changes if what comes
in through a pipe is not handed on to the functions that are called there.
-/

namespace PartScript

/-- A number, a text or a truth value. -/
def Data.Scalar : Data → Prop
  | .number _ | .text _ | .boolean _ => True
  | _ => False

/-- What may occur in a pass: nodes that are run, origins of values, ranges in shapes, and places of
diagnostics. Besides, whether every value is to have an origin. -/
structure Grounds where
  node : Node → Prop
  origin : Origin → Prop
  range : Range → Prop
  place : Span → Prop
  traced : Prop

namespace Grounds

/-- The nodes that are run may be origins and places of diagnostics, and calls among them may draw. -/
structure Lawful (g : Grounds) : Prop where
  origin : ∀ {n}, g.node n → g.origin n.mark.origin
  range : ∀ {m i args}, g.node (.call m i args) → g.range m.span.range
  place : ∀ {n}, g.node n → g.place n.span

/-- All nodes of a tree may occur. -/
def Tree (g : Grounds) (n : Node) : Prop := ∀ m ∈ n.walk, g.node m

/-- The nodes of a function may occur, and it uses no value of a stage outside its own pipes. -/
structure Function (g : Grounds) (c : Closure) : Prop where
  params : ∀ i ∈ c.params, g.node (.identifier i)
  body : ∀ n ∈ c.body, g.Tree n
  enclosed : Node.enclosedAll false c.body = true

/-- The ranges in a shape and the nodes of a function may occur. -/
def Allows (g : Grounds) : Part → Prop
  | .number _ => True
  | .sketch s => ∀ segment ∈ s.segments, g.range segment.range
  | .extrusion e => ∀ wall ∈ e.walls, g.range wall.range
  | .function c => g.Function c
  | .segment s => g.range s.range
  | .wall w => g.range w.range

/-- All of some origins and some parts may occur. -/
structure Fits (g : Grounds) (origins : List Origin) (parts : List Part) : Prop where
  origins : ∀ o ∈ origins, g.origin o
  parts : ∀ part ∈ parts, g.Allows part

/-- Everything in a value may occur, and it has an origin if every value is to have one. -/
structure Good (g : Grounds) (v : Value) : Prop where
  traced : g.traced → v.trail ≠ []
  fits : g.Fits v.origins v.parts

/-- Everything in host data may occur. -/
abbrev GoodItem (g : Grounds) (h : Host) : Prop := g.Fits h.origins h.parts

/-- The same for values in a row. -/
def GoodAll (g : Grounds) (vs : List Value) : Prop := ∀ v ∈ vs, g.Good v

/-- Everything that is bound or was shown may occur. -/
structure Holds (g : Grounds) (w : World) : Prop where
  store : w.store.Each g.Good
  shown : g.GoodAll w.shown

/-- A diagnostic has a place that may occur, and is not about the value of a stage where there is none. -/
def Stops (g : Grounds) : Stop → Prop
  | .wrong cause span => g.place span ∧ cause ≠ .mismatch .holeOutside
  | .tooDeep | .fault _ => True

/-- Started where everything may occur, the first computation does the same as the second. It leads to such
a world, and it has a good result or stops in a way that may occur. -/
def Sound {α : Type} (g : Grounds) (good : α → Prop) (x y : Eval α) : Prop :=
  ∀ w, g.Holds w → x.run w = y.run w ∧ g.Holds (x.run w).2 ∧ Settles g.Stops good (x.run w).1

section

variable {g : Grounds}

theorem Tree.self {n : Node} (h : g.Tree n) : g.node n := h n n.mem_walk

theorem Tree.child {n child : Node} (h : g.Tree n) (hchild : child ∈ n.children) : g.Tree child :=
  fun m hm => h m (Node.walk_subset_of_mem_children hchild hm)

theorem Tree.place {n : Node} (hg : g.Lawful) (h : g.Tree n) : g.place n.span := hg.place h.self

theorem fits_nil : g.Fits [] [] :=
  ⟨fun _ h => absurd h List.not_mem_nil, fun _ h => absurd h List.not_mem_nil⟩

theorem fits_number (n : Number) : g.Fits [] [.number n] :=
  ⟨fun _ h => absurd h List.not_mem_nil, List.forall_mem_singleton.2 trivial⟩

theorem goodAll_nil : g.GoodAll [] := fun _ hv => absurd hv List.not_mem_nil

/-- Values in a row are good data for an array. -/
theorem GoodAll.fits {vs : List Value} (h : g.GoodAll vs) :
    g.Fits (Value.originsOf vs) (Value.partsOf vs) := by
  constructor
  · intro o ho
    obtain ⟨v, hv, ho⟩ := Value.mem_originsOf.1 ho
    exact (h v hv).fits.origins o ho
  · intro part hpart
    obtain ⟨v, hv, hpart⟩ := Value.mem_partsOf.1 hpart
    exact (h v hv).fits.parts part hpart

theorem fits_entries {es : List (Key × Host)} (h : ∀ e ∈ es, g.GoodItem e.2) :
    g.Fits (Host.entryOrigins es) (Host.entryParts es) := by
  constructor
  · intro o ho
    obtain ⟨e, he, ho⟩ := Host.mem_entryOrigins.1 ho
    exact (h e he).origins o ho
  · intro part hpart
    obtain ⟨e, he, hpart⟩ := Host.mem_entryParts.1 hpart
    exact (h e he).parts part hpart

theorem Good.trail {v : Value} (h : g.Good v) : ∀ o ∈ v.trail, g.origin o :=
  fun o ho => h.fits.origins o (Value.mem_origins.2 (.inl ho))

/-- A value with its own origin and those of some inputs is good if its data is. -/
theorem good_merged {data : Data} {own : Origin} {inputs : List Value}
    (hdata : g.Fits data.origins data.parts) (hown : g.origin own)
    (hinputs : ∀ v ∈ inputs, ∀ o ∈ v.trail, g.origin o) : g.Good (.mk data (mergeTrails own inputs)) where
  traced _ := mergeTrails_ne_nil own inputs
  fits := by
    refine ⟨fun o ho => ?_, hdata.parts⟩
    rcases List.mem_append.1 ho with ho | ho
    · rcases mem_mergeTrails.1 ho with rfl | ⟨v, hv, ho⟩
      · exact hown
      · exact hinputs v hv o ho
    · exact hdata.origins o ho

theorem good_mk {data : Data} {own : Origin} (hdata : g.Fits data.origins data.parts)
    (hown : g.origin own) : g.Good (.mk data [own]) :=
  good_merged hdata hown fun _ hv => absurd hv List.not_mem_nil

theorem good_withTrail {v : Value} {own : Origin} {inputs : List Value}
    (hv : g.Fits v.origins v.parts) (hown : g.origin own)
    (hinputs : ∀ v ∈ inputs, ∀ o ∈ v.trail, g.origin o) :
    g.Good (v.withTrail (mergeTrails own inputs)) := by
  obtain ⟨data, trail⟩ := v
  exact good_merged ⟨fun o ho => hv.origins o (List.mem_append_right _ ho), hv.parts⟩ hown hinputs

theorem fits_unwrapped {v : Value} (h : g.Fits v.origins v.parts) :
    g.Fits (Pass.unwrapped v).origins (Pass.unwrapped v).parts := by
  refine ⟨fun o ho => h.origins o (Pass.mem_origins_of_unwrapped v ho), ?_⟩
  rw [Pass.parts_unwrapped]
  exact h.parts

theorem fits_toValue {h : Host} (hh : g.GoodItem h) : g.Fits (h.toValue []).origins (h.toValue []).parts := by
  rw [Host.origins_toValue, Host.parts_toValue]
  exact hh

theorem fits_scalar {data : Data} (h : data.Scalar) : g.Fits data.origins data.parts := by
  cases data with
  | number n => exact fits_number n
  | text | boolean => exact fits_nil
  | _ => exact h.elim

/-! ### Computations put together -/

variable {α β : Type} {good : α → Prop} {good' : β → Prop}

theorem sound_pure {a : α} (h : good a) : g.Sound good (pure a) (pure a) :=
  fun _ hw => ⟨rfl, hw, h⟩

theorem sound_throw {stop : Stop} (h : g.Stops stop) :
    g.Sound good (throw stop : Eval α) (throw stop) :=
  fun _ hw => ⟨rfl, hw, h⟩

theorem stops_mismatch {what : Mismatch} {span : Span} (hwhat : what ≠ .holeOutside)
    (hspan : g.place span) : g.Stops (.wrong (.mismatch what) span) :=
  ⟨hspan, fun h => hwhat (Cause.mismatch.inj h)⟩

theorem sound_mismatch {what : Mismatch} {span : Span} (hwhat : what ≠ .holeOutside)
    (hspan : g.place span) :
    g.Sound good (Pass.mismatch what span : Eval α) (Pass.mismatch what span) :=
  sound_throw (stops_mismatch hwhat hspan)

theorem Sound.bind {x y : Eval α} {f k : α → Eval β} (h : g.Sound good x y)
    (hf : ∀ a, good a → g.Sound good' (f a) (k a)) : g.Sound good' (x >>= f) (y >>= k) := by
  intro w hw
  obtain ⟨hsame, hholds, hsettles⟩ := h w hw
  cases hx : x.run w with
  | mk result w' =>
      rw [hx] at hsame hholds hsettles
      cases result with
      | error stop =>
          rw [Pass.run_bind_error f hx, Pass.run_bind_error k hsame.symm]
          exact ⟨rfl, hholds, hsettles⟩
      | ok a =>
          rw [Pass.run_bind_ok f hx, Pass.run_bind_ok k hsame.symm]
          exact hf a hsettles w' hholds

theorem sound_get {f k : World → Eval α} (h : ∀ w, g.Holds w → g.Sound good (f w) (k w)) :
    g.Sound good (get >>= f) (get >>= k) := by
  intro w hw
  have hrun : ∀ f : World → Eval α, (get >>= f).run w = (f w).run w := fun _ => rfl
  rw [hrun, hrun]
  exact h w hw w hw

/-- A change of the world after which everything may still occur. -/
theorem sound_modify {f : World → World} (h : ∀ w, g.Holds w → g.Holds (f w)) :
    g.Sound (fun _ => True) (modify f : Eval Unit) (modify f) :=
  fun w hw => ⟨rfl, h w hw, trivial⟩

theorem sound_throw_bind {stop : Stop} (h : g.Stops stop) (f k : β → Eval α) :
    g.Sound good (throw stop >>= f) (throw stop >>= k) :=
  fun _ hw => ⟨rfl, hw, h⟩

/-- Nesting that is too deep may be blamed on a statement. -/
theorem Sound.blamed {x y : Eval α} (h : g.Sound good x y) {span : Span} (hspan : g.place span) :
    g.Sound good
      (tryCatch x fun
        | .tooDeep => throw (.wrong (.exhausted .nesting) span)
        | stop => throw stop)
      (tryCatch y fun
        | .tooDeep => throw (.wrong (.exhausted .nesting) span)
        | stop => throw stop) := by
  intro w hw
  obtain ⟨hsame, hholds, hsettles⟩ := h w hw
  cases hx : x.run w with
  | mk result w' =>
      rw [hx] at hsame hholds hsettles
      cases result with
      | ok a =>
          rw [Pass.run_tryCatch_ok hx, Pass.run_tryCatch_ok hsame.symm]
          exact ⟨rfl, hholds, hsettles⟩
      | error stop =>
          rw [Pass.run_tryCatch_error hx, Pass.run_tryCatch_error hsame.symm]
          cases stop with
          | tooDeep => exact ⟨rfl, hholds, hspan, nofun⟩
          | wrong | fault => exact ⟨rfl, hholds, hsettles⟩

end

end Grounds

/-! ### Parts of the evaluator -/

namespace Pass

variable {g : Grounds}

theorem sound_step (p : Pass) {span : Span} (hspan : g.place span) :
    g.Sound (fun _ => True) (p.step span) (p.step span) := by
  have hcount : g.Sound (fun _ => True)
      (modify fun w => { w with steps := w.steps + 1 } : Eval Unit)
      (modify fun w => { w with steps := w.steps + 1 }) :=
    Grounds.sound_modify fun w hw => ⟨hw.store, hw.shown⟩
  refine hcount.bind fun _ _ => Grounds.sound_get fun w _ => ?_
  split
  · exact Grounds.sound_throw ⟨hspan, nofun⟩
  · exact Grounds.sound_pure trivial

theorem sound_define (scope : Nat) (name : String) {v : Value} (h : g.Good v) {span : Span}
    (hspan : g.place span) :
    g.Sound (fun _ => True) (define scope name v span) (define scope name v span) := by
  refine Grounds.sound_get fun w _ => ?_
  split
  · exact Grounds.sound_throw_bind (show g.Stops (.wrong (.duplicateName name) span) from ⟨hspan, nofun⟩) _ _
  · exact Grounds.sound_modify fun w' hw' => ⟨hw'.store.bind scope name h, hw'.shown⟩

theorem sound_lookup (scope : Nat) (name : String) {span : Span} (hspan : g.place span) :
    g.Sound g.Good (lookup scope name span) (lookup scope name span) := by
  refine Grounds.sound_get fun w hw => ?_
  cases hget : w.store.get? scope name with
  | none => exact Grounds.sound_throw ⟨hspan, nofun⟩
  | some v => exact Grounds.sound_pure (hw.store.get? hget)

theorem sound_closure? (scope : Nat) (name : String) :
    g.Sound (fun c => ∀ f ∈ c, g.Function f) (closure? scope name) (closure? scope name) := by
  refine Grounds.sound_get fun w hw => ?_
  split
  · rename_i f trail hget
    refine Grounds.sound_pure fun f' hf => ?_
    cases hf
    exact (hw.store.get? hget).fits.parts _ (.head _)
  · exact Grounds.sound_pure fun f hf => by cases hf

theorem sound_libraryEntry (p : Pass) {callee : Ident} (hspan : g.place callee.span) :
    g.Sound (fun _ => True) (p.libraryEntry callee) (p.libraryEntry callee) := by
  unfold libraryEntry
  split
  · exact Grounds.sound_pure trivial
  · exact Grounds.sound_throw ⟨hspan, nofun⟩

theorem sound_shown (n : Number) : g.Sound (fun _ => True) (shown n) (shown n) := by
  unfold shown
  split
  · exact Grounds.sound_pure trivial
  · exact Grounds.sound_throw trivial

theorem sound_literal {m : Mark} (horigin : g.origin m.origin) (hspan : g.place m.span)
    (value : Plain) : g.Sound g.Good (literal m value) (literal m value) := by
  unfold literal
  split
  · exact Grounds.sound_pure (Grounds.good_mk Grounds.fits_nil horigin)
  · split
    · exact Grounds.sound_pure (Grounds.good_mk (Grounds.fits_number _) horigin)
    · exact (sound_shown _).bind fun _ _ => Grounds.sound_mismatch nofun hspan
  · exact Grounds.sound_pure (Grounds.good_mk Grounds.fits_nil horigin)
  · exact Grounds.sound_mismatch nofun hspan

theorem sound_operated {m : Mark} (horigin : g.origin m.origin) (hspan : g.place m.span)
    {result : Except Mismatch Data} (h : Settles (· ≠ .holeOutside) Data.Scalar result) :
    g.Sound g.Good (operated m result) (operated m result) := by
  cases result with
  | error what => exact Grounds.sound_mismatch h hspan
  | ok data => exact Grounds.sound_pure (Grounds.good_mk (Grounds.fits_scalar h) horigin)

theorem calculate_settles (op : BinaryOp) (a b : Number) :
    Settles (· ≠ .holeOutside) (fun _ => True) (calculate op a b) := by
  unfold calculate
  split
  · rename_i what hwhat
    split at hwhat
    · cases op <;> cases hwhat <;> exact nofun
    · cases hwhat
  · split
    · exact nofun
    · split
      · trivial
      · exact nofun

theorem combine_settles (op : BinaryOp) (left right : Value) :
    Settles (· ≠ .holeOutside) Data.Scalar (combine op left right) := by
  unfold combine
  split
  · trivial
  · split
    · exact (calculate_settles _ _ _).map fun _ _ => trivial
    · exact nofun

theorem convert_settles (op : UnaryOp) (v : Value) :
    Settles (· ≠ .holeOutside) Data.Scalar (convert op v) := by
  unfold convert
  split
  · split
    · exact nofun
    · split
      · trivial
      · exact nofun
  · split
    · trivial
    · exact nofun
  · exact nofun

theorem sound_memberKey (v : Value) {span : Span} (hspan : g.place span) :
    g.Sound (fun _ => True) (memberKey v span) (memberKey v span) := by
  unfold memberKey
  split
  · exact Grounds.sound_pure trivial
  · split
    · exact Grounds.sound_pure trivial
    · exact Grounds.sound_mismatch nofun hspan

theorem sound_element {items : List Host} (h : ∀ item ∈ items, g.GoodItem item) (key : MemberKey)
    {span : Span} (hspan : g.place span) :
    g.Sound g.GoodItem (element items key span) (element items key span) := by
  unfold element
  split
  · exact Grounds.sound_mismatch nofun hspan
  · split
    · exact (sound_shown _).bind fun _ _ => Grounds.sound_mismatch nofun hspan
    · split
      · rename_i item hitem
        have hmem : item ∈ items := by
          split at hitem
          · cases hitem
          · exact List.mem_of_getElem? hitem
        exact Grounds.sound_pure (h item hmem)
      · exact Grounds.sound_throw ⟨hspan, nofun⟩

theorem sound_entry {entries : List (Key × Host)} (h : ∀ e ∈ entries, g.GoodItem e.2)
    (key : MemberKey) {span : Span} (hspan : g.place span) :
    g.Sound g.GoodItem (entry entries key span) (entry entries key span) := by
  unfold entry
  split
  · exact (sound_shown _).bind fun _ _ => Grounds.sound_mismatch nofun hspan
  · split
    · rename_i item hitem
      obtain ⟨e, he, rfl⟩ := Option.map_eq_some_iff.1 hitem
      exact Grounds.sound_pure (h e (List.mem_of_find?_eq_some he))
    · exact Grounds.sound_throw ⟨hspan, nofun⟩

theorem sound_member {m : Mark} (horigin : g.origin m.origin) (hspan : g.place m.span)
    {target : Value} (h : g.Good target) (key : MemberKey) {keySpan : Span} (hkey : g.place keySpan) :
    g.Sound g.Good (member m target key keySpan) (member m target key keySpan) := by
  have hsource := Grounds.fits_unwrapped h.fits
  unfold member
  dsimp only
  generalize unwrapped target = source at hsource
  obtain ⟨data, trail⟩ := source
  -- The item found is made a value and gets the origins of the member, of the item and of the source.
  have hitem : ∀ {x : Eval Host}, g.Sound g.GoodItem x x →
      g.Sound g.Good
        (x >>= fun item =>
          pure ((item.toValue []).withTrail (mergeTrails m.origin [item.toValue [], ⟨data, trail⟩])))
        (x >>= fun item =>
          pure ((item.toValue []).withTrail (mergeTrails m.origin [item.toValue [], ⟨data, trail⟩]))) := by
    intro x hx
    refine hx.bind fun item hitem => Grounds.sound_pure ?_
    have hvalue := Grounds.fits_toValue hitem
    refine Grounds.good_withTrail hvalue horigin fun v hv o ho => ?_
    rcases List.mem_pair.1 hv with rfl | rfl
    · exact hvalue.origins o (Value.mem_origins.2 (.inl ho))
    · exact hsource.origins o (Value.mem_origins.2 (.inl ho))
  dsimp only [Value.data]
  split
  · refine hitem (sound_element ?_ key hkey)
    intro item hmem
    obtain ⟨v, hv, rfl⟩ := List.mem_map.1 hmem
    exact ⟨fun o ho => hsource.origins o (List.mem_append_right _ (Value.mem_originsOf.2 ⟨v, hv, ho⟩)),
      fun part hpart => hsource.parts part (Value.mem_partsOf.2 ⟨v, hv, hpart⟩)⟩
  · refine hitem (sound_element (fun item hmem => ?_) key hkey)
    exact ⟨fun o ho => hsource.origins o (List.mem_append_right _ (Host.mem_originsOf.2 ⟨item, hmem, ho⟩)),
      fun part hpart => hsource.parts part (Host.mem_partsOf.2 ⟨item, hmem, hpart⟩)⟩
  · refine hitem (sound_element (fun item hmem => ?_) key hkey)
    exact ⟨fun o ho => hsource.origins o (List.mem_append_right _ (Host.mem_originsOf.2 ⟨item, hmem, ho⟩)),
      fun part hpart => hsource.parts part (Host.mem_partsOf.2 ⟨item, hmem, hpart⟩)⟩
  · refine hitem (sound_entry (fun e hmem => ?_) key hkey)
    exact ⟨fun o ho => hsource.origins o (List.mem_append_right _ (Host.mem_entryOrigins.2 ⟨e, hmem, ho⟩)),
      fun part hpart => hsource.parts part (Host.mem_entryParts.2 ⟨e, hmem, hpart⟩)⟩
  · exact hitem (Grounds.sound_mismatch nofun hspan)

/-! ### Calls of the library -/

/-- The walls of an extrusion have ranges of segments. -/
theorem range_of_walls {s : Sketch} {height : Number} {ws : List Wall}
    (h : Geometry.walls s height = .ok ws) {w : Wall} (hw : w ∈ ws) :
    ∃ segment ∈ s.segments, segment.range = w.range := by
  have hpair : (w.name, w.range) ∈ s.tagged.map fun seg => (seg.name, seg.range) := by
    rw [← Geometry.walls_eq_ok h]
    exact List.mem_map_of_mem hw
  obtain ⟨segment, hsegment, heq⟩ := List.mem_map.1 hpair
  exact ⟨segment, List.mem_of_mem_filter hsegment, congrArg Prod.snd heq⟩

/-- A call that succeeds draws at its own range, and moves around what was in its arguments. -/
theorem allows_of_does {site : CallSite} (hrange : g.range site.mark.span.range) {args : List Value}
    (hargs : g.GoodAll args) {e : Effect} (h : Builtin.Does site args e) :
    ∀ part ∈ e.value.parts, g.Allows part := by
  have hparts := hargs.fits.parts
  cases h with
  | calculates => exact List.forall_mem_singleton.2 trivial
  | shows heq =>
      subst heq
      exact (hargs _ List.mem_cons_self).fits.parts
  | starts => exact List.forall_mem_singleton.2 fun _ hs => absurd hs List.not_mem_nil
  | draws hs | closes hs =>
      refine List.forall_mem_singleton.2 fun segment hsegment => ?_
      rcases List.mem_append.1 hsegment with hold | hnew
      · exact hparts _ hs segment hold
      · rw [List.mem_singleton.1 hnew]
        exact hrange
  | extrudes hs _ _ hwalls =>
      refine List.forall_mem_singleton.2 fun w hw => ?_
      obtain ⟨segment, hsegment, heq⟩ := range_of_walls hwalls hw
      exact heq ▸ hparts _ hs segment hsegment
  | finds =>
      intro part hpart
      obtain ⟨n, -, rfl⟩ := Builtin.number_of_mem_place hpart
      trivial

/-- What is in a result but not in its trail comes from no other values. -/
theorem origins_of_does {site : CallSite} {args : List Value} {e : Effect}
    (h : Builtin.Does site args e) : e.value ∈ args ∨ e.value.data.origins = [] := by
  cases h with
  | shows heq =>
      subst heq
      exact .inl List.mem_cons_self
  | calculates | starts | draws | closes | extrudes | finds => exact .inr rfl

theorem good_of_run {b : Builtin} {site : CallSite} (horigin : g.origin site.mark.origin)
    (hrange : g.range site.mark.span.range) {args : List Value} (hargs : g.GoodAll args) {e : Effect}
    (h : b.run site args = .ok e) : g.Good e.value := by
  have hdoes := Builtin.does_of_run h
  rcases Builtin.trail_of_run h with ⟨-, hmem⟩ | htrail
  · exact hargs _ hmem
  · rcases origins_of_does hdoes with hmem | hnone
    · exact hargs _ hmem
    · have hfits : g.Fits e.value.data.origins e.value.parts :=
        ⟨fun o ho => absurd (hnone ▸ ho) List.not_mem_nil, allows_of_does hrange hargs hdoes⟩
      obtain ⟨⟨data, trail⟩, sent, shown⟩ := e
      cases (show trail = _ from htrail)
      exact Grounds.good_merged hfits horigin fun v hv => (hargs v (b.sources_subset args hv)).trail

theorem shown_of_run {b : Builtin} {site : CallSite} {args : List Value} {e : Effect}
    (h : b.run site args = .ok e) : e.shown ⊆ args := by
  cases Builtin.does_of_run h with
  | shows => exact List.Subset.refl _
  | _ => exact List.nil_subset _

theorem sound_perform {b : Builtin} {site : CallSite} (horigin : g.origin site.mark.origin)
    (hrange : g.range site.mark.span.range) {args : List Value} (hargs : g.GoodAll args) {e : Effect}
    (h : b.run site args = .ok e) : g.Sound g.Good (perform e) (perform e) := by
  refine Grounds.Sound.bind (Grounds.sound_modify fun w hw => ⟨hw.store, fun v hv => ?_⟩) fun _ _ =>
    Grounds.sound_pure (good_of_run horigin hrange hargs h)
  rcases List.mem_append.1 hv with hv | hv
  · exact hw.shown v hv
  · exact hargs v (shown_of_run h hv)

theorem sound_callLibrary (p : Pass) (entry : LibraryEntry) (name : String) {m : Mark}
    (horigin : g.origin m.origin) (hrange : g.range m.span.range) (hspan : g.place m.span)
    {args : List Value} (hargs : g.GoodAll args) :
    g.Sound g.Good (p.callLibrary entry name m args) (p.callLibrary entry name m args) := by
  have hrefuses := Builtin.refuses_run ⟨p.code, m⟩ entry.builtin args
  unfold callLibrary
  split
  · cases heffect : entry.builtin.run ⟨p.code, m⟩ args with
    | ok e => exact sound_perform horigin hrange hargs heffect
    | error refusal =>
        rw [heffect] at hrefuses
        cases refusal with
        | mismatch what => exact Grounds.sound_mismatch (fun h => by subst h; exact hrefuses) hspan
        | fault f => exact Grounds.sound_throw trivial
  · exact Grounds.sound_mismatch nofun hspan

/-! ### Expressions -/

/-- Where the value of a stage may be used there is one, and the same one for both. -/
def Fed (g : Grounds) (inStage : Bool) (hole hole' : Option Value) : Prop :=
  inStage = true → ∃ v, hole = some v ∧ hole' = some v ∧ g.Good v

theorem fed_outside (hole hole' : Option Value) : Fed g false hole hole' :=
  fun h => absurd h Bool.false_ne_true

theorem fed_stage {v : Value} (h : g.Good v) (inStage : Bool) : Fed g inStage (some v) (some v) :=
  fun _ => ⟨v, rfl, rfl, h⟩

/-- Functions are called alike, whatever comes in through a pipe. -/
def EnterAlike (g : Grounds) (enter enter' : Enter) : Prop :=
  ∀ name m hole hole' c args, g.origin m.origin → g.place m.span → g.Function c → g.GoodAll args →
    g.Sound g.Good (enter ⟨name, m, hole⟩ c args) (enter' ⟨name, m, hole'⟩ c args)

/-- An expression starts with a step and goes one level deeper. -/
theorem sound_opening {α : Type} (p : Pass) {scope : Nat} {hole hole' : Option Value}
    {room : Option Nat} {span : Span} (hspan : g.place span) {good : α → Prop} {k k' : Frame → Eval α}
    (h : ∀ room, g.Sound good (k ⟨scope, hole, room⟩) (k' ⟨scope, hole', room⟩)) :
    g.Sound good (p.step span >>= fun _ => deeper ⟨scope, hole, room⟩ >>= k)
      (p.step span >>= fun _ => deeper ⟨scope, hole', room⟩ >>= k') := by
  refine (sound_step p hspan).bind fun _ _ => ?_
  match room with
  | none => exact h none
  | some 0 => exact Grounds.sound_throw_bind (show g.Stops .tooDeep from trivial) _ _
  | some (room + 1) => exact h (some room)

section

variable {p : Pass} {enter enter' : Enter} {scope : Nat} {inStage : Bool} {hole hole' : Option Value}

mutual

theorem sound_evaluate (hg : g.Lawful) (henter : EnterAlike g enter enter') {inStage : Bool}
    {hole hole' : Option Value} (hfed : Fed g inStage hole hole') {room : Option Nat} :
    (n : Node) → g.Tree n → n.enclosed inStage = true →
      g.Sound g.Good (evaluate p enter ⟨scope, hole, room⟩ n) (evaluate p enter' ⟨scope, hole', room⟩ n)
  | .literal m value _, hn, _ => by
      unfold evaluate
      exact sound_opening p (hn.place hg) fun _ => sound_literal (hg.origin hn.self) (hn.place hg) value
  | .identifier i, hn, _ => by
      unfold evaluate
      exact sound_opening p (hn.place hg) fun _ => sound_lookup _ _ (hn.place hg)
  | .binary m op l r, hn, hin => by
      unfold evaluate
      simp only [Node.enclosed, Bool.and_eq_true] at hin
      refine sound_opening p (hn.place hg) fun _ => ?_
      have hl := hn.child List.mem_cons_self
      have hr := hn.child (List.mem_cons_of_mem _ List.mem_cons_self)
      refine (sound_evaluate hg henter hfed l hl hin.1).bind fun v _ => ?_
      refine (sound_evaluate hg henter hfed r hr hin.2).bind fun w _ => ?_
      exact sound_operated (hg.origin hn.self) (hn.place hg) (combine_settles op v w)
  | .unary m op e, hn, hin => by
      unfold evaluate
      refine sound_opening p (hn.place hg) fun _ => ?_
      refine (sound_evaluate hg henter hfed e (hn.child List.mem_cons_self) hin).bind fun v _ => ?_
      exact sound_operated (hg.origin hn.self) (hn.place hg) (convert_settles op v)
  | .call m callee args, hn, hin => by
      unfold evaluate
      have hargs : ∀ n ∈ args, g.Tree n := fun n h => hn.child (List.mem_cons_of_mem _ h)
      refine sound_opening p (hn.place hg) fun _ => ?_
      refine (sound_closure? _ _).bind fun c hc => ?_
      cases c with
      | some c =>
          refine (sound_evaluateAll hg henter hfed args hargs hin).bind fun vs hvs => ?_
          exact henter _ _ _ _ _ _ (hg.origin hn.self) (hn.place hg) (hc c rfl) hvs
      | none =>
          have hcallee := hg.place (hn.child List.mem_cons_self).self
          refine (sound_libraryEntry p hcallee).bind fun entry _ => ?_
          refine (sound_evaluateAll hg henter hfed args hargs hin).bind fun vs hvs => ?_
          exact sound_callLibrary p entry _ (hg.origin hn.self) (hg.range hn.self) (hn.place hg) hvs
  | .array m es, hn, hin => by
      unfold evaluate
      refine sound_opening p (hn.place hg) fun _ => ?_
      refine (sound_evaluateAll hg henter hfed es (fun _ => hn.child) hin).bind fun vs hvs => ?_
      exact Grounds.sound_pure (Grounds.good_mk hvs.fits (hg.origin hn.self))
  | .object m ps, hn, hin => by
      unfold evaluate
      refine sound_opening p (hn.place hg) fun _ => ?_
      refine (sound_evaluateEntries hg henter hfed ps (fun _ => hn.child) hin).bind fun es hes => ?_
      refine Grounds.sound_pure (Grounds.good_mk (Grounds.fits_entries fun e he => ?_) (hg.origin hn.self))
      obtain ⟨e', he', heq⟩ := exists_of_mem_collectEntries he
      exact heq ▸ hes e' he'
  | .member m e label, hn, hin => by
      unfold evaluate
      refine sound_opening p (hn.place hg) fun _ => ?_
      have hlabel := hg.place (hn.child (List.mem_cons_of_mem _ List.mem_cons_self)).self
      refine (sound_evaluate hg henter hfed e (hn.child List.mem_cons_self) hin).bind fun v hv => ?_
      exact sound_member (hg.origin hn.self) (hn.place hg) hv _ hlabel
  | .index m e key, hn, hin => by
      unfold evaluate
      simp only [Node.enclosed, Bool.and_eq_true] at hin
      refine sound_opening p (hn.place hg) fun _ => ?_
      have hkey := hn.child (List.mem_cons_of_mem _ List.mem_cons_self)
      refine (sound_evaluate hg henter hfed e (hn.child List.mem_cons_self) hin.1).bind fun v hv => ?_
      refine (sound_evaluate hg henter hfed key hkey hin.2).bind fun w _ => ?_
      refine (sound_memberKey w (hkey.place hg)).bind fun k _ => ?_
      exact sound_member (hg.origin hn.self) (hn.place hg) hv k (hkey.place hg)
  | .pipe _ [], hn, _ => by
      unfold evaluate
      exact sound_opening p (hn.place hg) fun _ => Grounds.sound_throw trivial
  | .pipe _ (first :: more), hn, hin => by
      unfold evaluate
      simp only [Node.enclosed, Bool.and_eq_true] at hin
      refine sound_opening p (hn.place hg) fun _ => ?_
      refine (sound_evaluate hg henter hfed first (hn.child List.mem_cons_self) hin.1).bind fun v hv => ?_
      exact sound_evaluateStages hg henter hv more
        (fun n h => hn.child (List.mem_cons_of_mem _ h)) hin.2
  | .hole m, hn, hin => by
      unfold evaluate
      obtain ⟨v, rfl, rfl, hv⟩ := hfed hin
      exact sound_opening p (hn.place hg) fun _ => Grounds.sound_pure hv
  | .function m params body, hn, hin => by
      unfold evaluate
      refine sound_opening p (hn.place hg) fun _ => Grounds.sound_pure ?_
      refine Grounds.good_mk ⟨fun _ h => absurd h List.not_mem_nil, ?_⟩ (hg.origin hn.self)
      refine List.forall_mem_singleton.2 ⟨fun i hi => ?_, fun n h => ?_, hin⟩
      · exact (hn.child (List.mem_append_left _ (List.mem_map_of_mem hi))).self
      · exact hn.child (List.mem_append_right _ h)
  | .program _ _, hn, _ | .declaration _ _ _ _, hn, _ | .statement _ _, hn, _ | .giveBack _ _, hn, _
  | .property _ _ _, hn, _ => by
      unfold evaluate
      exact sound_opening p (hn.place hg) fun _ => Grounds.sound_mismatch nofun (hn.place hg)

theorem sound_evaluateAll (hg : g.Lawful) (henter : EnterAlike g enter enter') {inStage : Bool}
    {hole hole' : Option Value} (hfed : Fed g inStage hole hole') {room : Option Nat} :
    (ns : List Node) → (∀ n ∈ ns, g.Tree n) → Node.enclosedAll inStage ns = true →
      g.Sound g.GoodAll (evaluateAll p enter ⟨scope, hole, room⟩ ns)
        (evaluateAll p enter' ⟨scope, hole', room⟩ ns)
  | [], _, _ => by
      unfold evaluateAll
      exact Grounds.sound_pure Grounds.goodAll_nil
  | n :: rest, hns, hin => by
      unfold evaluateAll
      simp only [Node.enclosedAll, Bool.and_eq_true] at hin
      obtain ⟨hn, hrest⟩ := List.forall_mem_cons.1 hns
      refine (sound_evaluate hg henter hfed n hn hin.1).bind fun v hv => ?_
      refine (sound_evaluateAll hg henter hfed rest hrest hin.2).bind fun vs hvs => ?_
      exact Grounds.sound_pure (List.forall_mem_cons.2 ⟨hv, hvs⟩)

theorem sound_evaluateEntries (hg : g.Lawful) (henter : EnterAlike g enter enter') {inStage : Bool}
    {hole hole' : Option Value} (hfed : Fed g inStage hole hole') {room : Option Nat} :
    (ns : List Node) → (∀ n ∈ ns, g.Tree n) → Node.enclosedAll inStage ns = true →
      g.Sound (fun es => ∀ e ∈ es, g.GoodItem e.2) (evaluateEntries p enter ⟨scope, hole, room⟩ ns)
        (evaluateEntries p enter' ⟨scope, hole', room⟩ ns)
  | [], _, _ => by
      unfold evaluateEntries
      exact Grounds.sound_pure fun _ he => absurd he List.not_mem_nil
  | .property _ key e :: rest, hns, hin => by
      unfold evaluateEntries
      simp only [Node.enclosedAll, Node.enclosed, Bool.and_eq_true] at hin
      obtain ⟨hn, hrest⟩ := List.forall_mem_cons.1 hns
      have he := hn.child (List.mem_cons_of_mem _ List.mem_cons_self)
      refine (sound_evaluate hg henter hfed e he hin.1).bind fun v hv => ?_
      refine (sound_evaluateEntries hg henter hfed rest hrest hin.2).bind fun es hes => ?_
      exact Grounds.sound_pure (List.forall_mem_cons.2 ⟨hv.fits, hes⟩)
  | .program _ _ :: _, _, _ | .declaration _ _ _ _ :: _, _, _ | .statement _ _ :: _, _, _
  | .giveBack _ _ :: _, _, _ | .literal _ _ _ :: _, _, _ | .identifier _ :: _, _, _
  | .binary _ _ _ _ :: _, _, _ | .unary _ _ _ :: _, _, _ | .call _ _ _ :: _, _, _
  | .array _ _ :: _, _, _ | .object _ _ :: _, _, _ | .member _ _ _ :: _, _, _
  | .index _ _ _ :: _, _, _ | .pipe _ _ :: _, _, _ | .hole _ :: _, _, _
  | .function _ _ _ :: _, _, _ => by
      unfold evaluateEntries
      exact Grounds.sound_throw trivial

theorem sound_evaluateStages (hg : g.Lawful) (henter : EnterAlike g enter enter')
    {hole hole' : Option Value} {room : Option Nat} {v : Value} (hv : g.Good v) :
    (ns : List Node) → (∀ n ∈ ns, g.Tree n) → Node.enclosedAll true ns = true →
      g.Sound g.Good (evaluateStages p enter ⟨scope, hole, room⟩ ns v)
        (evaluateStages p enter' ⟨scope, hole', room⟩ ns v)
  | [], _, _ => by
      unfold evaluateStages
      exact Grounds.sound_pure hv
  | n :: rest, hns, hin => by
      unfold evaluateStages
      simp only [Node.enclosedAll, Bool.and_eq_true] at hin
      obtain ⟨hn, hrest⟩ := List.forall_mem_cons.1 hns
      refine (sound_evaluate hg henter (fed_stage hv true) n hn hin.1).bind fun w hw => ?_
      exact sound_evaluateStages hg henter hw rest hrest hin.2

end

/-! ### Functions and statements -/

theorem sound_execute (hg : g.Lawful) (henter : EnterAlike g enter enter')
    (hfed : Fed g inStage hole hole') {room : Option Nat} {n : Node} (hn : g.Tree n)
    (hin : n.enclosed inStage = true) :
    g.Sound (fun v => g.GoodAll v.toList) (execute p enter ⟨scope, hole, room⟩ n)
      (execute p enter' ⟨scope, hole', room⟩ n) := by
  unfold execute
  refine (sound_step p (hn.place hg)).bind fun _ _ => ?_
  cases n with
  | declaration m word name init =>
      have hinit := hn.child (List.mem_cons_of_mem _ List.mem_cons_self)
      refine (sound_evaluate hg henter hfed init hinit hin).bind fun v hv => ?_
      refine (sound_define _ _ hv (hn.place hg)).bind fun _ _ => ?_
      exact Grounds.sound_pure Grounds.goodAll_nil
  | statement m e =>
      refine (sound_evaluate hg henter hfed e (hn.child List.mem_cons_self) hin).bind fun v hv => ?_
      exact Grounds.sound_pure (List.forall_mem_singleton.2 hv)
  | _ => exact Grounds.sound_mismatch nofun (hn.place hg)

theorem sound_runBody (hg : g.Lawful) (henter : EnterAlike g enter enter')
    (hfed : Fed g inStage hole hole') {room : Option Nat} {ns : List Node} (hns : ∀ n ∈ ns, g.Tree n)
    (hin : Node.enclosedAll inStage ns = true) {last : Option Value} (hlast : g.GoodAll last.toList) :
    g.Sound (fun v => g.GoodAll v.toList) (runBody p enter ⟨scope, hole, room⟩ ns last)
      (runBody p enter' ⟨scope, hole', room⟩ ns last) := by
  induction ns generalizing last with
  | nil => exact Grounds.sound_pure hlast
  | cons n rest ih =>
      simp only [Node.enclosedAll, Bool.and_eq_true] at hin
      obtain ⟨hn, hrest⟩ := List.forall_mem_cons.1 hns
      have hnext : g.Sound (fun v => g.GoodAll v.toList)
          (execute p enter ⟨scope, hole, room⟩ n >>= runBody p enter ⟨scope, hole, room⟩ rest)
          (execute p enter' ⟨scope, hole', room⟩ n >>= runBody p enter' ⟨scope, hole', room⟩ rest) :=
        (sound_execute hg henter hfed hn hin.1).bind fun _ hvalue => ih hrest hin.2 hvalue
      -- A `return` ends the function; any other statement is followed by the rest.
      cases n with
      | giveBack m e =>
          refine (sound_step p (hn.place hg)).bind fun _ _ => ?_
          have he := hn.child List.mem_cons_self
          refine (sound_evaluate hg henter hfed e he hin.1).bind fun v hv => ?_
          exact Grounds.sound_pure (List.forall_mem_singleton.2 hv)
      | _ => exact hnext

theorem sound_bindParams (hg : g.Lawful) (scope : Nat) {params : List Ident}
    (hparams : ∀ i ∈ params, g.node (.identifier i)) {args : List Value} (hargs : g.GoodAll args) :
    g.Sound (fun _ => True) (bindParams scope params args) (bindParams scope params args) := by
  induction params generalizing args with
  | nil => exact Grounds.sound_pure trivial
  | cons i params ih =>
      cases args with
      | nil => exact Grounds.sound_pure trivial
      | cons v args =>
          obtain ⟨hi, hparams⟩ := List.forall_mem_cons.1 hparams
          obtain ⟨hv, hrest⟩ := List.forall_mem_cons.1 hargs
          exact (sound_define scope i.name hv (hg.place hi)).bind fun _ _ => ih hparams hrest

theorem sound_openScope (parent : Nat) (name : String) :
    g.Sound (fun _ => True) (openScope parent name) (openScope parent name) :=
  fun _ hw => ⟨rfl, ⟨hw.store.openChild parent name, hw.shown⟩, trivial⟩

/-- In a function the value of a stage is used only inside its own pipes. -/
theorem enterAlike_enterScope (hg : g.Lawful) (henter : EnterAlike g enter enter') :
    EnterAlike g (p.enterScope enter) (p.enterScope enter') := by
  intro name m hole hole' c args horigin hspan hc hargs
  unfold enterScope
  refine (sound_openScope _ _).bind fun scope _ => ?_
  refine (sound_bindParams hg scope hc.params hargs).bind fun _ _ => ?_
  refine (sound_runBody hg henter (fed_outside hole hole') hc.body hc.enclosed
    Grounds.goodAll_nil).bind fun result hresult => ?_
  cases result with
  | none => exact Grounds.sound_mismatch nofun hspan
  | some v =>
      have hv := hresult v (List.mem_singleton_self v)
      exact Grounds.sound_pure (Grounds.good_withTrail hv.fits horigin (List.forall_mem_singleton.2 hv.trail))

end

/-- Call a function of the script without handing on what comes in through a pipe. -/
def callLexically (p : Pass) : Nat → Enter
  | left, inv, c, args => do
    if args.length ≠ c.params.length then
      mismatch (.argumentCount inv.name (toString c.params.length) args.length) inv.mark.span
    match left with
    | 0 => throw (.wrong (.exhausted (.calls p.limits.calls)) inv.mark.span)
    | left + 1 => p.enterScope (callLexically p left) { inv with hole := none } c args

/-- Run the statements of a script in the same way, functions being called by a handler. -/
def runScriptBy (p : Pass) (enter : Enter) (scope : Nat) :
    List Node → Option Value → Eval (Option Value)
  | [], last => return last
  | s :: rest, _ => do
    let result ← tryCatch (execute p enter ⟨scope, none, p.limits.nesting⟩ s)
      fun
        | .tooDeep => throw (.wrong (.exhausted .nesting) s.span)
        | stop => throw stop
    runScriptBy p enter scope rest result

/-- Calls of functions are alike, however many more may be nested. -/
theorem enterAlike_call (p : Pass) (hg : g.Lawful) (left : Nat) :
    EnterAlike g (p.call left) (p.callLexically left) := by
  have hcount : ∀ {name takes given span} (x y : Eval Value), g.place span →
      g.Sound g.Good (mismatch (.argumentCount name takes given) span >>= fun _ : Unit => x)
        (mismatch (.argumentCount name takes given) span >>= fun _ : Unit => y) :=
    fun x y hspan => Grounds.sound_throw_bind (Grounds.stops_mismatch (fun h => by cases h) hspan) _ _
  induction left with
  | zero =>
      intro name m hole hole' c args _ hspan _ _
      simp only [call, callLexically]
      split
      · exact hcount _ _ hspan
      · exact Grounds.sound_throw ⟨hspan, fun h => by cases h⟩
  | succ left ih =>
      intro name m hole hole' c args horigin hspan hc hargs
      simp only [call, callLexically]
      split
      · exact hcount _ _ hspan
      · exact enterAlike_enterScope hg ih name m hole none c args horigin hspan hc hargs

/-- A script whose nodes may occur does the same whether or not functions are handed what comes in through
a pipe. -/
theorem sound_runScript (p : Pass) (hg : g.Lawful) (scope : Nat) {ns : List Node}
    (hns : ∀ n ∈ ns, g.Tree n) (hin : Node.enclosedAll false ns = true) (last : Option Value)
    (hlast : g.GoodAll last.toList) :
    g.Sound (fun v => g.GoodAll v.toList) (p.runScript scope ns last)
      (p.runScriptBy (p.callLexically p.limits.calls) scope ns last) := by
  induction ns generalizing last with
  | nil => exact Grounds.sound_pure hlast
  | cons n rest ih =>
      simp only [Node.enclosedAll, Bool.and_eq_true] at hin
      obtain ⟨hn, hrest⟩ := List.forall_mem_cons.1 hns
      have henter := enterAlike_call p hg p.limits.calls
      have hstatement : g.Sound (fun v => g.GoodAll v.toList)
          (execute p (p.call p.limits.calls) ⟨scope, none, p.limits.nesting⟩ n)
          (execute p (p.callLexically p.limits.calls) ⟨scope, none, p.limits.nesting⟩ n) :=
        sound_execute hg henter (fed_outside none none) hn hin.1
      exact (hstatement.blamed (hn.place hg)).bind fun value hvalue => ih hrest hin.2 value hvalue

end Pass

end PartScript
