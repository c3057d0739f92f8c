import Mathlib.Data.List.Forall2
import Mathlib.Logic.Equiv.Basic
import PartScript.Library
import PartScript.Proofs.Document.Compact
import PartScript.Proofs.Twin.Value

/-!
Commands of two runs side by side. The content of a command tells its range and its inputs, so two
commands of one run have the same content exactly if their counterparts in the other run have. As long
as contents are told apart by their identifiers, identifiers therefore correspond one to one, and the
commands of one run are those of the other with identifiers renamed.
-/

namespace PartScript

open Document (compact)

/-- Identifiers correspond one to one. -/
def Ids.OneToOne (ids : Ids) : Prop := ∀ a b a' b', ids a b → ids a' b' → (a = a' ↔ b = b')

namespace Identity

/-! ### Sketches -/

/-- The identifying fields of a sketch other than its identifier. -/
def sketchFields (s : Sketch) : Except Fault (List (String × Plain)) := do
  return [
    ("start", ← numbers s.start.coordinates),
    ("segments", .list (← s.segments.mapM segment)),
    ("position", ← numbers s.position.coordinates),
    ("rotation", ← numbers s.rotation.coordinates)]

theorem mapM_segment_bare (ss : List Segment) :
    (ss.map Segment.bare).mapM segment = ss.mapM segment := by
  rw [List.mapM_map]
  rfl

theorem sketch_eq (s : Sketch) :
    sketch s = do return .named (("id", .text s.id) :: (← sketchFields s.bare)) := by
  simp only [sketch, sketchFields, Sketch.bare, mapM_segment_bare, bind_assoc, pure_bind]

theorem sketch_eq_ok {s : Sketch} {p : Plain} (h : sketch s = .ok p) :
    ∃ fields, sketchFields s.bare = .ok fields ∧ p = .named (("id", .text s.id) :: fields) := by
  rw [sketch_eq] at h
  obtain ⟨fields, hfields, h⟩ := bind_eq_ok h
  cases h
  exact ⟨fields, hfields, rfl⟩

theorem names_sketchFields {s : Sketch} {fields : List (String × Plain)}
    (h : sketchFields s = .ok fields) :
    fields.map (·.1) = ["start", "segments", "position", "rotation"] := by
  obtain ⟨start, -, h⟩ := bind_eq_ok h
  obtain ⟨segments, -, h⟩ := bind_eq_ok h
  obtain ⟨position, -, h⟩ := bind_eq_ok h
  obtain ⟨rotation, -, h⟩ := bind_eq_ok h
  cases h
  rfl

/-- The fields of a document as text. -/
def written (fields : List (String × Plain)) : List (String × String) :=
  fields.map fun f => (f.1, compact f.2)

/-- Identified sketches are written alike if their identifiers and their other fields are. -/
theorem compact_sketch_iff {s t : Sketch} {p q : Plain} {fs gs : List (String × Plain)}
    (hp : sketch s = .ok p) (hq : sketch t = .ok q) (hfs : sketchFields s.bare = .ok fs)
    (hgs : sketchFields t.bare = .ok gs) :
    compact p = compact q ↔ s.id = t.id ∧ written fs = written gs := by
  obtain ⟨fs', hfs', rfl⟩ := sketch_eq_ok hp
  obtain ⟨gs', hgs', rfl⟩ := sketch_eq_ok hq
  obtain rfl := Except.ok.inj (hfs.symm.trans hfs')
  obtain rfl := Except.ok.inj (hgs.symm.trans hgs')
  constructor
  · intro h
    have hitems := Document.items_eq_of_compact_eq
      (by simp only [List.map_cons, names_sketchFields hfs, names_sketchFields hgs])
      (by simp only [List.map_cons, names_sketchFields hfs]; decide) h
    obtain ⟨hid, hrest⟩ := List.cons.inj hitems
    exact ⟨Document.quote_inj (Prod.mk.inj hid).2, hrest⟩
  · rintro ⟨hid, hrest⟩
    refine Document.compact_named_congr ?_
    rw [List.map_cons, List.map_cons, hid]
    exact congrArg _ hrest

/-! ### Inputs -/

/-- The identifying forms of inputs. -/
def inputFields : List (String × Host) → Except Fault (List (String × Plain))
  | [] => .ok []
  | (name, h) :: rest => do return (name, ← host h) :: (← inputFields rest)

theorem hostEntries_inputs (fields : List (String × Host)) :
    hostEntries (fields.map fun (name, h) => (.text name, h)) =
      (do return (← inputFields fields).map fun (name, p) => (.text name, p)) := by
  induction fields with
  | nil => rfl
  | cons f rest ih =>
      obtain ⟨name, h⟩ := f
      simp only [List.map_cons, hostEntries, inputFields, keyText, ih]
      cases host h with
      | error e => rfl
      | ok p => cases inputFields rest <;> rfl

theorem host_inputs (fields : List (String × Host)) :
    host (Builtin.inputs fields) = (do return .named (← inputFields fields)) := by
  simp only [Builtin.inputs, host, hostEntries_inputs]
  cases inputFields fields <;> rfl

theorem names_inputFields {fields : List (String × Host)} {ps : List (String × Plain)}
    (h : inputFields fields = .ok ps) : ps.map (·.1) = fields.map (·.1) := by
  induction fields generalizing ps with
  | nil => cases h; rfl
  | cons f rest ih =>
      obtain ⟨p, -, h⟩ := bind_eq_ok h
      obtain ⟨ps', hps', h⟩ := bind_eq_ok h
      cases h
      rw [List.map_cons, List.map_cons, ih hps']

/-- The names of the inputs by which commands are identified. -/
def inputNames : List (List String) :=
  [["at"], ["to", "sketch", "tag"], ["delta", "sketch", "tag"], ["sketch", "tag"],
    ["length", "sketch"]]

/-- The document for a range and the identifying forms of inputs. -/
def documentOf (code : String) (r : Range) (fields : List (String × Plain)) : String :=
  compact (.named [("v", .whole layoutVersion), ("code", .text code),
    ("range", .wholes [r.start, r.stop]), ("inputs", .named fields)])

theorem commandDocument_inputs (code : String) (r : Range) (fields : List (String × Host)) :
    commandDocument code r (Builtin.inputs fields) =
      do return documentOf code r (← inputFields fields) := by
  simp only [commandDocument, host_inputs, bind_assoc, pure_bind, documentOf]

theorem commandDocument_eq_ok {code : String} {r : Range} {fields : List (String × Host)}
    {document : String} (h : commandDocument code r (Builtin.inputs fields) = .ok document) :
    ∃ ps, inputFields fields = .ok ps ∧ document = documentOf code r ps := by
  rw [commandDocument_inputs] at h
  obtain ⟨ps, hps, h⟩ := bind_eq_ok h
  cases h
  exact ⟨ps, hps, rfl⟩

/-- A document tells the script text, the range and the identifying forms of the inputs. -/
theorem documentOf_eq_iff {code code' : String} {r r' : Range} {ps ps' : List (String × Plain)} :
    documentOf code r ps = documentOf code' r' ps' ↔
      code = code' ∧ r = r' ∧ compact (.named ps) = compact (.named ps') := by
  constructor
  · intro heq
    have hnodup : ["v", "code", "range", "inputs"].Nodup := by decide
    have hitems := Document.items_eq_of_compact_eq (by rfl) (by exact hnodup) heq
    simp only [List.map_cons, List.cons.injEq, Prod.mk.injEq, true_and, and_true] at hitems
    obtain ⟨hcode, hrange, hinputs⟩ := hitems
    have hends := Document.wholes_inj hrange
    simp only [List.cons.injEq, and_true] at hends
    exact ⟨Document.quote_inj hcode,
      by cases r; cases r'; exact congr (congrArg Range.mk hends.1) hends.2, hinputs⟩
  · rintro ⟨rfl, rfl, hinputs⟩
    refine Document.compact_named_congr ?_
    simp only [List.map_cons, hinputs]

/-- The document of a command is known from its range and its inputs, and tells them. -/
theorem commandDocument_eq_iff {code : String} {r r' : Range} {fields fields' : List (String × Host)}
    {ps ps' : List (String × Plain)} {document document' : String}
    (h : commandDocument code r (Builtin.inputs fields) = .ok document)
    (h' : commandDocument code r' (Builtin.inputs fields') = .ok document')
    (hps : inputFields fields = .ok ps) (hps' : inputFields fields' = .ok ps') :
    document = document' ↔ r = r' ∧ compact (.named ps) = compact (.named ps') := by
  obtain ⟨qs, hqs, rfl⟩ := commandDocument_eq_ok h
  obtain ⟨qs', hqs', rfl⟩ := commandDocument_eq_ok h'
  obtain rfl := Except.ok.inj (hps.symm.trans hqs)
  obtain rfl := Except.ok.inj (hps'.symm.trans hqs')
  rw [documentOf_eq_iff]
  exact and_iff_right rfl

end Identity

/-! ### Inputs of two runs -/

/-- The inputs have the same name, and are equal or twin sketches. -/
inductive InputTwin (ids : Ids) : String × Host → String × Host → Prop
  | same {name : String} {h : Host} (hname : name ≠ "sketch") : InputTwin ids (name, h) (name, h)
  | sketch {s t : Sketch} (h : s.Twin ids t) :
      InputTwin ids ("sketch", .sketch s) ("sketch", .sketch t)

open List (Forall₂)
open Identity (inputFields inputNames written)

theorem inputFields_cons {f : String × Host} {rest : List (String × Host)}
    {ps : List (String × Plain)} (h : inputFields (f :: rest) = .ok ps) :
    ∃ p qs, Identity.host f.2 = .ok p ∧ inputFields rest = .ok qs ∧ ps = (f.1, p) :: qs := by
  obtain ⟨p, hp, h⟩ := bind_eq_ok h
  obtain ⟨qs, hqs, h⟩ := bind_eq_ok h
  cases h
  exact ⟨p, qs, hp, hqs, rfl⟩

/-- An input is written like another one exactly if its twin is written like the other one's. -/
theorem InputTwin.compact_iff {ids : Ids} (hids : ids.OneToOne) {f f' g g' : String × Host}
    (hf : InputTwin ids f f') (hg : InputTwin ids g g') (hname : f.1 = g.1) {p p' q q' : Plain}
    (hp : Identity.host f.2 = .ok p) (hp' : Identity.host f'.2 = .ok p')
    (hq : Identity.host g.2 = .ok q) (hq' : Identity.host g'.2 = .ok q') :
    compact p = compact q ↔ compact p' = compact q' := by
  cases hf with
  | same hne =>
      cases hg with
      | same =>
          obtain rfl := Except.ok.inj (hp.symm.trans hp')
          obtain rfl := Except.ok.inj (hq.symm.trans hq')
          exact Iff.rfl
      | sketch => exact absurd hname hne
  | @sketch s t hst =>
      cases hg with
      | same hne => exact absurd hname.symm hne
      | @sketch s' t' hst' =>
          obtain ⟨fs, hfs, -⟩ := Identity.sketch_eq_ok hp
          obtain ⟨gs, hgs, -⟩ := Identity.sketch_eq_ok hq
          have hfs' := hfs
          have hgs' := hgs
          rw [hst.bare] at hfs'
          rw [hst'.bare] at hgs'
          rw [Identity.compact_sketch_iff hp hq hfs hgs,
            Identity.compact_sketch_iff hp' hq' hfs' hgs', hids _ _ _ _ hst.id hst'.id]

theorem written_iff {ids : Ids} (hids : ids.OneToOne) {fs fs' gs gs' : List (String × Host)}
    (hf : Forall₂ (InputTwin ids) fs fs') (hg : Forall₂ (InputTwin ids) gs gs')
    (hnames : fs.map (·.1) = gs.map (·.1)) {ps ps' qs qs' : List (String × Plain)}
    (hp : inputFields fs = .ok ps) (hp' : inputFields fs' = .ok ps') (hq : inputFields gs = .ok qs)
    (hq' : inputFields gs' = .ok qs') : written ps = written qs ↔ written ps' = written qs' := by
  induction hf generalizing gs gs' ps ps' qs qs' with
  | nil =>
      cases hg with
      | nil =>
          cases hp
          cases hp'
          cases hq
          cases hq'
          exact Iff.rfl
      | cons => cases hnames
  | @cons f f' fs fs' hf hfs ih =>
      cases hg with
      | nil => cases hnames
      | @cons g g' gs gs' hg hgs =>
          obtain ⟨hname, hnames⟩ := List.cons.inj hnames
          have hname' : f'.1 = g'.1 := by cases hf <;> cases hg <;> exact hname
          obtain ⟨p, ps, hfp, hps, rfl⟩ := inputFields_cons hp
          obtain ⟨p', ps', hfp', hps', rfl⟩ := inputFields_cons hp'
          obtain ⟨q, qs, hgq, hqs, rfl⟩ := inputFields_cons hq
          obtain ⟨q', qs', hgq', hqs', rfl⟩ := inputFields_cons hq'
          simp only [written, List.map_cons, List.cons.injEq, Prod.mk.injEq, hname, hname',
            true_and]
          exact and_congr (hf.compact_iff hids hg hname hfp hfp' hgq hgq')
            (ih hgs hnames hps hps' hqs hqs')

/-! ### Commands -/

/-- The requests differ in the identifiers of their targets only. -/
inductive Request.Twin (ids : Ids) : Request → Request → Prop
  | startPath {p : Point} : Request.Twin ids (.startPath p) (.startPath p)
  | extendPath {a b : String} {p : Point} (h : ids a b) :
      Request.Twin ids (.extendPath a p) (.extendPath b p)
  | closePath {a b : String} (h : ids a b) : Request.Twin ids (.closePath a) (.closePath b)
  | extrude {a b : String} {distance : Number} (h : ids a b) :
      Request.Twin ids (.extrude a distance) (.extrude b distance)

/-- The commands come from calls that correspond and were made of twin inputs. -/
structure Command.Twin (R : Ranges) (code code' : String) (ids : Ids) (c d : Command) : Prop where
  range : R c.range d.range
  request : c.request.Twin ids d.request
  inputs : ∃ fs gs, fs.map (·.1) ∈ inputNames ∧ Forall₂ (InputTwin ids) fs gs ∧
    Identity.commandDocument code c.range (Builtin.inputs fs) = .ok c.content ∧
    Identity.commandDocument code' d.range (Builtin.inputs gs) = .ok d.content

/-- The identifiers of commands in the same places correspond. -/
def paired (cs ds : List Command) : Ids :=
  fun a b => (a, b) ∈ (cs.map Command.id).zip (ds.map Command.id)

/-- Commands of two runs: each is made from what the earlier ones have identified. -/
inductive Command.TwinAll (R : Ranges) (code code' : String) :
    List Command → List Command → Prop
  | nil : Command.TwinAll R code code' [] []
  | snoc {cs ds : List Command} {c d : Command} (h : Command.TwinAll R code code' cs ds)
      (hlast : c.Twin R code code' (paired cs ds) d) :
      Command.TwinAll R code code' (cs ++ [c]) (ds ++ [d])

theorem Request.Twin.mono {ids ids' : Ids} (hle : ids.Le ids') {r r' : Request}
    (h : r.Twin ids r') : r.Twin ids' r' := by
  cases h with
  | startPath => exact .startPath
  | extendPath h => exact .extendPath (hle _ _ h)
  | closePath h => exact .closePath (hle _ _ h)
  | extrude h => exact .extrude (hle _ _ h)

theorem InputTwin.mono {ids ids' : Ids} (hle : ids.Le ids') {f g : String × Host}
    (h : InputTwin ids f g) : InputTwin ids' f g := by
  cases h with
  | same hname => exact .same hname
  | sketch h => exact .sketch (h.mono hle)

section

variable {R : Ranges} {code code' : String}

theorem Command.Twin.mono {ids ids' : Ids} (hle : ids.Le ids') {c d : Command}
    (h : c.Twin R code code' ids d) : c.Twin R code code' ids' d := by
  obtain ⟨fs, gs, hnames, hinputs, hc, hd⟩ := h.inputs
  exact ⟨h.range, h.request.mono hle, fs, gs, hnames, hinputs.imp fun _ _ => .mono hle, hc, hd⟩

theorem Command.TwinAll.length_eq {cs ds : List Command} (h : Command.TwinAll R code code' cs ds) :
    cs.length = ds.length := by
  induction h with
  | nil => rfl
  | snoc _ _ ih => simp only [List.length_append, ih, List.length_cons, List.length_nil]

theorem paired_snoc {cs ds : List Command} {c d : Command} (h : cs.length = ds.length)
    (a b : String) : paired (cs ++ [c]) (ds ++ [d]) a b ↔ paired cs ds a b ∨ a = c.id ∧ b = d.id := by
  have hlength : (cs.map Command.id).length = (ds.map Command.id).length := by
    rw [List.length_map, List.length_map, h]
  simp only [paired, List.map_append, List.zip_append hlength, List.mem_append, List.map_cons,
    List.map_nil, List.zip_cons_cons, List.zip_nil_left, List.mem_singleton, Prod.mk.injEq]

theorem paired_le_snoc {cs ds : List Command} (c d : Command) (h : cs.length = ds.length) :
    (paired cs ds).Le (paired (cs ++ [c]) (ds ++ [d])) :=
  fun a b hab => (paired_snoc h a b).2 (.inl hab)

/-- Every pair of identifiers belongs to a pair of commands, which are twins. -/
theorem Command.TwinAll.exists_of_paired {cs ds : List Command}
    (h : Command.TwinAll R code code' cs ds) {a b : String} (hab : paired cs ds a b) :
    ∃ c d, c ∈ cs ∧ d ∈ ds ∧ a = c.id ∧ b = d.id ∧ c.Twin R code code' (paired cs ds) d := by
  induction h with
  | nil => cases hab
  | @snoc cs ds c d h hlast ih =>
      have hle := paired_le_snoc c d h.length_eq
      rcases (paired_snoc h.length_eq a b).1 hab with hab | ⟨rfl, rfl⟩
      · obtain ⟨c', d', hc, hd, ha, hb, htwin⟩ := ih hab
        exact ⟨c', d', List.mem_append_left _ hc, List.mem_append_left _ hd, ha, hb, htwin.mono hle⟩
      · exact ⟨c, d, by simp, by simp, rfl, rfl, hlast.mono hle⟩

/-! ### Contents and identifiers -/

/-- Ranges correspond one to one. -/
def Ranges.OneToOne (R : Ranges) : Prop := ∀ a b a' b', R a b → R a' b' → (a = a' ↔ b = b')

theorem inputNames_eq_of_perm {xs ys : List String} (hx : xs ∈ inputNames) (hy : ys ∈ inputNames)
    (h : xs.Perm ys) : xs = ys := by
  have hall : (inputNames.all fun xs => inputNames.all fun ys => !xs.isPerm ys || xs == ys) = true := by
    decide
  have hxy := List.all_eq_true.1 (List.all_eq_true.1 hall xs hx) ys hy
  simpa [List.isPerm_iff.2 h] using hxy

theorem nodup_of_mem_inputNames {xs : List String} (h : xs ∈ inputNames) : xs.Nodup := by
  have hall : (inputNames.all fun xs => decide xs.Nodup) = true := by decide
  exact of_decide_eq_true (List.all_eq_true.1 hall xs h)

theorem Forall₂.names_eq {ids : Ids} {fs gs : List (String × Host)}
    (h : Forall₂ (InputTwin ids) fs gs) : fs.map (·.1) = gs.map (·.1) := by
  induction h with
  | nil => rfl
  | cons h _ ih =>
      rw [List.map_cons, List.map_cons, ih]
      cases h <;> rfl

/-- Inputs are written alike if they have the same names and the items are written alike. -/
theorem compact_inputs_iff {fs gs : List (String × Host)} {ps qs : List (String × Plain)}
    (hp : inputFields fs = .ok ps) (hq : inputFields gs = .ok qs)
    (hf : fs.map (·.1) ∈ inputNames) (hg : gs.map (·.1) ∈ inputNames) :
    compact (.named ps) = compact (.named qs) ↔
      fs.map (·.1) = gs.map (·.1) ∧ written ps = written qs := by
  have hps := Identity.names_inputFields hp
  have hqs := Identity.names_inputFields hq
  constructor
  · intro h
    have hperm := Document.names_perm_of_compact_eq h
    rw [hps, hqs] at hperm
    have hnames := inputNames_eq_of_perm hf hg hperm
    refine ⟨hnames, Document.items_eq_of_compact_eq ?_ ?_ h⟩
    · rw [hps, hqs, hnames]
    · rw [hps]
      exact nodup_of_mem_inputNames hf
  · rintro ⟨-, h⟩
    exact Document.compact_named_congr h

/-- Two commands have the same content exactly if their twins have. -/
theorem Command.Twin.content_iff {ids : Ids} (hids : ids.OneToOne) (hR : R.OneToOne)
    {c d c' d' : Command} (h : c.Twin R code code' ids d) (h' : c'.Twin R code code' ids d') :
    c.content = c'.content ↔ d.content = d'.content := by
  obtain ⟨fs, gs, hnames, hinputs, hc, hd⟩ := h.inputs
  obtain ⟨fs', gs', hnames', hinputs', hc', hd'⟩ := h'.inputs
  obtain ⟨ps, hps, -⟩ := Identity.commandDocument_eq_ok hc
  obtain ⟨qs, hqs, -⟩ := Identity.commandDocument_eq_ok hd
  obtain ⟨ps', hps', -⟩ := Identity.commandDocument_eq_ok hc'
  obtain ⟨qs', hqs', -⟩ := Identity.commandDocument_eq_ok hd'
  have heq := Forall₂.names_eq hinputs
  have heq' := Forall₂.names_eq hinputs'
  rw [Identity.commandDocument_eq_iff hc hc' hps hps', Identity.commandDocument_eq_iff hd hd' hqs hqs',
    hR _ _ _ _ h.range h'.range, compact_inputs_iff hps hps' hnames hnames',
    compact_inputs_iff hqs hqs' (heq ▸ hnames) (heq' ▸ hnames'), ← heq, ← heq']
  exact and_congr_right fun _ => and_congr_right fun hsame =>
    written_iff hids hinputs hinputs' hsame hps hqs hps' hqs'

/-- The contents of commands are known from their identifiers. -/
def ToldApart (cs : List Command) : Prop :=
  ∀ c ∈ cs, ∀ c' ∈ cs, c.id = c'.id → c.content = c'.content

theorem ToldApart.of_append {cs cs' : List Command} (h : ToldApart (cs ++ cs')) : ToldApart cs :=
  fun c hc c' hc' => h c (List.mem_append_left _ hc) c' (List.mem_append_left _ hc')

theorem ToldApart.id_eq_iff {cs : List Command} (h : ToldApart cs) {c c' : Command} (hc : c ∈ cs)
    (hc' : c' ∈ cs) : c.id = c'.id ↔ c.content = c'.content :=
  ⟨h c hc c' hc', fun heq => congrArg Identity.ofDocument heq⟩

theorem toldApart_of_length_le_one {cs : List Command} (h : cs.length ≤ 1) : ToldApart cs := by
  match cs with
  | [] => exact nofun
  | [c] =>
      intro a ha b hb _
      rw [List.mem_singleton.1 ha, List.mem_singleton.1 hb]
  | _ :: _ :: _ => exact absurd h (by simp)

/-- Identifiers of two runs correspond one to one, as far as contents are told apart by them. -/
theorem Command.TwinAll.oneToOne (hR : R.OneToOne) {cs ds : List Command}
    (h : Command.TwinAll R code code' cs ds) (hcs : ToldApart cs) (hds : ToldApart ds) :
    (paired cs ds).OneToOne := by
  induction h with
  | nil => exact fun _ _ _ _ hab => nomatch hab
  | @snoc cs ds c d h hlast ih =>
      have hold := ih hcs.of_append hds.of_append
      -- The last command has the identifier of an earlier one exactly if the same is true of its twin.
      have hnew (a b : String) (hab : paired cs ds a b) : c.id = a ↔ d.id = b := by
        obtain ⟨c', d', hc', hd', rfl, rfl, htwin⟩ := h.exists_of_paired hab
        rw [hcs.id_eq_iff (by simp) (List.mem_append_left _ hc'),
          hds.id_eq_iff (by simp) (List.mem_append_left _ hd')]
        exact hlast.content_iff hold hR htwin
      intro a b a' b' hab hab'
      rcases (paired_snoc h.length_eq a b).1 hab with hab | ⟨rfl, rfl⟩
      · rcases (paired_snoc h.length_eq a' b').1 hab' with hab' | ⟨rfl, rfl⟩
        · exact hold a b a' b' hab hab'
        · rw [eq_comm, hnew a b hab, eq_comm]
      · rcases (paired_snoc h.length_eq a' b').1 hab' with hab' | ⟨rfl, rfl⟩
        · exact hnew a' b' hab'
        · exact iff_of_true rfl rfl

end

/-! ### Renaming -/

/-- A list of pairs of texts in one to one correspondence is followed by a permutation of all texts. -/
theorem exists_perm_of_pairs (pairs : List (String × String))
    (h : ∀ p ∈ pairs, ∀ q ∈ pairs, p.1 = q.1 ↔ p.2 = q.2) :
    ∃ f : Equiv.Perm String, ∀ p ∈ pairs, f p.1 = p.2 := by
  induction pairs with
  | nil => exact ⟨Equiv.refl _, nofun⟩
  | cons p pairs ih =>
      obtain ⟨f, hf⟩ := ih fun q hq r hr => h q (.tail _ hq) r (.tail _ hr)
      -- Correct the image of the first member; the images of the others stay.
      refine ⟨f.trans (Equiv.swap (f p.1) p.2), fun q hq => ?_⟩
      have hswap : Equiv.swap (f p.1) p.2 (f p.1) = p.2 := Equiv.swap_apply_left _ _
      rw [Equiv.trans_apply]
      by_cases heq : q.1 = p.1
      · rw [heq, hswap, (h q hq p (.head _)).1 heq]
      · have hq : q ∈ pairs := (List.mem_cons.1 hq).resolve_left fun hqp => heq (by rw [hqp])
        have hne : q.2 ≠ p.2 := fun h2 => heq ((h q (.tail _ hq) p (.head _)).2 h2)
        have hne' : f q.1 ≠ f p.1 := fun h1 => heq (f.injective h1)
        rw [Equiv.swap_apply_of_ne_of_ne hne' (by rw [hf q hq]; exact hne), hf q hq]

/-- Identifiers in one to one correspondence are renamed by an injective function. -/
theorem exists_renaming {cs ds : List Command} (h : (paired cs ds).OneToOne) :
    ∃ f : String → String, Function.Injective f ∧ (paired cs ds).Follows f := by
  obtain ⟨f, hf⟩ := exists_perm_of_pairs ((cs.map Command.id).zip (ds.map Command.id))
    fun p hp q hq => h p.1 p.2 q.1 q.2 hp hq
  exact ⟨f, f.injective, fun a b hab => hf (a, b) hab⟩

/-- The request with the identifiers of its target renamed. -/
def Request.rename (f : String → String) : Request → Request
  | .startPath p => .startPath p
  | .extendPath path p => .extendPath (f path) p
  | .closePath path => .closePath (f path)
  | .extrude target distance => .extrude (f target) distance

theorem Request.Twin.rename_eq {ids : Ids} {f : String → String} (hf : ids.Follows f)
    {r r' : Request} (h : r.Twin ids r') : r.rename f = r' := by
  cases h with
  | startPath => rfl
  | extendPath h => rw [Request.rename, hf _ _ h]
  | closePath h => rw [Request.rename, hf _ _ h]
  | extrude h => rw [Request.rename, hf _ _ h]

/-- Twin commands are the same once identifiers are renamed. -/
theorem Command.TwinAll.rename_eq {R : Ranges} {code code' : String} {cs ds : List Command}
    (h : Command.TwinAll R code code' cs ds) {f : String → String}
    (hf : (paired cs ds).Follows f) :
    (cs.map fun c => (f c.id, c.request.rename f)) = ds.map fun d => (d.id, d.request) := by
  induction h with
  | nil => rw [List.map_nil, List.map_nil]
  | @snoc cs ds c d h hlast ih =>
      have hle := paired_le_snoc c d h.length_eq
      have hid : f c.id = d.id := hf _ _ ((paired_snoc h.length_eq _ _).2 (.inr ⟨rfl, rfl⟩))
      have hrequest := (hlast.mono hle).request.rename_eq hf
      rw [List.map_append, List.map_append, ih fun a b hab => hf a b (hle a b hab)]
      simp only [List.map_cons, List.map_nil, hid, hrequest]

end PartScript
