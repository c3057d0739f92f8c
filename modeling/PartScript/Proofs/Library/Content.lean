import PartScript.Proofs.Number.Written
import PartScript.Proofs.Pass.Identifiers

/-!
What the content of a command tells. The document that a command is identified by is written without
loss: it tells the script text, the range and every input, where numbers count as floats. Everything a
command asks for is made from these inputs. Only the distance of an extrusion is passed on as it was
given, so it is told up to rounding.
-/

namespace PartScript

open Document (compact)
open Identity (inputFields written)

namespace Identity

/-! ### Numbers -/

theorem number_eq_ok {n : Number} {p : Plain} (h : number n = .ok p) :
    ∃ x, n.toFloat? = some x ∧ p = .number (.float x) := by
  unfold number at h
  split at h
  · rename_i x hx
    cases h
    exact ⟨x, hx, rfl⟩
  · cases h

/-- Numbers that are written alike have the same float. -/
theorem number_inj {n n' : Number} {p p' : Plain} (h : number n = .ok p) (h' : number n' = .ok p')
    (hsame : compact p = compact p') : n.toFloat? = n'.toFloat? := by
  obtain ⟨x, hx, rfl⟩ := number_eq_ok h
  obtain ⟨x', hx', rfl⟩ := number_eq_ok h'
  rw [hx, hx', Layout.write_document_inj hsame]

/-- Rows that are written alike agree in what their items tell. -/
theorem mapM_inj {α β : Type} {f : α → Except Fault Plain} {g : α → β}
    (hf : ∀ {a a' p p'}, f a = .ok p → f a' = .ok p' → compact p = compact p' → g a = g a')
    {as as' : List α} {ps ps' : List Plain} (h : as.mapM f = .ok ps) (h' : as'.mapM f = .ok ps')
    (hsame : Document.compactItems ps = Document.compactItems ps') : as.map g = as'.map g := by
  induction as generalizing as' ps ps' with
  | nil =>
      cases h
      cases as' with
      | nil => rfl
      | cons a' as' =>
          rw [List.mapM_cons] at h'
          obtain ⟨p', -, h'⟩ := bind_eq_ok h'
          obtain ⟨rest', -, h'⟩ := bind_eq_ok h'
          cases h'
          cases hsame
  | cons a as ih =>
      rw [List.mapM_cons] at h
      obtain ⟨p, hp, h⟩ := bind_eq_ok h
      obtain ⟨rest, hrest, h⟩ := bind_eq_ok h
      cases h
      cases as' with
      | nil =>
          cases h'
          cases hsame
      | cons a' as' =>
          rw [List.mapM_cons] at h'
          obtain ⟨p', hp', h'⟩ := bind_eq_ok h'
          obtain ⟨rest', hrest', h'⟩ := bind_eq_ok h'
          cases h'
          obtain ⟨hfirst, hothers⟩ := List.cons.inj hsame
          rw [List.map_cons, List.map_cons, hf hp hp' hfirst, ih hrest hrest' hothers]

theorem numbers_inj {ns ns' : List Number} {p p' : Plain} (h : numbers ns = .ok p)
    (h' : numbers ns' = .ok p') (hsame : compact p = compact p') :
    ns.map Number.toFloat? = ns'.map Number.toFloat? := by
  obtain ⟨ps, hps, h⟩ := bind_eq_ok h
  obtain ⟨ps', hps', h'⟩ := bind_eq_ok h'
  cases h
  cases h'
  exact mapM_inj number_inj hps hps' (Document.compactItems_eq_of_compact_eq hsame)

theorem hosts_numbers (ns : List Number) : hosts (ns.map .number) = ns.mapM number := by
  induction ns with
  | nil => rfl
  | cons n ns ih => rw [List.map_cons, hosts, ih, List.mapM_cons, host]

theorem host_pointInput (p : Point) : host (Builtin.pointInput p) = numbers p.coordinates := by
  rw [Builtin.pointInput, host, hosts_numbers, numbers]

/-- Points of floats are told by their identifying forms. -/
theorem pointInput_inj {x y x' y' : Float} {p p' : Plain}
    (h : host (Builtin.pointInput ⟨.float x, .float y⟩) = .ok p)
    (h' : host (Builtin.pointInput ⟨.float x', .float y'⟩) = .ok p')
    (hsame : compact p = compact p') : x = x' ∧ y = y' := by
  rw [host_pointInput] at h h'
  have hfloats := numbers_inj h h' hsame
  simp only [Point.coordinates, List.map_cons, List.map_nil, Number.toFloat?, List.cons.injEq,
    Option.some.injEq, and_true] at hfloats
  exact hfloats

/-! ### Sketches -/

/-- The floats of a point. -/
def floats (p : Point) : List (Option Float) := p.coordinates.map Number.toFloat?

theorem segment_stop_inj {s s' : Segment} {p p' : Plain} (h : segment s = .ok p)
    (h' : segment s' = .ok p') (hsame : compact p = compact p') : floats s.stop = floats s'.stop := by
  obtain ⟨start, -, h⟩ := bind_eq_ok h
  obtain ⟨stop, hstop, h⟩ := bind_eq_ok h
  obtain ⟨start', -, h'⟩ := bind_eq_ok h'
  obtain ⟨stop', hstop', h'⟩ := bind_eq_ok h'
  cases h
  cases h'
  have hnodup : ["from", "to", "name"].Nodup := by decide
  have hitems := Document.items_eq_of_compact_eq (by rfl) (by exact hnodup) hsame
  simp only [List.map_cons, List.cons.injEq, Prod.mk.injEq, true_and] at hitems
  exact numbers_inj hstop hstop' hitems.2.1

/-- The identifier of a sketch and the floats of its last corner are told by its identifying form. -/
theorem sketch_inj {s s' : Sketch} {p p' : Plain} (h : sketch s = .ok p) (h' : sketch s' = .ok p')
    (hsame : compact p = compact p') : s.id = s'.id ∧ floats s.lastPoint = floats s'.lastPoint := by
  obtain ⟨start, hstart, h⟩ := bind_eq_ok h
  obtain ⟨segments, hsegments, h⟩ := bind_eq_ok h
  obtain ⟨position, -, h⟩ := bind_eq_ok h
  obtain ⟨rotation, -, h⟩ := bind_eq_ok h
  obtain ⟨start', hstart', h'⟩ := bind_eq_ok h'
  obtain ⟨segments', hsegments', h'⟩ := bind_eq_ok h'
  obtain ⟨position', -, h'⟩ := bind_eq_ok h'
  obtain ⟨rotation', -, h'⟩ := bind_eq_ok h'
  cases h
  cases h'
  have hnodup : ["id", "start", "segments", "position", "rotation"].Nodup := by decide
  have hitems := Document.items_eq_of_compact_eq (by rfl) (by exact hnodup) hsame
  simp only [List.map_cons, List.cons.injEq, Prod.mk.injEq, true_and] at hitems
  obtain ⟨hid, hstarts, hrow, -⟩ := hitems
  have hpoint : floats s.start = floats s'.start := numbers_inj hstart hstart' hstarts
  have hstops : s.segments.map (fun seg => floats seg.stop) =
      s'.segments.map fun seg => floats seg.stop :=
    mapM_inj segment_stop_inj hsegments hsegments' (Document.compactItems_eq_of_compact_eq hrow)
  refine ⟨Document.quote_inj hid, ?_⟩
  have hlast : ∀ s : Sketch, floats s.lastPoint =
      ((s.segments.map fun seg => floats seg.stop).getLast?).getD (floats s.start) := by
    intro s
    rw [Sketch.lastPoint, List.getLast?_map]
    cases s.segments.getLast? <;> rfl
  rw [hlast, hlast, hstops, hpoint]

end Identity

/-! ### Requests -/

/-- The requests are the same, except that the distances of extrusions may differ where they are too
large for every whole number to be a float. -/
inductive Request.Alike : Request → Request → Prop
  | startPath (start : Point) : Request.Alike (.startPath start) (.startPath start)
  | extendPath (path : String) (stop : Point) :
      Request.Alike (.extendPath path stop) (.extendPath path stop)
  | closePath (path : String) : Request.Alike (.closePath path) (.closePath path)
  | extrude (target : String) {distance distance' : Number}
      (hfloat : distance.toFloat? = distance'.toFloat?)
      (hexact : distance.IsExact → distance'.IsExact →
        distance = distance' ∨ distance.same distance' = true) :
      Request.Alike (.extrude target distance) (.extrude target distance')

theorem Number.add?_float (n : Number) (x : Float) :
    n.add? (.float x) = n.toFloat?.map fun y => .float (y + x) := by
  cases n with
  | int i =>
      have hadd : (Number.int i).add? (.float x) =
          (Number.int i).toFloat? >>= fun y => some (.float (y + x)) := rfl
      rw [hadd]
      cases (Number.int i).toFloat? <;> rfl
  | float y => rfl

namespace Builtin

theorem Asks.names_mem {r : Request} {fields : List (String × Host)} (h : Asks r fields) :
    fields.map (·.1) ∈ Identity.inputNames := by
  cases h with
  | extend hleg => cases hleg <;> simp [Identity.inputNames]
  | start | close | extrude => simp [Identity.inputNames]

/-- The first of the inputs is told, and so are the others. -/
theorem written_cons {f f' : String × Host} {fields fields' : List (String × Host)}
    {ps ps' : List (String × Plain)} (h : inputFields (f :: fields) = .ok ps)
    (h' : inputFields (f' :: fields') = .ok ps') (hsame : written ps = written ps') :
    ∃ p p' qs qs', Identity.host f.2 = .ok p ∧ Identity.host f'.2 = .ok p' ∧ compact p = compact p' ∧
      inputFields fields = .ok qs ∧ inputFields fields' = .ok qs' ∧ written qs = written qs' := by
  obtain ⟨p, qs, hp, hqs, rfl⟩ := inputFields_cons h
  obtain ⟨p', qs', hp', hqs', rfl⟩ := inputFields_cons h'
  obtain ⟨hfirst, hothers⟩ := List.cons.inj hsame
  exact ⟨p, p', qs, qs', hp, hp', (Prod.mk.inj hfirst).2, hqs, hqs', hothers⟩

/-- Lines that are written alike end at the same point of the same path. -/
theorem Leg.alike {s s' : Sketch} {tag tag' : Option String} {stop stop' : Point}
    {fields fields' : List (String × Host)} (h : Leg s tag stop fields) (h' : Leg s' tag' stop' fields')
    (hnames : fields.map (·.1) = fields'.map (·.1)) {ps ps' : List (String × Plain)}
    (hps : inputFields fields = .ok ps) (hps' : inputFields fields' = .ok ps')
    (hsame : written ps = written ps') : s.id = s'.id ∧ stop = stop' := by
  cases h with
  | point =>
      cases h' with
      | point =>
          obtain ⟨p, p', qs, qs', hp, hp', hto, hqs, hqs', hrest⟩ := written_cons hps hps' hsame
          obtain ⟨q, q', -, -, hq, hq', hsketch, -, -, -⟩ := written_cons hqs hqs' hrest
          obtain ⟨rfl, rfl⟩ := Identity.pointInput_inj hp hp' hto
          exact ⟨(Identity.sketch_inj hq hq' hsketch).1, rfl⟩
      | offset => simp at hnames
  | @offset dx dy stop _ _ hx hy =>
      cases h' with
      | point => simp at hnames
      | @offset dx' dy' stop' _ _ hx' hy' =>
          obtain ⟨p, p', qs, qs', hp, hp', hdelta, hqs, hqs', hrest⟩ := written_cons hps hps' hsame
          obtain ⟨q, q', -, -, hq, hq', hsketch, -, -, -⟩ := written_cons hqs hqs' hrest
          obtain ⟨rfl, rfl⟩ := Identity.pointInput_inj hp hp' hdelta
          obtain ⟨hid, hlast⟩ := Identity.sketch_inj hq hq' hsketch
          -- The end of the line is computed from the floats of the last corner.
          simp only [Identity.floats, Point.coordinates, List.map_cons, List.map_nil, List.cons.injEq,
            and_true] at hlast
          rw [Number.add?_float, hlast.1, ← Number.add?_float, hx'] at hx
          rw [Number.add?_float, hlast.2, ← Number.add?_float, hy'] at hy
          refine ⟨hid, ?_⟩
          obtain ⟨x, y⟩ := stop
          obtain ⟨x', y'⟩ := stop'
          cases hx
          cases hy
          rfl

/-- Requests whose inputs are written alike are alike. -/
theorem Asks.alike {r r' : Request} {fields fields' : List (String × Host)} (h : Asks r fields)
    (h' : Asks r' fields') {ps ps' : List (String × Plain)} (hps : inputFields fields = .ok ps)
    (hps' : inputFields fields' = .ok ps') (hsame : compact (.named ps) = compact (.named ps')) :
    r.Alike r' := by
  -- The names of the inputs tell the kinds of requests apart, their values the requests of a kind.
  obtain ⟨hnames, hwritten⟩ := (compact_inputs_iff hps hps' h.names_mem h'.names_mem).1 hsame
  cases h with
  | start x y =>
      cases h' with
      | start x' y' =>
          obtain ⟨p, p', -, -, hp, hp', hat, -, -, -⟩ := written_cons hps hps' hwritten
          obtain ⟨rfl, rfl⟩ := Identity.pointInput_inj hp hp' hat
          exact .startPath _
      | extend hleg' => cases hleg' <;> simp at hnames
      | close | extrude => simp at hnames
  | extend hleg =>
      cases h' with
      | start => cases hleg <;> simp at hnames
      | extend hleg' =>
          obtain ⟨hid, rfl⟩ := hleg.alike hleg' hnames hps hps' hwritten
          rw [hid]
          exact .extendPath _ _
      | close | extrude => cases hleg <;> simp at hnames
  | close s tag =>
      cases h' with
      | extend hleg' => cases hleg' <;> simp at hnames
      | start | extrude => simp at hnames
      | close s' tag' =>
          obtain ⟨p, p', -, -, hp, hp', hsketch, -, -, -⟩ := written_cons hps hps' hwritten
          rw [(Identity.sketch_inj hp hp' hsketch).1]
          exact .closePath _
  | extrude s distance =>
      cases h' with
      | extend hleg' => cases hleg' <;> simp at hnames
      | start | close => simp at hnames
      | extrude s' distance' =>
          obtain ⟨p, p', qs, qs', hp, hp', hlength, hqs, hqs', hrest⟩ := written_cons hps hps' hwritten
          obtain ⟨q, q', -, -, hq, hq', hsketch, -, -, -⟩ := written_cons hqs hqs' hrest
          have hfloat := Identity.number_inj hp hp' hlength
          rw [(Identity.sketch_inj hq hq' hsketch).1]
          exact .extrude _ hfloat fun hexact hexact' =>
            Number.eq_or_same_of_toFloat?_eq hexact hexact' hfloat

/-- The content of a command tells its script text, its range and what it asks for. -/
theorem Makes.alike {code code' : String} {c c' : Command} (h : Makes code c) (h' : Makes code' c')
    (hcontent : c.content = c'.content) :
    code = code' ∧ c.range = c'.range ∧ c.request.Alike c'.request := by
  obtain ⟨fields, hasks, hdocument⟩ := h
  obtain ⟨fields', hasks', hdocument'⟩ := h'
  obtain ⟨ps, hps, heq⟩ := Identity.commandDocument_eq_ok hdocument
  obtain ⟨ps', hps', heq'⟩ := Identity.commandDocument_eq_ok hdocument'
  rw [heq, heq'] at hcontent
  obtain ⟨hcode, hrange, hinputs⟩ := Identity.documentOf_eq_iff.1 hcontent
  exact ⟨hcode, hrange, hasks.alike hasks' hps hps' hinputs⟩

end Builtin

/-- Commands of any runs that share an identifier come from the same range and ask for the same thing,
as far as contents are told apart by identifiers. Only distances of extrusions beyond the whole numbers
that floats hold exactly may differ; they have the same float. -/
theorem Pass.run_request_of_id (p p' : Pass) (store store' : Store) (scope scope' : Nat)
    (script script' : Node) {c c' : Command} (hc : c ∈ (p.run store scope script).sent)
    (hc' : c' ∈ (p'.run store' scope' script').sent) (htold : ToldApart [c, c']) (hid : c.id = c'.id) :
    c.range = c'.range ∧ c.request.Alike c'.request := by
  have hmade := (p.run_sending store scope script).1 c hc
  have hmade' := (p'.run_sending store' scope' script').1 c' hc'
  exact (hmade.alike hmade' (htold c (by simp) c' (by simp) hid)).2

/-- A number that is bound to five in one run and to the float five in another one. -/
theorem Pass.run_request_of_id_five :
    ∃ code script c c',
      code = "startSketchAt([w, 1])" ∧ parse code none = .ok script ∧
      c ∈ ((Pass.under .standard .standard code).run
        ⟨#[⟨none, "root", [("w", .ofNumber (.int 5) [])]⟩]⟩ 0 script).sent ∧
      c' ∈ ((Pass.under .standard .standard code).run
        ⟨#[⟨none, "root", [("w", .ofNumber (.float 5) [])]⟩]⟩ 0 script).sent ∧
      c.id = c'.id ∧ c.range = c'.range ∧ c.request.Alike c'.request := by
  obtain ⟨code, hcode⟩ : ∃ code, code = "startSketchAt([w, 1])" := ⟨_, rfl⟩
  have hchecked : ((parse code none).toOption.any fun script => decide
      (((Pass.under .standard .standard code).run
          ⟨#[⟨none, "root", [("w", .ofNumber (.int 5) [])]⟩]⟩ 0 script).sent.map
            (fun c => (c.range, c.request)) = [(⟨0, 21⟩, .startPath ⟨.float 5, .float 1⟩)] ∧
        ((Pass.under .standard .standard code).run
          ⟨#[⟨none, "root", [("w", .ofNumber (.float 5) [])]⟩]⟩ 0 script).sent.map
            (fun c => (c.range, c.request)) = [(⟨0, 21⟩, .startPath ⟨.float 5, .float 1⟩)])) =
      true := by
    rw [hcode]
    decide +kernel
  obtain ⟨script, hscript, hchecked⟩ := exists_of_any_toOption hchecked
  obtain ⟨hsent, hsent'⟩ := of_decide_eq_true hchecked
  obtain ⟨c, hsent, hends⟩ := List.map_eq_singleton_iff.1 hsent
  obtain ⟨c', hsent', hends'⟩ := List.map_eq_singleton_iff.1 hsent'
  obtain ⟨hrange, hrequest⟩ := Prod.mk.inj hends
  obtain ⟨hrange', hrequest'⟩ := Prod.mk.inj hends'
  have hc := hsent ▸ List.mem_singleton_self c
  have hc' := hsent' ▸ List.mem_singleton_self c'
  have hsame : c = c' := ((Pass.run_sending _ _ _ _).1 c hc).eq_of_start
    ((Pass.run_sending _ _ _ _).1 c' hc') (hrange.trans hrange'.symm) hrequest
    (hrequest.trans hrequest'.symm)
  have hid : c.id = c'.id := congrArg Command.id hsame
  refine ⟨code, script, c, c', hcode, hscript, hc, hc', hid, ?_⟩
  exact Pass.run_request_of_id _ _ _ _ _ _ _ _ hc hc' (hsame ▸ toldApart_pair c) hid

end PartScript
