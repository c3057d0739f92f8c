import PartScript.Proofs.Node.Paths
import PartScript.Proofs.Pass.Escape
import PartScript.Proofs.Pass.Grounds
import PartScript.Proofs.Rename.Meaning

/-!
Provenance. If a script is run among nothing, then every value it binds, shows or ends with says where it
comes from, and what values and diagnostics say about this is true: origins lead to nodes of the script with
the same range, shapes have the ranges of calls, and diagnostics the places of nodes.
-/

namespace PartScript

/-- The ranges that a part of a value says it was drawn at. -/
def Part.ranges : Part → List Range
  | .number _ | .function _ => []
  | .sketch s => s.segments.map (·.range)
  | .extrusion e => e.walls.map (·.range)
  | .segment s => [s.range]
  | .wall w => [w.range]

/-- All ranges of segments and walls in a value. -/
def Value.ranges (v : Value) : List Range := v.parts.flatMap Part.ranges

/-- The value is bound in some scope, was shown, or is the value of the last statement. -/
def Outcome.Gives (o : Outcome) (v : Value) : Prop :=
  (∃ id scope name, o.store.scope? id = some scope ∧ (name, v) ∈ scope.bindings) ∨ v ∈ o.shown ∨
    o.last? = some v

/-- The value says where it comes from, and every origin in it and every range in its shapes is that of a
node, or a call, of the script. -/
structure Value.ComesFrom (script : Node) (v : Value) : Prop where
  traced : v.trail ≠ []
  origins : ∀ o ∈ v.origins, ∃ n, script.find (o.path.map Int.ofNat) = .ok n ∧ n.range = o.range
  ranges : ∀ r ∈ v.ranges, ∃ m callee args, .call m callee args ∈ script.walk ∧ m.span.range = r

/-- Everything goes back to the nodes of a script. -/
def groundsOf (script : Node) : Grounds where
  node n := n ∈ script.walk
  origin o := ∃ n ∈ script.walk, n.mark.origin = o
  range r := ∃ m callee args, .call m callee args ∈ script.walk ∧ m.span.range = r
  place span := ∃ n ∈ script.walk, n.span = span
  traced := True

theorem groundsOf_lawful (script : Node) : (groundsOf script).Lawful where
  origin h := ⟨_, h, rfl⟩
  range h := ⟨_, _, _, h, rfl⟩
  place h := ⟨_, h, rfl⟩

theorem Grounds.Allows.ranges {g : Grounds} {part : Part} (h : g.Allows part) :
    ∀ r ∈ part.ranges, g.range r := by
  cases part with
  | number | function => exact fun r hr => absurd hr List.not_mem_nil
  | sketch | extrusion => exact List.forall_mem_map.2 h
  | segment | wall => exact List.forall_mem_singleton.2 h

theorem Grounds.Good.comesFrom {source : String} {file : Option String} {script : Node}
    (hscript : parse source file = .ok script) {v : Value} (h : (groundsOf script).Good v) :
    v.ComesFrom script where
  traced := h.traced trivial
  origins o ho := by
    obtain ⟨n, hn, rfl⟩ := h.fits.origins o ho
    exact ⟨n, find_of_parse hscript hn, rfl⟩
  ranges r hr := by
    obtain ⟨part, hpart, hr⟩ := List.mem_flatMap.1 hr
    exact (h.fits.parts part hpart).ranges r hr

theorem Store.each_emptyRoot (P : Value → Prop) : Store.emptyRoot.Each P := by
  intro id scope hscope b hb
  match id with
  | 0 =>
      cases hscope
      cases hb
  | id + 1 => cases hscope

theorem Store.onlyNumbers_emptyRoot : Store.emptyRoot.OnlyNumbers :=
  fun _ hpart => absurd hpart List.not_mem_nil

namespace Pass

/-- What a script gives that is read from a text and run among nothing goes back to its nodes, and so does
where it stops. -/
theorem grounded_of_runScript (p : Pass) {source : String} {file : Option String} {m : Mark}
    {body : List Node} (hscript : parse source file = .ok (.program m body)) :
    (groundsOf (.program m body)).Holds ((p.runScript 0 body none).run ⟨0, [], [], .emptyRoot⟩).2 ∧
      Settles (groundsOf (.program m body)).Stops (fun v => (groundsOf (.program m body)).GoodAll v.toList)
        ((p.runScript 0 body none).run ⟨0, [], [], .emptyRoot⟩).1 := by
  have htree : (groundsOf (.program m body)).Tree (.program m body) := fun n hn => hn
  have hin : Node.enclosed false (.program m body) = true := (writable_of_parse hscript).enclosed
  have hstart : (groundsOf (.program m body)).Holds ⟨0, [], [], .emptyRoot⟩ :=
    ⟨Store.each_emptyRoot _, Grounds.goodAll_nil⟩
  exact (sound_runScript p (groundsOf_lawful _) 0 (fun _ => htree.child) hin none Grounds.goodAll_nil
    _ hstart).2

/-- A script that is read from a text and run among nothing gives values that say truly where they come
from. If it fails with a diagnostic then that has the place of a node, and with the usual library it fails
in no other way. -/
theorem provenance_of_run {source : String} {file : Option String} {script : Node}
    (hscript : parse source file = .ok script) (config : Config) (library : Library) (code : String) :
    (∀ v, ((Pass.under config library code).run .emptyRoot 0 script).Gives v → v.ComesFrom script) ∧
      ∀ failure, ((Pass.under config library code).run .emptyRoot 0 script).result = .error failure →
        (∀ d, failure = .diagnostic d → ∃ n ∈ script.walk, n.span = d.span) ∧
          (library = .standard → ∃ d, failure = .diagnostic d) := by
  obtain ⟨m, body, rfl, -⟩ := exists_program (writable_of_parse hscript)
  obtain ⟨hholds, hsettles⟩ := grounded_of_runScript (.under config library code) hscript
  constructor
  · intro v hv
    refine Grounds.Good.comesFrom hscript ?_
    rcases hv with ⟨id, scope, name, hscope, hmem⟩ | hshown | hlast
    · exact hholds.store id scope hscope _ hmem
    · exact hholds.shown v hshown
    · rw [last?_run] at hlast
      generalize (runScript _ 0 body none).run _ = r at hsettles hlast
      obtain ⟨result, w⟩ := r
      cases result with
      | error stop => cases hlast
      | ok last =>
          obtain rfl : last = some v := hlast
          exact hsettles v (List.mem_singleton_self v)
  · intro failure hfailure
    constructor
    · rintro d rfl
      rw [run_program, outcome] at hfailure
      obtain ⟨stop, hstop, heq⟩ := mapError_eq_error hfailure
      rw [hstop] at hsettles
      cases stop with
      | wrong cause span =>
          cases heq
          exact hsettles.1
      | tooDeep | fault => cases heq
    · rintro rfl
      cases failure with
      | diagnostic d => exact ⟨d, rfl⟩
      | fault f =>
          have hlong := longNumber_of_run Store.onlyNumbers_emptyRoot (fun _ hpart => hpart) hscript hfailure
          cases hlong with
          | mk hi => exact absurd hi List.not_mem_nil

/-- A function that draws is called, and a function that is not there. -/
theorem provenance_of_run_drawing :
    (∃ source script v,
      source = "fn side = (p) => \x7breturn lineTo(p, startSketchAt([0, 0]), \"a\")\x7d\nside([1, 2])" ∧
      parse source none = .ok script ∧
      ((Pass.under .standard .standard source).run .emptyRoot 0 script).last? = some v ∧
      v.ranges = [⟨25, 62⟩] ∧ v.ComesFrom script) ∧
    ∃ source script d n, source = "1 + f(2)" ∧ parse source none = .ok script ∧
      ((Pass.under .standard .standard source).run .emptyRoot 0 script).result = .error (.diagnostic d) ∧
      n ∈ script.walk ∧ n.span = d.span := by
  constructor
  · obtain ⟨source, hsource⟩ : ∃ source, source =
      "fn side = (p) => \x7breturn lineTo(p, startSketchAt([0, 0]), \"a\")\x7d\nside([1, 2])" := ⟨_, rfl⟩
    have hchecked : ((parse source none).toOption.any fun script =>
        ((Pass.under .standard .standard source).run .emptyRoot 0 script).last?.any fun v =>
          decide (v.ranges = [⟨25, 62⟩])) = true := by
      rw [hsource]
      decide +kernel
    obtain ⟨script, hscript, hchecked⟩ := exists_of_any_toOption hchecked
    obtain ⟨v, hv, hranges⟩ := (Option.any_eq_true _ _).1 hchecked
    exact ⟨source, script, v, hsource, hscript, hv, of_decide_eq_true hranges,
      (provenance_of_run hscript .standard .standard source).1 v (.inr (.inr hv))⟩
  · obtain ⟨source, hsource⟩ : ∃ source, source = "1 + f(2)" := ⟨_, rfl⟩
    have hchecked : ((parse source none).toOption.any fun script =>
        !((Pass.under .standard .standard source).run .emptyRoot 0 script).result.isOk) = true := by
      rw [hsource]
      decide +kernel
    obtain ⟨script, hscript, hchecked⟩ := exists_of_any_toOption hchecked
    cases hresult : ((Pass.under .standard .standard source).run .emptyRoot 0 script).result with
    | ok last =>
        rw [hresult] at hchecked
        cases hchecked
    | error failure =>
        obtain ⟨hplace, honly⟩ := (provenance_of_run hscript .standard .standard source).2 failure hresult
        obtain ⟨d, rfl⟩ := honly rfl
        obtain ⟨n, hn, hspan⟩ := hplace d rfl
        exact ⟨source, script, d, n, hsource, hscript, hresult, hn, hspan⟩

end Pass

end PartScript
