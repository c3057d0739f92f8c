import PartScript.Proofs.Pass.Upkeep
import PartScript.Proofs.Twin.Command

/-!
Which commands of a pass share an identifier. Identifiers are made from the script text, the range of
the call and its inputs, so two commands share one exactly if a call is made again with the same
inputs. A call that stands outside functions is made once at most; a call in a function is made as
often as the function is called.
-/

namespace PartScript

/-- The ranges of the calls that stand in a function. -/
def Part.calls : Part → List Range
  | .function c => Node.callsAll c.body
  | .number _ | .sketch _ | .extrusion _ | .segment _ | .wall _ => []

/-- The ranges of the calls that stand in functions that are bound already. -/
def Store.functionCalls (s : Store) : List Range := s.parts.flatMap Part.calls

/-- Commands are made by the library, and functions send from given ranges only. -/
def sending (code : String) (ranges : List Range) : Upkeep where
  log sent := ∀ c ∈ sent, Builtin.Makes code c
  part _ part := ∀ r ∈ part.calls, ranges.contains r = true
  inner := ranges.contains

theorem sending_lawful (code : String) (ranges : List Range) : (sending code ranges).Lawful code where
  later h _ := h
  number _ _ := ⟨nofun, nofun⟩
  function := Iff.rfl
  run := by
    intro mark log args e hlog hargs h
    refine ⟨fun c hc => ?_, ?_⟩
    · rcases List.mem_append.1 hc with hc | hc
      · exact hlog c hc
      · exact (h.sent (Option.mem_toList.1 hc)).2
    · -- Only functions that are shown were there before; everything else holds no functions.
      have hquiet : ∀ {part : Part}, part.calls = [] → (sending code ranges).part log part :=
        fun hpart r hr => by rw [hpart] at hr; cases hr
      cases h with
      | shows hshown =>
          subst hshown
          intro part hpart
          rcases List.mem_append.1 hpart with hpart | hpart
          · exact hargs part (List.mem_append_left _ hpart)
          · exact hargs part hpart
      | calculates | starts | draws | closes | extrudes =>
          intro part hpart
          rw [List.mem_singleton.1 hpart]
          exact hquiet rfl
      | finds =>
          intro part hpart
          rcases List.mem_append.1 hpart with hpart | hpart
          · obtain ⟨n, -, rfl⟩ := Builtin.number_of_mem_place hpart
            exact hquiet rfl
          · cases hpart

/-- Every command of a run is made by the library for a call in the script text, and those that do not
come from functions are accounted for by the calls outside functions. -/
theorem Pass.run_sending (p : Pass) (store : Store) (scope : Nat) (script : Node) :
    (∀ c ∈ (p.run store scope script).sent, Builtin.Makes p.code c) ∧
      ((sending p.code (script.innerCalls ++ store.functionCalls)).outer
        (p.run store scope script).sent).Sublist script.outerCalls := by
  have hstore : (sending p.code (script.innerCalls ++ store.functionCalls)).Fits [] store.parts := by
    intro part hpart r hr
    have hcalls : r ∈ store.functionCalls := List.mem_flatMap.2 ⟨part, hpart, hr⟩
    exact List.contains_iff_mem.2 (List.mem_append_right _ hcalls)
  have hinner : Confined (sending p.code (script.innerCalls ++ store.functionCalls))
      script.innerCalls :=
    fun r hr => List.contains_iff_mem.2 (List.mem_append_left _ hr)
  obtain ⟨hlog, -, houter⟩ := p.kept_run (sending_lawful _ _) nofun hstore scope hinner
  exact ⟨hlog, houter⟩

/-- Commands whose ranges have no account but that of one call are one command. -/
theorem pairwise_of_nodup {cs : List Command} {inner : Range → Bool}
    (h : ((cs.map (·.range)).filter fun r => !inner r).Nodup) :
    cs.Pairwise fun c c' => c.range = c'.range → inner c.range = true := by
  induction cs with
  | nil => exact .nil
  | cons c cs ih =>
      cases hinner : inner c.range with
      | true =>
          rw [List.map_cons, List.filter_cons_of_neg (by simp [hinner])] at h
          exact .cons (fun _ _ _ => hinner) (ih h)
      | false =>
          rw [List.map_cons, List.filter_cons_of_pos (by simp [hinner])] at h
          obtain ⟨hnew, hrest⟩ := List.nodup_cons.1 h
          refine .cons (fun c' hc' heq => ?_) (ih hrest)
          refine absurd (List.mem_filter.2 ⟨?_, ?_⟩) hnew
          · rw [heq]
            exact List.mem_map_of_mem hc'
          · simp [hinner]

/-- The range of a command is known from its content. -/
theorem Builtin.Makes.range_eq {code : String} {c c' : Command} (h : Makes code c)
    (h' : Makes code c') (hcontent : c.content = c'.content) : c.range = c'.range := by
  obtain ⟨fields, -, hdocument⟩ := h
  obtain ⟨fields', -, hdocument'⟩ := h'
  obtain ⟨ps, -, hps⟩ := Identity.commandDocument_eq_ok hdocument
  obtain ⟨ps', -, hps'⟩ := Identity.commandDocument_eq_ok hdocument'
  rw [hps, hps'] at hcontent
  exact (Identity.documentOf_eq_iff.1 hcontent).2.1

/-- Two commands of one pass over a script that was read share an identifier only if they have the
same content, and so come from the same call with the same inputs, and that call stands in a function
of the script or in one that was bound before. -/
theorem Pass.run_ids_distinct_outside_functions (p : Pass) {file : Option String} {script : Node}
    (hscript : parse p.code file = .ok script) (store : Store) (scope : Nat)
    (hsent : ToldApart (p.run store scope script).sent) :
    (p.run store scope script).sent.Pairwise fun c c' => c.id = c'.id →
      c.content = c'.content ∧ c.range = c'.range ∧
        c.range ∈ script.innerCalls ++ store.functionCalls := by
  obtain ⟨hmade, houter⟩ := p.run_sending store scope script
  have hnodup := (calls_nodup_of_parse hscript).sublist (houter.trans script.outerCalls_sublist)
  refine (pairwise_of_nodup hnodup).imp_of_mem fun {c c'} hc hc' honce hid => ?_
  have hcontent := hsent c hc c' hc' hid
  have hrange := (hmade c hc).range_eq (hmade c' hc') hcontent
  exact ⟨hcontent, hrange, List.contains_iff_mem.1 (honce hrange)⟩

/-- The command that starts a path is known from the script text, its range and the point. -/
theorem Builtin.Makes.eq_of_start {code : String} {c c' : Command} (h : Makes code c)
    (h' : Makes code c') (hrange : c.range = c'.range) {start : Point}
    (hstart : c.request = .startPath start) (hsame : c.request = c'.request) : c = c' := by
  obtain ⟨content, range, request⟩ := c
  obtain ⟨content', range', request'⟩ := c'
  cases hrange
  cases hsame
  cases hstart
  obtain ⟨_, hasks, hdocument⟩ := h
  obtain ⟨_, hasks', hdocument'⟩ := h'
  cases hasks
  cases hasks'
  cases Except.ok.inj (hdocument.symm.trans hdocument')
  rfl

/-- A script that calls a function twice sends the same command twice. -/
theorem exists_run_repeated :
    ∃ code script c,
      code = "fn f = () => \x7breturn startSketchAt([0, 1])\x7d\nf()\nf()" ∧
      parse code none = .ok script ∧
      ((Pass.under .standard .standard code).run (Store.empty.openRoot "root").1 0 script).sent =
        [c, c] := by
  obtain ⟨code, hcode⟩ : ∃ code, code =
      "fn f = () => \x7breturn startSketchAt([0, 1])\x7d\nf()\nf()" := ⟨_, rfl⟩
  have hchecked : ((parse code none).toOption.any fun script => decide
      ((((Pass.under .standard .standard code).run
        (Store.empty.openRoot "root").1 0 script).sent.map fun c => (c.range, c.request)) =
          List.replicate 2 (⟨21, 42⟩, .startPath ⟨.float 0, .float 1⟩))) = true := by
    rw [hcode]
    decide +kernel
  obtain ⟨script, hscript, hchecked⟩ := exists_of_any_toOption hchecked
  have hmade := ((Pass.under .standard .standard code).run_sending
    (Store.empty.openRoot "root").1 0 script).1
  have hends := of_decide_eq_true hchecked
  have hlength := congrArg List.length hends
  rw [List.length_map, List.length_replicate] at hlength
  obtain ⟨c, c', hsent⟩ := List.length_eq_two.1 hlength
  rw [hsent] at hmade hends
  simp only [List.map_cons, List.map_nil, List.replicate, List.cons.injEq, Prod.mk.injEq,
    and_true] at hends
  obtain ⟨⟨hrange, hrequest⟩, hrange', hrequest'⟩ := hends
  have heq := (hmade c (by simp)).eq_of_start (hmade c' (by simp))
    (hrange.trans hrange'.symm) hrequest (hrequest.trans hrequest'.symm)
  exact ⟨code, script, c, hcode, hscript, by rw [hsent, heq]⟩

theorem toldApart_pair (c : Command) : ToldApart [c, c] := by
  intro a ha b hb _
  simp only [List.mem_cons, List.not_mem_nil, or_false, or_self] at ha hb
  rw [ha, hb]

/-- The identifiers of one pass need not be distinct, even if contents are told apart by them: a call in
a function that is called twice has one identifier. -/
theorem Pass.run_ids_not_nodup :
    ∃ code script,
      code = "fn f = () => \x7breturn startSketchAt([0, 1])\x7d\nf()\nf()" ∧
      parse code none = .ok script ∧
      ToldApart ((Pass.under .standard .standard code).run
        (Store.empty.openRoot "root").1 0 script).sent ∧
      ¬ (((Pass.under .standard .standard code).run
        (Store.empty.openRoot "root").1 0 script).sent.map Command.id).Nodup := by
  obtain ⟨code, script, c, hcode, hscript, hsent⟩ := exists_run_repeated
  refine ⟨code, script, hcode, hscript, ?_, ?_⟩
  · rw [hsent]
    exact toldApart_pair c
  · rw [hsent]
    simp

/-- In the same script, the call that is made twice stands in a function. -/
theorem Pass.run_ids_distinct_outside_functions_repeated :
    ∃ code script,
      code = "fn f = () => \x7breturn startSketchAt([0, 1])\x7d\nf()\nf()" ∧
      parse code none = .ok script ∧
      ToldApart ((Pass.under .standard .standard code).run
        (Store.empty.openRoot "root").1 0 script).sent ∧
      ((Pass.under .standard .standard code).run
        (Store.empty.openRoot "root").1 0 script).sent.Pairwise fun c c' => c.id = c'.id →
          c.content = c'.content ∧ c.range = c'.range ∧
            c.range ∈ script.innerCalls ++ (Store.empty.openRoot "root").1.functionCalls := by
  obtain ⟨code, script, c, hcode, hscript, hsent⟩ := exists_run_repeated
  have htold : ToldApart ((Pass.under .standard .standard code).run
      (Store.empty.openRoot "root").1 0 script).sent := by
    rw [hsent]
    exact toldApart_pair c
  exact ⟨code, script, hcode, hscript, htold,
    Pass.run_ids_distinct_outside_functions (.under .standard .standard code) hscript _ 0 htold⟩

end PartScript
