import Mathlib.Data.List.Nodup
import PartScript.Proofs.Node.Alike
import PartScript.Proofs.Node.Writable
import PartScript.Proofs.Twin.Evaluate

/-!
Reformatting a script does not change what it does. Scripts that are alike are twins: their calls
correspond in the order in which they end, and one to one, since no two calls of a script have the same
range. So their runs go in lockstep, and where the identifiers of a run tell its commands apart, one
renaming of identifiers takes the first run to the second.
-/

namespace PartScript

open List (Forall₂)

/-! ### Scripts that are alike -/

theorem forall₂_split {α β : Type} {r : α → β → Prop} {xs xs' : List α} {ys ys' : List β}
    (hlength : xs.length = ys.length) (h : Forall₂ r (xs ++ xs') (ys ++ ys')) :
    Forall₂ r xs ys ∧ Forall₂ r xs' ys' := by
  constructor
  · simpa [← hlength] using List.forall₂_take_append _ _ _ h
  · simpa [← hlength] using List.forall₂_drop_append _ _ _ h

namespace Node

mutual

/-- A tree without its marks has as many calls. -/
theorem length_calls_bare : (n : Node) → n.bare.calls.length = n.calls.length
  | program _ body => length_callsAll_bareAll body
  | declaration _ _ _ init => length_calls_bare init
  | statement _ e | giveBack _ e | unary _ _ e | property _ _ e | member _ e _ => length_calls_bare e
  | literal _ _ _ | identifier _ | hole _ => rfl
  | binary _ _ l r | index _ l r => by
      simp only [bare, calls, List.length_append, length_calls_bare l, length_calls_bare r]
  | call _ _ args => by
      simp only [bare, calls, List.length_append, length_callsAll_bareAll args, List.length_cons]
  | array _ es => length_callsAll_bareAll es
  | object _ ps => length_callsAll_bareAll ps
  | pipe _ stages => length_callsAll_bareAll stages
  | function _ _ body => length_callsAll_bareAll body

theorem length_callsAll_bareAll :
    (ns : List Node) → (callsAll (bareAll ns)).length = (callsAll ns).length
  | [] => rfl
  | n :: rest => by
      simp only [bareAll, callsAll, List.length_append, length_calls_bare n,
        length_callsAll_bareAll rest]

end

theorem length_calls_eq {n n' : Node} (h : n.bare = n'.bare) : n.calls.length = n'.calls.length := by
  rw [← length_calls_bare n, h, length_calls_bare]

theorem length_callsAll_eq {ns ns' : List Node} (h : bareAll ns = bareAll ns') :
    (callsAll ns).length = (callsAll ns').length := by
  rw [← length_callsAll_bareAll ns, h, length_callsAll_bareAll]

theorem names_eq_of_bare {is js : List Ident} (h : is.map Ident.bare = js.map Ident.bare) :
    is.map (·.name) = js.map (·.name) := by
  have hnames := congrArg (List.map (·.name)) h
  rw [List.map_map, List.map_map] at hnames
  exact hnames

variable {R : Ranges}

mutual

/-- Trees that say the same are twins if their calls correspond in order. -/
theorem twin_of_bare_eq : (n n' : Node) → n.bare = n'.bare → Forall₂ R n.calls n'.calls → Twin R n n'
  | program _ body, n', h, hcalls => by
      cases n' with
      | program _ body' =>
          obtain ⟨-, hbody⟩ := program.inj h
          exact .program (twinAll_of_bareAll_eq body body' hbody hcalls)
      | _ => cases h
  | declaration _ _ i e, n', h, hcalls => by
      cases n' with
      | declaration _ _ i' e' =>
          obtain ⟨-, rfl, hname, he⟩ := declaration.inj h
          exact .declaration (Ident.bare_eq_iff.1 hname) (twin_of_bare_eq e e' he hcalls)
      | _ => cases h
  | statement _ e, n', h, hcalls => by
      cases n' with
      | statement _ e' =>
          obtain ⟨-, he⟩ := statement.inj h
          exact .statement (twin_of_bare_eq e e' he hcalls)
      | _ => cases h
  | giveBack _ e, n', h, hcalls => by
      cases n' with
      | giveBack _ e' =>
          obtain ⟨-, he⟩ := giveBack.inj h
          exact .giveBack (twin_of_bare_eq e e' he hcalls)
      | _ => cases h
  | literal _ _ _, n', h, hcalls => by
      cases n' with
      | literal _ _ _ =>
          obtain ⟨-, rfl, rfl⟩ := literal.inj h
          exact .literal
      | _ => cases h
  | identifier i, n', h, hcalls => by
      cases n' with
      | identifier i' =>
          exact .identifier (Ident.bare_eq_iff.1 (identifier.inj h))
      | _ => cases h
  | binary _ _ l r, n', h, hcalls => by
      cases n' with
      | binary _ _ l' r' =>
          obtain ⟨-, rfl, hl, hr⟩ := binary.inj h
          obtain ⟨hcalls, hmore⟩ := forall₂_split (length_calls_eq hl) hcalls
          exact .binary (twin_of_bare_eq l l' hl hcalls) (twin_of_bare_eq r r' hr hmore)
      | _ => cases h
  | unary _ _ e, n', h, hcalls => by
      cases n' with
      | unary _ _ e' =>
          obtain ⟨-, rfl, he⟩ := unary.inj h
          exact .unary (twin_of_bare_eq e e' he hcalls)
      | _ => cases h
  | call _ i args, n', h, hcalls => by
      cases n' with
      | call _ i' args' =>
          obtain ⟨-, hname, hargs⟩ := call.inj h
          obtain ⟨hcalls, hself⟩ := forall₂_split (length_callsAll_eq hargs) hcalls
          cases hself with
          | cons hrange =>
              exact .call hrange (Ident.bare_eq_iff.1 hname) (twinAll_of_bareAll_eq args args' hargs hcalls)
      | _ => cases h
  | array _ es, n', h, hcalls => by
      cases n' with
      | array _ es' =>
          obtain ⟨-, hes⟩ := array.inj h
          exact .array (twinAll_of_bareAll_eq es es' hes hcalls)
      | _ => cases h
  | object _ ps, n', h, hcalls => by
      cases n' with
      | object _ ps' =>
          obtain ⟨-, hps⟩ := object.inj h
          exact .object (twinAll_of_bareAll_eq ps ps' hps hcalls)
      | _ => cases h
  | pipe _ stages, n', h, hcalls => by
      cases n' with
      | pipe _ stages' =>
          obtain ⟨-, hstages⟩ := pipe.inj h
          exact .pipe (twinAll_of_bareAll_eq stages stages' hstages hcalls)
      | _ => cases h
  | property _ i e, n', h, hcalls => by
      cases n' with
      | property _ i' e' =>
          obtain ⟨-, hname, he⟩ := property.inj h
          exact .property (Ident.bare_eq_iff.1 hname) (twin_of_bare_eq e e' he hcalls)
      | _ => cases h
  | member _ e i, n', h, hcalls => by
      cases n' with
      | member _ e' i' =>
          obtain ⟨-, he, hname⟩ := member.inj h
          exact .member (twin_of_bare_eq e e' he hcalls) (Ident.bare_eq_iff.1 hname)
      | _ => cases h
  | index _ e key, n', h, hcalls => by
      cases n' with
      | index _ e' key' =>
          obtain ⟨-, he, hkey⟩ := index.inj h
          obtain ⟨hcalls, hmore⟩ := forall₂_split (length_calls_eq he) hcalls
          exact .index (twin_of_bare_eq e e' he hcalls) (twin_of_bare_eq key key' hkey hmore)
      | _ => cases h
  | hole _, n', h, hcalls => by
      cases n' with
      | hole _ =>
          exact .hole
      | _ => cases h
  | function _ params body, n', h, hcalls => by
      cases n' with
      | function _ params' body' =>
          obtain ⟨-, hparams, hbody⟩ := function.inj h
          exact .function (names_eq_of_bare hparams) (twinAll_of_bareAll_eq body body' hbody hcalls)
      | _ => cases h

theorem twinAll_of_bareAll_eq : (ns ns' : List Node) → bareAll ns = bareAll ns' →
    Forall₂ R (callsAll ns) (callsAll ns') → TwinAll R ns ns'
  | [], [], _, _ => .nil
  | n :: rest, n' :: rest', h, hcalls => by
      obtain ⟨hn, hrest⟩ := List.cons.inj h
      obtain ⟨hcalls, hmore⟩ := forall₂_split (length_calls_eq hn) hcalls
      exact .cons (twin_of_bare_eq n n' hn hcalls) (twinAll_of_bareAll_eq rest rest' hrest hmore)
  | [], _ :: _, h, _ => nomatch h
  | _ :: _, [], h, _ => nomatch h

end

/-- The calls of two trees correspond in the order in which they end. -/
def callsInOrder (n n' : Node) : Ranges := fun a b => (a, b) ∈ n.calls.zip n'.calls

theorem twin_callsInOrder {n n' : Node} (h : n.bare = n'.bare) : Twin (callsInOrder n n') n n' :=
  twin_of_bare_eq n n' h (List.forall₂_iff_zip.2 ⟨length_calls_eq h, fun hab => hab⟩)

theorem oneToOne_callsInOrder {n n' : Node} (h : n.calls.Nodup) (h' : n'.calls.Nodup) :
    (callsInOrder n n').OneToOne := by
  intro a b a' b' hab hab'
  obtain ⟨i, hi, hab⟩ := List.getElem_of_mem hab
  obtain ⟨j, hj, hab'⟩ := List.getElem_of_mem hab'
  rw [List.getElem_zip, Prod.mk.injEq] at hab hab'
  obtain ⟨rfl, rfl⟩ := hab
  obtain ⟨rfl, rfl⟩ := hab'
  rw [h.getElem_inj_iff, h'.getElem_inj_iff]

end Node

/-! ### Stores without shapes and functions -/

/-- Is no value bound in the store made with a sketch, an extrusion or a function? Numbers, texts, truth
values and arrays of them are not. -/
def Store.isSimple (s : Store) : Bool :=
  s.scopes.toList.all fun scope => scope.bindings.all fun (_, v) => v.isSimple

theorem Store.twin_of_isSimple (R : Ranges) (ids : Ids) {s : Store} (h : s.isSimple = true) :
    s.Twin R ids s := by
  refine ⟨rfl, fun id => ?_⟩
  cases hscope : s.scope? id with
  | none => exact .none
  | some scope =>
      refine .some ⟨rfl, ?_⟩
      have hmem : scope ∈ s.scopes.toList := Array.mem_toList_iff.2 (Array.mem_of_getElem? hscope)
      have hall := List.all_eq_true.1 (List.all_eq_true.1 h scope hmem)
      refine List.forall₂_same.2 fun b hb => ⟨rfl, ?_⟩
      exact Value.twin_of_isSimple R ids b.2 (hall b hb)

/-! ### Outcomes -/

/-- Why something failed, apart from the place. It determines the family, the code and the message. -/
def Failure.reason : Failure → Cause ⊕ Fault
  | .diagnostic d => .inl d.cause
  | .fault f => .inr f

/-- What is seen of a value once the identifiers in it are renamed. -/
def Value.seen (f : String → String) (v : Value) : Plain := (v.rename f).toPlain

/-- The outcomes are the same up to places, once the identifiers of the first are renamed: the commands
with their identifiers, the values shown, the names and values bound in every scope, and the last value
or the reason of the failure. -/
structure Outcome.SameUpTo (f : String → String) (o o' : Outcome) : Prop where
  sent : (o.sent.map fun c => (f c.id, c.request.rename f)) = o'.sent.map fun c => (c.id, c.request)
  shown : o.shown.map (Value.seen f) = o'.shown.map Value.toPlain
  bound : ∀ id, ((o.store.localBindings id).map fun b => (b.1, b.2.seen f)) =
    (o'.store.localBindings id).map fun b => (b.1, b.2.toPlain)
  result : (o.result.map (Option.map (Value.seen f))).mapError Failure.reason =
    (o'.result.map (Option.map Value.toPlain)).mapError Failure.reason

section

variable {R : Ranges} {ids : Ids} {f : String → String}

theorem Value.Twin.seen_eq (hf : ids.Follows f) {v w : Value} (h : Value.Twin R ids v w) :
    v.seen f = w.toPlain := h.toPlain hf

theorem Value.TwinAll.seen_eq (hf : ids.Follows f) {vs ws : List Value}
    (h : Value.TwinAll R ids vs ws) : vs.map (Value.seen f) = ws.map Value.toPlain := by
  rw [← List.forall₂_eq_eq_eq]
  exact List.rel_map (fun _ _ hv => hv.seen_eq hf) h.forall₂

theorem Store.Twin.seen_eq (hf : ids.Follows f) {s t : Store} (h : s.Twin R ids t) (id : Nat) :
    ((s.localBindings id).map fun b => (b.1, b.2.seen f)) =
      (t.localBindings id).map fun b => (b.1, b.2.toPlain) :=
  h.matches.bound (fun _ _ hv => hv.seen_eq hf) id

theorem EndsAlike.seen_eq (hf : ids.Follows f) {x y : Except Stop (Option Value)}
    (h : EndsAlike (Pass.ResultTwin R ids) x y) (lines lines' : List String) :
    ((x.mapError (Stop.failure lines)).map (Option.map (Value.seen f))).mapError Failure.reason =
      ((y.mapError (Stop.failure lines')).map (Option.map Value.toPlain)).mapError
        Failure.reason := by
  cases h with
  | ok h =>
      cases h with
      | none => rfl
      | some hv => exact congrArg (fun p => Except.ok (some p)) (hv.seen_eq hf)
  | stop h => cases h <;> rfl

end

/-- Let two texts be read as scripts that are alike, and let the scripts be run under the same
configuration, with the same library, in the same scope of a store without shapes and functions. If the
identifiers of each run tell its commands apart, then the outcomes are the same up to places and one
injective renaming of identifiers. -/
theorem run_reformatted (config : Config) (library : Library) {code code' : String}
    {file file' : Option String} {script script' : Node} (hscript : parse code file = .ok script)
    (hscript' : parse code' file' = .ok script') (halike : script.alike script' = true)
    {store : Store} (hstore : store.isSimple = true) (scope : Nat)
    (hsent : ToldApart ((Pass.under config library code).run store scope script).sent)
    (hsent' : ToldApart ((Pass.under config library code').run store scope script').sent) :
    ∃ f : String → String, Function.Injective f ∧
      Outcome.SameUpTo f ((Pass.under config library code).run store scope script)
        ((Pass.under config library code').run store scope script') := by
  have hbare := (Node.alike_iff (writable_of_parse hscript) (writable_of_parse hscript')).1 halike
  have hcalls := Node.oneToOne_callsInOrder (calls_nodup_of_parse hscript)
    (calls_nodup_of_parse hscript')
  have htwin := Node.twin_callsInOrder hbare
  generalize Node.callsInOrder script script' = R at hcalls htwin
  obtain ⟨m, body, rfl, -⟩ := exists_program (writable_of_parse hscript)
  obtain ⟨m', body', rfl, -⟩ := exists_program (writable_of_parse hscript')
  cases htwin with
  | program hbody =>
      have hstart : World.Twin R code code' ⟨0, [], [], store⟩ ⟨0, [], [], store⟩ :=
        ⟨rfl, .nil, .nil, Store.twin_of_isSimple R _ hstore⟩
      obtain ⟨hworld, -, hends⟩ := Pass.runScript_twin scope hbody .none _ _ hstart (.refl _)
      obtain ⟨f, hinjective, hf⟩ := exists_renaming (hworld.sent.oneToOne hcalls hsent hsent')
      refine ⟨f, hinjective, ?_⟩
      exact ⟨hworld.sent.rename_eq hf, hworld.shown.seen_eq hf, hworld.store.seen_eq hf,
        hends.seen_eq hf _ _⟩

/-- A function that draws at a point with a number from the store is called; the second text has other
blanks, a comment and more lines. -/
theorem run_reformatted_drawing :
    ∃ code code' script script' store,
      code = "fn f = (x) => \x7breturn startSketchAt([x, w])\x7d\nshow(f(1))" ∧
      code' = "fn f=(x)=>\x7b return startSketchAt( [ x,w ] )\x7d // draw\n\nshow(\n  f(1) )" ∧
      parse code none = .ok script ∧ parse code' none = .ok script' ∧
      script.alike script' = true ∧ store.isSimple = true ∧
      ((Pass.under .standard .standard code).run store 0 script).sent.length = 1 ∧
      ((Pass.under .standard .standard code').run store 0 script').sent.length = 1 ∧
      ∃ f : String → String, Function.Injective f ∧
        Outcome.SameUpTo f ((Pass.under .standard .standard code).run store 0 script)
          ((Pass.under .standard .standard code').run store 0 script') := by
  obtain ⟨code, hcode⟩ : ∃ code, code =
      "fn f = (x) => \x7breturn startSketchAt([x, w])\x7d\nshow(f(1))" := ⟨_, rfl⟩
  obtain ⟨code', hcode'⟩ : ∃ code, code =
      "fn f=(x)=>\x7b return startSketchAt( [ x,w ] )\x7d // draw\n\nshow(\n  f(1) )" := ⟨_, rfl⟩
  obtain ⟨store, hstore⟩ : ∃ store : Store,
      store = ⟨#[⟨none, "root", [("w", .ofNumber (.int 3) [])]⟩]⟩ := ⟨_, rfl⟩
  have hsimple : store.isSimple = true := by
    rw [hstore]
    decide
  have hchecked : ((parse code none).toOption.any fun script =>
      (parse code' none).toOption.any fun script' => decide (script.alike script' = true ∧
        ((Pass.under .standard .standard code).run store 0 script).sent.length = 1 ∧
        ((Pass.under .standard .standard code').run store 0 script').sent.length = 1)) = true := by
    rw [hcode, hcode', hstore]
    decide +kernel
  obtain ⟨script, hscript, hchecked⟩ := exists_of_any_toOption hchecked
  obtain ⟨script', hscript', hchecked⟩ := exists_of_any_toOption hchecked
  obtain ⟨halike, hsent, hsent'⟩ := of_decide_eq_true hchecked
  refine ⟨code, code', script, script', store, hcode, hcode', hscript, hscript', halike, hsimple,
    hsent, hsent', ?_⟩
  exact run_reformatted .standard .standard hscript hscript' halike hsimple 0
    (toldApart_of_length_le_one (Nat.le_of_eq hsent)) (toldApart_of_length_le_one (Nat.le_of_eq hsent'))

end PartScript
