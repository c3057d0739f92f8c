import PartScript.Proofs.Library.Faults
import PartScript.Proofs.Pass.Frame

/-!
When the library sends. The effect of a call happens after all of the call has succeeded. Here the functions
that touch the engine are written the other way around: a command is sent as soon as it is made, after the
arguments have been checked and before there is a value. Both ways come to the same, because nothing that is
left to do after a command is made can fail. An extrusion still has its walls to place then, but its command
could only be made from numbers by which walls can be placed.
-/

namespace PartScript

/-! ### What is identified can be used -/

namespace Identity

theorem rounds_of_number {n : Number} {d : Plain} (h : number n = .ok d) : n.Rounds := by
  unfold number at h
  split at h
  · exact ⟨_, ‹_›⟩
  · cases h

theorem allRound_of_numbers {ns : List Number} {d : Plain} (h : numbers ns = .ok d) :
    AllRound ns := by
  obtain ⟨ds, hds, -⟩ := bind_eq_ok h
  intro n hn
  obtain ⟨d, hd⟩ := forall_of_mapM_eq_ok hds n hn
  exact rounds_of_number hd

theorem allRound_of_segment {s : Segment} {d : Plain} (h : segment s = .ok d) :
    AllRound s.numbers := by
  obtain ⟨start, hstart, h⟩ := bind_eq_ok h
  obtain ⟨stop, hstop, -⟩ := bind_eq_ok h
  exact fun n hn => (List.mem_append.1 hn).elim (allRound_of_numbers hstart n) (allRound_of_numbers hstop n)

/-- A sketch is identified by all of its numbers, so each of them rounds to a float. -/
theorem allRound_of_sketch {s : Sketch} {d : Plain} (h : sketch s = .ok d) : AllRound s.numbers := by
  obtain ⟨start, hstart, h⟩ := bind_eq_ok h
  obtain ⟨segments, hsegments, h⟩ := bind_eq_ok h
  obtain ⟨position, hposition, h⟩ := bind_eq_ok h
  obtain ⟨rotation, hrotation, -⟩ := bind_eq_ok h
  intro n hn
  rcases Sketch.mem_numbers.1 hn with (hn | ⟨a, ha, hn⟩) | hn | hn
  · exact allRound_of_numbers hstart n hn
  · obtain ⟨d, hd⟩ := forall_of_mapM_eq_ok hsegments a ha
    exact allRound_of_segment hd n hn
  · exact allRound_of_numbers hposition n hn
  · exact allRound_of_numbers hrotation n hn

theorem forall_of_hostEntries {fields : List (String × Host)} {ds : List (Key × Plain)}
    (h : hostEntries (fields.map fun f => (.text f.1, f.2)) = .ok ds) :
    ∀ f ∈ fields, ∃ d, host f.2 = .ok d := by
  induction fields generalizing ds with
  | nil => exact fun f hf => absurd hf List.not_mem_nil
  | cons f fields ih =>
      obtain ⟨name, -, h⟩ := bind_eq_ok h
      obtain ⟨d, hd, h⟩ := bind_eq_ok h
      obtain ⟨rest, hrest, -⟩ := bind_eq_ok h
      exact List.forall_mem_cons.2 ⟨⟨d, hd⟩, ih hrest⟩

/-- The inputs of a command that can be identified can each be. -/
theorem forall_of_commandDocument {code : String} {range : Range} {fields : List (String × Host)}
    {document : String} (h : commandDocument code range (Builtin.inputs fields) = .ok document) :
    ∀ f ∈ fields, ∃ d, host f.2 = .ok d := by
  obtain ⟨d, hd, -⟩ := bind_eq_ok h
  obtain ⟨ds, hds, -⟩ := bind_eq_ok hd
  exact forall_of_hostEntries hds

end Identity

namespace Builtin

/-- Once the command of an extrusion is made, its walls can be placed. -/
theorem exists_walls_of_command {site : CallSite} {distance : Number} {s : Sketch} {request : Request}
    {c : Command} (hdistance : distance.isFinite = true)
    (h : command site [("length", .number distance), ("sketch", .sketch s)] request = .ok c) :
    ∃ walls, Geometry.walls s distance = .ok walls := by
  obtain ⟨-, -, hdocument⟩ := command_eq_ok h
  obtain ⟨d, hd⟩ := Identity.forall_of_commandDocument hdocument ("sketch", .sketch s) (by simp)
  have hsketch : Identity.sketch s = .ok d := by rw [← hd, Identity.host]
  have hwalls := Geometry.walls_succeeds (Identity.allRound_of_sketch hsketch)
    (Number.rounds_of_isFinite hdistance)
  cases hresult : Geometry.walls s distance with
  | ok walls => exact ⟨walls, rfl⟩
  | error f =>
      rw [hresult] at hwalls
      exact hwalls.elim

/-! ### What a call sends -/

/-- The value that a function returns tells which command was sent for it. A sketch that is begun and an
extrusion have the identifier of their command; a sketch that goes on is the path of its command. -/
def Names (c : Command) : Builtin → Data → Prop
  | startSketchAt, .sketch s => c.id = s.id ∧ c.request = .startPath s.start
  | lineTo, .sketch s | line, .sketch s => c.request = .extendPath s.id s.lastPoint
  | close, .sketch s => c.request = .closePath s.id
  | extrude, .extrusion e => c.id = e.id ∧ c.request = .extrude e.sketchId e.height
  | _, _ => False

/-- The effect has a command from the range of the call, which the value tells. -/
def Sends (site : CallSite) (b : Builtin) (e : Effect) : Prop :=
  ∃ c, e.sent = some c ∧ c.range = site.mark.span.range ∧ Names c b e.value.data

section

variable {site : CallSite} {args : List Value} {e : Effect}

theorem sends_of_runStart {start : Value} (h : runStart site start = .ok e) :
    Sends site startSketchAt e := by
  obtain ⟨p, -, h⟩ := bind_eq_ok h
  obtain ⟨c, hc, h⟩ := bind_eq_ok h
  obtain ⟨hrange, hrequest, -⟩ := command_eq_ok hc
  cases h
  exact ⟨c, rfl, hrange, rfl, hrequest⟩

theorem exists_of_extended {target extra : Value} {s : Sketch} {stop : Point} {tag : Option String}
    {fields : List (String × Host)} (h : extended site target s stop tag fields extra = .ok e) :
    ∃ c s', e.sent = some c ∧ c.range = site.mark.span.range ∧ e.value.data = .sketch s' ∧
      c.request = .extendPath s'.id s'.lastPoint := by
  obtain ⟨c, hc, h⟩ := bind_eq_ok h
  obtain ⟨hrange, hrequest, -⟩ := command_eq_ok hc
  cases h
  refine ⟨c, _, rfl, hrange, rfl, ?_⟩
  rw [Sketch.lastPoint_extend]
  exact hrequest

theorem sends_of_runLineTo {stop target : Value} {label : Option Value}
    (h : runLineTo site stop target label = .ok e) : Sends site lineTo e := by
  obtain ⟨p, -, h⟩ := bind_eq_ok h
  obtain ⟨s, -, h⟩ := bind_eq_ok h
  obtain ⟨t, -, h⟩ := bind_eq_ok h
  obtain ⟨c, s', hsent, hrange, hdata, hrequest⟩ := exists_of_extended h
  refine ⟨c, hsent, hrange, ?_⟩
  rw [hdata]
  exact hrequest

theorem sends_of_runLine {offset target : Value} {label : Option Value}
    (h : runLine site offset target label = .ok e) : Sends site line e := by
  obtain ⟨d, -, h⟩ := bind_eq_ok h
  obtain ⟨s, -, h⟩ := bind_eq_ok h
  obtain ⟨t, -, h⟩ := bind_eq_ok h
  obtain ⟨x, -, h⟩ := bind_eq_ok h
  obtain ⟨y, -, h⟩ := bind_eq_ok h
  obtain ⟨c, s', hsent, hrange, hdata, hrequest⟩ := exists_of_extended h
  refine ⟨c, hsent, hrange, ?_⟩
  rw [hdata]
  exact hrequest

theorem sends_of_runClose {target : Value} {label : Option Value}
    (h : runClose site target label = .ok e) : Sends site close e := by
  obtain ⟨s, -, h⟩ := bind_eq_ok h
  obtain ⟨t, -, h⟩ := bind_eq_ok h
  obtain ⟨c, hc, h⟩ := bind_eq_ok h
  obtain ⟨hrange, hrequest, -⟩ := command_eq_ok hc
  cases h
  exact ⟨c, rfl, hrange, hrequest⟩

theorem sends_of_runExtrude {length target : Value} (h : runExtrude site length target = .ok e) :
    Sends site extrude e := by
  obtain ⟨distance, -, h⟩ := bind_eq_ok h
  obtain ⟨s, -, h⟩ := bind_eq_ok h
  obtain ⟨c, hc, h⟩ := bind_eq_ok h
  obtain ⟨walls, -, h⟩ := bind_eq_ok h
  obtain ⟨hrange, hrequest, -⟩ := command_eq_ok hc
  cases h
  exact ⟨c, rfl, hrange, rfl, hrequest⟩

/-- A function that touches the engine has one command as its effect if it succeeds. -/
theorem sends_of_run {b : Builtin} (hb : b.usesEngine = true) (h : b.run site args = .ok e) :
    Sends site b e := by
  cases b with
  | startSketchAt =>
      match args, h with
      | [_], h => exact sends_of_runStart h
  | lineTo =>
      match args, h with
      | [_, _], h | [_, _, _], h => exact sends_of_runLineTo h
  | line =>
      match args, h with
      | [_, _], h | [_, _, _], h => exact sends_of_runLine h
  | close =>
      match args, h with
      | [_], h | [_, _], h => exact sends_of_runClose h
  | extrude =>
      match args, h with
      | [_, _], h => exact sends_of_runExtrude h
  | _ => cases hb

/-- If the call has an effect, there is no command in it. -/
def Silent (x : Except Refusal Effect) : Prop := ∀ e, x = .ok e → e.sent = none

theorem silent_ok (h : e.sent = none) : Silent (.ok e) := by
  intro e' heq
  cases heq
  exact h

theorem silent_error (r : Refusal) : Silent (.error r) := nofun

theorem silent_bind {α : Type} {x : Except Refusal α} {f : α → Except Refusal Effect}
    (h : ∀ a, Silent (f a)) : Silent (x >>= f) := by
  intro e heq
  obtain ⟨a, -, heq⟩ := bind_eq_ok heq
  exact h a e heq

theorem silent_calculated (x : Except Refusal Number) :
    Silent (do return calculated site (← x)) :=
  silent_bind fun _ => silent_ok rfl

theorem silent_runWall (label target : Value) : Silent (runWall site label target) := by
  refine silent_bind fun _ => silent_bind fun _ => ?_
  split
  · exact silent_error _
  · exact silent_ok rfl

/-- A function that does not touch the engine has no command as its effect. -/
theorem silent_run {b : Builtin} (hb : b.usesEngine = false) : Silent (b.run site args) := by
  fun_cases run site b args with
  | case1 | case2 | case3 => exact silent_bind fun _ => silent_calculated _
  | case4 =>
      refine silent_bind fun _ => ?_
      split
      · exact silent_error _
      · exact silent_bind fun _ => silent_calculated _
  | case6 | case7 => exact silent_bind fun _ => silent_calculated _
  | case8 => exact silent_bind fun _ => silent_bind fun _ => silent_calculated _
  | case9 => exact silent_ok rfl
  | case10 => exact silent_bind fun _ => silent_calculated _
  | case5 | case11 | case12 => exact silent_bind fun _ => silent_ok rfl
  | case13 => exact silent_ok rfl
  | case14 => exact silent_error _
  | case23 => exact silent_runWall _ _
  | case24 => exact silent_error _
  | _ => cases hb

end

end Builtin

/-! ### Calls that send as they go -/

namespace Pass

open Builtin

variable {α β : Type}

/-- Put a command behind those that have been sent. -/
def submit (c : Command) : Eval Unit := modify fun w => { w with sent := w.sent ++ [c] }

/-- Go on with what the library makes, or stop at the mark of the call. -/
def settled (m : Mark) (x : Except Refusal α) : Eval α :=
  match x with
  | .ok a => return a
  | .error (.mismatch what) => mismatch what m.span
  | .error (.fault f) => throw (.fault f)

/-- Make a command for a call and send it. -/
def send (site : CallSite) (fields : List (String × Host)) (request : Request) : Eval Command := do
  let c ← settled site.mark (command site fields request)
  submit c
  return c

/-- Begin a sketch. -/
def drawStart (site : CallSite) (start : Value) : Eval Value := do
  let p ← settled site.mark (point "start point" start)
  let c ← send site [("at", pointInput p)] (.startPath p)
  return .mk (.sketch (.starting c.id p)) (trailFrom site [start])

/-- Add a segment to a sketch. -/
def drawSegment (site : CallSite) (target : Value) (s : Sketch) (stop : Point) (tag : Option String)
    (fields : List (String × Host)) (extra : Value) : Eval Value := do
  let _ ← send site fields (.extendPath s.id stop)
  let segment : Segment := ⟨s.lastPoint, stop, tag.getD "", site.mark.span.range⟩
  return .mk (.sketch (s.extend segment)) (trailFrom site [extra, target])

/-- Draw a line to a point. -/
def drawLineTo (site : CallSite) (stop target : Value) (label : Option Value) : Eval Value := do
  let p ← settled site.mark (point "end point" stop)
  let s ← settled site.mark (sketch target)
  let t ← settled site.mark (tag? label)
  drawSegment site target s p t
    [("to", pointInput p), ("sketch", .sketch s), ("tag", tagInput t)] stop

/-- Draw a line by an offset. -/
def drawLine (site : CallSite) (offset target : Value) (label : Option Value) : Eval Value := do
  let d ← settled site.mark (point "delta" offset)
  let s ← settled site.mark (sketch target)
  let t ← settled site.mark (tag? label)
  let x ← settled site.mark (orFault (Geometry.computed (s.lastPoint.x.add? d.x)))
  let y ← settled site.mark (orFault (Geometry.computed (s.lastPoint.y.add? d.y)))
  drawSegment site target s ⟨x, y⟩ t
    [("delta", pointInput d), ("sketch", .sketch s), ("tag", tagInput t)] offset

/-- Draw a line back to the start. -/
def drawClose (site : CallSite) (target : Value) (label : Option Value) : Eval Value := do
  let s ← settled site.mark (sketch target)
  let t ← settled site.mark (tag? label)
  let _ ← send site [("sketch", .sketch s), ("tag", tagInput t)] (.closePath s.id)
  let segment : Segment := ⟨s.lastPoint, s.start, t.getD "", site.mark.span.range⟩
  return .mk (.sketch { s.extend segment with closed := true }) (trailFrom site [target])

/-- Extrude a sketch. The walls are placed when the command has been sent. -/
def drawExtrude (site : CallSite) (length target : Value) : Eval Value := do
  let distance ← settled site.mark (number "extrude length" length)
  let s ← settled site.mark (sketch target)
  let c ← send site [("length", .number distance), ("sketch", .sketch s)] (.extrude s.id distance)
  let walls ← settled site.mark (orFault (Geometry.walls s distance))
  let group : Extrusion := ⟨c.id, s.id, distance, s.position, s.rotation, walls⟩
  return .mk (.extrusion group) (trailFrom site [length, target])

/-- Run a function of the library that sends its command as soon as it is made. -/
def draw (site : CallSite) : Builtin → List Value → Eval Value
  | .startSketchAt, [start] => drawStart site start
  | .lineTo, [stop, target] => drawLineTo site stop target none
  | .lineTo, [stop, target, label] => drawLineTo site stop target (some label)
  | .line, [offset, target] => drawLine site offset target none
  | .line, [offset, target, label] => drawLine site offset target (some label)
  | .close, [target] => drawClose site target none
  | .close, [target, label] => drawClose site target (some label)
  | .extrude, [length, target] => drawExtrude site length target
  | b, args => settled site.mark (b.run site args) >>= perform

/-- Call a library function that sends its command as soon as it is made. -/
def callDrawing (p : Pass) (entry : LibraryEntry) (name : String) (m : Mark) (args : List Value) :
    Eval Value :=
  if entry.arity.accepts args.length then draw ⟨p.code, m⟩ entry.builtin args
  else mismatch (.argumentCount name entry.arity.describe args.length) m.span

/-! ### Sending early and late -/

theorem settled_ok (m : Mark) (a : α) : settled m (.ok a) = pure a := rfl

theorem settled_pure (m : Mark) (a : α) : settled m (pure a) = pure a := rfl

theorem settled_error_bind (m : Mark) (r : Refusal) (f : α → Eval β) :
    settled m (.error r : Except Refusal α) >>= f = settled m (.error r) := by
  cases r <;> rfl

theorem settled_bind (m : Mark) (x : Except Refusal α) (f : α → Except Refusal β) :
    settled m (x >>= f) = settled m x >>= fun a => settled m (f a) := by
  cases x with
  | ok a => rfl
  | error r => exact (settled_error_bind m r _).symm

theorem settled_bind_congr {m : Mark} {x : Except Refusal α} {f g : α → Eval β}
    (h : ∀ a, x = .ok a → f a = g a) : settled m x >>= f = settled m x >>= g := by
  cases x with
  | ok a => exact h a rfl
  | error r => rw [settled_error_bind, settled_error_bind]

/-- Letting an effect happen that is a command and nothing to show is sending the command. -/
theorem perform_sent (v : Value) (c : Command) :
    perform ⟨v, some c, []⟩ = submit c >>= fun _ => pure v := by
  funext w
  have hshown : w.shown ++ [] = w.shown := List.append_nil _
  show (Except.ok v, { w with shown := w.shown ++ [], sent := w.sent ++ [c] }) = _
  rw [hshown]
  rfl

variable {site : CallSite}

theorem drawStart_eq (start : Value) :
    drawStart site start = settled site.mark (runStart site start) >>= perform := by
  simp only [drawStart, send, runStart, settled_bind, settled_pure, bind_assoc, pure_bind, perform_sent]

theorem drawSegment_eq (target : Value) (s : Sketch) (stop : Point) (tag : Option String)
    (fields : List (String × Host)) (extra : Value) :
    drawSegment site target s stop tag fields extra =
      settled site.mark (extended site target s stop tag fields extra) >>= perform := by
  simp only [drawSegment, send, extended, settled_bind, settled_pure, bind_assoc, pure_bind, perform_sent]

theorem drawLineTo_eq (stop target : Value) (label : Option Value) :
    drawLineTo site stop target label =
      settled site.mark (runLineTo site stop target label) >>= perform := by
  simp only [drawLineTo, runLineTo, drawSegment_eq, settled_bind, bind_assoc]

theorem drawLine_eq (offset target : Value) (label : Option Value) :
    drawLine site offset target label =
      settled site.mark (runLine site offset target label) >>= perform := by
  simp only [drawLine, runLine, drawSegment_eq, settled_bind, bind_assoc]

theorem drawClose_eq (target : Value) (label : Option Value) :
    drawClose site target label = settled site.mark (runClose site target label) >>= perform := by
  simp only [drawClose, send, runClose, settled_bind, settled_pure, bind_assoc, pure_bind, perform_sent]

/-- The walls of an extrusion may be placed after its command is sent as well as before, since they can be
placed. -/
theorem drawExtrude_eq (length target : Value) :
    drawExtrude site length target = settled site.mark (runExtrude site length target) >>= perform := by
  simp only [drawExtrude, send, runExtrude, settled_bind, settled_pure, bind_assoc, pure_bind]
  refine settled_bind_congr fun distance hdistance => settled_bind_congr fun s _ => ?_
  refine settled_bind_congr fun c hc => ?_
  obtain ⟨walls, hwalls⟩ := exists_walls_of_command (isFinite_of_number hdistance) hc
  have hplaced : orFault (Geometry.walls s distance) = .ok walls := by rw [hwalls]; rfl
  simp only [hplaced, settled_ok, pure_bind, perform_sent]

theorem draw_eq (b : Builtin) (args : List Value) :
    draw site b args = settled site.mark (b.run site args) >>= perform := by
  fun_cases draw site b args with
  | case1 start => exact drawStart_eq start
  | case2 stop target => exact drawLineTo_eq stop target none
  | case3 stop target label => exact drawLineTo_eq stop target (some label)
  | case4 offset target => exact drawLine_eq offset target none
  | case5 offset target label => exact drawLine_eq offset target (some label)
  | case6 target => exact drawClose_eq target none
  | case7 target label => exact drawClose_eq target (some label)
  | case8 length target => exact drawExtrude_eq length target
  | case9 => rfl

/-- Functions that send their commands as soon as they are made do what the library does. -/
theorem callDrawing_eq (p : Pass) (entry : LibraryEntry) (name : String) (m : Mark)
    (args : List Value) : p.callDrawing entry name m args = p.callLibrary entry name m args := by
  unfold callDrawing callLibrary
  split
  · rw [draw_eq]
    cases entry.builtin.run ⟨p.code, m⟩ args with
    | ok e => rfl
    | error r =>
        rw [settled_error_bind]
        cases r <;> rfl
  · rfl

end Pass

end PartScript
