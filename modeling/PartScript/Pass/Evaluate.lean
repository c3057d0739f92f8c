import PartScript.Pass

/-!
Evaluation. An expression is evaluated along its tree; a call of a function of the script goes through
a handler, so that the recursion here is on the tree alone. The handler is made afterwards by recursion
on the number of calls that may still be nested.
-/

namespace PartScript.Pass

/-- Something that is no expression stands where an expression is evaluated. -/
def notAnExpression (n : Node) : Eval Value := mismatch (.notAnExpression n.kindName) n.span

mutual

/-- The value of an expression. -/
def evaluate (p : Pass) (enter : Enter) (f : Frame) (n : Node) : Eval Value := do
  p.step n.span
  let f ← deeper f
  match n with
  | .literal m value _ => literal m value
  | .identifier i => lookup f.scope i.name i.span
  | .binary m op l r => do
    let left ← evaluate p enter f l
    let right ← evaluate p enter f r
    operated m (combine op left right)
  | .unary m op e => do operated m (convert op (← evaluate p enter f e))
  | .call m callee args => do
    match ← closure? f.scope callee.name with
    | some c => enter ⟨callee.name, m, f.hole⟩ c (← evaluateAll p enter f args)
    | none =>
      let entry ← p.libraryEntry callee
      p.callLibrary entry callee.name m (← evaluateAll p enter f args)
  | .array m es => do return .mk (.array (← evaluateAll p enter f es)) [m.origin]
  | .object m ps => do
    return .mk (.host (.record (collectEntries (← evaluateEntries p enter f ps)))) [m.origin]
  | .member m e label => do member m (← evaluate p enter f e) (.text label.name) label.span
  | .index m e key => do
    let target ← evaluate p enter f e
    let k ← memberKey (← evaluate p enter f key) key.span
    member m target k key.span
  | .pipe _ [] => throw (.fault .runEmptyPipe)
  | .pipe _ (first :: more) => do evaluateStages p enter f more (← evaluate p enter f first)
  | .hole m =>
    match f.hole with
    | some v => return v
    | none => mismatch .holeOutside m.span
  | .function m params body => return .mk (.function ⟨params, body, f.scope⟩) [m.origin]
  | .program m body => notAnExpression (.program m body)
  | .declaration m word name init => notAnExpression (.declaration m word name init)
  | .statement m e => notAnExpression (.statement m e)
  | .giveBack m e => notAnExpression (.giveBack m e)
  | .property m key e => notAnExpression (.property m key e)

/-- The values of expressions, from left to right. -/
def evaluateAll (p : Pass) (enter : Enter) (f : Frame) : List Node → Eval (List Value)
  | [] => return []
  | e :: rest => do
    let v ← evaluate p enter f e
    return v :: (← evaluateAll p enter f rest)

/-- The entries of an object, from left to right. -/
def evaluateEntries (p : Pass) (enter : Enter) (f : Frame) :
    List Node → Eval (List (Key × Host))
  | [] => return []
  | .property _ key e :: rest => do
    let v ← evaluate p enter f e
    return (.text key.name, .value v) :: (← evaluateEntries p enter f rest)
  | _ :: _ => throw (.fault .malformed)

/-- The value that comes out of the stages of a pipe, given the one that goes in. -/
def evaluateStages (p : Pass) (enter : Enter) (f : Frame) : List Node → Value → Eval Value
  | [], v => return v
  | stage :: rest, v => do
    evaluateStages p enter f rest (← evaluate p enter { f with hole := some v } stage)

end

/-- Run one statement; an expression has a value. -/
def execute (p : Pass) (enter : Enter) (f : Frame) (n : Node) : Eval (Option Value) := do
  p.step n.span
  match n with
  | .declaration m _ name init => do
    let v ← evaluate p enter f init
    define f.scope name.name v m.span
    return none
  | .statement _ e => do return some (← evaluate p enter f e)
  | .giveBack m _ => mismatch .returnOutside m.span
  | n => mismatch (.notAStatement n.kindName) n.span

/-- Run the statements of a function: the value of the first `return`, or else of the last statement
if it is an expression. -/
def runBody (p : Pass) (enter : Enter) (f : Frame) : List Node → Option Value → Eval (Option Value)
  | [], last => return last
  | .giveBack m e :: _, _ => do
    p.step m.span
    return some (← evaluate p enter f e)
  | s :: rest, _ => do runBody p enter f rest (← execute p enter f s)

/-- Bind parameters to arguments. -/
def bindParams (scope : Nat) : List Ident → List Value → Eval Unit
  | i :: params, v :: args => do
    define scope i.name v i.span
    bindParams scope params args
  | _, _ => return ()

/-- Open a scope inside another. -/
def openScope (parent : Nat) (name : String) : Eval Nat := do
  let scope := (← get).store.scopes.size
  modify fun w => { w with store := (w.store.openChild parent name).1 }
  return scope

/-- Run a function of the script in a scope of its own; calls in it go through the handler. -/
def enterScope (p : Pass) (enter : Enter) : Enter := fun inv c args => do
  let scope ← openScope c.scope ("fn " ++ inv.name)
  bindParams scope c.params args
  match ← runBody p enter ⟨scope, inv.hole, p.limits.nesting⟩ c.body none with
  | none => mismatch (.noValue inv.name) inv.mark.span
  | some v => return v.withTrail (mergeTrails inv.mark.origin [v])

/-- Call a function of the script while some more calls may be nested. -/
def call (p : Pass) : Nat → Enter
  | left, inv, c, args => do
    if args.length ≠ c.params.length then
      mismatch (.argumentCount inv.name (toString c.params.length) args.length) inv.mark.span
    match left with
    | 0 => throw (.wrong (.exhausted (.calls p.limits.calls)) inv.mark.span)
    | left + 1 => p.enterScope (call p left) inv c args

/-- Run the statements of a script in order. The result is the value of the last statement if it is
an expression. A statement that is nested too deeply is at fault as a whole. -/
def runScript (p : Pass) (scope : Nat) : List Node → Option Value → Eval (Option Value)
  | [], last => return last
  | s :: rest, _ => do
    let result ← tryCatch (execute p (p.call p.limits.calls) ⟨scope, none, p.limits.nesting⟩ s)
      fun
        | .tooDeep => throw (.wrong (.exhausted .nesting) s.span)
        | stop => throw stop
    runScript p scope rest result

end PartScript.Pass
