import PartScript.Config
import PartScript.Library
import PartScript.Number.Reading
import PartScript.Store

/-!
A pass is one run of a script. It changes a world: the steps taken, the values shown, the commands
sent and the scopes. When a pass stops early the world keeps what was done before.
-/

namespace PartScript

/-- What a pass changes. -/
structure World where
  steps : Nat
  shown : List Value
  sent : List Command
  store : Store

/-- Why a pass stops early. -/
inductive Stop where
  | wrong (cause : Cause) (span : Span)
  | tooDeep
  | fault (f : Fault)

/-- A computation in a pass. -/
abbrev Eval := ExceptT Stop (StateM World)

/-- What stays the same during a pass. -/
structure Pass where
  code : String
  limits : Limits
  library : Library

/-- Where an expression is evaluated: the scope, the result of the pipe stage before, and how many
more levels of nesting there is room for. -/
structure Frame where
  scope : Nat
  hole : Option Value
  room : Option Nat

/-- A call of a function of the script: the name it was called by, the mark of the call, and the
result of the pipe stage before. -/
structure Invocation where
  name : String
  mark : Mark
  hole : Option Value

/-- How a function of the script is called. -/
abbrev Enter := Invocation → Closure → List Value → Eval Value

namespace Pass

/-- Stop because something does not fit. -/
def mismatch {α : Type} (what : Mismatch) (span : Span) : Eval α :=
  throw (.wrong (.mismatch what) span)

/-- Take a step at a place, if one is left. -/
def step (p : Pass) (span : Span) : Eval Unit := do
  modify fun w => { w with steps := w.steps + 1 }
  if p.limits.steps < (← get).steps then throw (.wrong (.exhausted (.steps p.limits.steps)) span)

/-- The frame for what is nested in an expression. -/
def deeper (f : Frame) : Eval Frame :=
  match f.room with
  | none => return f
  | some 0 => throw .tooDeep
  | some (room + 1) => return { f with room := some room }

/-- Bind a name in a scope. -/
def define (scope : Nat) (name : String) (v : Value) (span : Span) : Eval Unit := do
  if (← get).store.isLocal scope name then throw (.wrong (.duplicateName name) span)
  modify fun w => { w with store := w.store.bind scope name v }

/-- What a name is bound to. -/
def lookup (scope : Nat) (name : String) (span : Span) : Eval Value := do
  match (← get).store.get? scope name with
  | some v => return v
  | none => throw (.wrong (.undefinedName name) span)

/-- A number as shown in messages. Whole numbers with too many digits are not written. -/
def shownNumber (n : Number) : Except Fault String :=
  match n with
  | .int i =>
    if powTen Number.maxDigits ≤ i.natAbs then .error (.longNumber Number.maxDigits) else .ok n.text
  | .float _ => .ok n.text

/-- A number as shown in messages. -/
def shown (n : Number) : Eval String :=
  match shownNumber n with
  | .ok s => return s
  | .error f => throw (.fault f)

/-! ### Literals and operators -/

/-- The value of a literal. -/
def literal (m : Mark) (value : Plain) : Eval Value :=
  match value with
  | .bool b => return .mk (.boolean b) [m.origin]
  | .number n => do
    if n.isFinite then return .ofNumber n [m.origin]
    else mismatch (.literalOutOfRange (← shown n)) m.span
  | .text s => return .mk (.text s) [m.origin]
  | item => mismatch (.unsupportedLiteral item.shown) m.span

/-- The number that an operator makes of two numbers, if it is a known operator. -/
def arithmetic? : BinaryOp → Option (Number → Number → Option Number)
  | .add => some Number.add?
  | .sub => some Number.sub?
  | .mul => some Number.mul?
  | .div => some Number.div?
  | .rem => some Number.rem?
  | .other _ => none

/-- What an operator says about a zero on its right. -/
def zeroMismatch? : BinaryOp → Option Mismatch
  | .div => some .zeroDivisor
  | .rem => some .zeroModulus
  | _ => none

/-- The number that an operator makes of two numbers. The result has to be finite. -/
def calculate (op : BinaryOp) (a b : Number) : Except Mismatch Number :=
  match if b.isZero then zeroMismatch? op else none with
  | some what => .error what
  | none =>
    match arithmetic? op with
    | none => .error (.binaryOperator op.text)
    | some f =>
      match (f a b).filter Number.isFinite with
      | some n => .ok n
      | none => .error (.operatorRange op.text)

/-- What an operator makes of two values: the text of two texts, or a number. -/
def combine (op : BinaryOp) (left right : Value) : Except Mismatch Data :=
  match op, left.data, right.data with
  | .add, .text s, .text t => .ok (.text (s ++ t))
  | op, _, _ =>
    match left.number?, right.number? with
    | some a, some b => (calculate op a b).map .number
    | _, _ => .error (.operands op.text left.kind right.kind)

/-- What an operator makes of one value. -/
def convert (op : UnaryOp) (v : Value) : Except Mismatch Data :=
  match op with
  | .minus =>
    match v.number? with
    | none => .error (.negated v.kind)
    | some n => if n.isFinite then .ok (.number n.neg) else .error (.operatorRange op.text)
  | .not =>
    match v.data with
    | .boolean b => .ok (.boolean !b)
    | _ => .error (.complemented v.kind)
  | .other text => .error (.unaryOperator text)

/-- The value of an operation at a mark. -/
def operated (m : Mark) (result : Except Mismatch Data) : Eval Value :=
  match result with
  | .ok data => return .mk data [m.origin]
  | .error what => mismatch what m.span

/-! ### Members -/

/-- What a member is asked for by. -/
inductive MemberKey where
  | text (s : String)
  | number (n : Number)

/-- The key that a value is. -/
def memberKey (v : Value) (span : Span) : Eval MemberKey :=
  match v.data with
  | .text s => return .text s
  | _ =>
    match v.number? with
    | some n => return .number n
    | none => mismatch (.indexKind v.kind) span

/-- Look through values that only stand for other values. -/
def unwrapped : Value → Value
  | .mk (.host (.value v)) _ => unwrapped v
  | v => v

/-- The item of a list at a key. -/
def element (items : List Host) (key : MemberKey) (span : Span) : Eval Host :=
  match key with
  | .text s => mismatch (.indexNotNumber s) span
  | .number n => do
    match n.whole? with
    | none => mismatch (.indexNotWhole (← shown n)) span
    | some i =>
      match if i < 0 then none else items[i.toNat]? with
      | some h => return h
      | none => throw (.wrong (.missingIndex i items.length) span)

/-- The item of a record at a key. -/
def entry (entries : List (Key × Host)) (key : MemberKey) (span : Span) : Eval Host :=
  match key with
  | .number n => do mismatch (.keyNotText (← shown n)) span
  | .text name =>
    match itemAt? name entries with
    | some h => return h
    | none => throw (.wrong (.missingProperty name) span)

/-- The member of a value at a key. Its trail has the origins of the item and of the target. -/
def member (m : Mark) (target : Value) (key : MemberKey) (keySpan : Span) : Eval Value := do
  let source := unwrapped target
  let item ← match source.data with
    | .array items => element (items.map .value) key keySpan
    | .host (.list items) => element items key keySpan
    | .host (.tuple items) => element items key keySpan
    | .host (.record entries) => entry entries key keySpan
    | data => mismatch (.noMembers data.kind) m.span
  let v := item.toValue []
  return v.withTrail (mergeTrails m.origin [v, source])

/-! ### Library calls -/

/-- Let an effect happen. -/
def perform (e : Effect) : Eval Value := do
  modify fun w => { w with shown := w.shown ++ e.shown, sent := w.sent ++ e.sent.toList }
  return e.value

/-- Call a library function. -/
def callLibrary (p : Pass) (entry : LibraryEntry) (name : String) (m : Mark) (args : List Value) :
    Eval Value :=
  if entry.arity.accepts args.length then
    match entry.builtin.run ⟨p.code, m⟩ args with
    | .ok effect => perform effect
    | .error (.mismatch what) => mismatch what m.span
    | .error (.fault f) => throw (.fault f)
  else mismatch (.argumentCount name entry.arity.describe args.length) m.span

/-- The function of the script that a name is bound to. -/
def closure? (scope : Nat) (name : String) : Eval (Option Closure) := do
  match (← get).store.get? scope name with
  | some (.mk (.function f) _) => return some f
  | _ => return none

/-- The library function with a name, or the diagnostic that there is none. -/
def libraryEntry (p : Pass) (callee : Ident) : Eval LibraryEntry :=
  match p.library.find? callee.name with
  | some entry => return entry
  | none => throw (.wrong (.unknownFunction callee.name) callee.span)

end Pass

end PartScript
