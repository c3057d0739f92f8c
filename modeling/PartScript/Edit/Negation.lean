import PartScript.Edit.Placement

/-!
Simpler signs. A minus under a minus goes away together with it, and a minus over a negative literal
becomes the positive literal. Both rules can be switched off.
-/

namespace PartScript.Edit

/-- Which simplifications are made. -/
structure NegationRules where
  collapse : Bool
  fold : Bool
  deriving DecidableEq, Repr

/-- Make all simplifications. -/
def NegationRules.all : NegationRules := ⟨true, true⟩

/-- Drop pairs of minus signs at the root. -/
def collapse : Node → Node
  | .unary _ .minus (.unary _ .minus e) => collapse e
  | n => n

/-- Make a minus over a negative literal a positive literal. -/
def fold : Node → Node
  | .unary m .minus (.literal m' (.number v) raw) =>
    if v.isNegative then .literal (.at m.span) (.number v.neg) v.neg.text
    else .unary m .minus (.literal m' (.number v) raw)
  | n => n

/-- Simplify the signs at the root. -/
def simplify (rules : NegationRules) (n : Node) : Node :=
  let n := if rules.collapse then collapse n else n
  if rules.fold then fold n else n

mutual

/-- Simplify all signs of a tree, the innermost first. -/
def simplifyAll (rules : NegationRules) : Node → Node
  | .program m body => .program m (simplifyEach rules body)
  | .declaration m word name init => .declaration m word name (simplifyAll rules init)
  | .statement m e => .statement m (simplifyAll rules e)
  | .giveBack m e => .giveBack m (simplifyAll rules e)
  | .literal m value raw => .literal m value raw
  | .identifier i => .identifier i
  | .binary m op l r => .binary m op (simplifyAll rules l) (simplifyAll rules r)
  | .unary m op e => simplify rules (.unary m op (simplifyAll rules e))
  | .call m callee args => .call m callee (simplifyEach rules args)
  | .array m es => .array m (simplifyEach rules es)
  | .object m ps => .object m (simplifyEach rules ps)
  | .property m key e => .property m key (simplifyAll rules e)
  | .member m e label => .member m (simplifyAll rules e) label
  | .index m e key => .index m (simplifyAll rules e) (simplifyAll rules key)
  | .pipe m stages => .pipe m (simplifyEach rules stages)
  | .hole m => .hole m
  | .function m params body => .function m params (simplifyEach rules body)

/-- Simplify all signs of each tree in a list. -/
def simplifyEach (rules : NegationRules) : List Node → List Node
  | [] => []
  | n :: rest => simplifyAll rules n :: simplifyEach rules rest

end

/-- Simplify all signs of a script. -/
def normalize (rules : NegationRules) (script : Node) : Except Fault Node :=
  apply (simplifyAll rules) script

/-- Is the data a sign, and does it turn things around? -/
def negates? (sign : Plain) : Except Fault Bool :=
  match sign.number? with
  | some n =>
    if n.same (.int 1) then .ok false
    else if n.same (.int (-1)) then .ok true
    else .error (.invalidSign sign)
  | none => .error (.invalidSign sign)

/-- Apply a sign to an expression, or to a reference by the given name in its place, and simplify
the result. -/
def withSign (rules : NegationRules) (sign : Plain) (variableName : Option String) (e : Node) :
    Except Fault Node := do
  let negated ← negates? sign
  let base := match variableName.filter (!·.isEmpty) with
    | some name => .identifier (.at e.span name)
    | none => e
  return simplify rules (if negated then .unary (.at base.span) .minus base else base)

end PartScript.Edit
