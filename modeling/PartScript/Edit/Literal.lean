import PartScript.Node.Printer

/-!
Plain data as source: the literal for a value, and the expression for a number that may be negative.
-/

namespace PartScript.Edit

/-- The literal for some data, as it would be written. Numbers have to be finite and not negative,
since a literal has no sign. -/
def literal (span : Span) : Plain → Except Fault Node
  | .bool b => .ok (.literal (.at span) (.bool b) (if b then "true" else "false"))
  | .number n =>
    if !n.isFinite then .error (.noLiteralForm n)
    else if n.isNegative then .error (.negativeLiteral n)
    else .ok (.literal (.at span) (.number n) n.text)
  | .text s => .ok (.literal (.at span) (.text s) (Printer.quote s))
  | item => .error (.noLiteral item.kindName)

/-- The expression for some data: a literal, behind a minus if the number is negative. -/
def valueExpression (span : Span) (item : Plain) : Except Fault Node :=
  match item with
  | .number n =>
    if n.isNegative then do return .unary (.at span) .minus (← literal span (.number n.neg))
    else literal span (.number n)
  | item => literal span item

end PartScript.Edit
