import PartScript.Diagnostic
import PartScript.Store

/-!
Scopes used from outside a run: binding and looking up names with a diagnostic when it cannot be done.
There is no script, so no line is quoted.
-/

namespace PartScript.Store

/-- Bind a name in a scope where it is not bound yet. -/
def define (s : Store) (id : Nat) (name : String) (v : Value) (span : Span) :
    Except Failure Store :=
  match s.define? id name v with
  | some store => .ok store
  | none => .error (.diagnostic ⟨.duplicateName name, span, none⟩)

/-- What a name is bound to, seen from a scope. -/
def lookup (s : Store) (id : Nat) (name : String) (span : Span) : Except Failure Value :=
  match s.get? id name with
  | some v => .ok v
  | none => .error (.diagnostic ⟨.undefinedName name, span, none⟩)

/-- Bind names one after another in a scope. -/
def defineAll (s : Store) (id : Nat) (bindings : List (String × Value)) : Except Failure Store :=
  bindings.foldlM (fun store (name, v) => store.define id name v .absent) s

/-- The scopes with nothing but a root that holds some bindings; the root comes first. -/
def seeded (bindings : List (String × Value)) : Except Failure Store :=
  (empty.openRoot "root").1.defineAll 0 bindings

end PartScript.Store
