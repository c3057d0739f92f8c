import PartScript.Edit.Replace
import PartScript.Proofs.Edit.Edited
import PartScript.Proofs.Node.Paths

/-!
Paths in scripts after any edits. Every edit of a script makes the paths of the result anew, whatever it leaves
out, moves or puts in. So the paths of an edited script lead to their nodes as those of a script that was read
do.
-/

namespace PartScript

/-- A script comes from another one by edits, and by putting something else in the place of an expression, in
any order. -/
inductive Revised (script : Node) : Node → Prop
  | refl : Revised script script
  | edit {n m : Node} : Revised script n → Edited n m → Revised script m
  | replace {n m : Node} (r : Edit.Replacement) :
      Revised script n → Edit.replace r n = .ok m → Revised script m

theorem exists_withPaths_of_replace {r : Edit.Replacement} {n m : Node}
    (h : Edit.replace r n = .ok m) : ∃ bare : Node, m = bare.withPaths := by
  cases n with
  | program mark body =>
      obtain ⟨⟨body', made⟩, -, h⟩ := bind_eq_ok h
      cases made with
      | false => cases h
      | true => exact ⟨.program mark body', (Except.ok.inj h).symm⟩
  | _ => cases h

/-- A script with paths has paths after edits. -/
theorem Edited.exists_withPaths {script n : Node} (h : Edited script n)
    (hscript : ∃ bare : Node, script = bare.withPaths) : ∃ bare : Node, n = bare.withPaths := by
  cases h with
  | refl => exact hscript
  | identity _ hedit | normalize _ _ hedit => exact ⟨_, eq_withPaths_of_apply hedit⟩
  | rename _ _ _ hedit => exact ⟨_, eq_withPaths_of_apply (rename_eq_ok hedit).2⟩

theorem Revised.exists_withPaths {script n : Node} (h : Revised script n)
    (hscript : ∃ bare : Node, script = bare.withPaths) : ∃ bare : Node, n = bare.withPaths := by
  induction h with
  | refl => exact hscript
  | edit _ hedit ih => exact hedit.exists_withPaths ih
  | replace r _ hedit _ => exact exists_withPaths_of_replace hedit

/-- In a script that is read from a text and edited in any way, the path of every node leads to that node. A
walk through the script meets the paths in strictly increasing lexicographic order, each of them once. Any
other path, with numbers that are negative or too large or that go on below a leaf, leads to no node. -/
theorem paths_of_revised {source : String} {file : Option String} {script n : Node}
    (h : parse source file = .ok script) (hn : Revised script n) :
    (∀ m ∈ n.walk, n.find (m.path.map Int.ofNat) = .ok m) ∧
    (n.walk.map (·.path)).Nodup ∧
    (n.walk.map (·.path)).Pairwise (List.Lex (· < ·)) ∧
    ∀ path : List Int, (∀ m ∈ n.walk, path ≠ m.path.map Int.ofNat) →
      n.find path = .error (.noNode path) := by
  obtain ⟨bare, rfl⟩ := hn.exists_withPaths (exists_withPaths_of_parse h)
  have horder : (bare.withPaths.walk.map (·.path)).Pairwise (List.Lex (· < ·)) :=
    List.pairwise_map.2 (Node.walk_place_pairwise [] bare)
  refine ⟨fun m => Node.find_of_mem_walk, ?_, horder, fun path => Node.find_eq_error⟩
  exact horder.imp fun hlt => (List.Lex.imp (fun _ _ => Nat.ne_of_lt) _ _ hlt).to_ne

/-- A sign is dropped in a function, whose statements are counted behind its parameters, and a negative number
comes to stand in a call. -/
theorem paths_of_revised_function :
    ∃ source script n p, source = "fn f = (a, b) => \x7b\n  return -(-a)\n\x7d\nf(1, 2)" ∧
      parse source none = .ok script ∧ Edit.normalize .all script = .ok n ∧
      Edit.replace ⟨⟨41, 42⟩, .data (.number (.int (-2)))⟩ n = .ok p ∧ Revised script p ∧
      p.walk.map (·.path) = [[], [0], [0, 0], [0, 1], [0, 1, 0], [0, 1, 1], [0, 1, 2], [0, 1, 2, 0],
        [1], [1, 0], [1, 0, 0], [1, 0, 1], [1, 0, 2], [1, 0, 2, 0]] ∧
      (∀ m ∈ p.walk, p.find (m.path.map Int.ofNat) = .ok m) ∧ (p.walk.map (·.path)).Nodup ∧
      (p.walk.map (·.path)).Pairwise (List.Lex (· < ·)) ∧
      ∀ path ∈ [[0, 1, 3], [0, -1], [1, 0, 2, 0, 0]], (∀ m ∈ p.walk, path ≠ m.path.map Int.ofNat) ∧
        p.find path = .error (.noNode path) := by
  obtain ⟨source, hsource⟩ :
      ∃ source, source = "fn f = (a, b) => \x7b\n  return -(-a)\n\x7d\nf(1, 2)" := ⟨_, rfl⟩
  have hchecked : ((parse source none).toOption.any fun script =>
      (Edit.normalize .all script).toOption.any fun n =>
        (Edit.replace ⟨⟨41, 42⟩, .data (.number (.int (-2)))⟩ n).toOption.any fun p =>
          decide (p.walk.map (·.path) = [[], [0], [0, 0], [0, 1], [0, 1, 0], [0, 1, 1], [0, 1, 2],
            [0, 1, 2, 0], [1], [1, 0], [1, 0, 0], [1, 0, 1], [1, 0, 2], [1, 0, 2, 0]])) = true := by
    rw [hsource]
    decide +kernel
  obtain ⟨script, hscript, hchecked⟩ := exists_of_any_toOption hchecked
  obtain ⟨n, hnormalize, hchecked⟩ := exists_of_any_toOption hchecked
  obtain ⟨p, hreplace, hwalk⟩ := exists_of_any_toOption hchecked
  have hwalk := of_decide_eq_true hwalk
  have hrevised : Revised script p :=
    .replace _ (.edit .refl (.normalize .all .refl hnormalize)) hreplace
  obtain ⟨hfind, hnodup, horder, hnone⟩ := paths_of_revised hscript hrevised
  refine ⟨source, script, n, p, hsource, hscript, hnormalize, hreplace, hrevised, hwalk, hfind, hnodup,
    horder, fun path hpath => ?_⟩
  have hother : ∀ m ∈ p.walk, path ≠ m.path.map Int.ofNat := by
    intro m hm heq
    have hpaths : m.path ∈ p.walk.map (·.path) := List.mem_map_of_mem hm
    rw [hwalk] at hpaths
    rw [heq] at hpath
    revert hpath
    generalize m.path = path at hpaths
    revert path
    decide
  exact ⟨hother, hnone path hother⟩

end PartScript
