import Mathlib.Data.List.Lex
import PartScript.Proofs.Node.Runnable

/-!
Paths lead to their nodes. In a tree that has been given paths, the path of every node leads from the root
to that node, and no other path leads anywhere. A walk through the tree meets the paths in lexicographic
order.
-/

namespace PartScript.Node

/-! ### Children -/

theorem walkAll_eq_flatMap (ns : List Node) : walkAll ns = ns.flatMap walk := by
  induction ns with
  | nil => rfl
  | cons n ns ih => rw [walkAll, ih, List.flatMap_cons]

/-- A node comes first, and then everything in its children. -/
theorem walk_eq_cons (n : Node) : n.walk = n :: n.children.flatMap walk := by
  have hnames : ∀ params : List Ident, params.map identifier = (params.map identifier).flatMap walk := by
    intro params
    induction params with
    | nil => rfl
    | cons i params ih => rw [List.map_cons, List.flatMap_cons, ← ih, walk, List.singleton_append]
  cases n with
  | function m params body =>
      rw [walk, children, List.flatMap_append, ← hnames, walkAll_eq_flatMap]
  | _ => simp [walk, children, walkAll_eq_flatMap]

theorem length_walk_lt {child n : Node} (h : child ∈ n.children) :
    child.walk.length < n.walk.length := by
  have hsub : child.walk.Sublist (n.children.flatMap walk) :=
    List.sublist_flatten_of_mem (List.mem_map_of_mem h)
  rw [walk_eq_cons n, List.length_cons]
  exact Nat.lt_succ_of_le hsub.length_le

/-! ### Paths -/

theorem mark_place (path : List Nat) (n : Node) : (n.place path).mark = ⟨n.mark.span, path⟩ := by
  cases n <;> rfl

theorem getElem?_placeAll (path : List Nat) (first k : Nat) (ns : List Node) :
    (placeAll path first ns)[k]? = ns[k]?.map (place (path ++ [first + k])) := by
  induction ns generalizing first k with
  | nil => rfl
  | cons n ns ih =>
      cases k with
      | zero => rfl
      | succ k =>
          rw [placeAll, List.getElem?_cons_succ, List.getElem?_cons_succ, ih]
          congr 4
          omega

theorem placeAll_identifiers (path : List Nat) (first : Nat) (params : List Ident) (body : List Node) :
    placeAll path first (params.map identifier ++ body) =
      (placeIdents path first params).map identifier ++ placeAll path (first + params.length) body := by
  induction params generalizing first with
  | nil => rfl
  | cons i params ih =>
      rw [List.map_cons, List.cons_append, placeAll, ih, Nat.add_assoc, Nat.add_comm 1]
      rfl

/-- The children of a node that is given a path are given that path with their own number behind it. -/
theorem children_place (path : List Nat) (n : Node) :
    (n.place path).children = placeAll path 0 n.children := by
  cases n with
  | function m params body =>
      rw [children, placeAll_identifiers, Nat.zero_add]
      rfl
  | _ => rfl

theorem path_place (path : List Nat) (n : Node) : (n.place path).path = path := by
  rw [Node.path, mark_place]

/-- A node of a row that is given paths is one of the row with its number behind the path. -/
theorem exists_of_mem_placeAll {path : List Nat} {first : Nat} {ns : List Node} {c : Node}
    (h : c ∈ placeAll path first ns) :
    ∃ k, ∃ d ∈ ns, first ≤ k ∧ c = d.place (path ++ [k]) := by
  obtain ⟨k, hk⟩ := List.mem_iff_getElem?.1 h
  rw [getElem?_placeAll] at hk
  obtain ⟨d, hd, rfl⟩ := Option.map_eq_some_iff.1 hk
  exact ⟨first + k, d, List.mem_of_getElem? hd, Nat.le_add_right first k, rfl⟩

/-- A node in a tree with a path has a path that starts with it and leads to the node. -/
theorem exists_descend?_of_mem_walk (path : List Nat) (n : Node) {m : Node}
    (h : m ∈ (n.place path).walk) :
    ∃ rest : List Nat, m.path = path ++ rest ∧
      (n.place path).descend? (rest.map Int.ofNat) = some m := by
  rw [walk_eq_cons, List.mem_cons] at h
  rcases h with rfl | h
  · exact ⟨[], by rw [path_place, List.append_nil], rfl⟩
  · obtain ⟨child, hchild, hm⟩ := List.mem_flatMap.1 h
    obtain ⟨k, hk⟩ := List.mem_iff_getElem?.1 hchild
    have hplaced := hk
    rw [children_place, getElem?_placeAll, Nat.zero_add] at hk
    obtain ⟨c, hc, rfl⟩ := Option.map_eq_some_iff.1 hk
    have hlt := length_walk_lt (List.mem_of_getElem? hc)
    obtain ⟨rest, hpath, hfound⟩ := exists_descend?_of_mem_walk (path ++ [k]) c hm
    refine ⟨k :: rest, by rw [hpath, List.append_assoc, List.singleton_append], ?_⟩
    have hchild? : (n.place path).child? (Int.ofNat k) = some (c.place (path ++ [k])) := hplaced
    rw [List.map_cons, descend?, hchild?, Option.bind_some, hfound]
termination_by n.walk.length

/-- The path of a node in a tree with paths leads to the node. -/
theorem find_of_mem_walk {n m : Node} (h : m ∈ n.withPaths.walk) :
    n.withPaths.find (m.path.map Int.ofNat) = .ok m := by
  obtain ⟨rest, hpath, hfound⟩ := exists_descend?_of_mem_walk [] n h
  rw [hpath, List.nil_append, find, withPaths, hfound]

/-- What a path leads to in a tree with a path is in the tree, and its own path is that path behind the one of
the tree. -/
theorem mem_walk_of_descend? {above : List Nat} {n m : Node} {path : List Int}
    (h : (n.place above).descend? path = some m) :
    m ∈ (n.place above).walk ∧ ∃ rest : List Nat, path = rest.map Int.ofNat ∧ m.path = above ++ rest := by
  induction path generalizing above n with
  | nil =>
      cases h
      exact ⟨mem_walk _, [], rfl, by rw [path_place, List.append_nil]⟩
  | cons k path ih =>
      obtain ⟨child, hchild, hm⟩ := Option.bind_eq_some_iff.1 h
      rw [child?] at hchild
      split at hchild
      · cases hchild
      · rename_i hk
        have hmem := List.mem_of_getElem? hchild
        rw [children_place, getElem?_placeAll, Nat.zero_add] at hchild
        obtain ⟨c, -, rfl⟩ := Option.map_eq_some_iff.1 hchild
        obtain ⟨hwalk, rest, rfl, hpath⟩ := ih hm
        refine ⟨?_, k.toNat :: rest, ?_, ?_⟩
        · rw [walk_eq_cons]
          exact List.mem_cons_of_mem _ (List.mem_flatMap.2 ⟨_, hmem, hwalk⟩)
        · rw [List.map_cons, Int.ofNat_eq_natCast, Int.toNat_of_nonneg (Int.not_lt.1 hk)]
        · rw [hpath, List.append_assoc, List.singleton_append]

/-- A path that is the path of no node leads nowhere. -/
theorem find_eq_error {n : Node} {path : List Int}
    (h : ∀ m ∈ n.withPaths.walk, path ≠ m.path.map Int.ofNat) :
    n.withPaths.find path = .error (.noNode path) := by
  rw [find]
  cases hfound : n.withPaths.descend? path with
  | none => rfl
  | some m =>
      obtain ⟨hm, rest, rfl, hpath⟩ := mem_walk_of_descend? hfound
      rw [List.nil_append] at hpath
      exact absurd (by rw [hpath]) (h m hm)

/-! ### The order of paths -/

/-- The path of the first node comes before the path of the second one in lexicographic order. -/
def Before (n m : Node) : Prop := List.Lex (· < ·) n.path m.path

/-- What is in a node of a row that is given paths has a path that goes through the number of that node. -/
theorem exists_path_of_mem_placeAll {path : List Nat} {first : Nat} {ns : List Node} {c m : Node}
    (hc : c ∈ placeAll path first ns) (hm : m ∈ c.walk) :
    ∃ k rest, first ≤ k ∧ m.path = path ++ k :: rest := by
  obtain ⟨k, d, -, hk, rfl⟩ := exists_of_mem_placeAll hc
  obtain ⟨rest, hpath, -⟩ := exists_descend?_of_mem_walk _ d hm
  exact ⟨k, rest, hk, by rw [hpath, List.append_assoc, List.singleton_append]⟩

/-- Everything in a node of the row comes before everything in a later one. -/
theorem placeAll_pairwise_before (path : List Nat) (first : Nat) (ns : List Node) :
    (placeAll path first ns).Pairwise fun c d => ∀ x ∈ c.walk, ∀ y ∈ d.walk, Before x y := by
  induction ns generalizing first with
  | nil => exact .nil
  | cons n ns ih =>
      rw [placeAll]
      refine List.pairwise_cons.2 ⟨fun d hd x hx y hy => ?_, ih (first + 1)⟩
      obtain ⟨rest, hx, -⟩ := exists_descend?_of_mem_walk _ n hx
      obtain ⟨k, rest', hk, hy⟩ := exists_path_of_mem_placeAll hd hy
      rw [Before, hx, hy, List.append_assoc]
      exact List.Lex.append_left _ (.rel (Nat.lt_of_succ_le hk)) path

/-- A walk through a tree with a path meets the paths in lexicographic order. -/
theorem walk_place_pairwise (path : List Nat) (n : Node) : (n.place path).walk.Pairwise Before := by
  rw [walk_eq_cons, children_place, List.pairwise_cons]
  constructor
  · intro m hm
    obtain ⟨c, hc, hm⟩ := List.mem_flatMap.1 hm
    obtain ⟨k, rest, -, hpath⟩ := exists_path_of_mem_placeAll hc hm
    rw [Before, path_place, hpath]
    simpa using List.Lex.append_left (· < ·) (List.Lex.nil (a := k) (l := rest)) path
  · refine List.pairwise_flatMap.2 ⟨fun c hc => ?_, placeAll_pairwise_before path 0 n.children⟩
    obtain ⟨k, d, hd, -, rfl⟩ := exists_of_mem_placeAll hc
    have hlt := length_walk_lt hd
    exact walk_place_pairwise _ d
termination_by n.walk.length

end PartScript.Node

namespace PartScript

/-- A script that is read from a text has been given paths. -/
theorem exists_withPaths_of_parse {source : String} {file : Option String} {script : Node}
    (h : parse source file = .ok script) : ∃ n : Node, script = n.withPaths := by
  obtain ⟨tokens, htokens, htree⟩ := bind_eq_ok h
  obtain ⟨ts, finish, rfl⟩ := tokenize_eq_ok htokens
  obtain ⟨depth, bare, -, -, -, rfl⟩ :=
    Grammar.script_eq_ok_iff.1 (parseTokens_eq_ok_iff.1 htree)
  exact ⟨bare, rfl⟩

/-- In a script that is read from a text, paths lead to their nodes. -/
theorem find_of_parse {source : String} {file : Option String} {script : Node}
    (h : parse source file = .ok script) {n : Node} (hn : n ∈ script.walk) :
    script.find (n.path.map Int.ofNat) = .ok n := by
  obtain ⟨bare, rfl⟩ := exists_withPaths_of_parse h
  exact Node.find_of_mem_walk hn

end PartScript
