import PartScript.Proofs.Node.Writable

/-!
Trees that are alike. Between trees that can be written, being alike is being equal up to marks: the
value of a literal is determined by its text, and every number that can be written is equal to itself.
-/

namespace PartScript.Node

open PartScript.Parser (Setting)

theorem agreeIdent_iff {i j : Ident} :
    agreeIdent (fun _ _ => true) i j = true ↔ i.bare = j.bare := by
  simp [agreeIdent, Ident.bare_eq_iff]

theorem agreeIdents_iff {is js : List Ident} :
    agreeIdents (fun _ _ => true) is js = true ↔ is.map Ident.bare = js.map Ident.bare := by
  induction is generalizing js with
  | nil => cases js <;> simp [agreeIdents]
  | cons i is ih => cases js <;> simp [agreeIdents, agreeIdent_iff, ih]

theorem same_of_written {v : Plain} {raw : String} (h : WrittenLiteral v raw) :
    v.same v = true := by
  obtain ⟨kind, hkind, hspelled⟩ := h
  cases v with
  | number n =>
      cases hkind
      exact (hspelled.number n rfl).natural.1
  | text t => simp [Plain.same]
  | bool b => cases b <;> decide
  | null | opaqueItem | list _ | tuple _ | record _ => cases hkind

theorem same_and_raw_iff {v w : Plain} {raw raw' : String} (hv : WrittenLiteral v raw)
    (hw : WrittenLiteral w raw') : v.same w = true ∧ raw = raw' ↔ v = w ∧ raw = raw' := by
  constructor
  · rintro ⟨-, rfl⟩
    exact ⟨hv.unique hw, rfl⟩
  · rintro ⟨rfl, rfl⟩
    exact ⟨same_of_written hv, rfl⟩

mutual

/-- Writable trees agree exactly if they are equal without their marks. -/
theorem agree_iff (role : Role) (s : Setting) : (n m : Node) → Writable role s n →
    Writable role s m → (agree (fun _ _ => true) n m = true ↔ n.bare = m.bare)
  | program _ body, m, hn, hm => by
      cases m with
      | program _ body' =>
          cases role <;> simp only [Writable] at hn hm
          simp [agree, bare, agreeAll_iff .statement s body body' hn hm]
      | _ => simp [agree, bare]
  | declaration _ _ _ e, m, hn, hm => by
      cases m with
      | declaration _ _ _ e' =>
          cases role <;> simp only [Writable] at hn hm
          simp [agree, bare, agreeIdent_iff, agree_iff .expression s e e' hn.2.2 hm.2.2, and_assoc]
      | _ => simp [agree, bare]
  | statement _ e, m, hn, hm => by
      cases m with
      | statement _ e' =>
          cases role <;> simp only [Writable] at hn hm
          simp [agree, bare, agree_iff .expression s e e' hn hm]
      | _ => simp [agree, bare]
  | giveBack _ e, m, hn, hm => by
      cases m with
      | giveBack _ e' =>
          cases role <;> simp only [Writable] at hn hm
          simp [agree, bare, agree_iff .expression s e e' hn.2 hm.2]
      | _ => simp [agree, bare]
  | literal _ value raw, m, hn, hm => by
      cases m with
      | literal _ value' raw' =>
          cases role <;> simp only [Writable] at hn hm
          simp [agree, bare, same_and_raw_iff hn hm]
      | _ => simp [agree, bare]
  | identifier i, m, _, _ => by cases m <;> simp [agree, bare, agreeIdent_iff]
  | binary _ _ l r, m, hn, hm => by
      cases m with
      | binary _ _ l' r' =>
          cases role <;> simp only [Writable] at hn hm
          simp [agree, bare, agree_iff .expression s l l' hn.2.1 hm.2.1,
            agree_iff .expression s r r' hn.2.2 hm.2.2, and_assoc]
      | _ => simp [agree, bare]
  | unary _ _ e, m, hn, hm => by
      cases m with
      | unary _ _ e' =>
          cases role <;> simp only [Writable] at hn hm
          simp [agree, bare, agree_iff .expression s e e' hn.2 hm.2]
      | _ => simp [agree, bare]
  | call _ _ args, m, hn, hm => by
      cases m with
      | call _ _ args' =>
          have hargs : WritableAll .expression s args ∧ WritableAll .expression s args' := by
            cases role <;> simp only [Writable] at hn hm
            · exact ⟨hn.2, hm.2⟩
            · exact ⟨hn.2, hm.2⟩
          simp [agree, bare, agreeIdent_iff, agreeAll_iff .expression s args args' hargs.1 hargs.2]
      | _ => simp [agree, bare]
  | array _ es, m, hn, hm => by
      cases m with
      | array _ es' =>
          cases role <;> simp only [Writable] at hn hm
          simp [agree, bare, agreeAll_iff .expression s es es' hn hm]
      | _ => simp [agree, bare]
  | object _ ps, m, hn, hm => by
      cases m with
      | object _ ps' =>
          cases role <;> simp only [Writable] at hn hm
          simp [agree, bare, agreeAll_iff .entry s ps ps' hn hm]
      | _ => simp [agree, bare]
  | property _ _ e, m, hn, hm => by
      cases m with
      | property _ _ e' =>
          cases role <;> simp only [Writable] at hn hm
          simp [agree, bare, agreeIdent_iff, agree_iff .expression s e e' hn.2 hm.2]
      | _ => simp [agree, bare]
  | member _ e _, m, hn, hm => by
      cases m with
      | member _ e' _ =>
          cases role <;> simp only [Writable] at hn hm
          simp [agree, bare, agreeIdent_iff, agree_iff .expression s e e' hn.1 hm.1]
      | _ => simp [agree, bare]
  | index _ e key, m, hn, hm => by
      cases m with
      | index _ e' key' =>
          cases role <;> simp only [Writable] at hn hm
          simp [agree, bare, agree_iff .expression s e e' hn.1 hm.1,
            agree_iff .expression s key key' hn.2 hm.2]
      | _ => simp [agree, bare]
  | pipe _ [], m, hn, _ => by cases role <;> simp only [Writable] at hn
  | pipe _ (first :: more), m, hn, hm => by
      cases m with
      | pipe _ stages =>
          cases stages with
          | nil => cases role <;> simp only [Writable] at hm
          | cons first' more' =>
              cases role <;> simp only [Writable] at hn hm
              simp [agree, agreeAll, bare, bareAll,
                agree_iff .expression s first first' hn.1 hm.1,
                agreeAll_iff .stage { s with inStage := true } more more' hn.2.2 hm.2.2]
      | _ => simp [agree, bare]
  | hole _, m, _, _ => by cases m <;> simp [agree, bare]
  | function _ params body, m, hn, hm => by
      cases m with
      | function _ params' body' =>
          cases role <;> simp only [Writable] at hn hm
          simp [agree, bare, agreeIdents_iff,
            agreeAll_iff .statement ⟨false, true⟩ body body' hn.2 hm.2]
      | _ => simp [agree, bare]

theorem agreeAll_iff (role : Role) (s : Setting) : (ns ms : List Node) → WritableAll role s ns →
    WritableAll role s ms →
    (agreeAll (fun _ _ => true) ns ms = true ↔ bareAll ns = bareAll ms)
  | [], ms, _, _ => by cases ms <;> simp [agreeAll, bareAll]
  | n :: ns, [], _, _ => by simp [agreeAll, bareAll]
  | n :: ns, m :: ms, hn, hm => by
      simp [agreeAll, bareAll, agree_iff role s n m hn.1 hm.1,
        agreeAll_iff role s ns ms hn.2 hm.2]

end

/-- Writable trees are alike exactly if they are equal without their marks. -/
theorem alike_iff {role : Role} {s : Setting} {n m : Node} (hn : Writable role s n)
    (hm : Writable role s m) : n.alike m = true ↔ n.bare = m.bare :=
  agree_iff role s n m hn hm

end PartScript.Node
