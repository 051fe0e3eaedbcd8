import StyleTree.Proofs.Node.Loading
import Mathlib

namespace StyleTree

open Json

namespace Node

theorem height_finish {d : Draft} {k : Kind} {missing : String → Refusal} {n : Node}
    (read : d.finish k missing = .ok n) : n.height ≤ heights (d.nodes.getD []) + 1 := by
  have leaf (l : Leaf) : height (.leaf l) ≤ heights (d.nodes.getD []) + 1 := by
    rw [height]
    omega
  have block (head : Head) :
      height (.block head (d.nodes.getD [])) ≤ heights (d.nodes.getD []) + 1 :=
    Nat.le_of_eq (by rw [height])
  rw [Draft.finish] at read
  split at read
  · cases read
  · cases read
    cases k with
    | declaration => exact leaf _
    | comment => exact leaf _
    | _ => exact block _

mutual

-- The nodes of a node are items of a list inside its own bracket, so a level takes two brackets. A
-- draft has the nodes of one field at most; `bound` is for those it had before.
theorem height_ofJson : (j : Json) → {n : Node} → ofJson j = .ok n → 2 * n.height ≤ nesting j + 1
  | .object members, n, read => by
      rw [ofJson] at read
      obtain ⟨k, -, read⟩ := ok_of_bind read
      obtain ⟨d, members', finished⟩ := ok_of_bind read
      have inside := heights_readMembers members members' 0 (Nat.le_refl 0)
      have whole := height_finish finished
      rw [nesting]
      omega
  | .array [], _, read => by cases read
  | .array (tag :: items), n, read => by
      rw [ofJson] at read
      obtain ⟨k, -, read⟩ := ok_of_bind read
      obtain ⟨d, items', finished⟩ := ok_of_bind read
      have inside := heights_readItems items items' 0 (Nat.le_refl 0)
      have whole := height_finish finished
      rw [nesting, nestings]
      omega
  | .null, _, read => by cases read
  | .bool _, _, read => by cases read
  | .number _, _, read => by cases read
  | .string _, _, read => by cases read

theorem heights_ofJsonList : (items : List Json) → {nodes : List Node} →
    ofJsonList items = .ok nodes → 2 * heights nodes ≤ nestings items + 1
  | [], nodes, read => by
      rw [ofJsonList] at read
      cases read
      exact Nat.zero_le _
  | j :: rest, nodes, read => by
      rw [ofJsonList] at read
      obtain ⟨n, first, read⟩ := ok_of_bind read
      obtain ⟨others, later, rfl⟩ := ok_of_map read
      have first := height_ofJson j first
      have later := heights_ofJsonList rest later
      rw [heights, nestings]
      omega

theorem heights_readField : (j : Json) → {d d' : Draft} → {field : Field} →
    readField d field j = .ok d' → ∀ bound, 2 * heights (d.nodes.getD []) ≤ bound →
      2 * heights (d'.nodes.getD []) ≤ max bound (nesting j)
  | j, d, d', field, read, bound, below => by
      unfold readField at read
      split at read
      case h_7 items =>
        obtain ⟨nodes, inside, rfl⟩ := ok_of_map read
        have inside := heights_ofJsonList items inside
        rw [Option.getD_some, nesting]
        omega
      case h_8 => cases read
      all_goals
        obtain ⟨_, -, rfl⟩ := ok_of_map read
        exact Nat.le_trans below (Nat.le_max_left ..)

theorem heights_readMembers : (members : List (String × Json)) → {k : Kind} → {d d' : Draft} →
    readMembers k d members = .ok d' → ∀ bound, 2 * heights (d.nodes.getD []) ≤ bound →
      2 * heights (d'.nodes.getD []) ≤ max bound (memberNestings members)
  | [], k, d, d', read, bound, below => by
      rw [readMembers] at read
      cases read
      exact Nat.le_trans below (Nat.le_max_left ..)
  | (name, j) :: rest, k, d, d', read, bound, below => by
      rw [readMembers] at read
      split at read
      · have later := heights_readMembers rest read bound below
        rw [memberNestings]
        omega
      · split at read
        · cases read
        · obtain ⟨d₁, first, read⟩ := ok_of_bind read
          have first := heights_readField j first bound below
          have later := heights_readMembers rest read _ first
          rw [memberNestings]
          omega

theorem heights_readItems : (items : List Json) → {count : Nat} → {d d' : Draft} →
    {fields : List (String × Field)} → readItems count d fields items = .ok d' →
      ∀ bound, 2 * heights (d.nodes.getD []) ≤ bound →
        2 * heights (d'.nodes.getD []) ≤ max bound (nestings items)
  | [], count, d, d', fields, read, bound, below => by
      unfold readItems at read
      cases read
      exact Nat.le_trans below (Nat.le_max_left ..)
  | j :: items, count, d, d', fields, read, bound, below => by
      cases fields with
      | nil =>
          rw [readItems] at read
          cases read
          simp
      | cons field fields =>
          rw [readItems] at read
          obtain ⟨d₁, first, read⟩ := ok_of_bind read
          have first := heights_readField j first bound below
          have later := heights_readItems items read _ first
          rw [nestings]
          omega

end

end Node

theorem heights_parseTree {source : String} {nodes : List Node}
    (loaded : parseTree source = .ok nodes) : Node.heights nodes ≤ 63 := by
  obtain ⟨items, -, low, -, said⟩ := parseTree_iff.1 loaded
  have levels := Node.heights_ofJsonList items said
  rw [nesting, nestingLimit] at low
  omega

/-- A tree that is loaded, from whatever spelling of it, can be saved and loaded again. No node of
it stands more than 63 levels deep, its saved text gives the same tree, and this one is saved as the
same text. -/
theorem parseTree_saved {source : String} {nodes : List Node}
    (loaded : parseTree source = .ok nodes) :
    Node.heights nodes ≤ 63 ∧ parseTree (toJson nodes) = .ok nodes ∧
      (parseTree (toJson nodes)).map toJson = .ok (toJson nodes) := by
  have low := heights_parseTree loaded
  have again : parseTree (toJson nodes) = .ok nodes := (parseTree_text bare_indented rfl).1 low
  refine ⟨low, again, ?_⟩
  rw [again]
  rfl

theorem parseTree_saved_lists :
    let source := "[[\"rule\",\"a\",[\x7b\"x\":[[]],\"kind\":\"at-root\"\x7d,[4]],[1,2]]]"
    let nodes : List Node :=
      [.block (.rule "a" (some ⟨1, 2⟩)) [.atRoot [], .context .empty []]]
    parseTree source = .ok nodes ∧ parseTree (toJson nodes) = .ok nodes := by
  intro source nodes
  have loaded : parseTree source = .ok nodes := by cbv
  exact ⟨loaded, (parseTree_saved loaded).2.1⟩

end StyleTree
