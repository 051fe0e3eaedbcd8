import StyleTree.Node.Depth

namespace StyleTree.Node

def bottom (above : Nat) : Nat → Nat
  | 0 => 0
  | levels + 1 => above + (levels + 1)

theorem bottom_max (above m n : Nat) :
    bottom above (max m n) = max (bottom above m) (bottom above n) := by
  cases m with
  | zero => rw [Nat.zero_max, bottom, Nat.zero_max]
  | succ m =>
      cases n with
      | zero => rw [Nat.max_zero, bottom, Nat.max_zero]
      | succ n => rw [Nat.succ_max_succ, bottom, bottom, bottom, Nat.add_max_add_left,
          Nat.succ_max_succ]

theorem bottom_succ (above levels : Nat) :
    bottom above (levels + 1) = max (above + 1) (bottom (above + 1) levels) := by
  cases levels with
  | zero => rfl
  | succ levels =>
      simp only [bottom]
      omega

def reach : List (List Node × Nat) → Nat
  | [] => 0
  | (nodes, above) :: pending => max (bottom above (depths nodes)) (reach pending)

theorem reach_gauge (above : Nat) (met : Nat × List (List Node × Nat)) (n : Node) :
    max (gauge above met n).1 (reach (gauge above met n).2) =
      max (bottom above n.depth) (max met.1 (reach met.2)) := by
  cases n with
  | leaf l =>
      rw [gauge, depth, bottom]
      dsimp only
      omega
  | block head children =>
      rw [gauge, depth]
      split
      · rw [reach]
        omega
      · rw [bottom_succ]
        dsimp only
        split
        · next none =>
          rw [List.isEmpty_iff.1 none, depths, bottom]
          omega
        · rw [reach]
          omega

theorem reach_gaugeAll (above : Nat) (met : Nat × List (List Node × Nat)) (siblings : List Node) :
    max (gaugeAll above met siblings).1 (reach (gaugeAll above met siblings).2) =
      max (bottom above (depths siblings)) (max met.1 (reach met.2)) := by
  induction siblings generalizing met with
  | nil => rw [gaugeAll, List.foldl_nil, depths, bottom, Nat.zero_max]
  | cons n rest ih =>
      rw [gaugeAll, List.foldl_cons, ← gaugeAll, ih, reach_gauge, depths, bottom_max]
      omega

/-- The best level and the levels that the work list leads to are together as deep as before, when
one list is taken and the lists inside of it are put on. -/
theorem deepest_eq (best : Nat) (pending : List (List Node × Nat)) :
    deepest best pending = max best (reach pending) := by
  induction best, pending using deepest.induct with
  | case1 best => rw [deepest, reach, Nat.max_zero]
  | case2 best siblings above pending met ih =>
      have found : max met.1 (reach met.2) =
          max (bottom above (depths siblings)) (max best (reach pending)) := reach_gaugeAll ..
      rw [deepest, ih, found, reach]
      omega

theorem measuredDepth_eq (nodes : List Node) : measuredDepth nodes = depths nodes := by
  rw [measuredDepth, deepest_eq, reach, reach, Nat.zero_max, Nat.max_zero]
  cases depths nodes with
  | zero => rfl
  | succ levels => exact Nat.zero_add (levels + 1)

theorem depth_pos {n : Node} (kind : n.kind ≠ .context) : 0 < n.depth := by
  cases n with
  | leaf => exact Nat.one_pos
  | block head children =>
      cases head with
      | context => exact absurd rfl kind
      | _ => exact Nat.succ_pos _

theorem depth_block {head : Head} {children : List Node}
    (kind : (block head children).kind ≠ .context) :
    (block head children).depth = depths children + 1 := by
  cases head with
  | context => exact absurd rfl kind
  | _ => rfl

theorem depths_children_le (n : Node) : depths n.children ≤ n.depth := by
  cases n with
  | leaf => exact Nat.zero_le 1
  | block head children =>
      rw [Node.children, depth]
      split <;> omega

theorem depths_append (xs ys : List Node) : depths (xs ++ ys) = max (depths xs) (depths ys) := by
  induction xs with
  | nil => simp [depths]
  | cons x xs ih => simp [depths, ih, Nat.max_assoc]

theorem depth_chainWith {head : Nat → Head} (isLevel : ∀ i, (head i).isContext = false)
    (levels : Nat) (n : Node) : (chainWith head levels n).depth = levels + n.depth := by
  induction levels generalizing n with
  | zero => rw [chainWith, Nat.zero_add]
  | succ levels ih =>
      rw [chainWith, ih, depth, isLevel, depths, depths, Nat.max_zero, Nat.succ_add]
      rfl

theorem measuredDepth_chain (levels : Nat) (n : Node) :
    measuredDepth [chain levels n] = levels + measuredDepth [n] := by
  have alone (n : Node) : measuredDepth [n] = n.depth := by
    rw [measuredDepth_eq, depths, depths, Nat.max_zero]
  rw [alone, alone]
  exact depth_chainWith (fun _ => rfl) levels n

end StyleTree.Node
