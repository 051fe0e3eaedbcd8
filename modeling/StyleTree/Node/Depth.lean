import StyleTree.Node.Basic

namespace StyleTree.Node

mutual

def depth : Node → Nat
  | .leaf _ => 1
  | .block h children => if h.isContext then depths children else depths children + 1

def depths : List Node → Nat
  | [] => 0
  | n :: rest => max n.depth (depths rest)

end

mutual

def size : Node → Nat
  | .leaf _ => 1
  | .block _ children => sizes children + 1

def sizes : List Node → Nat
  | [] => 0
  | n :: rest => n.size + sizes rest

end

theorem size_pos (n : Node) : 0 < n.size := by cases n <;> simp [size]

theorem sizes_append (xs ys : List Node) : sizes (xs ++ ys) = sizes xs + sizes ys := by
  induction xs with
  | nil => simp [sizes]
  | cons x xs ih => simp [sizes, ih, Nat.add_assoc]

def pendingWork : List (List Node × Nat) → Nat
  | [] => 0
  | (nodes, _) :: pending => sizes nodes + 1 + pendingWork pending

def gauge (above : Nat) (met : Nat × List (List Node × Nat)) :
    Node → Nat × List (List Node × Nat)
  | .leaf _ => (max met.1 (above + 1), met.2)
  | .block h children =>
      if h.isContext then (met.1, (children, above) :: met.2)
      else (max met.1 (above + 1),
        if children.isEmpty then met.2 else (children, above + 1) :: met.2)

theorem pendingWork_gauge (above : Nat) (met : Nat × List (List Node × Nat)) (n : Node) :
    pendingWork (gauge above met n).2 ≤ n.size + pendingWork met.2 := by
  cases n with
  | leaf l => exact Nat.le_add_left ..
  | block head children =>
      rw [gauge, size]
      split
      · exact Nat.le_refl _
      · dsimp only
        split
        · exact Nat.le_add_left ..
        · exact Nat.le_refl _

def gaugeAll (above : Nat) (met : Nat × List (List Node × Nat)) (siblings : List Node) :
    Nat × List (List Node × Nat) := siblings.foldl (gauge above) met

theorem pendingWork_gaugeAll (above : Nat) (met : Nat × List (List Node × Nat))
    (siblings : List Node) :
    pendingWork (gaugeAll above met siblings).2 ≤ sizes siblings + pendingWork met.2 := by
  induction siblings generalizing met with
  | nil => exact Nat.le_add_left ..
  | cons n rest ih =>
      have first := pendingWork_gauge above met n
      have later := ih (gauge above met n)
      rw [gaugeAll, List.foldl_cons, ← gaugeAll, sizes]
      omega

/-- The deepest level met on a work list of sibling lists, each with the level above it. The last
list put on is taken first, and all of its siblings are gone through before the next one. -/
def deepest (best : Nat) : List (List Node × Nat) → Nat
  | [] => best
  | (siblings, above) :: pending =>
      let met := gaugeAll above (best, pending) siblings
      deepest met.1 met.2
termination_by pending => pendingWork pending
decreasing_by
  have found : pendingWork (gaugeAll above (best, pending) siblings).2 ≤
      sizes siblings + pendingWork pending := pendingWork_gaugeAll ..
  simp only [pendingWork]
  omega

def measuredDepth (nodes : List Node) : Nat := deepest 0 [(nodes, 0)]

def chainWith (head : Nat → Head) : Nat → Node → Node
  | 0, n => n
  | level + 1, n => chainWith head level (.block (head level) [n])

def levelRule (level : Nat) : Head := .rule (".l" ++ toString level) none

def chain (levels : Nat) (n : Node) : Node := chainWith levelRule levels n

def levelHead (kind : Kind) (level : Nat) : Head :=
  match kind with
  | .atRule => .atRule "@l" (toString level) none
  | .context => .context (Overlay.empty.insert "level" (.text (toString level)))
  | .atRoot => .atRoot
  | _ => levelRule level

def chainThrough (kinds : List Kind) (levels : Nat) (n : Node) : Node :=
  chainWith (fun level => levelHead (kinds.getD (level % kinds.length) .rule) level) levels n

structure Released where
  taken : Node
  left : Node
  deriving DecidableEq, Inhabited

def moveTo (pending : Array Node) (children : List Node) : Array Node × List Node :=
  (pending ++ children, [])

/-- Takes the last node off a work list and puts the children of the node on, if it is one that can
have any. The node is given up after that. -/
def releaseNext (pending : Array Node) : Option (Released × Array Node) :=
  pending.back?.map fun n =>
    match n.children? with
    | none => (⟨n, n⟩, pending.pop)
    | some children =>
        let (pending, kept) := moveTo pending.pop children
        (⟨n, n.withChildren kept⟩, pending)

theorem releaseNext_push (pending : Array Node) (n : Node) :
    releaseNext (pending.push n) = some (⟨n, n.bare⟩, pending ++ n.children) := by
  cases n with
  | leaf l => simp [releaseNext, children?, Node.children, bare, withChildren]
  | block head children => simp [releaseNext, children?, Node.children, bare, moveTo]

theorem exists_of_releaseNext {pending later : Array Node} {r : Released}
    (turn : releaseNext pending = some (r, later)) :
    ∃ (waiting : Array Node) (n : Node), pending = waiting.push n ∧
      r = ⟨n, n.bare⟩ ∧ later = waiting ++ n.children := by
  obtain ⟨n, last, -⟩ := Option.map_eq_some_iff.1 turn
  obtain ⟨waiting, rfl⟩ := Array.back?_eq_some_iff.1 last
  rw [releaseNext_push] at turn
  cases turn
  exact ⟨waiting, n, rfl, rfl, rfl⟩

theorem releaseNext_eq_none {pending : Array Node} :
    releaseNext pending = none ↔ pending = #[] := by
  rw [releaseNext, Option.map_eq_none_iff, Array.back?_eq_none_iff]

theorem sizes_releaseNext {pending later : Array Node} {r : Released}
    (turn : releaseNext pending = some (r, later)) :
    sizes later.toList + 1 = sizes pending.toList := by
  obtain ⟨waiting, n, rfl, rfl, rfl⟩ := exists_of_releaseNext turn
  have size : n.size = sizes n.children + 1 := by cases n <;> rfl
  rw [Array.toList_appendList, Array.toList_push, sizes_append, sizes_append, sizes, sizes, size]
  rfl

def releaseFrom (released : List Released) (pending : Array Node) : List Released :=
  match _ : releaseNext pending with
  | none => released.reverse
  | some (r, later) => releaseFrom (r :: released) later
termination_by sizes pending.toList
decreasing_by
  have := sizes_releaseNext ‹_›
  omega

def release (nodes : List Node) : List Released := releaseFrom [] nodes.toArray

end StyleTree.Node
