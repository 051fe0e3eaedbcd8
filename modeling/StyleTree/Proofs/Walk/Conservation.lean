import StyleTree.Proofs.Walk.Cursor
import Mathlib

namespace StyleTree

namespace Node

mutual

def count (p : Node → Bool) : Node → Nat
  | .leaf l => if p (.leaf l) then 1 else 0
  | .block head children => (if p (.block head []) then 1 else 0) + counts p children

def counts (p : Node → Bool) : List Node → Nat
  | [] => 0
  | n :: rest => n.count p + counts p rest

end

variable (p : Node → Bool)

@[simp] theorem counts_nil : counts p [] = 0 := by rw [counts]

@[simp] theorem counts_cons (n : Node) (rest : List Node) :
    counts p (n :: rest) = n.count p + counts p rest := by rw [counts]

@[simp] theorem counts_append (xs ys : List Node) :
    counts p (xs ++ ys) = counts p xs + counts p ys := by
  induction xs with
  | nil => simp
  | cons x xs ih => simp [ih, Nat.add_assoc]

end Node

namespace Walk

universe u
variable {σ : Type u} {v : Visitor σ} {p : Node → Bool}

open Node (count counts)

namespace Level

theorem counts_around (level : Level) (nodes : List Node) :
    counts p (level.around nodes) = counts p (level.around []) + counts p nodes := by
  cases level <;> simp [around, count] <;> omega

theorem counts_enclose (levels : List Level) (nodes : List Node) :
    counts p (enclose levels nodes) = counts p (enclose levels []) + counts p nodes := by
  induction levels generalizing nodes with
  | nil => simp [enclose]
  | cons level levels ih =>
      have inner := counts_around (p := p) level nodes
      have outer := ih (level.around nodes)
      have bare := ih (level.around [])
      simp only [enclose, List.foldl_cons] at outer bare ⊢
      omega

end Level

def balance (p : Node → Bool) (v : Visitor σ) (calls : List (Call σ)) : Int :=
  (calls.map fun c => ((c.left v).count p : Int) - c.node.count p).sum +
    ((calls.filter (Call.splices v)).map fun c =>
      (counts p (c.inserted v) : Int) - (c.left v).count p).sum

theorem balance_append (calls calls' : List (Call σ)) :
    balance p v (calls ++ calls') = balance p v calls + balance p v calls' := by
  simp only [balance, List.map_append, List.filter_append, List.sum_append]
  omega

theorem balance_single (c : Call σ) :
    balance p v [c] = (counts p (c.leaves v) : Int) - c.node.count p := by
  by_cases splices : c.splices v
  · simp only [balance, Call.leaves, splices, List.map_cons, List.map_nil, List.sum_cons,
      List.sum_nil, List.filter_cons_of_pos, List.filter_nil, if_true]
    omega
  · simp [balance, Call.leaves, splices]

theorem Cursor.counts_change {k : Cursor} {state : σ} {c : Call σ} {after : List Node}
    (called : k.Calls state c after) (nodes : List Node) :
    (counts p (Level.enclose k.above (k.before ++ (nodes ++ after))) : Int) - counts p k.tree =
      counts p nodes - c.node.count p := by
  rw [tree, called.rest, Level.counts_enclose, Level.counts_enclose k.above (_ ++ c.node :: after)]
  simp only [Node.counts_append, Node.counts_cons]
  omega

theorem Move.conserves {k k' : Cursor} {state state' : σ} {call : Option (Call σ)}
    (move : Move v k state call k' state') :
    (counts p k'.tree : Int) - counts p k.tree = balance p v call.toList := by
  cases call with
  | none =>
      rw [move.tree_of_silent.1]
      simp [balance]
  | some c =>
      obtain ⟨after, called, tree⟩ := move.tree_of_call
      rw [tree, Cursor.counts_change called]
      exact (balance_single c).symm

theorem Course.conserves {k k' : Cursor} {state state' : σ} {calls : List (Call σ)}
    (course : Course v k state calls k' state') :
    (counts p k'.tree : Int) - counts p k.tree = balance p v calls := by
  induction course with
  | refl => simp [balance]
  | move first _ ih =>
      have step := first.conserves (p := p)
      rw [balance_append]
      omega

theorem Ends.conserves {k : Cursor} {state : σ} {last : List (Call σ)} {run : Run σ}
    (ends : Ends v k state last run) :
    (counts p run.nodes : Int) - counts p k.tree = balance p v last := by
  rcases ends.last with ⟨rfl, -, rfl, -⟩ | ⟨c, after, rfl, -, called, stops, left⟩
  · simp [balance, Cursor.tree, Level.enclose]
  · rw [left, balance_single, Call.leaves_of_stops stops]
    exact Cursor.counts_change called [c.left v]

/-- The nodes that pass a test after a walk, against those before it: the difference is what the
hooks made of the nodes they were given, and what was inserted in the place of replaced ones. -/
theorem walks_conserve (p : Node → Bool) {e : Engine} {nodes : List Node} {state : σ}
    {calls : List (Call σ)} {run : Run σ} (walks : e.Walks v nodes state calls run) :
    (counts p run.nodes : Int) - counts p nodes =
      (calls.map fun c => ((c.left v).count p : Int) - c.node.count p).sum +
        ((calls.filter (Call.splices v)).map fun c =>
          (counts p (c.inserted v) : Int) - (c.left v).count p).sum := by
  obtain ⟨first, k, state', last, rfl, course, ends⟩ := walks_course walks
  have earlier : (counts p k.tree : Int) - counts p nodes = balance p v first := course.conserves
  have final : (counts p run.nodes : Int) - counts p k.tree = balance p v last := ends.conserves
  calc (counts p run.nodes : Int) - counts p nodes
      = balance p v first + balance p v last := by omega
    _ = balance p v (first ++ last) := (balance_append first last).symm

theorem walks_conserve_comments :
    let v : Visitor Unit :=
      { enter := fun _ node _ => if node.kind = .comment
          then ⟨(), node, [[.comment "y", .comment "z"]], .skip⟩ else ⟨(), node, [], .proceed⟩
        exit := fun _ node _ => ⟨(), node.bare, .proceed⟩ }
    let isComment : Node → Bool := fun n => n.kind = .comment
    let nodes : List Node := [.rule "a" [.comment "x"]]
    let run : Run Unit := ⟨(), [.rule "a" []], none⟩
    let calls : List (Call Unit) :=
      [⟨.enter, .root, .rule "a" [.comment "x"], ()⟩,
        ⟨.enter, View.root.below (.rule "a" []), .comment "x", ()⟩,
        ⟨.exit, .root, .rule "a" [.comment "y", .comment "z"], ()⟩]
    Engine.recursive.Walks v nodes () calls run ∧ counts isComment nodes = 1 ∧
      counts isComment run.nodes = 0 ∧
      (counts isComment run.nodes : Int) - counts isComment nodes =
        (calls.map fun c => ((c.left v).count isComment : Int) - c.node.count isComment).sum +
          ((calls.filter (Call.splices v)).map fun c =>
            (counts isComment (c.inserted v) : Int) - (c.left v).count isComment).sum := by
  intro v isComment nodes run calls
  have kind : (Node.rule "a" [.comment "x"]).kind ≠ .context := by decide
  have isLeaf : (Node.comment "x").kind ≠ .context := by decide
  have spliced : (v.enter (View.root.below (.rule "a" [])) (.comment "x") ()).verdict =
      .replace [.comment "y", .comment "z"] false := rfl
  have inner : Sweep v (View.root.below (.rule "a" [])) 0 [.comment "x"] ()
      [⟨.enter, View.root.below (.rule "a" []), .comment "x", ()⟩]
      ⟨(), [.comment "y", .comment "z"], none⟩ :=
    Sweep.pass isLeaf rfl spliced .nil
  have sweep : Sweep v .root 0 nodes () calls run :=
    Sweep.exit kind rfl rfl inner rfl rfl rfl .nil
  have walks : Engine.recursive.Walks v nodes () calls run := Engine.walks_sweep.2 sweep
  exact ⟨walks, by decide, by decide, walks_conserve isComment walks⟩

end Walk
end StyleTree
