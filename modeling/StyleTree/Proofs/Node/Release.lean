import StyleTree.Node.Depth

namespace StyleTree.Node

mutual

def postorder : Node → List Node
  | .leaf l => [.leaf l]
  | .block head children => postorders children ++ [.block head children]

def postorders : List Node → List Node
  | [] => []
  | n :: rest => postorder n ++ postorders rest

end

theorem postorder_eq (n : Node) : n.postorder = postorders n.children ++ [n] := by
  cases n <;> simp [postorder, children, postorders]

theorem postorders_append (xs ys : List Node) :
    postorders (xs ++ ys) = postorders xs ++ postorders ys := by
  induction xs with
  | nil => rw [postorders, List.nil_append, List.nil_append]
  | cons x xs ih => rw [List.cons_append, postorders, postorders, ih, List.append_assoc]

mutual

/-- Gives up a node in one go: the node, and in calls inside of this one whatever is still in it.
Every node is listed with the number of calls around its own. -/
def discard (around : Nat) : Node → List (Nat × Node)
  | .leaf l => [(around, .leaf l)]
  | .block head children => (around, .block head children) :: discards (around + 1) children

def discards (around : Nat) : List Node → List (Nat × Node)
  | [] => []
  | n :: rest => discard around n ++ discards around rest

end

theorem discard_ne_nil (around : Nat) (n : Node) : n.discard around ≠ [] := by
  cases n with
  | leaf => exact List.cons_ne_nil _ _
  | block => exact List.cons_ne_nil _ _

theorem discards_eq_nil {around : Nat} {nodes : List Node} :
    discards around nodes = [] ↔ nodes = [] := by
  cases nodes with
  | nil => exact iff_of_true rfl rfl
  | cons n rest =>
      refine iff_of_false (fun none => ?_) (List.cons_ne_nil _ _)
      exact discard_ne_nil around n (List.append_eq_nil_iff.1 none).1

theorem discard_alone {around : Nat} {n : Node} :
    n.discard around = [(around, n)] ↔ n.children = [] := by
  cases n with
  | leaf l => exact iff_of_true rfl rfl
  | block head children =>
      rw [discard, List.cons_eq_cons, and_iff_right rfl, discards_eq_nil]
      rfl

theorem children_bare (n : Node) : n.bare.children = [] := by
  cases n <;> rfl

theorem children?_bare (n : Node) : n.bare.children? = none ∨ n.bare.children? = some [] := by
  cases n with
  | leaf => exact .inl rfl
  | block => exact .inr rfl

inductive Releases : Array Node → List Released → Array Node → Prop where
  | nothing {pending} : Releases pending [] pending
  | turn {pending r next released last} (takes : releaseNext pending = some (r, next))
      (later : Releases next released last) : Releases pending (r :: released) last

theorem postorders_releaseNext {pending next : Array Node} {r : Released}
    (takes : releaseNext pending = some (r, next)) :
    r.taken :: (postorders next.toList).reverse = (postorders pending.toList).reverse := by
  obtain ⟨waiting, n, rfl, rfl, rfl⟩ := exists_of_releaseNext takes
  simp [postorders_append, postorders, postorder_eq]

theorem sizes_eq_zero {nodes : List Node} : sizes nodes = 0 ↔ nodes = [] := by
  cases nodes with
  | nil => exact iff_of_true rfl rfl
  | cons n rest =>
      have some := n.size_pos
      refine iff_of_false ?_ (List.cons_ne_nil _ _)
      rw [sizes]
      omega

namespace Releases

variable {pending last : Array Node} {released : List Released}

theorem taken (releases : Releases pending released last) :
    released.map Released.taken ++ (postorders last.toList).reverse =
      (postorders pending.toList).reverse := by
  induction releases with
  | nothing => rfl
  | turn takes later ih =>
      rw [List.map_cons, List.cons_append, ih, postorders_releaseNext takes]

theorem length (releases : Releases pending released last) :
    released.length + sizes last.toList = sizes pending.toList := by
  induction releases with
  | nothing => exact Nat.zero_add _
  | turn takes later ih =>
      have one := sizes_releaseNext takes
      rw [List.length_cons]
      omega

theorem left (releases : Releases pending released last) :
    ∀ r ∈ released, r.left = r.taken.bare := by
  induction releases with
  | nothing => nofun
  | turn takes later ih =>
      obtain ⟨waiting, n, -, rfl, -⟩ := exists_of_releaseNext takes
      exact List.forall_mem_cons.2 ⟨rfl, ih⟩

end Releases

theorem exists_releases (made : List Released) (pending : Array Node) :
    ∃ released, releaseFrom made pending = made.reverse ++ released ∧
      Releases pending released #[] := by
  fun_induction releaseFrom made pending with
  | case1 made pending none =>
      rw [releaseNext_eq_none] at none
      exact ⟨[], (List.append_nil _).symm, none ▸ .nothing⟩
  | case2 made pending r next takes ih =>
      obtain ⟨released, all, later⟩ := ih
      refine ⟨r :: released, ?_, .turn takes later⟩
      rw [all, List.reverse_cons, List.append_assoc, List.singleton_append]

theorem releases_release (nodes : List Node) : Releases nodes.toArray (release nodes) #[] := by
  obtain ⟨released, all, releases⟩ := exists_releases [] nodes.toArray
  rw [release, all]
  exact releases

theorem length_release (nodes : List Node) : (release nodes).length = sizes nodes :=
  (releases_release nodes).length

/-- Taking a tree apart ends with an empty work list, after as many turns as the tree has nodes, and
takes out all of its nodes, each one once: a node before what is inside of it, and the last ones of
a list first. There is a next turn until that many are taken, and none after. Whenever a node is
given up, its list of children is empty or it has none, and giving it up is a single call. -/
theorem release_apart (nodes : List Node) :
    Releases nodes.toArray (release nodes) #[] ∧
    (release nodes).length = sizes nodes ∧
    (release nodes).map Released.taken = (postorders nodes).reverse ∧
    ∀ released pending, Releases nodes.toArray released pending →
      (releaseNext pending = none ↔ released.length = sizes nodes) ∧
      ∀ r ∈ released, r.left = r.taken.bare ∧
        (r.left.children? = none ∨ r.left.children? = some []) ∧
        r.left.discard 0 = [(0, r.left)] := by
  refine ⟨releases_release nodes, length_release nodes, ?_, ?_⟩
  · have taken := (releases_release nodes).taken
    rwa [postorders, List.reverse_nil, List.append_nil] at taken
  · intro released pending releases
    constructor
    · have length := releases.length
      rw [releaseNext_eq_none, ← Array.toList_eq_nil_iff, ← sizes_eq_zero, ← length]
      omega
    · intro r member
      have left := releases.left r member
      refine ⟨left, ?_, discard_alone.2 ?_⟩
      · rw [left]
        exact children?_bare r.taken
      · rw [left]
        exact children_bare r.taken

theorem release_apart_wrapped :
    let x : Node := .comment "x"
    let nodes : List Node := [.context .empty [.rule "a" [x, x]], .comment "y"]
    let r : Released := ⟨.rule "a" [x, x], .rule "a" []⟩
    (release nodes).length = 5 ∧ ∃ released, Releases nodes.toArray released #[x, x] ∧
      releaseNext #[x, x] ≠ none ∧ r ∈ released ∧
      r.left.children? = some [] ∧ r.left.discard 0 = [(0, r.left)] := by
  intro x nodes r
  have releases : Releases nodes.toArray
      [⟨.comment "y", .comment "y"⟩, ⟨.context .empty [.rule "a" [x, x]], .context .empty []⟩, r]
      #[x, x] := .turn rfl (.turn rfl (.turn rfl .nothing))
  have member : r ∈ [⟨.comment "y", .comment "y"⟩,
      ⟨.context .empty [.rule "a" [x, x]], .context .empty []⟩, r] := .tail _ (.tail _ (.head _))
  obtain ⟨-, length, -, turns⟩ := release_apart nodes
  obtain ⟨ends, alone⟩ := turns _ _ releases
  refine ⟨length, _, releases, fun none => ?_, member, rfl, (alone r member).2.2⟩
  exact absurd (ends.1 none) (by decide)

end StyleTree.Node
