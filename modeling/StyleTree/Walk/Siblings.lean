import StyleTree.Node.Basic

namespace StyleTree.Walk

/-- Puts nodes in the place of one sibling. No node takes the sibling out, a single one overwrites
it, and of several ones all but the first move the later siblings to the right. -/
def splice (nodes : Array Node) (index : Nat) (replacement : List Node) : Array Node :=
  match replacement with
  | [] => nodes.eraseIdxIfInBounds index
  | [node] => nodes.setIfInBounds index node
  | _ => nodes.extract 0 index ++ replacement ++ nodes.extract (index + 1)

variable (before rest : List Node) (node : Node)

theorem getElem?_place : (before ++ node :: rest).toArray[before.length]? = some node := by simp

theorem set_place (node' : Node) :
    (before ++ node :: rest).toArray.setIfInBounds before.length node' =
      (before ++ node' :: rest).toArray := by
  simp

theorem splice_place (replacement : List Node) :
    splice (before ++ node :: rest).toArray before.length replacement =
      (before ++ (replacement ++ rest)).toArray := by
  match replacement with
  | [] => simp [splice, List.eraseIdx_append_of_length_le]
  | [node'] => simp [splice]
  | first :: second :: more =>
      have later : before.length + (rest.length + 1) - (before.length + 1) = rest.length := by omega
      simp [splice, later]

end StyleTree.Walk
