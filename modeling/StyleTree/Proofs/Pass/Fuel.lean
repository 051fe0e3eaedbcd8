import StyleTree.Proofs.Node.Release
import StyleTree.Proofs.Pass.Rewrite
import StyleTree.Proofs.Walk.Fuel

namespace StyleTree.Pass

open Walk

mutual

def cost : Node → Nat
  | .leaf l => if isMargin (.leaf l) then 5 else 1
  | .block _ children => costs children + 2

def costs : List Node → Nat
  | [] => 0
  | n :: rest => cost n + costs rest

end

theorem total_cost (nodes : List Node) : total cost nodes = costs nodes := by
  induction nodes with
  | nil => rfl
  | cons n rest ih => rw [total_cons, ih, costs]

theorem cost_pos (n : Node) : 0 < cost n := by
  cases n with
  | leaf l =>
      rw [cost]
      split <;> decide
  | block => exact Nat.zero_lt_succ _

mutual

theorem cost_le : (n : Node) → cost n ≤ 5 * n.size
  | .leaf l => by
      rw [cost, Node.size]
      split <;> decide
  | .block head children => by
      have inner := costs_le children
      rw [cost, Node.size]
      omega

theorem costs_le : (nodes : List Node) → costs nodes ≤ 5 * Node.sizes nodes
  | [] => Nat.zero_le _
  | n :: rest => by
      have first := cost_le n
      have later := costs_le rest
      rw [costs, Node.sizes]
      omega

end

theorem total_children (head : Head) (children : List Node) :
    total cost children + 2 = cost (.block head children) := by
  rw [cost, total_cost]

theorem total_sides (d : Declaration) : total cost (marginBySide d) = 4 := by
  simp [marginBySide, sides, cost, isMargin, Node.declaration?]

theorem burns : visitor.Burns cost where
  pos := cost_pos
  context overlay children := Nat.le_of_eq (total_children (.context overlay) children)
  revisit view node p nodes _ verdict := by
    obtain ⟨d, margin, rfl, rfl⟩ | ⟨text, span, rfl, rfl⟩ := replaced_cases view p verdict
    · have isMargin : isMargin (.leaf (.declaration d)) := by
        simpa [isMargin, Node.declaration?] using margin
      rw [total_sides, cost, if_pos isMargin]
      decide
    · exact cost_pos _
  inside view node p _ some := by
    have within := (Entered.inside_cases _).resolve_left some
    rw [within, entered_children] at some ⊢
    cases node with
    | leaf => exact absurd rfl some
    | block head children => exact Nat.le_of_eq (total_children head children)

theorem total_lt_fuelFor (nodes : List Node) : total cost nodes < fuelFor nodes := by
  have bound := costs_le nodes
  rw [fuelFor, Node.length_release, total_cost]
  omega

/-- A fresh pass ends in one run, whatever engine walks the tree and whatever fuel it ends with; the
fuel for passes is enough. -/
theorem exists_run (nodes : List Node) :
    ∃ run : Run Pass, ∀ e : Engine, e.walk visitor (fuelFor nodes) nodes {} = some run ∧
      ∀ r, (∃ fuel, e.walk visitor fuel nodes {} = some r) ↔ r = run := by
  obtain ⟨calls, run, sweep, -⟩ := yields_nodes nodes .root 0 {}
  refine ⟨run, fun e => ⟨?_, Engine.ends_exactly sweep e⟩⟩
  obtain ⟨r, ended⟩ := Option.isSome_iff_exists.1
    (Engine.walk_isSome burns e (total_lt_fuelFor nodes) {})
  rw [ended, (Engine.ends_exactly sweep e r).1 ⟨_, ended⟩]

end StyleTree.Pass
