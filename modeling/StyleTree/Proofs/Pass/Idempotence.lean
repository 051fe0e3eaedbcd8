import StyleTree.Proofs.Pass.Rewrite
import StyleTree.Proofs.Text.Upper

namespace StyleTree.Pass

open Walk

mutual

def Settled : Node → Prop
  | .leaf (.comment ..) => False
  | .leaf (.declaration d) => d.property ≠ "margin" ∧ Text.upper d.property = d.property
  | .block head children =>
      isSupports (.block head children) ∨ isStop (.block head children) ∨ SettledAll children

def SettledAll : List Node → Prop
  | [] => True
  | n :: rest => Settled n ∧ ((exposed n).any isStop ∨ SettledAll rest)

end

theorem exposedAll_append (a b : List Node) :
    exposedAll (a ++ b) = exposedAll a ++ exposedAll b := by
  induction a with
  | nil => rfl
  | cons n rest ih => rw [List.cons_append, exposedAll, exposedAll, ih, List.append_assoc]

theorem isSupports_block (head : Head) (xs ys : List Node) :
    isSupports (.block head xs) = isSupports (.block head ys) := by
  cases head <;> rfl

theorem isStop_block (head : Head) (xs ys : List Node) :
    isStop (.block head xs) = isStop (.block head ys) := by
  cases head <;> rfl

theorem SettledAll.append {a b : List Node} (first : SettledAll a)
    (later : (exposedAll a).any isStop ∨ SettledAll b) : SettledAll (a ++ b) := by
  induction a with
  | nil => simpa [exposedAll] using later
  | cons n rest ih =>
      obtain ⟨settled, stops | others⟩ := first
      · exact ⟨settled, .inl stops⟩
      · rw [exposedAll, List.any_append, Bool.or_eq_true, or_assoc] at later
        exact ⟨settled, later.imp_right (ih others)⟩

/-! ## What a pass leaves -/

mutual

theorem any_isStop_rewrite : (n : Node) →
    (exposedAll (rewrite n)).any isStop = (exposed n).any isStop
  | .leaf (.comment ..) => rfl
  | .leaf (.declaration d) => by
      rw [rewrite]
      split <;> rfl
  | .block head children => by
      have inner := any_isStop_rewriteAll children
      rw [rewrite]
      split
      · rw [exposedAll, exposedAll, List.append_nil]
      · rw [exposedAll, exposedAll, List.append_nil, exposed, exposed,
          isSupports_block head _ children, List.any_cons, List.any_cons,
          isStop_block head _ children]
        split
        · rfl
        · rw [inner]

theorem any_isStop_rewriteAll : (nodes : List Node) →
    (exposedAll (rewriteAll nodes)).any isStop = (exposedAll nodes).any isStop
  | [] => rfl
  | n :: rest => by
      have later := any_isStop_rewriteAll rest
      rw [rewriteAll, exposedAll_append, exposedAll, List.any_append, List.any_append,
        any_isStop_rewrite n]
      split
      · rfl
      · rw [later]

end

theorem settledAll_longhands (value : Option String) : SettledAll (longhands value) := by
  have settled : ∀ side ∈ ["MARGIN-TOP", "MARGIN-RIGHT", "MARGIN-BOTTOM", "MARGIN-LEFT"],
      side ≠ "margin" ∧ Text.upper side = side := by decide
  simp only [List.forall_mem_cons] at settled
  obtain ⟨top, right, bottom, left, -⟩ := settled
  exact ⟨top, .inr ⟨right, .inr ⟨bottom, .inr ⟨left, .inr trivial⟩⟩⟩⟩

mutual

theorem settledAll_rewrite : (n : Node) → SettledAll (rewrite n)
  | .leaf (.comment ..) => trivial
  | .leaf (.declaration d) => by
      rw [rewrite]
      split
      · exact settledAll_longhands d.value
      · -- a margin written in small letters is not made by upper case
        have small : Text.upper "margin" ≠ "margin" := by decide
        exact ⟨⟨Text.upper_ne small, Text.upper_upper d.property⟩, .inr trivial⟩
  | .block head children => by
      have inner := settledAll_rewriteAll children
      rw [rewrite]
      split
      · next closed =>
        rw [Bool.or_eq_true] at closed
        exact ⟨closed.imp_right .inl, .inr trivial⟩
      · exact ⟨.inr (.inr inner), .inr trivial⟩

theorem settledAll_rewriteAll : (nodes : List Node) → SettledAll (rewriteAll nodes)
  | [] => trivial
  | n :: rest => by
      have first := settledAll_rewrite n
      have later := settledAll_rewriteAll rest
      rw [rewriteAll]
      split
      · next stops =>
        rw [← any_isStop_rewrite] at stops
        exact first.append (.inl stops)
      · exact first.append (.inr later)

end

/-! ## A pass over a settled tree -/

section
variable {view : View} {p : Pass} {n : Node}

theorem enter_settled (settled : Settled n) : visitor.enter view n p =
    ⟨p.entering, n, [], if isSupports n then .skip else if isStop n then .stop else .proceed⟩ := by
  match n, settled with
  | .leaf (.declaration d), ⟨noMargin, upper⟩ =>
      rw [enter_declaration view p noMargin, upper]
      rfl
  | .block head children, _ => exact enter_block view p head children

variable {e : Entered Pass}

theorem verdict_settled (settled : Settled n) (entered : visitor.enter view n p = e) :
    e.verdict = if isSupports n then .skip else if isStop n then .halt else .descend := by
  rw [← entered, enter_settled settled]
  split
  · rfl
  · split <;> rfl

theorem inside_settled (settled : Settled n) (kind : n.kind ≠ .context)
    (entered : visitor.enter view n p = e) (stays : e.verdict.stays) :
    SettledAll e.inside ∧ (exposed n).any isStop = (exposedAll e.inside).any isStop := by
  have verdict := verdict_settled settled entered
  have same : e.node = n := by rw [← entered, enter_settled settled]
  match n, settled with
  | .leaf (.declaration d), _ =>
      have inside : e.inside = [] := by
        rw [Entered.inside, verdict, same]
        rfl
      rw [inside]
      exact ⟨trivial, rfl⟩
  | .block head children, settled =>
      rw [exposed, List.any_cons]
      cases supports : isSupports (.block head children) with
      | true =>
          have inside : e.inside = [] := by
            rw [Entered.inside, verdict, supports]
            rfl
          rw [inside, isStop_of_supports supports]
          exact ⟨trivial, rfl⟩
      | false =>
          cases stop : isStop (.block head children) with
          | true =>
              rw [verdict, supports, stop] at stays
              cases stays
          | false =>
              have inside : e.inside = children := by
                rw [Entered.inside, verdict, supports, stop, same]
                rfl
              rw [inside]
              refine ⟨?_, rfl⟩
              simpa [Settled, supports, stop] using settled

end

theorem any_isStop_of_isStop {n : Node} (stop : isStop n) : (exposed n).any isStop := by
  cases n with
  | leaf => cases stop
  | block => rw [exposed, List.any_cons, stop, Bool.true_or]

theorem SettledAll.later {n : Node} {rest : List Node} (settled : SettledAll (n :: rest))
    (goes : (exposed n).any isStop = false) : SettledAll rest := by
  simpa [goes] using settled.2

theorem Settled.inside_context {overlay : Overlay} {children : List Node}
    (settled : Settled (.block (.context overlay) children)) : SettledAll children := by
  rcases settled with supports | stop | inside
  · cases supports
  · cases stop
  · exact inside

structure Keeps (nodes : List Node) (p : Pass) (run : Run Pass) : Prop where
  kept : run.nodes = nodes
  replaced : run.state.replaced = p.replaced
  halts : run.halt.isSome = (exposedAll nodes).any isStop

namespace Keeps

variable {p p' : Pass} {n : Node} {rest : List Node}

theorem ended {halt : Halt} (stops : (exposed n).any isStop) (replaced : p'.replaced = p.replaced) :
    Keeps (n :: rest) p ⟨p', n :: rest, some halt⟩ := by
  refine ⟨rfl, replaced, ?_⟩
  rw [exposedAll, List.any_append, stops]
  rfl

theorem prepend {run : Run Pass} (keeps : Keeps rest p' run)
    (goes : (exposed n).any isStop = false) (replaced : p'.replaced = p.replaced) :
    Keeps (n :: rest) p (run.after [n]) := by
  refine ⟨congrArg (n :: ·) keeps.kept, keeps.replaced.trans replaced, ?_⟩
  rw [exposedAll, List.any_append, goes]
  exact keeps.halts

end Keeps

theorem keeps_settled {view : View} {index : Nat} {nodes : List Node} {p : Pass}
    {calls : List (Call Pass)} {run : Run Pass}
    (sweep : Sweep visitor view index nodes p calls run) (settled : SettledAll nodes) :
    Keeps nodes p run := by
  -- a settled node is kept or ends the walk, so of the nine ways to go on three cannot be
  induction sweep with
  | nil => exact ⟨rfl, rfl, rfl⟩
  | @context _ _ overlay children _ _ _ inner _ _ _ goes _ within later =>
      have keeps := within settled.1.inside_context
      have goesOn : (exposed (.block (.context overlay) children)).any isStop = false := by
        have halts := keeps.halts
        rw [goes] at halts
        exact halts.symm
      rw [keeps.kept]
      exact (later (settled.later goesOn)).prepend goesOn keeps.replaced
  | @contextHalt _ _ overlay children _ _ _ _ _ _ halts within =>
      have keeps := within settled.1.inside_context
      have stops : (exposed (.block (.context overlay) children)).any isStop := by
        have stops := keeps.halts
        rw [halts] at stops
        exact stops.symm
      rw [keeps.kept]
      exact .ended stops keeps.replaced
  | revisit _ entered verdict =>
      rw [verdict_settled settled.1 entered] at verdict
      split_ifs at verdict
  | pass _ entered verdict =>
      rw [verdict_settled settled.1 entered] at verdict
      split_ifs at verdict
  | @halt _ _ n _ _ _ _ entered verdict =>
      have same := entered.symm.trans (enter_settled settled.1)
      have stop : isStop n := by
        rw [verdict_settled settled.1 entered] at verdict
        split_ifs at verdict with _ stop
        exact stop
      rw [same]
      exact .ended (any_isStop_of_isStop stop) rfl
  | @insideHalt _ _ n _ _ _ _ _ _ kind entered stays _ halts within =>
      obtain ⟨inside, exposes⟩ := inside_settled settled.1 kind entered stays
      have keeps := within inside
      have same := entered.symm.trans (enter_settled settled.1)
      have stops : (exposed n).any isStop := by
        rw [exposes, ← keeps.halts, halts]
        rfl
      rw [keeps.kept, Entered.refill_inside, same]
      refine .ended stops (keeps.replaced.trans ?_)
      rw [same]
      rfl
  | exitHalt _ _ _ _ _ exited flow =>
      rw [← exited] at flow
      cases flow
  | @exit _ _ n _ _ _ _ _ _ _ _ kind entered stays _ goes exited _ _ within later =>
      obtain ⟨inside, exposes⟩ := inside_settled settled.1 kind entered stays
      have keeps := within inside
      have same := entered.symm.trans (enter_settled settled.1)
      have goesOn : (exposed n).any isStop = false := by
        rw [exposes, ← keeps.halts, goes]
        rfl
      have left := later (settled.later goesOn)
      rw [keeps.kept, Entered.refill_inside, same] at exited
      rw [← exited] at left ⊢
      refine left.prepend goesOn (keeps.replaced.trans ?_)
      rw [same]
      rfl

/-- Of two fresh passes, each with either engine, the second one gets the tree that the first one
leaves. It ends as the first one did, replaces nothing and leaves the tree as it is. -/
theorem walks_settle (e e' : Engine) (nodes : List Node) :
    ∃ first second : Run Pass,
      (∀ r, (∃ fuel, e.walk visitor fuel nodes {} = some r) ↔ r = first) ∧
      (∀ r, (∃ fuel, e'.walk visitor fuel first.nodes {} = some r) ↔ r = second) ∧
      second.nodes = first.nodes ∧ second.outcome = first.outcome ∧
      second.state.replaced = 0 := by
  obtain ⟨calls, first, sweep, left, halts, -⟩ := yields_nodes nodes .root 0 {}
  obtain ⟨calls', second, sweep', -, -, -⟩ := yields_nodes first.nodes .root 0 {}
  have settled : SettledAll first.nodes := left ▸ settledAll_rewriteAll nodes
  have keeps := keeps_settled sweep' settled
  refine ⟨first, second, Engine.ends_exactly sweep e, Engine.ends_exactly sweep' e', keeps.kept,
    ?_, keeps.replaced⟩
  have same : second.halt.isSome = first.halt.isSome := by
    rw [keeps.halts, halts, left, any_isStop_rewriteAll]
  rw [Run.outcome, Run.outcome, same]

end StyleTree.Pass
