import StyleTree.Proofs.Walk.Site

namespace StyleTree.Walk

universe u
variable {σ : Type u}

namespace Engine

variable {v : Visitor σ} {e e' : Engine} {nodes : List Node} {state : σ}
  {calls calls' : List (Call σ)} {run run' : Run σ}

theorem walks_agree (walks : e.Walks v nodes state calls run)
    (walks' : e'.Walks v nodes state calls' run') : calls = calls' ∧ run = run' := by
  have same : e.Walks v nodes state calls' run' := walks_sweep.2 (walks_sweep.1 walks')
  exact Site.walks_unique (walks_site.1 walks) (walks_site.1 same)

theorem terminates_iff (e e' : Engine) (v : Visitor σ) (nodes : List Node) (state : σ) :
    (∃ fuel, (e.walk v fuel nodes state).isSome) ↔
      ∃ fuel, (e'.walk v fuel nodes state).isSome := by
  simp only [terminates_iff_walks, walks_sweep]

end Engine

/-- One engine terminates exactly if the other one does. Then both end in the same run, with the
state of the visitor, the tree and the place of the halt, and both make one and the same sequence of
hook calls. -/
theorem engines_agree (v : Visitor σ) (nodes : List Node) (state : σ) :
    ((∃ fuel, (recursive v fuel nodes state).isSome) ↔
        ∃ fuel, (iterative v fuel nodes state).isSome) ∧
      ∀ fuel fuel' run run', recursive v fuel nodes state = some run →
        iterative v fuel' nodes state = some run' →
          run = run' ∧ ∃ calls, ∀ (e : Engine) calls',
            e.Walks v nodes state calls' run ↔ calls' = calls := by
  refine ⟨Engine.terminates_iff .recursive .iterative v nodes state, ?_⟩
  intro fuel fuel' run run' ended ended'
  have recursive : Engine.recursive.walk v fuel nodes state = some run := ended
  have iterative : Engine.iterative.walk v fuel' nodes state = some run' := ended'
  obtain ⟨calls, walks⟩ := Engine.ends_iff_walks.1 ⟨fuel, recursive⟩
  obtain ⟨_, walks'⟩ := Engine.ends_iff_walks.1 ⟨fuel', iterative⟩
  refine ⟨(Engine.walks_agree walks walks').2, calls, fun e calls' => ?_⟩
  constructor
  · intro other
    exact (Engine.walks_agree other walks).1
  · rintro rfl
    exact Engine.walks_sweep.2 (Engine.walks_sweep.1 walks)

theorem engines_agree_replacing_comments :
    let v : Visitor Nat := .ofEnter fun _ node count =>
      ⟨count + 1, node, if node.kind = .comment then [[.atRoot []]] else [], .proceed⟩
    let nodes : List Node := [.rule "a" [.comment "x"], .context .empty [.comment "y"]]
    let run : Run Nat := ⟨5, [.rule "a" [.atRoot []], .context .empty [.atRoot []]], none⟩
    recursive v 6 nodes 0 = some run ∧ iterative v 12 nodes 0 = some run ∧
      ∃ calls, ∀ (e : Engine) calls', e.Walks v nodes 0 calls' run ↔ calls' = calls := by
  intro v nodes run
  have recursive : recursive v 6 nodes 0 = some run := by cbv
  have iterative : iterative v 12 nodes 0 = some run := by cbv
  exact ⟨recursive, iterative, ((engines_agree v nodes 0).2 6 12 run run recursive iterative).2⟩

end StyleTree.Walk
