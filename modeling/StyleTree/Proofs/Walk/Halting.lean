import StyleTree.Proofs.Walk.Cursor

namespace StyleTree.Walk

universe u
variable {σ : Type u} {v : Visitor σ}

/-- A walk is stopped exactly if one of its calls stops it. This is its last call, made at a cursor
in the tree as the calls before left it, and the walk leaves this tree with the node as the hook
left it: at each level above, the siblings after it are what they were. -/
theorem walks_stop {e : Engine} {nodes : List Node} {state : σ} {calls : List (Call σ)}
    {run : Run σ} (walks : e.Walks v nodes state calls run) :
    (run.outcome = .stopped ↔ ∃ c ∈ calls, c.Stops v) ∧
    ∀ earlier c later, calls = earlier ++ c :: later → c.Stops v → later = [] ∧
      ∃ k state' after, Course v (.start nodes) state earlier k state' ∧ k.Calls state' c after ∧
        k.tree = Level.enclose k.above (k.before ++ c.node :: after) ∧
        run.nodes = Level.enclose k.above (k.before ++ c.left v :: after) := by
  obtain ⟨first, k, state', last, parts, course, ends⟩ := walks_course walks
  constructor
  · rw [Run.outcome_stopped, parts]
    rcases ends.last with ⟨rfl, halt, -⟩ | ⟨c, after, rfl, halts, -, stops, -⟩
    · rw [halt, List.append_nil]
      constructor
      · nofun
      · rintro ⟨c, member, stops⟩
        exact absurd stops (course.not_stops c member)
    · exact ⟨fun _ => ⟨c, by simp, stops⟩, fun _ => halts⟩
  · rintro earlier c later rfl stops
    have nothing : later = [] := by
      cases later with
      | nil => rfl
      | cons d later =>
          rw [← List.singleton_append, ← List.append_assoc] at walks
          exact absurd stops (walks_goes walks c (by simp))
    subst nothing
    rcases ends.last with ⟨rfl, -⟩ | ⟨d, after, rfl, -, called, -, left⟩
    · rw [List.append_nil] at parts
      exact absurd stops (course.not_stops c (by simp [← parts]))
    · obtain ⟨rfl, same⟩ := List.append_inj' parts rfl
      cases same
      exact ⟨rfl, k, state', after, course, called, by rw [Cursor.tree, called.rest], left⟩

theorem walks_stop_in_wrapper :
    let v : Visitor Unit := .ofEnter fun _ node _ =>
      ⟨(), node.withText "seen", [], if node.kind = .comment then .stop else .proceed⟩
    let nodes : List Node :=
      [.context .empty [.rule "a" [.comment "x", .comment "y"]], .comment "z"]
    let run : Run Unit :=
      ⟨(), [.context .empty [.rule "seen" [.comment "seen", .comment "y"]], .comment "z"],
        some ⟨.enter, 0⟩⟩
    let b : Call Unit := ⟨.enter, .root, .rule "a" [.comment "x", .comment "y"], ()⟩
    let c : Call Unit := ⟨.enter, View.root.below (.rule "seen" []), .comment "x", ()⟩
    Engine.recursive.Walks v nodes () [b, c] run ∧ c.Stops v ∧
      ∃ k state' after, Course v (.start nodes) () [b] k state' ∧ k.Calls state' c after ∧
        run.nodes = Level.enclose k.above (k.before ++ .comment "seen" :: after) := by
  intro v nodes run b c
  have kind : (Node.rule "a" [.comment "x", .comment "y"]).kind ≠ .context := by decide
  have inner : Sweep v (View.root.below (.rule "seen" [])) 0 [.comment "x", .comment "y"] () [c]
      ⟨(), [.comment "seen", .comment "y"], some ⟨.enter, 0⟩⟩ :=
    .halt (by decide) rfl rfl
  have wrapped : Sweep v (View.root.under .empty) 0 [.rule "a" [.comment "x", .comment "y"]] ()
      [b, c] ⟨(), [.rule "seen" [.comment "seen", .comment "y"]], some ⟨.enter, 0⟩⟩ :=
    .insideHalt kind rfl rfl inner rfl
  have sweep : Sweep v .root 0 nodes () [b, c] run := Sweep.contextHalt wrapped rfl
  have walks : Engine.recursive.Walks v nodes () [b, c] run := Engine.walks_sweep.2 sweep
  have stops : c.Stops v := ⟨rfl, rfl⟩
  obtain ⟨-, k, state', after, course, called, -, left⟩ := (walks_stop walks).2 [b] c [] rfl stops
  exact ⟨walks, stops, k, state', after, course, called, left⟩

end StyleTree.Walk
