import StyleTree.Walk.Recursive
import StyleTree.Proofs.Walk.Sweep

namespace StyleTree.Walk

universe u
variable {σ : Type u} {v : Visitor σ}

theorem Trail.view_push (trail : Trail) (ambient : Overlay) (node : Node) :
    (trail.push node).view ambient = (trail.view ambient).below node := by
  ext1
  · exact Trail.path_push trail node
  all_goals rfl

theorem enough_succ {p : Nat → Prop} (h : ∃ fuel, ∀ more ≥ fuel, p (more + 1)) :
    ∃ fuel, ∀ more ≥ fuel, p more := by
  obtain ⟨fuel, h⟩ := h
  refine ⟨fuel + 1, fun more enough => ?_⟩
  obtain ⟨more, rfl⟩ : ∃ n, more = n + 1 := ⟨more - 1, by omega⟩
  exact h more (by omega)

def Visit.inside (go : Visit σ) (trail : Trail) (ambient : Overlay) (e : Entered σ) :
    Option (Run σ) :=
  match e.verdict, e.node with
  | .descend, .block head children =>
      go (trail.push (.block head children)) ambient children.toArray 0 e.state
  | _, _ => some ⟨e.state, [], none⟩

section
variable {trail : Trail} {ambient : Overlay} {nodes : Array Node} {index : Nat} {node : Node}
  {state : σ} {e : Entered σ}

theorem Visit.enter_stays {go : Visit σ} (entered : v.enter (trail.view ambient) node state = e)
    (stays : e.verdict.stays) :
    Visit.enter v go trail ambient nodes index node state =
      (Visit.inside go trail ambient e).bind fun inner =>
        Visit.resume nodes index (e.refill inner.nodes) inner
          (Visit.leave v go trail ambient nodes index) := by
  simp only [Visit.enter, entered]
  rcases Verdict.descend_or_skip stays with verdict | verdict
  · cases shape : e.node <;>
      simp [Visit.inside, Entered.refill, verdict, shape, Node.withChildren, Visit.resume]
  · simp [Visit.inside, Entered.refill, verdict, Visit.resume]

theorem Visit.inside_eq {fuel : Nat} {inner : Run σ}
    (walked : visit v (fuel + 1) (trail.push e.node) ambient e.inside.toArray 0 e.state =
      some inner) :
    Visit.inside (visit v (fuel + 1)) trail ambient e = some inner := by
  have empty (trail : Trail) : visit v (fuel + 1) trail ambient #[] 0 e.state =
      some ⟨e.state, [], none⟩ := visit_end rfl
  cases verdict : e.verdict with
  | descend =>
      cases shape : e.node with
      | block head children =>
          simpa [Visit.inside, Entered.inside, verdict, shape, Node.children] using walked
      | leaf l =>
          simpa [Visit.inside, Entered.inside, verdict, shape, Node.children, empty] using walked
  | _ => simpa [Visit.inside, Entered.inside, verdict, empty] using walked

theorem Visit.inside_some {go : Visit σ} {inner : Run σ} (stays : e.verdict.stays)
    (walked : Visit.inside go trail ambient e = some inner) :
    e.inside = [] ∧ inner = ⟨e.state, [], none⟩ ∨
      go (trail.push e.node) ambient e.inside.toArray 0 e.state = some inner := by
  rcases Verdict.descend_or_skip stays with verdict | verdict
  · cases shape : e.node with
    | block head children =>
        right
        simpa [Visit.inside, Entered.inside, verdict, shape, Node.children] using walked
    | leaf l =>
        left
        simpa [Visit.inside, Entered.inside, verdict, shape, Node.children, eq_comm] using walked
  · left
    simpa [Visit.inside, Entered.inside, verdict, eq_comm] using walked

theorem visit_stays {fuel : Nat} {inner : Run σ} (place : nodes[index]? = some node)
    (kind : node.kind ≠ .context) (entered : v.enter (trail.view ambient) node state = e)
    (stays : e.verdict.stays)
    (walked : visit v (fuel + 1) (trail.push e.node) ambient e.inside.toArray 0 e.state =
      some inner) :
    visit v (fuel + 1 + 1) trail ambient nodes index state =
      Visit.resume nodes index (e.refill inner.nodes) inner
        (Visit.leave v (visit v (fuel + 1)) trail ambient nodes index) := by
  rw [visit_node place kind, Visit.enter_stays entered stays, Visit.inside_eq walked]
  rfl

end

/-! ## From sweeps to visits -/

theorem visit_of_sweep {view : View} {index : Nat} {siblings : List Node} {state : σ}
    {calls : List (Call σ)} {run : Run σ} (sweep : Sweep v view index siblings state calls run)
    (trail : Trail) (ambient : Overlay) (before : List Node) (seen : trail.view ambient = view)
    (place : before.length = index) :
    ∃ fuel, ∀ more ≥ fuel,
      visit v more trail ambient (before ++ siblings).toArray index state =
        some (run.after before) := by
  induction sweep generalizing trail ambient before with
  | nil =>
      subst place
      refine enough_succ ⟨0, fun more _ => ?_⟩
      rw [visit_end (by simp)]
      simp [Run.after]
  | @context _ _ overlay children rest _ _ inner _ run within goes later ihWithin ihLater =>
      subst place seen
      let owner : Node := .block (.context overlay) inner.nodes
      obtain ⟨a, ha⟩ := ihWithin trail (ambient.merge overlay) [] rfl rfl
      obtain ⟨b, hb⟩ := ihLater trail ambient (before ++ [owner]) rfl (by simp)
      refine enough_succ ⟨a + b, fun more enough => ?_⟩
      rw [visit_context (getElem?_place ..)]
      have walked := ha more (by omega)
      have rest := hb more (by omega)
      simp only [List.nil_append, Run.after] at walked
      simp only [walked, Option.bind_some, Visit.resume, goes, set_place]
      simpa [Run.after, owner] using rest
  | revisit kind entered verdict later ihLater =>
      subst place seen
      obtain ⟨a, ha⟩ := ihLater trail ambient before rfl rfl
      refine enough_succ ⟨a, fun more enough => ?_⟩
      rw [visit_node (getElem?_place ..) kind]
      simp only [Visit.enter, entered, verdict, splice_place, if_true]
      exact ha more enough
  | @pass _ _ _ _ _ _ nodes _ _ kind entered verdict later ihLater =>
      subst place seen
      obtain ⟨a, ha⟩ := ihLater trail ambient (before ++ nodes) rfl (by simp)
      refine enough_succ ⟨a, fun more enough => ?_⟩
      rw [visit_node (getElem?_place ..) kind]
      simp only [Visit.enter, entered, verdict, splice_place]
      simpa [Run.after] using ha more enough
  | halt kind entered verdict =>
      subst place seen
      refine enough_succ ⟨0, fun more _ => ?_⟩
      rw [visit_node (getElem?_place ..) kind]
      simp [Visit.enter, entered, verdict, Run.after]
  | @contextHalt _ _ overlay _ _ _ _ _ _ within halts ihWithin =>
      subst place seen
      obtain ⟨a, ha⟩ := ihWithin trail (ambient.merge overlay) [] rfl rfl
      refine enough_succ ⟨a, fun more enough => ?_⟩
      rw [visit_context (getElem?_place ..)]
      have walked := ha more enough
      simp only [List.nil_append, Run.after] at walked
      simp [walked, Visit.resume, halts, Run.after]
  | insideHalt kind entered stays within halts ihWithin =>
      subst place seen
      obtain ⟨a, ha⟩ := ihWithin _ _ [] (Trail.view_push ..) rfl
      refine enough_succ (enough_succ ⟨a, fun more enough => ?_⟩)
      rw [visit_stays (getElem?_place ..) kind entered stays (ha (more + 1) (by omega))]
      simp [Visit.resume, halts, Run.after]
  | exitHalt kind entered stays within goes exited flow ihWithin =>
      subst place seen
      obtain ⟨a, ha⟩ := ihWithin _ _ [] (Trail.view_push ..) rfl
      refine enough_succ (enough_succ ⟨a, fun more enough => ?_⟩)
      rw [visit_stays (getElem?_place ..) kind entered stays (ha (more + 1) (by omega))]
      simp [Visit.resume, Visit.leave, Run.after, goes, exited, flow]
  | @exit _ _ _ _ _ _ _ _ x _ _ kind entered stays within goes exited flow later ihWithin ihLater =>
      subst place seen
      obtain ⟨a, ha⟩ := ihWithin _ _ [] (Trail.view_push ..) rfl
      obtain ⟨b, hb⟩ := ihLater trail ambient (before ++ [x.node]) rfl (by simp)
      refine enough_succ (enough_succ ⟨a + b, fun more enough => ?_⟩)
      rw [visit_stays (getElem?_place ..) kind entered stays (ha (more + 1) (by omega))]
      have rest := hb (more + 1) (by omega)
      simp only [Run.after, List.nil_append, Visit.resume, Visit.leave, goes, exited, flow,
        set_place]
      simpa [Run.after] using rest

/-! ## From visits to sweeps -/

theorem Run.after_append (r : Run σ) (before nodes : List Node) :
    r.after (before ++ nodes) = (r.after nodes).after before := by
  simp [Run.after]

theorem sweep_of_visit {fuel : Nat} {trail : Trail} {ambient : Overlay}
    (before : List Node) {siblings : List Node} {state : σ} {r : Run σ}
    (ended : visit v fuel trail ambient (before ++ siblings).toArray before.length state = some r) :
    ∃ calls run, Sweep v (trail.view ambient) before.length siblings state calls run ∧
      r = run.after before := by
  induction fuel generalizing trail ambient before siblings state r with
  | zero => cases ended
  | succ fuel ih =>
      -- the walk goes on behind nodes that took the place of the current one
      have later (nodes : List Node) {rest : List Node} {index : Nat} {state : σ} {r : Run σ}
          (place : index = before.length + nodes.length)
          (h : visit v fuel trail ambient (before ++ (nodes ++ rest)).toArray index state =
            some r) :
          ∃ calls run, Sweep v (trail.view ambient) index rest state calls run ∧
            r = (run.after nodes).after before := by
        subst place
        rw [← List.append_assoc, ← List.length_append] at h
        obtain ⟨calls, run, sweep, rfl⟩ := ih _ h
        rw [List.length_append] at sweep
        exact ⟨calls, run, sweep, Run.after_append ..⟩
      match siblings with
      | [] =>
          rw [visit_end (by simp)] at ended
          cases ended
          exact ⟨[], _, .nil, by simp [Run.after]⟩
      | node :: rest =>
          by_cases kind : node.kind = .context
          · obtain ⟨overlay, children, rfl⟩ := Node.exists_of_context kind
            rw [visit_context (getElem?_place ..), Option.bind_eq_some_iff] at ended
            obtain ⟨inner, walked, ended⟩ := ended
            obtain ⟨calls, inner, within, rfl⟩ := ih [] walked
            cases goes : inner.halt with
            | some halt =>
                simp only [Visit.resume, Run.after, goes, set_place] at ended
                cases ended
                exact ⟨calls, _, .contextHalt within goes, by simp [Run.after]⟩
            | none =>
                simp only [Visit.resume, Run.after, goes, set_place] at ended
                obtain ⟨calls', run, sweep, rfl⟩ := later [_] rfl ended
                exact ⟨calls ++ calls', _, .context within goes sweep, by simp [Run.after]⟩
          · rw [visit_node (getElem?_place ..) kind] at ended
            obtain ⟨e, entered⟩ : ∃ e, v.enter (trail.view ambient) node state = e := ⟨_, rfl⟩
            cases verdict : e.verdict with
            | halt =>
                simp only [Visit.enter, entered, verdict, set_place] at ended
                cases ended
                exact ⟨_, _, .halt kind entered verdict, by simp [Run.after]⟩
            | replace nodes revisit =>
                simp only [Visit.enter, entered, verdict, splice_place] at ended
                cases revisit with
                | true =>
                    obtain ⟨calls, run, sweep, rfl⟩ := ih before ended
                    exact ⟨_, _, .revisit kind entered verdict sweep, rfl⟩
                | false =>
                    obtain ⟨calls, run, sweep, rfl⟩ := later nodes rfl ended
                    exact ⟨_, _, .pass kind entered verdict sweep, rfl⟩
            | _ =>
                have stays : e.verdict.stays := by rw [verdict]; rfl
                rw [Visit.enter_stays entered stays, Option.bind_eq_some_iff] at ended
                obtain ⟨inner, walked, ended⟩ := ended
                obtain ⟨calls, within⟩ : ∃ calls,
                    Sweep v ((trail.view ambient).below e.node) 0 e.inside e.state calls inner := by
                  rcases Visit.inside_some stays walked with ⟨none, rfl⟩ | walked
                  · rw [none]
                    exact ⟨[], .nil⟩
                  · obtain ⟨calls, inner, within, rfl⟩ := ih [] walked
                    rw [Trail.view_push] at within
                    exact ⟨calls, within⟩
                cases goes : inner.halt with
                | some halt =>
                    simp only [Visit.resume, goes, set_place] at ended
                    cases ended
                    exact ⟨_, _, .insideHalt kind entered stays within goes, by simp [Run.after]⟩
                | none =>
                    simp only [Visit.resume, Visit.leave, goes, set_place] at ended
                    split at ended
                    · next flow =>
                      cases ended
                      exact ⟨_, _, .exitHalt kind entered stays within goes rfl flow,
                        by simp [Run.after]⟩
                    · next flow =>
                      obtain ⟨calls', run, sweep, rfl⟩ := later [_] rfl ended
                      exact ⟨_, _, .exit kind entered stays within goes rfl flow sweep,
                        by simp [Run.after]⟩

end StyleTree.Walk
