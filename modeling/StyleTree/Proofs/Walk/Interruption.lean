import StyleTree.Proofs.Walk.Cursor
import StyleTree.Node.Depth

/-!
# Walks that need not end

A visitor may keep a walk going for ever. What such a walk does is told by limited visitors: they
work as the visitor does for a number of calls and end the walk at the next one. The walk of a
limited visitor always ends, and its calls are the first ones of the walk itself.
-/

namespace StyleTree.Walk

universe u
variable {σ τ : Type u} {v : Visitor σ}

def Call.map (f : σ → τ) (c : Call σ) : Call τ := ⟨c.hook, c.view, c.node, f c.state⟩

def Visitor.limited (v : Visitor σ) : Visitor (σ × Nat) where
  enter view node state :=
    match state.2 with
    | 0 => ⟨state, node, [], .stop⟩
    | left + 1 => (v.enter view node state.1).map fun state' => (state', left)
  exit view node state :=
    match state.2 with
    | 0 => ⟨state, node, .halt⟩
    | left + 1 => (v.exit view node state.1).map fun state' => (state', left)

/-- These are the first hook calls of a walk, whether or not it comes to an end. -/
def Engine.Begins (e : Engine) (v : Visitor σ) (nodes : List Node) (state : σ)
    (calls : List (Call σ)) : Prop :=
  ∃ limit calls' run, e.Walks v.limited nodes (state, limit) calls' run ∧
    calls <+: calls'.map (Call.map Prod.fst)

namespace Visitor

variable {view : View} {node : Node} {state : σ × Nat}

theorem enter_limited (v : Visitor σ) (view : View) (node : Node) (state : σ) (left : Nat) :
    v.limited.enter view node (state, left + 1) =
      (v.enter view node state).map fun state' => (state', left) := rfl

theorem exit_limited (v : Visitor σ) (view : View) (node : Node) (state : σ) (left : Nat) :
    v.limited.exit view node (state, left + 1) =
      (v.exit view node state).map fun state' => (state', left) := rfl

theorem enter_unlimited (goes : (v.limited.enter view node state).verdict ≠ .halt) :
    ∃ left, state.2 = left + 1 ∧ v.limited.enter view node state =
      (v.enter view node state.1).map fun state' => (state', left) := by
  obtain ⟨state, left⟩ := state
  cases left with
  | zero => exact absurd rfl goes
  | succ left => exact ⟨left, rfl, rfl⟩

theorem enter_stays (stays : (v.limited.enter view node state).verdict.stays) :
    ∃ left, state.2 = left + 1 ∧ v.limited.enter view node state =
      (v.enter view node state.1).map fun state' => (state', left) := by
  apply enter_unlimited
  intro halts
  rw [halts] at stays
  cases stays

theorem exit_unlimited (goes : (v.limited.exit view node state).flow = .proceed) :
    ∃ left, state.2 = left + 1 ∧ v.limited.exit view node state =
      (v.exit view node state.1).map fun state' => (state', left) := by
  obtain ⟨state, left⟩ := state
  cases left with
  | zero => cases goes
  | succ left => exact ⟨left, rfl, rfl⟩

theorem limited_enter_le (v : Visitor σ) (view : View) (node : Node) (state : σ × Nat) :
    (v.limited.enter view node state).state.2 ≤ state.2 := by
  obtain ⟨state, left⟩ := state
  cases left with
  | zero => exact Nat.le_refl 0
  | succ left => exact Nat.le_succ left

theorem limited_exit_le (v : Visitor σ) (view : View) (node : Node) (state : σ × Nat) :
    (v.limited.exit view node state).state.2 ≤ state.2 := by
  obtain ⟨state, left⟩ := state
  cases left with
  | zero => exact Nat.le_refl 0
  | succ left => exact Nat.le_succ left

end Visitor

/-! ## Limited walks come to an end -/

theorem Sweep.exists_limited (v : Visitor σ) (view : View) (index : Nat) (siblings : List Node)
    (state : σ × Nat) :
    ∃ calls run, Sweep v.limited view index siblings state calls run ∧ run.state.2 ≤ state.2 := by
  -- each call that does not end the walk leaves fewer calls, and between two calls there are fewer
  -- siblings
  obtain ⟨state, left⟩ := state
  induction left using Nat.strongRecOn generalizing view index siblings state with
  | ind left fewer =>
  induction size : Node.sizes siblings using Nat.strongRecOn
    generalizing view index siblings state with
  | ind count smaller =>
    have again (view : View) (index : Nat) (siblings' : List Node) (state' : σ × Nat)
        (less : state'.2 ≤ left) (shrinks : state'.2 < left ∨ Node.sizes siblings' < count) :
        ∃ calls run, Sweep v.limited view index siblings' state' calls run ∧
          run.state.2 ≤ state'.2 := by
      rcases Nat.lt_or_eq_of_le less with less | rfl
      · exact fewer _ less view index siblings' state'.1
      · have shrinks : Node.sizes siblings' < count := by omega
        exact smaller _ shrinks view index siblings' state'.1 rfl
    cases siblings with
    | nil => exact ⟨[], _, .nil, Nat.le_refl _⟩
    | cons node rest =>
      simp only [Node.sizes] at size
      by_cases kind : node.kind = .context
      · obtain ⟨overlay, children, rfl⟩ := Node.exists_of_context kind
        simp only [Node.size] at size
        obtain ⟨calls, inner, within, less⟩ :=
          again (view.under overlay) 0 children (state, left) (Nat.le_refl _) (by omega)
        cases goes : inner.halt with
        | some halt => exact ⟨_, _, .contextHalt within goes, less⟩
        | none =>
            obtain ⟨calls', run, later, less'⟩ :=
              again view (index + 1) rest inner.state less (by omega)
            exact ⟨_, _, .context within goes later, Nat.le_trans less' less⟩
      · obtain ⟨e, entered⟩ : ∃ e, v.limited.enter view node (state, left) = e := ⟨_, rfl⟩
        have less : e.state.2 ≤ left := entered ▸ v.limited_enter_le view node (state, left)
        have lower (goes : e.verdict ≠ .halt) : e.state.2 < left := by
          subst entered
          obtain ⟨left', rfl, same⟩ := Visitor.enter_unlimited goes
          rw [same]
          exact Nat.lt_succ_self left'
        cases verdict : e.verdict with
        | halt => exact ⟨_, _, .halt kind entered verdict, less⟩
        | replace nodes revisit =>
            have fewer : e.state.2 < left := lower (by rw [verdict]; rintro ⟨⟩)
            cases revisit with
            | true =>
                obtain ⟨calls, run, later, less'⟩ :=
                  again view index (nodes ++ rest) e.state less (.inl fewer)
                exact ⟨_, _, .revisit kind entered verdict later, Nat.le_trans less' less⟩
            | false =>
                obtain ⟨calls, run, later, less'⟩ :=
                  again view (index + nodes.length) rest e.state less (.inl fewer)
                exact ⟨_, _, .pass kind entered verdict later, Nat.le_trans less' less⟩
        | _ =>
            have fewer : e.state.2 < left := lower (by rw [verdict]; rintro ⟨⟩)
            have stays : e.verdict.stays := by rw [verdict]; rfl
            obtain ⟨calls, inner, within, less'⟩ :=
              again (view.below e.node) 0 e.inside e.state less (.inl fewer)
            cases goes : inner.halt with
            | some halt =>
                exact ⟨_, _, .insideHalt kind entered stays within goes, Nat.le_trans less' less⟩
            | none =>
                obtain ⟨x, exited⟩ :
                  ∃ x, v.limited.exit view (e.refill inner.nodes) inner.state = x := ⟨_, rfl⟩
                have less'' : x.state.2 ≤ inner.state.2 :=
                  exited ▸ v.limited_exit_le view (e.refill inner.nodes) inner.state
                cases flow : x.flow with
                | halt =>
                    exact ⟨_, _, .exitHalt kind entered stays within goes exited flow,
                      by simp only; omega⟩
                | proceed =>
                    obtain ⟨calls', run, later, less'''⟩ :=
                      again view (index + 1) rest x.state (by omega) (by omega)
                    exact ⟨_, _, .exit kind entered stays within goes exited flow later,
                      by simp only [Run.after]; omega⟩

theorem Engine.exists_limited (e : Engine) (v : Visitor σ) (nodes : List Node) (state : σ)
    (limit : Nat) : ∃ calls run, e.Walks v.limited nodes (state, limit) calls run := by
  obtain ⟨calls, run, sweep, -⟩ := Sweep.exists_limited v .root 0 nodes (state, limit)
  exact ⟨calls, run, Engine.walks_sweep.2 sweep⟩

/-! ## The calls of a walk that ends are those of a limited one -/

theorem Sweep.limited {view : View} {index : Nat} {siblings : List Node} {state : σ}
    {calls : List (Call σ)} {run : Run σ} (sweep : Sweep v view index siblings state calls run)
    (left : Nat) {limit : Nat} (enough : limit = left + calls.length) :
    ∃ calls', Sweep v.limited view index siblings (state, limit) calls'
      ⟨(run.state, left), run.nodes, run.halt⟩ ∧ calls'.map (Call.map Prod.fst) = calls := by
  induction sweep generalizing left limit with
  | nil =>
      subst enough
      exact ⟨_, .nil, rfl⟩
  | @context _ _ _ _ _ _ calls _ calls' _ _ goes _ ihWithin ihLater =>
      rw [List.length_append] at enough
      obtain ⟨first, within, rfl⟩ := ihWithin (left + calls'.length) (by omega : limit = _)
      obtain ⟨second, later, rfl⟩ := ihLater left rfl
      exact ⟨_, .context within goes later, List.map_append⟩
  | contextHalt _ halts ihWithin =>
      obtain ⟨first, within, rfl⟩ := ihWithin left enough
      exact ⟨_, .contextHalt within halts, rfl⟩
  | revisit kind entered verdict _ ihLater =>
      subst entered enough
      obtain ⟨first, later, rfl⟩ := ihLater left rfl
      exact ⟨_, .revisit kind (v.enter_limited ..) verdict later, rfl⟩
  | pass kind entered verdict _ ihLater =>
      subst entered enough
      obtain ⟨first, later, rfl⟩ := ihLater left rfl
      exact ⟨_, .pass kind (v.enter_limited ..) verdict later, rfl⟩
  | halt kind entered verdict =>
      subst entered enough
      exact ⟨_, .halt kind (v.enter_limited ..) verdict, rfl⟩
  | insideHalt kind entered stays _ halts ihWithin =>
      subst entered enough
      obtain ⟨first, within, rfl⟩ := ihWithin left rfl
      exact ⟨_, .insideHalt kind (v.enter_limited ..) stays within halts, rfl⟩
  | @exitHalt _ _ _ _ _ _ calls _ _ kind entered stays _ goes exited flow ihWithin =>
      obtain rfl : limit = left + 1 + calls.length + 1 := by
        simp only [List.length_cons, List.length_append, List.length_nil] at enough
        omega
      subst entered exited
      obtain ⟨first, within, rfl⟩ := ihWithin (left + 1) rfl
      exact ⟨_, .exitHalt kind (v.enter_limited ..) stays within goes (v.exit_limited ..) flow,
        by simp [Call.map]⟩
  | @exit _ _ _ _ _ _ calls _ _ calls' _ kind entered stays _ goes exited flow _ ihWithin ihLater =>
      obtain rfl : limit = left + calls'.length + 1 + calls.length + 1 := by
        simp only [List.length_cons, List.length_append] at enough
        omega
      subst entered exited
      obtain ⟨first, within, rfl⟩ := ihWithin (left + calls'.length + 1) rfl
      obtain ⟨second, later, rfl⟩ := ihLater left rfl
      exact ⟨_, .exit kind (v.enter_limited ..) stays within goes (v.exit_limited ..) flow later,
        by simp [Call.map]⟩

theorem Engine.Walks.begins {e : Engine} {nodes : List Node} {state : σ} {calls : List (Call σ)}
    {run : Run σ} (walks : e.Walks v nodes state calls run) : e.Begins v nodes state calls := by
  obtain ⟨calls', sweep, rfl⟩ := (Engine.walks_sweep.1 walks).limited 0 rfl
  exact ⟨_, calls', _, Engine.walks_sweep.2 sweep, List.prefix_refl _⟩

/-! ## Back from limited walks -/

theorem Sweep.unlimited {view : View} {index : Nat} {siblings : List Node} {state : σ × Nat}
    {calls : List (Call (σ × Nat))} {run : Run (σ × Nat)}
    (sweep : Sweep v.limited view index siblings state calls run) :
    (run.halt.isSome ∧ calls.length = state.2 + 1) ∨
      Sweep v view index siblings state.1 (calls.map (Call.map Prod.fst))
        ⟨run.state.1, run.nodes, run.halt⟩ ∧ run.state.2 + calls.length = state.2 := by
  induction sweep with
  | nil => exact .inr ⟨.nil, rfl⟩
  | context _ goes _ ihWithin ihLater =>
      rcases ihWithin with ⟨halts, -⟩ | ⟨within, count⟩
      · rw [goes] at halts
        cases halts
      · rw [List.map_append, List.length_append]
        rcases ihLater with ⟨halts, count'⟩ | ⟨later, count'⟩
        · exact .inl ⟨halts, by omega⟩
        · exact .inr ⟨.context within goes later, by simp only [Run.after]; omega⟩
  | contextHalt _ halts ihWithin =>
      rcases ihWithin with ⟨-, count⟩ | ⟨within, count⟩
      · exact .inl ⟨rfl, count⟩
      · exact .inr ⟨.contextHalt within halts, count⟩
  | revisit kind entered verdict _ ihLater =>
      subst entered
      obtain ⟨left, count, same⟩ := Visitor.enter_unlimited (by rw [verdict]; rintro ⟨⟩)
      rw [same] at verdict ihLater
      simp only [Entered.state_map] at ihLater
      rw [List.length_cons]
      rcases ihLater with ⟨halts, count'⟩ | ⟨later, count'⟩
      · exact .inl ⟨halts, by omega⟩
      · exact .inr ⟨.revisit kind rfl verdict later, by omega⟩
  | pass kind entered verdict _ ihLater =>
      subst entered
      obtain ⟨left, count, same⟩ := Visitor.enter_unlimited (by rw [verdict]; rintro ⟨⟩)
      rw [same] at verdict ihLater
      simp only [Entered.state_map] at ihLater
      rw [List.length_cons]
      rcases ihLater with ⟨halts, count'⟩ | ⟨later, count'⟩
      · exact .inl ⟨halts, by omega⟩
      · exact .inr ⟨.pass kind rfl verdict later, by simp only [Run.after]; omega⟩
  | @halt _ _ _ _ state _ kind entered verdict =>
      subst entered
      obtain ⟨state, left⟩ := state
      cases left with
      | zero => exact .inl ⟨rfl, rfl⟩
      | succ left => exact .inr ⟨.halt kind rfl verdict, rfl⟩
  | insideHalt kind entered stays _ halts ihWithin =>
      subst entered
      obtain ⟨left, count, same⟩ := Visitor.enter_stays stays
      rw [same] at stays ihWithin ⊢
      simp only [Entered.state_map] at ihWithin
      rw [List.length_cons]
      rcases ihWithin with ⟨-, count'⟩ | ⟨within, count'⟩
      · exact .inl ⟨rfl, by omega⟩
      · exact .inr ⟨.insideHalt kind rfl stays within halts, by simp only; omega⟩
  | @exitHalt _ _ _ _ _ _ _ inner _ kind entered stays _ goes exited flow ihWithin =>
      subst entered exited
      obtain ⟨left, count, same⟩ := Visitor.enter_stays stays
      rw [same] at stays ihWithin flow ⊢
      simp only [Entered.state_map] at ihWithin
      rcases ihWithin with ⟨halts, -⟩ | ⟨within, count'⟩
      · rw [goes] at halts
        cases halts
      · obtain ⟨⟨state', left'⟩, nodes, halt⟩ := inner
        simp only [List.length_cons, List.length_append, List.length_nil]
        cases left' with
        | zero => exact .inl ⟨rfl, by simp only at count'; omega⟩
        | succ left' =>
            rw [List.map_cons, List.map_append, Visitor.exit_limited]
            rw [Visitor.exit_limited] at flow
            simp only [Exited.state_map] at count' ⊢
            exact .inr ⟨.exitHalt kind rfl stays within goes rfl flow, by omega⟩
  | @exit _ _ _ _ _ _ _ inner _ _ _ kind entered stays _ goes exited flow _ ihWithin ihLater =>
      subst entered exited
      obtain ⟨left, count, same⟩ := Visitor.enter_stays stays
      obtain ⟨left', count', same'⟩ := Visitor.exit_unlimited flow
      rw [same] at stays ihWithin ihLater same' flow ⊢
      rw [same'] at flow ihLater ⊢
      simp only [Entered.state_map, Exited.state_map] at ihWithin ihLater
      rw [List.length_cons, List.length_append, List.length_cons]
      rcases ihWithin with ⟨halts, -⟩ | ⟨within, count''⟩
      · rw [goes] at halts
        cases halts
      · rcases ihLater with ⟨halts, count'''⟩ | ⟨later, count'''⟩
        · exact .inl ⟨halts, by omega⟩
        · rw [List.map_cons, List.map_append, List.map_cons]
          exact .inr ⟨.exit kind rfl stays within goes rfl flow later,
            by simp only [Run.after]; omega⟩

theorem Engine.ends_or_begins (e : Engine) (v : Visitor σ) (nodes : List Node) (state : σ)
    (limit : Nat) :
    (∃ calls run, e.Walks v nodes state calls run ∧ calls.length ≤ limit) ∨
      ∃ calls, e.Begins v nodes state calls ∧ calls.length = limit + 1 := by
  obtain ⟨calls, run, walks⟩ := e.exists_limited v nodes state limit
  rcases (Engine.walks_sweep.1 walks).unlimited with ⟨-, count⟩ | ⟨sweep, count⟩
  · right
    exact ⟨_, ⟨limit, calls, run, walks, List.prefix_refl _⟩, by rw [List.length_map, count]⟩
  · left
    exact ⟨_, _, Engine.walks_sweep.2 sweep, by rw [List.length_map]; omega⟩

theorem Engine.exists_begins {e : Engine} {nodes : List Node} {state : σ}
    (endless : ¬ ∃ calls run, e.Walks v nodes state calls run) (count : Nat) :
    ∃ earlier c, e.Begins v nodes state (earlier ++ [c]) ∧ earlier.length = count := by
  rcases e.ends_or_begins v nodes state count with ⟨calls, run, walks, -⟩ | ⟨calls, begins, length⟩
  · exact absurd ⟨calls, run, walks⟩ endless
  · rcases List.eq_nil_or_concat calls with rfl | ⟨earlier, c, rfl⟩
    · cases length
    · rw [List.length_concat] at length
      rw [List.concat_eq_append] at begins
      exact ⟨earlier, c, begins, Nat.succ.inj length⟩

theorem Sweep.kind_of_replaced {view : View} {index : Nat} {node : Node} {rest : List Node}
    {state : σ} {calls : List (Call σ)} {run : Run σ}
    (replaced : ∀ state, (v.enter view node state).verdict = .replace [node] true)
    (sweep : Sweep v view index (node :: rest) state calls run) : node.kind = .context := by
  generalize all : node :: rest = siblings at sweep
  induction sweep generalizing rest with
  | nil => cases all
  | context => cases all; rfl
  | contextHalt => cases all; rfl
  | revisit _ entered verdict _ ih =>
      cases all
      subst entered
      rw [replaced] at verdict
      cases verdict
      exact ih replaced rfl
  | pass _ entered verdict => cases all; simp [← entered, replaced] at verdict
  | halt _ entered verdict => cases all; simp [← entered, replaced] at verdict
  | insideHalt _ entered stays => cases all; simp [← entered, replaced, Verdict.stays] at stays
  | exitHalt _ entered stays => cases all; simp [← entered, replaced, Verdict.stays] at stays
  | exit _ entered stays => cases all; simp [← entered, replaced, Verdict.stays] at stays

theorem Move.unlimited {k k' : Cursor} {state state' : σ × Nat} {call : Option (Call (σ × Nat))}
    (move : Move v.limited k state call k' state') :
    Move v k state.1 (call.map (Call.map Prod.fst)) k' state'.1 := by
  cases move with
  | wrap => exact .wrap
  | unwrap => exact .unwrap
  | ascend => exact .ascend
  | revisit kind entered verdict =>
      subst entered
      obtain ⟨left, -, same⟩ := Visitor.enter_unlimited (by rw [verdict]; rintro ⟨⟩)
      rw [same] at verdict ⊢
      exact .revisit kind rfl verdict
  | pass kind entered verdict =>
      subst entered
      obtain ⟨left, -, same⟩ := Visitor.enter_unlimited (by rw [verdict]; rintro ⟨⟩)
      rw [same] at verdict ⊢
      exact .pass kind rfl verdict
  | stay kind entered stays nothing =>
      subst entered
      obtain ⟨left, -, same⟩ := Visitor.enter_stays stays
      rw [same] at stays nothing ⊢
      exact .stay kind rfl stays nothing
  | descend kind entered verdict shape =>
      subst entered
      obtain ⟨left, -, same⟩ := Visitor.enter_unlimited (by rw [verdict]; rintro ⟨⟩)
      rw [same] at verdict shape ⊢
      exact .descend kind rfl verdict shape
  | exit exited flow =>
      subst exited
      obtain ⟨left, -, same⟩ := Visitor.exit_unlimited flow
      rw [same] at flow ⊢
      exact .exit rfl flow

theorem Course.unlimited {k k' : Cursor} {state state' : σ × Nat} {calls : List (Call (σ × Nat))}
    (course : Course v.limited k state calls k' state') :
    Course v k state.1 (calls.map (Call.map Prod.fst)) k' state'.1 := by
  induction course with
  | refl => exact .refl
  | @move _ _ _ _ _ _ call _ first _ ih =>
      have course := Course.move first.unlimited ih
      cases call <;> exact course

theorem Engine.Begins.split {e : Engine} {nodes : List Node} {state : σ}
    {earlier : List (Call σ)} {c : Call σ} (begins : e.Begins v nodes state (earlier ++ [c])) :
    ∃ limit earlier' c' later run,
      e.Walks v.limited nodes (state, limit) (earlier' ++ c' :: later) run ∧
        earlier'.map (Call.map Prod.fst) = earlier ∧ c'.map Prod.fst = c := by
  obtain ⟨limit, calls, run, walks, rest, same⟩ := begins
  rw [List.append_assoc, eq_comm, List.map_eq_append_iff] at same
  obtain ⟨earlier', more, rfl, rfl, same⟩ := same
  obtain ⟨c', later, rfl, rfl, -⟩ := List.map_eq_cons_iff.1 same
  exact ⟨limit, earlier', c', later, run, walks, rfl, rfl⟩

theorem Engine.Begins.calls {e : Engine} {nodes : List Node} {state : σ}
    {earlier : List (Call σ)} {c : Call σ} (begins : e.Begins v nodes state (earlier ++ [c])) :
    ∃ k state' after, Course v (.start nodes) state earlier k state' ∧ k.Calls state' c after := by
  obtain ⟨limit, earlier', c', later, run, walks, rfl, rfl⟩ := begins.split
  obtain ⟨k, state', after, course, called⟩ := walks_calls walks
  refine ⟨k, state'.1, after, course.unlimited, ?_⟩
  exact ⟨called.rest, called.hook, called.view, congrArg Prod.fst called.state, called.kind⟩

end StyleTree.Walk
