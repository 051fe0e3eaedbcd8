import StyleTree.Proofs.Walk.Sweep

namespace StyleTree.Walk

universe u
variable {σ τ : Type u} {v : Visitor σ}

def Entered.map (f : σ → τ) (e : Entered σ) : Entered τ := ⟨f e.state, e.node, e.requests, e.action⟩

def Exited.map (f : σ → τ) (x : Exited σ) : Exited τ := ⟨f x.state, x.node, x.flow⟩

def Visitor.traced (v : Visitor σ) : Visitor (σ × List (Call σ)) where
  enter view node state := (v.enter view node state.1).map
    fun state' => (state', state.2 ++ [⟨.enter, view, node, state.1⟩])
  exit view node state := (v.exit view node state.1).map
    fun state' => (state', state.2 ++ [⟨.exit, view, node, state.1⟩])

theorem Visitor.enter_traced (v : Visitor σ) (view : View) (node : Node) (state : σ)
    (log : List (Call σ)) :
    v.traced.enter view node (state, log) =
      (v.enter view node state).map fun state' =>
        (state', log ++ [⟨.enter, view, node, state⟩]) := rfl

theorem Visitor.exit_traced (v : Visitor σ) (view : View) (node : Node) (state : σ)
    (log calls : List (Call σ)) :
    v.traced.exit view node (state, log ++ calls) =
      (v.exit view node state).map fun state' =>
        (state', log ++ (calls ++ [⟨.exit, view, node, state⟩])) := by
  rw [← List.append_assoc]
  rfl

section
variable (f : σ → τ) (e : Entered σ) (x : Exited σ)

@[simp] theorem Entered.state_map : (e.map f).state = f e.state := rfl
@[simp] theorem Entered.node_map : (e.map f).node = e.node := rfl
@[simp] theorem Entered.refill_map (children : List Node) :
    (e.map f).refill children = e.refill children := rfl
@[simp] theorem Exited.state_map : (x.map f).state = f x.state := rfl
@[simp] theorem Exited.node_map : (x.map f).node = x.node := rfl

end

def Run.traced (run : Run σ) (log : List (Call σ)) : Run (σ × List (Call σ)) :=
  ⟨(run.state, log), run.nodes, run.halt⟩

theorem Sweep.untraced {view : View} {index : Nat} {siblings : List Node}
    {state : σ × List (Call σ)} {calls' : List (Call (σ × List (Call σ)))}
    {r : Run (σ × List (Call σ))} (sweep : Sweep v.traced view index siblings state calls' r) :
    ∃ calls run, Sweep v view index siblings state.1 calls run ∧
      r = run.traced (state.2 ++ calls) := by
  induction sweep with
  | nil => exact ⟨_, _, .nil, by simp [Run.traced]⟩
  | context _ goes _ ihWithin ihLater =>
      obtain ⟨calls, inner, within, rfl⟩ := ihWithin
      obtain ⟨calls', run, later, rfl⟩ := ihLater
      exact ⟨_, _, .context within goes later, by simp [Run.traced, Run.after]⟩
  | contextHalt _ halts ihWithin =>
      obtain ⟨calls, inner, within, rfl⟩ := ihWithin
      exact ⟨_, _, .contextHalt within halts, by simp [Run.traced]⟩
  | revisit kind entered verdict _ ihLater =>
      subst entered
      obtain ⟨calls', run, later, rfl⟩ := ihLater
      exact ⟨_, _, .revisit kind rfl verdict later, by simp [Run.traced, Visitor.traced]⟩
  | pass kind entered verdict _ ihLater =>
      subst entered
      obtain ⟨calls', run, later, rfl⟩ := ihLater
      exact ⟨_, _, .pass kind rfl verdict later, by simp [Run.traced, Run.after, Visitor.traced]⟩
  | halt kind entered verdict =>
      subst entered
      exact ⟨_, _, .halt kind rfl verdict, by simp [Run.traced, Visitor.traced]⟩
  | insideHalt kind entered stays _ halts ihWithin =>
      subst entered
      obtain ⟨calls, inner, within, rfl⟩ := ihWithin
      exact ⟨_, _, .insideHalt kind rfl stays within halts,
        by simp [Run.traced, Visitor.traced]⟩
  | exitHalt kind entered stays _ goes exited flow ihWithin =>
      subst entered exited
      obtain ⟨calls, inner, within, rfl⟩ := ihWithin
      exact ⟨_, _, .exitHalt kind rfl stays within goes rfl flow,
        by simp [Run.traced, Visitor.traced]⟩
  | exit kind entered stays _ goes exited flow _ ihWithin ihLater =>
      subst entered exited
      obtain ⟨calls, inner, within, rfl⟩ := ihWithin
      obtain ⟨calls', run, later, rfl⟩ := ihLater
      exact ⟨_, _, .exit kind rfl stays within goes rfl flow later,
        by simp [Run.traced, Run.after, Visitor.traced]⟩

theorem Sweep.traced {view : View} {index : Nat} {siblings : List Node} {state : σ}
    {calls : List (Call σ)} {run : Run σ} (sweep : Sweep v view index siblings state calls run)
    (log : List (Call σ)) :
    ∃ calls', Sweep v.traced view index siblings (state, log) calls'
      (run.traced (log ++ calls)) := by
  induction sweep generalizing log with
  | nil => exact ⟨_, by simpa [Run.traced] using Sweep.nil⟩
  | context _ goes _ ihWithin ihLater =>
      obtain ⟨_, within⟩ := ihWithin log
      obtain ⟨_, later⟩ := ihLater _
      rw [List.append_assoc] at later
      exact ⟨_, .context within goes later⟩
  | contextHalt _ halts ihWithin =>
      obtain ⟨_, within⟩ := ihWithin log
      exact ⟨_, .contextHalt within halts⟩
  | revisit kind entered verdict _ ihLater =>
      subst entered
      obtain ⟨_, later⟩ := ihLater (log ++ [_])
      rw [List.append_assoc] at later
      exact ⟨_, .revisit kind (v.enter_traced ..) verdict later⟩
  | pass kind entered verdict _ ihLater =>
      subst entered
      obtain ⟨_, later⟩ := ihLater (log ++ [_])
      rw [List.append_assoc] at later
      exact ⟨_, .pass kind (v.enter_traced ..) verdict later⟩
  | halt kind entered verdict =>
      subst entered
      exact ⟨_, .halt kind (v.enter_traced ..) verdict⟩
  | insideHalt kind entered stays _ halts ihWithin =>
      subst entered
      obtain ⟨_, within⟩ := ihWithin (log ++ [_])
      rw [List.append_assoc] at within
      exact ⟨_, .insideHalt kind (v.enter_traced ..) stays within halts⟩
  | exitHalt kind entered stays _ goes exited flow ihWithin =>
      subst entered exited
      obtain ⟨_, within⟩ := ihWithin (log ++ [_])
      rw [List.append_assoc] at within
      exact ⟨_, .exitHalt kind (v.enter_traced ..) stays within goes (v.exit_traced ..) flow⟩
  | exit kind entered stays _ goes exited flow _ ihWithin ihLater =>
      subst entered exited
      obtain ⟨_, within⟩ := ihWithin (log ++ [_])
      rw [List.append_assoc] at within
      obtain ⟨_, later⟩ := ihLater (log ++ _ :: (_ ++ [_]))
      simp only [List.append_assoc, List.cons_append, List.nil_append] at later
      exact ⟨_, .exit kind (v.enter_traced ..) stays within goes (v.exit_traced ..) flow later⟩

end StyleTree.Walk
