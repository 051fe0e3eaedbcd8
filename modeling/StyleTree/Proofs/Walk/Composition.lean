import StyleTree.Proofs.Walk.Site

namespace StyleTree.Walk

universe u
variable {σ : Type u} {v : Visitor σ}

theorem Run.length_after (run : Run σ) (nodes : List Node) :
    (run.after nodes).nodes.length = nodes.length + run.nodes.length := List.length_append

namespace Sweep

variable {view : View} {index : Nat} {a b : List Node} {state : σ} {calls calls' : List (Call σ)}
  {first second : Run σ}

theorem append_stopped (sweep : Sweep v view index a state calls first)
    (stopped : first.halt.isSome) (b : List Node) :
    Sweep v view index (a ++ b) state calls { first with nodes := first.nodes ++ b } := by
  induction sweep with
  | nil => cases stopped
  | context within goes _ _ ihLater => exact .context within goes (ihLater stopped)
  | contextHalt within halts => exact .contextHalt within halts
  | revisit kind entered verdict _ ihLater =>
      have later := ihLater stopped
      rw [List.append_assoc] at later
      exact .revisit kind entered verdict later
  | pass kind entered verdict _ ihLater =>
      have later := Sweep.pass kind entered verdict (ihLater stopped)
      simpa only [Run.after, List.append_assoc, List.cons_append] using later
  | halt kind entered verdict => exact .halt kind entered verdict
  | insideHalt kind entered stays within halts =>
      exact .insideHalt kind entered stays within halts
  | exitHalt kind entered stays within goes exited flow =>
      exact .exitHalt kind entered stays within goes exited flow
  | exit kind entered stays within goes exited flow _ _ ihLater =>
      exact .exit kind entered stays within goes exited flow (ihLater stopped)

theorem append_completed (sweep : Sweep v view index a state calls first)
    (completed : first.halt = none)
    (next : Sweep v view (index + first.nodes.length) b first.state calls' second) :
    Sweep v view index (a ++ b) state (calls ++ calls') (second.after first.nodes) := by
  induction sweep with
  | nil => exact next
  | context within goes _ _ ihLater =>
      rw [Run.length_after, ← Nat.add_assoc] at next
      have walked := Sweep.context within goes (ihLater completed next)
      rwa [← Run.after_append, ← List.append_assoc] at walked
  | revisit kind entered verdict _ ihLater =>
      have later := ihLater completed next
      rw [List.append_assoc] at later
      exact .revisit kind entered verdict later
  | pass kind entered verdict _ ihLater =>
      rw [Run.length_after, ← Nat.add_assoc] at next
      have walked := Sweep.pass kind entered verdict (ihLater completed next)
      rwa [← Run.after_append] at walked
  | exit kind entered stays within goes exited flow _ _ ihLater =>
      rw [Run.length_after, ← Nat.add_assoc] at next
      have walked := Sweep.exit kind entered stays within goes exited flow (ihLater completed next)
      rw [← Run.after_append] at walked
      simpa only [Run.after, List.cons_append, List.append_assoc, List.nil_append] using walked
  | contextHalt => cases completed
  | halt => cases completed
  | insideHalt => cases completed
  | exitHalt => cases completed

theorem shift (sweep : Sweep v view index a state calls first) (index' : Nat) :
    ∃ halt, Sweep v view index' a state calls { first with halt } ∧
      halt.isSome = first.halt.isSome := by
  induction sweep generalizing index' with
  | nil => exact ⟨none, .nil, rfl⟩
  | context within goes _ _ ihLater =>
      obtain ⟨halt, later, same⟩ := ihLater (index' + 1)
      exact ⟨halt, .context within goes later, same⟩
  | contextHalt within halts => exact ⟨_, .contextHalt within halts, rfl⟩
  | revisit kind entered verdict _ ihLater =>
      obtain ⟨halt, later, same⟩ := ihLater index'
      exact ⟨halt, .revisit kind entered verdict later, same⟩
  | pass kind entered verdict _ ihLater =>
      obtain ⟨halt, later, same⟩ := ihLater _
      exact ⟨halt, .pass kind entered verdict later, same⟩
  | halt kind entered verdict => exact ⟨_, .halt kind entered verdict, rfl⟩
  | insideHalt kind entered stays within halts =>
      exact ⟨_, .insideHalt kind entered stays within halts, rfl⟩
  | exitHalt kind entered stays within goes exited flow =>
      exact ⟨_, .exitHalt kind entered stays within goes exited flow, rfl⟩
  | exit kind entered stays within goes exited flow _ _ ihLater =>
      obtain ⟨halt, later, same⟩ := ihLater (index' + 1)
      exact ⟨halt, .exit kind entered stays within goes exited flow later, same⟩

end Sweep

def Splits (v : Visitor σ) (view : View) (index : Nat) (a b : List Node) (state : σ)
    (calls : List (Call σ)) (run : Run σ) : Prop :=
  (∃ first, Sweep v view index a state calls first ∧ first.halt.isSome ∧
    run = { first with nodes := first.nodes ++ b }) ∨
  ∃ earlier later first second, Sweep v view index a state earlier first ∧ first.halt = none ∧
    Sweep v view (index + first.nodes.length) b first.state later second ∧
    calls = earlier ++ later ∧ run = second.after first.nodes

namespace Splits

variable {view : View} {index : Nat} {a a' b siblings : List Node} {state state' : σ}
  {calls calls' : List (Call σ)} {run : Run σ}

theorem of_cons (sweep : Sweep v view index siblings state calls run)
    (splits : ∀ {x a}, x :: a ++ b = siblings → Splits v view index (x :: a) b state calls run)
    (parts : a ++ b = siblings) : Splits v view index a b state calls run := by
  cases a with
  | nil =>
      obtain rfl : b = siblings := parts
      exact .inr ⟨[], calls, _, run, .nil, rfl, sweep, rfl, rfl⟩
  | cons x a => exact splits parts

theorem prepend (nodes : List Node) (calls : List (Call σ))
    (walked : ∀ {calls' run}, Sweep v view (index + nodes.length) a' state' calls' run →
      Sweep v view index a state (calls ++ calls') (run.after nodes))
    (splits : Splits v view (index + nodes.length) a' b state' calls' run) :
    Splits v view index a b state (calls ++ calls') (run.after nodes) := by
  rcases splits with ⟨first, sweep, halts, rfl⟩ |
    ⟨earlier, later, first, second, sweep, goes, next, rfl, rfl⟩
  · exact .inl ⟨_, walked sweep, halts, by simp [Run.after]⟩
  · rw [Nat.add_assoc, ← Run.length_after] at next
    exact .inr ⟨_, later, _, second, walked sweep, goes, next, by simp, by simp [Run.after]⟩

theorem of_sweep (sweep : Sweep v view index siblings state calls run) {x : Node}
    (parts : x :: a ++ b = siblings) : Splits v view index (x :: a) b state calls run := by
  induction sweep generalizing x a with
  | nil => cases parts
  | @context _ _ _ _ _ _ calls inner _ _ within goes later _ ih =>
      obtain ⟨rfl, same⟩ := List.cons.inj parts
      exact .prepend [_] calls (.context within goes) (.of_cons later ih same)
  | contextHalt within halts =>
      obtain ⟨rfl, rfl⟩ := List.cons.inj parts
      exact .inl ⟨_, .contextHalt within halts, rfl, rfl⟩
  | revisit kind entered verdict later ih =>
      obtain ⟨rfl, rfl⟩ := List.cons.inj parts
      exact .prepend [] [_] (.revisit kind entered verdict)
        (.of_cons later ih (List.append_assoc ..))
  | pass kind entered verdict later ih =>
      obtain ⟨rfl, same⟩ := List.cons.inj parts
      exact .prepend _ [_] (.pass kind entered verdict) (.of_cons later ih same)
  | halt kind entered verdict =>
      obtain ⟨rfl, rfl⟩ := List.cons.inj parts
      exact .inl ⟨_, .halt kind entered verdict, rfl, rfl⟩
  | insideHalt kind entered stays within halts =>
      obtain ⟨rfl, rfl⟩ := List.cons.inj parts
      exact .inl ⟨_, .insideHalt kind entered stays within halts, rfl, rfl⟩
  | exitHalt kind entered stays within goes exited flow =>
      obtain ⟨rfl, rfl⟩ := List.cons.inj parts
      exact .inl ⟨_, .exitHalt kind entered stays within goes exited flow, rfl, rfl⟩
  | @exit view _ _ _ state e calls inner left _ _ kind entered stays within goes exited flow later _
      ih =>
      obtain ⟨rfl, same⟩ := List.cons.inj parts
      let exitCall : Call σ := ⟨.exit, view, e.refill inner.nodes, inner.state⟩
      have splits := Splits.prepend [left.node] (⟨.enter, view, x, state⟩ :: (calls ++ [exitCall]))
        (fun sweep => by
          simpa using Sweep.exit kind entered stays within goes exited flow sweep)
        (.of_cons later ih same)
      simpa using splits

end Splits

theorem Sweep.splits {view : View} {index : Nat} {a b : List Node} {state : σ}
    {calls : List (Call σ)} {run : Run σ} (sweep : Sweep v view index (a ++ b) state calls run) :
    Splits v view index a b state calls run :=
  .of_cons sweep (.of_sweep sweep) rfl

def Composes (Walks : List Node → σ → List (Call σ) → Run σ → Prop) : Prop :=
  ∀ a b state calls first, Walks a state calls first →
    (first.outcome = .stopped → ∀ calls' run, Walks (a ++ b) state calls' run ↔
      calls' = calls ∧ run = { first with nodes := first.nodes ++ b }) ∧
    (first.outcome = .completed → ∀ calls' second, Walks b first.state calls' second →
      ∃ whole, whole.state = second.state ∧ whole.nodes = first.nodes ++ second.nodes ∧
        whole.outcome = second.outcome ∧ ∀ calls'' run, Walks (a ++ b) state calls'' run ↔
          calls'' = calls ++ calls' ∧ run = whole)

theorem Site.composes (site : Site) (v : Visitor σ) (before : List Node) :
    Composes (site.Walks v before) := by
  intro a b state calls first walks
  rw [walks_iff] at walks
  constructor
  · intro stopped
    have halted := walks.append_stopped (Run.outcome_stopped.1 stopped) b
    exact walks_exactly (walks_iff.2 halted)
  · intro completed calls' second next
    obtain ⟨halt, shifted, same⟩ := (walks_iff.1 next).shift (before.length + first.nodes.length)
    have whole := walks.append_completed (Run.outcome_completed.1 completed) shifted
    refine ⟨_, ?_, ?_, ?_, walks_exactly (walks_iff.2 whole)⟩
    · rfl
    · rfl
    · simp [Run.outcome, Run.after, same]

/-- The walk of siblings one after the other, as roots and inside any node or context. -/
theorem walks_compose (v : Visitor σ) :
    (∀ e : Engine, Composes (e.Walks v)) ∧
      ∀ (site : Site) (before : List Node), Composes (site.Walks v before) := by
  constructor
  · intro e a b state calls first
    simp only [Engine.walks_site]
    exact e.site.composes v [] a b state calls first
  · intro site before
    exact site.composes v before

end StyleTree.Walk
