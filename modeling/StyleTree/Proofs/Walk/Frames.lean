import StyleTree.Proofs.Walk.Stack

/-!
# The walk by frames makes sweeps

`runTo` is the part of a run in which a machine works on one frame and on those above it.
`ends_iff_after` and `sweep_of_runTo`: on any stack this part ends exactly as a sweep of the
siblings of the frame does.
-/

namespace StyleTree.Walk

universe u
variable {σ : Type u} {v : Visitor σ}

namespace Machine

def above (m : Machine) (height : Nat) : List Node :=
  (giveBack m.top.nodes (m.below.extract height)).toList

end Machine

def Step.finish (height : Nat) (go : Machine → σ → Option (Run σ)) : Step σ → Option (Run σ)
  | .next m state => go m state
  | .done m state halt => some ⟨state, m.above height, halt⟩
  | .stuck => none

namespace Machine

/-- Runs a machine until the frame at a height is done, or the walk is at its end. -/
def runTo (v : Visitor σ) (height : Nat) : Nat → Machine → σ → Option (Run σ)
  | 0, _, _ => none
  | fuel + 1, m, state =>
      if m.below.size = height ∧ m.top.current? = none then some ⟨state, m.top.nodes.toList, none⟩
      else (m.step v state).finish height (runTo v height fuel)

theorem runTo_step {height fuel : Nat} {m : Machine} {state : σ}
    (works : m.below.size = height → m.top.current? ≠ none) :
    runTo v height (fuel + 1) m state = (m.step v state).finish height (runTo v height fuel) := by
  rw [runTo, if_neg fun h => works h.1 h.2]

theorem run_eq_runTo (fuel : Nat) (m : Machine) (state : σ) :
    run v fuel m state = runTo v 0 fuel m state := by
  have whole (m : Machine) : m.above 0 = m.whole := by
    simp [above, whole]
  induction fuel generalizing m state with
  | zero => rfl
  | succ fuel ih =>
      rw [run, runTo]
      split_ifs with finished
      · obtain ⟨bottom, done⟩ := finished
        have empty : m.below = #[] := Array.eq_empty_of_size_eq_zero bottom
        simp [step, done, close, empty, Machine.whole, giveBack]
      · cases m.step v state with
        | next m' state' => exact ih m' state'
        | done m' state' halt => simp only [whole, Step.finish]
        | stuck => rfl

def Ends (v : Visitor σ) (height : Nat) (m : Machine) (state : σ) (r : Run σ) : Prop :=
  ∃ fuel, runTo v height fuel m state = some r

end Machine

def Step.Ends (v : Visitor σ) (height : Nat) (r : Run σ) : Step σ → Prop
  | .next m state => m.Ends v height state r
  | .done m state halt => r = ⟨state, m.above height, halt⟩
  | .stuck => False

theorem Step.ends_next {height : Nat} {m : Machine} {state : σ} {r : Run σ} :
    (Step.next m state).Ends v height r ↔ m.Ends v height state r := Iff.rfl

theorem Machine.ends_step {height : Nat} {m : Machine} {state : σ} {r : Run σ}
    (works : m.below.size = height → m.top.current? ≠ none) :
    m.Ends v height state r ↔ (m.step v state).Ends v height r := by
  constructor
  · rintro ⟨fuel, h⟩
    cases fuel with
    | zero => cases h
    | succ fuel =>
        rw [runTo_step works] at h
        cases action : m.step v state with
        | next m' state' => exact ⟨fuel, by simpa only [action, Step.finish] using h⟩
        | done m' state' halt => simpa [Step.Ends, Step.finish, action, eq_comm] using h
        | stuck => simp [action, Step.finish] at h
  · intro h
    cases action : m.step v state with
    | next m' state' =>
        rw [action] at h
        obtain ⟨fuel, h⟩ := h
        exact ⟨fuel + 1, by rw [runTo_step works, action]; exact h⟩
    | done m' state' halt =>
        rw [action] at h
        cases h
        exact ⟨1, by rw [runTo_step works, action]; rfl⟩
    | stuck => rw [action] at h; cases h

namespace Stack

variable {k : Stack} {before rest : List Node} {height : Nat}

theorem works_here {node : Node} :
    (k.machine before (node :: rest)).below.size = height →
      (k.machine before (node :: rest)).top.current? ≠ none := by
  intro _ done
  rw [show (k.machine before (node :: rest)).top.current? = some node from frame_current ..] at done
  cases done

theorem works_above {k' : Stack} {nodes : List Node} (high : height ≤ k.below.size)
    (grown : k'.below.size = k.below.size + 1) :
    (k'.machine nodes []).below.size = height → (k'.machine nodes []).top.current? ≠ none := by
  intro same
  have : k'.below.size = height := same
  omega

def above (k : Stack) (height : Nat) (nodes : List Node) : List Node :=
  (Machine.giveBack nodes.toArray (k.below.extract height)).toList

theorem giveBack_push {frame : Frame} {below : Array Frame} (high : height ≤ below.size)
    (nodes : Array Node) :
    Machine.giveBack nodes ((below.push frame).extract height) =
      Machine.giveBack (frame.refill nodes).nodes (below.extract height) := by
  have split : (below.push frame).extract height = (below.extract height).push frame := by
    apply Array.toList_inj.1
    simp only [Array.toList_extract, Array.toList_push, List.extract_eq_take_drop, Array.size_push,
      List.drop_append_of_le_length high]
    rw [List.take_of_length_le (by simp; omega), List.take_of_length_le (by simp)]
  rw [split, Machine.giveBack, Array.foldr_push]
  rfl

theorem above_node (high : height ≤ k.below.size) (head : Head) (nodes : List Node) :
    (k.node before head rest).above height nodes =
      k.above height (before ++ .block head nodes :: rest) := by
  rw [above, below_node, giveBack_push high, frame_refill]
  rfl

theorem above_wrapper (high : height ≤ k.below.size) (overlay : Overlay) (nodes : List Node) :
    (k.wrapper before overlay rest).above height nodes =
      k.above height (before ++ .block (.context overlay) nodes :: rest) := by
  rw [above, below_wrapper, giveBack_push high, frame_refill]
  rfl

/-- How a machine ends that works on siblings of which a sweep is known: if the sweep was ended,
there; otherwise as it goes on behind the nodes that the sweep leaves. -/
def After (v : Visitor σ) (height : Nat) (k : Stack) (before : List Node) (run r : Run σ) : Prop :=
  match run.halt with
  | some halt => r = ⟨run.state, k.above height (before ++ run.nodes), some halt⟩
  | none => (k.machine (before ++ run.nodes) []).Ends v height run.state r

theorem after_append {nodes : List Node} {run r : Run σ} :
    k.After v height before (run.after nodes) r ↔ k.After v height (before ++ nodes) run r := by
  simp only [After, Run.after, List.append_assoc]

theorem ends_stays {node : Node} {e : Entered σ} {state : σ} {calls : List (Call σ)}
    {inner r : Run σ} (high : height ≤ k.below.size) (kind : node.kind ≠ .context)
    (entered : v.enter k.view node state = e) (stays : e.verdict.stays)
    (within : Sweep v (k.view.below e.node) 0 e.inside e.state calls inner)
    (ends : ∀ k' : Stack, k'.view = k.view.below e.node → height ≤ k'.below.size →
      ((k'.machine [] e.inside).Ends v height e.state r ↔ k'.After v height [] inner r)) :
    (k.machine before (node :: rest)).Ends v height state r ↔
      match inner.halt with
      | some halt =>
          r = ⟨inner.state, k.above height (before ++ e.refill inner.nodes :: rest), some halt⟩
      | none => ((k.machine before (e.refill inner.nodes :: rest)).leave v inner.state).Ends v
          height r := by
  rw [Machine.ends_step works_here]
  by_cases inside : e.inside = []
  · rw [inside] at within
    cases within
    have same : e.refill [] = e.node := by rw [← inside, e.refill_inside]
    rw [step_leaves kind entered stays inside, same]
  · obtain ⟨head, refill, seen, step⟩ := step_opens kind entered before rest inside
    have higher : height ≤ (k.node before head rest).below.size := by simp; omega
    rw [step, Step.ends_next, ends _ seen.symm higher]
    cases goes : inner.halt with
    | some halt => simp only [After, goes, List.nil_append, above_node high, refill]
    | none =>
        simp only [After, goes, List.nil_append, refill]
        rw [Machine.ends_step (works_above high (by simp)), step_close_node]

theorem ends_iff_after {view : View} {index : Nat} {siblings : List Node} {state : σ}
    {calls : List (Call σ)} {run : Run σ} (sweep : Sweep v view index siblings state calls run)
    {k : Stack} {before : List Node} (seen : k.view = view) (place : before.length = index)
    {height : Nat} (high : height ≤ k.below.size) (r : Run σ) :
    (k.machine before siblings).Ends v height state r ↔ k.After v height before run r := by
  induction sweep generalizing k before with
  | nil => simp [After]
  | @context _ _ overlay children rest _ _ inner _ run within goes later ihWithin ihLater =>
      subst place seen
      have higher : height ≤ (k.wrapper before overlay rest).below.size := by simp; omega
      rw [Machine.ends_step works_here, step_context, Step.ends_next, ihWithin rfl rfl higher]
      simp only [After, goes, List.nil_append]
      rw [Machine.ends_step (works_above high (by simp)), step_close_wrapper, Step.ends_next,
        ihLater rfl (by simp) high, ← after_append]
      rfl
  | @contextHalt _ _ overlay children rest _ _ inner halt within halts ihWithin =>
      subst place seen
      have higher : height ≤ (k.wrapper before overlay rest).below.size := by simp; omega
      rw [Machine.ends_step works_here, step_context, Step.ends_next, ihWithin rfl rfl higher]
      simp only [After, halts, List.nil_append, above_wrapper high]
  | revisit kind entered verdict later ihLater =>
      subst place seen
      rw [Machine.ends_step works_here, step_revisit _ kind entered verdict]
      exact ihLater rfl rfl high
  | pass kind entered verdict later ihLater =>
      subst place seen
      rw [Machine.ends_step works_here, step_pass _ kind entered verdict, after_append]
      exact ihLater rfl (by simp) high
  | halt kind entered verdict =>
      subst place seen
      rw [Machine.ends_step works_here, step_halt kind entered verdict]
      rfl
  | insideHalt kind entered stays within halts ihWithin =>
      subst place seen
      rw [ends_stays high kind entered stays within fun k' seen higher => ihWithin seen rfl higher]
      simp only [After, halts]
  | exitHalt kind entered stays within goes exited flow ihWithin =>
      subst place seen
      rw [ends_stays high kind entered stays within fun k' seen higher => ihWithin seen rfl higher]
      simp only [goes, leave_eq exited, flow]
      rfl
  | exit kind entered stays within goes exited flow later ihWithin ihLater =>
      subst place seen
      rw [ends_stays high kind entered stays within fun k' seen higher => ihWithin seen rfl higher]
      simp only [goes, leave_eq exited, flow]
      rw [Step.ends_next, ihLater rfl (by simp) high, after_append]

/-! ## From runs to sweeps -/

theorem sweep_of_runTo {fuel : Nat} {siblings : List Node} {state : σ} {r : Run σ}
    (high : height ≤ k.below.size)
    (ended : (k.machine before siblings).runTo v height fuel state = some r) :
    ∃ calls run, Sweep v k.view before.length siblings state calls run ∧
      (run.halt = none → ∃ less ≤ fuel,
        (k.machine (before ++ run.nodes) []).runTo v height less run.state = some r) := by
  induction fuel using Nat.strongRecOn generalizing k before siblings state with
  | ind fuel ih =>
    match siblings, fuel with
    | [], fuel => exact ⟨[], _, .nil, fun _ => ⟨fuel, Nat.le_refl _, by simpa using ended⟩⟩
    | node :: rest, 0 => cases ended
    | node :: rest, fuel + 1 =>
      rw [Machine.runTo_step works_here] at ended
      -- the walk goes on behind nodes that took the place of the current one
      have later (nodes : List Node) {state : σ} {less : Nat} (smaller : less ≤ fuel)
          (h : (k.machine (before ++ nodes) rest).runTo v height less state = some r) :
          ∃ calls run, Sweep v k.view (before.length + nodes.length) rest state calls run ∧
            ((run.after nodes).halt = none → ∃ less ≤ fuel + 1,
              (k.machine (before ++ (run.after nodes).nodes) []).runTo v height less
                (run.after nodes).state = some r) := by
        obtain ⟨calls, run, sweep, ends⟩ := ih less (by omega) high h
        rw [List.length_append] at sweep
        refine ⟨calls, run, sweep, fun goes => ?_⟩
        obtain ⟨less', le, h⟩ := ends goes
        exact ⟨less', by omega, by simpa [Run.after] using h⟩
      by_cases kind : node.kind = .context
      · obtain ⟨overlay, children, rfl⟩ := Node.exists_of_context kind
        have higher : height ≤ (k.wrapper before overlay rest).below.size := by simp; omega
        rw [step_context] at ended
        obtain ⟨calls, inner, within, ends⟩ := ih fuel (by omega) higher ended
        cases goes : inner.halt with
        | some halt => exact ⟨_, _, .contextHalt within goes, by simp⟩
        | none =>
            obtain ⟨less, le, h⟩ := ends goes
            cases less with
            | zero => cases h
            | succ less =>
                rw [List.nil_append, Machine.runTo_step (works_above high (by simp)),
                  step_close_wrapper] at h
                obtain ⟨calls', run, sweep, ends⟩ := later [_] (by omega) h
                exact ⟨_, _, .context within goes sweep, ends⟩
      · obtain ⟨e, entered⟩ : ∃ e, v.enter k.view node state = e := ⟨_, rfl⟩
        cases verdict : e.verdict with
        | halt => exact ⟨_, _, .halt kind entered verdict, by simp⟩
        | replace nodes revisit =>
            cases revisit with
            | true =>
                rw [step_revisit _ kind entered verdict] at ended
                obtain ⟨calls, run, sweep, ends⟩ := ih fuel (by omega) high ended
                refine ⟨_, _, .revisit kind entered verdict sweep, fun goes => ?_⟩
                obtain ⟨less, le, h⟩ := ends goes
                exact ⟨less, by omega, h⟩
            | false =>
                rw [step_pass _ kind entered verdict] at ended
                obtain ⟨calls, run, sweep, ends⟩ := later nodes (Nat.le_refl _) ended
                exact ⟨_, _, .pass kind entered verdict sweep, ends⟩
        | _ =>
            have stays : e.verdict.stays := by rw [verdict]; rfl
            -- the machine comes to the exit hook, if the walk inside does not end before
            obtain ⟨calls, inner, within, ends⟩ : ∃ calls inner,
                Sweep v (k.view.below e.node) 0 e.inside e.state calls inner ∧
                  (inner.halt = none → ∃ less ≤ fuel,
                    ((k.machine before (e.refill inner.nodes :: rest)).leave v inner.state).finish
                      height (Machine.runTo v height less) = some r) := by
              by_cases inside : e.inside = []
              · rw [step_leaves kind entered stays inside] at ended
                have same : e.refill [] = e.node := by rw [← inside, e.refill_inside]
                exact ⟨[], ⟨e.state, [], none⟩, by rw [inside]; exact .nil,
                  fun _ => ⟨fuel, Nat.le_refl _, by rw [same]; exact ended⟩⟩
              · obtain ⟨head, refill, seen, step⟩ :=
                  step_opens kind entered before rest inside
                have higher : height ≤ (k.node before head rest).below.size := by simp; omega
                rw [step] at ended
                obtain ⟨calls, inner, within, ends⟩ := ih fuel (by omega) higher ended
                rw [← seen] at within
                refine ⟨calls, inner, within, fun goes => ?_⟩
                obtain ⟨less, le, h⟩ := ends goes
                cases less with
                | zero => cases h
                | succ less =>
                    rw [List.nil_append, Machine.runTo_step (works_above high (by simp)),
                      step_close_node] at h
                    exact ⟨less, by omega, by rw [refill]; exact h⟩
            cases goes : inner.halt with
            | some halt => exact ⟨_, _, .insideHalt kind entered stays within goes, by simp⟩
            | none =>
                obtain ⟨less, le, h⟩ := ends goes
                rw [leave_eq rfl] at h
                split at h
                · next flow =>
                  exact ⟨_, _, .exitHalt kind entered stays within goes rfl flow, by simp⟩
                · next flow =>
                  obtain ⟨calls', run, sweep, ends⟩ := later [_] le h
                  exact ⟨_, _, .exit kind entered stays within goes rfl flow sweep, ends⟩

end Stack

end StyleTree.Walk
