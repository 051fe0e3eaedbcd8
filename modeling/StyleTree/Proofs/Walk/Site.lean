import StyleTree.Walk.Engine
import StyleTree.Proofs.Walk.Recursion
import StyleTree.Proofs.Walk.Frames
import StyleTree.Proofs.Walk.Traced

/-!
# Sites

A site is where an engine walks siblings: a trail and an overlay for the recursive one, a stack of
frames for the iterative one. `Site.Walks` tells the calls and the run of the walk there, and
`Site.walks_iff` that they are those of a sweep, so that a law of sweeps is a law of both engines.
-/

namespace StyleTree.Walk

universe u
variable {σ : Type u} {v : Visitor σ}

namespace Stack

variable {k : Stack} {before siblings : List Node} {state : σ}

theorem above_here (nodes : List Node) : k.above k.below.size nodes = nodes := by
  have none : k.below.extract k.below.size = #[] := by simp
  rw [above, none]
  rfl

theorem ends_here {nodes : List Node} {r : Run σ} :
    (k.machine nodes []).Ends v k.below.size state r ↔ r = ⟨state, nodes, none⟩ := by
  have finished : (k.machine nodes []).below.size = k.below.size ∧
      (k.machine nodes []).top.current? = none := ⟨rfl, k.frame_end nodes⟩
  have last (fuel : Nat) : Machine.runTo v k.below.size (fuel + 1) (k.machine nodes []) state =
      some ⟨state, nodes, none⟩ := by
    rw [Machine.runTo, if_pos finished]
    simp [machine, frame]
  constructor
  · rintro ⟨fuel, h⟩
    cases fuel with
    | zero => cases h
    | succ fuel => simpa [last, eq_comm] using h
  · rintro rfl
    exact ⟨1, last 0⟩

theorem ends_iff {calls : List (Call σ)} {run : Run σ}
    (sweep : Sweep v k.view before.length siblings state calls run) {r : Run σ} :
    (k.machine before siblings).Ends v k.below.size state r ↔ r = run.after before := by
  rw [ends_iff_after sweep rfl rfl (Nat.le_refl _), After]
  cases goes : run.halt with
  | some halt => simp only [above_here, Run.after, goes]
  | none => simp only [ends_here, Run.after, goes]

end Stack

inductive Site where
  | recursive (trail : Trail) (ambient : Overlay)
  | iterative (stack : Stack)

namespace Site

def view : Site → View
  | .recursive trail ambient => trail.view ambient
  | .iterative stack => stack.view

def walk (site : Site) (v : Visitor σ) (fuel : Nat) (before siblings : List Node) (state : σ) :
    Option (Run σ) :=
  match site with
  | .recursive trail ambient =>
      visit v fuel trail ambient (before ++ siblings).toArray before.length state
  | .iterative stack => Machine.runTo v stack.below.size fuel (stack.machine before siblings) state

variable {site : Site} {before siblings : List Node} {state : σ} {calls : List (Call σ)}
  {run r : Run σ}

theorem exists_sweep {fuel : Nat} (ended : site.walk v fuel before siblings state = some r) :
    ∃ calls run, Sweep v site.view before.length siblings state calls run ∧
      r = run.after before := by
  cases site with
  | recursive trail ambient => exact sweep_of_visit before ended
  | iterative stack =>
      obtain ⟨calls, run, sweep, -⟩ := Stack.sweep_of_runTo (Nat.le_refl _) ended
      exact ⟨calls, run, sweep, (Stack.ends_iff sweep).1 ⟨fuel, ended⟩⟩

theorem ends_iff (sweep : Sweep v site.view before.length siblings state calls run) :
    (∃ fuel, site.walk v fuel before siblings state = some r) ↔ r = run.after before := by
  cases site with
  | iterative stack => exact Stack.ends_iff sweep
  | recursive trail ambient =>
      obtain ⟨a, walked⟩ := visit_of_sweep sweep trail ambient before rfl rfl
      constructor
      · rintro ⟨fuel, ended⟩
        obtain ⟨_, _, sweep', rfl⟩ := sweep_of_visit before ended
        obtain ⟨b, walked'⟩ := visit_of_sweep sweep' trail ambient before rfl rfl
        have same := walked (a + b) (by omega)
        rw [walked' (a + b) (by omega)] at same
        exact Option.some_inj.1 same
      · rintro rfl
        exact ⟨a, walked a (Nat.le_refl _)⟩

def Walks (site : Site) (v : Visitor σ) (before siblings : List Node) (state : σ)
    (calls : List (Call σ)) (run : Run σ) : Prop :=
  ∃ fuel, site.walk v.traced fuel before siblings (state, []) =
    some ((run.traced calls).after before)

theorem traced_inj {run run' : Run σ} {calls calls' : List (Call σ)}
    (same : (run.traced calls).after before = (run'.traced calls').after before) :
    calls = calls' ∧ run = run' := by
  obtain ⟨state, nodes, halt⟩ := run
  obtain ⟨state', nodes', halt'⟩ := run'
  simp only [Run.after, Run.traced, Run.mk.injEq, Prod.mk.injEq, List.append_cancel_left_eq] at same
  obtain ⟨⟨rfl, rfl⟩, rfl, rfl⟩ := same
  exact ⟨rfl, rfl⟩

theorem walks_iff : site.Walks v before siblings state calls run ↔
    Sweep v site.view before.length siblings state calls run := by
  constructor
  · rintro ⟨fuel, ended⟩
    obtain ⟨_, _, traced, same⟩ := exists_sweep ended
    obtain ⟨calls', run', sweep, rfl⟩ := traced.untraced
    obtain ⟨rfl, rfl⟩ := traced_inj same
    exact sweep
  · intro sweep
    obtain ⟨_, sweep⟩ := sweep.traced []
    exact (ends_iff sweep).2 rfl

theorem walks_unique {calls' : List (Call σ)} {run' : Run σ}
    (walks : site.Walks v before siblings state calls run)
    (walks' : site.Walks v before siblings state calls' run') : calls = calls' ∧ run = run' := by
  obtain ⟨_, sweep⟩ := (walks_iff.1 walks).traced []
  exact traced_inj ((ends_iff sweep).1 walks').symm

theorem walks_exactly (walks : site.Walks v before siblings state calls run)
    (calls' : List (Call σ)) (run' : Run σ) :
    site.Walks v before siblings state calls' run' ↔ calls' = calls ∧ run' = run := by
  constructor
  · intro other
    exact walks_unique other walks
  · rintro ⟨rfl, rfl⟩
    exact walks

end Site

namespace Engine

def site : Engine → Site
  | .recursive => .recursive .empty .empty
  | .iterative => .iterative .root

@[simp] theorem view_site (e : Engine) : e.site.view = .root := by cases e <;> rfl

theorem walk_eq (e : Engine) (v : Visitor σ) (fuel : Nat) (nodes : List Node) (state : σ) :
    e.walk v fuel nodes state = e.site.walk v fuel [] nodes state := by
  cases e with
  | recursive => rfl
  | iterative => exact Machine.run_eq_runTo fuel (.start nodes) state

def Walks (e : Engine) (v : Visitor σ) (nodes : List Node) (state : σ) (calls : List (Call σ))
    (run : Run σ) : Prop :=
  ∃ fuel, e.walk v.traced fuel nodes (state, []) = some (run.traced calls)

variable {e : Engine} {nodes : List Node} {state : σ} {calls : List (Call σ)} {run : Run σ}

theorem walks_site :
    e.Walks v nodes state calls run ↔ e.site.Walks v [] nodes state calls run := by
  simp only [Walks, Site.Walks, walk_eq]
  rfl

theorem walks_sweep : e.Walks v nodes state calls run ↔ Sweep v .root 0 nodes state calls run := by
  rw [walks_site, Site.walks_iff, view_site]
  rfl

theorem ends_iff_walks :
    (∃ fuel, e.walk v fuel nodes state = some run) ↔ ∃ calls, e.Walks v nodes state calls run := by
  simp only [walk_eq, walks_site, Site.walks_iff]
  constructor
  · rintro ⟨fuel, ended⟩
    obtain ⟨calls, run, sweep, rfl⟩ := Site.exists_sweep ended
    exact ⟨calls, sweep⟩
  · rintro ⟨calls, sweep⟩
    exact (Site.ends_iff sweep).2 rfl

theorem terminates_iff_walks :
    (∃ fuel, (e.walk v fuel nodes state).isSome) ↔
      ∃ calls run, e.Walks v nodes state calls run := by
  simp only [Option.isSome_iff_exists]
  rw [exists_comm, exists_comm (α := List (Call σ))]
  exact exists_congr fun run => ends_iff_walks

theorem ends_exactly (sweep : Sweep v .root 0 nodes state calls run) (e : Engine) (r : Run σ) :
    (∃ fuel, e.walk v fuel nodes state = some r) ↔ r = run := by
  simp only [walk_eq]
  rw [← e.view_site] at sweep
  exact Site.ends_iff sweep

theorem walks_exactly (sweep : Sweep v .root 0 nodes state calls run) (e : Engine)
    (calls' : List (Call σ)) (run' : Run σ) :
    e.Walks v nodes state calls' run' ↔ calls' = calls ∧ run' = run := by
  rw [walks_site]
  exact Site.walks_exactly (walks_site.1 (walks_sweep.2 sweep)) calls' run'

end Engine

end StyleTree.Walk
