import StyleTree.Session
import StyleTree.Proofs.Node.Depth
import StyleTree.Proofs.Walk.Observation
import Mathlib

namespace StyleTree.Walk

universe u w
variable {σ : Type u} {τ : Type w}

structure Visitor.Idle (v : Visitor σ) : Prop where
  entered : ∀ view node state, (v.enter view node state).node = node
  requests : ∀ view node state, (v.enter view node state).requests = []
  action : ∀ view node state, (v.enter view node state).action = .proceed
  exited : ∀ view node state, (v.exit view node state).node = node
  flow : ∀ view node state, (v.exit view node state).flow = .proceed

namespace Visitor.Idle

variable {v : Visitor σ}

theorem observes (idle : v.Idle) : v.Observes where
  entered := idle.entered
  requests := idle.requests
  action view node state nodes := by
    rw [idle.action]
    nofun
  exited := idle.exited

theorem goes (idle : v.Idle) (c : Call σ) : ¬ c.Stops v := by
  cases hook : c.hook with
  | enter =>
      rw [Call.stops_enter hook, Call.entered, Entered.verdict, idle.requests, idle.action]
      rintro ⟨⟩
  | exit =>
      rw [Call.stops_exit hook, Call.exited, idle.flow]
      rintro ⟨⟩

theorem walks_tour (idle : v.Idle) (e : Engine) (nodes : List Node) (state : σ) :
    ∃ run : Run σ, ∀ calls r, e.Walks v nodes state calls r ↔
      calls = (tours v .root nodes state).calls ∧ r = run := by
  obtain ⟨run, sweep, -⟩ := along_tours idle.observes .root nodes state 0
  rw [upToStop_eq fun ⟨c, _, stops⟩ => idle.goes c stops] at sweep
  exact ⟨run, Engine.walks_exactly sweep e⟩

end Visitor.Idle

structure Reaches (calls : List (Call σ)) (above levels : Nat) : Prop where
  bounded : ∀ c ∈ calls, c.view.depth < above + levels
  attained : 0 < levels → ∃ c ∈ calls, c.view.depth + 1 = above + levels

namespace Reaches

variable {calls calls' : List (Call σ)} {above levels levels' : Nat}

theorem nothing : Reaches (σ := σ) [] above 0 := ⟨nofun, nofun⟩

theorem append (reaches : Reaches calls above levels) (reaches' : Reaches calls' above levels') :
    Reaches (calls ++ calls') above (max levels levels') where
  bounded c member := by
    rcases List.mem_append.1 member with member | member
    · have := reaches.bounded c member
      omega
    · have := reaches'.bounded c member
      omega
  attained some := by
    by_cases less : levels ≤ levels'
    · obtain ⟨c, member, deep⟩ := reaches'.attained (by omega)
      exact ⟨c, List.mem_append_right calls member, by omega⟩
    · obtain ⟨c, member, deep⟩ := reaches.attained (by omega)
      exact ⟨c, List.mem_append_left calls' member, by omega⟩

theorem around {enter exit : Call σ} (first : enter.view.depth = above)
    (last : exit.view.depth = above) (inside : Reaches calls (above + 1) levels) :
    Reaches (enter :: (calls ++ [exit])) above (levels + 1) where
  bounded c member := by
    simp only [List.mem_cons, List.mem_append, List.not_mem_nil, or_false] at member
    rcases member with rfl | member | rfl
    · omega
    · have := inside.bounded c member
      omega
    · omega
  attained _ := by
    rcases Nat.eq_zero_or_pos levels with rfl | some
    · exact ⟨enter, List.mem_cons_self, by omega⟩
    · obtain ⟨c, member, deep⟩ := inside.attained some
      exact ⟨c, .tail _ (List.mem_append_left _ member), by omega⟩

end Reaches

section
variable {v : Visitor σ}

theorem Visitor.Idle.reaches_around (idle : v.Idle) (view : View) (node : Node)
    {inside : σ → Tour σ} {levels : Nat}
    (within : ∀ state, Reaches (inside state).calls (view.depth + 1) levels) (state : σ) :
    Reaches (Tour.around v view node inside state).calls view.depth (levels + 1) := by
  have proceeds : (v.enter view node state).action ≠ .skip := by
    rw [idle.action]
    nofun
  simp only [Tour.around, if_neg proceeds]
  exact .around rfl rfl (within _)

mutual

theorem Visitor.Idle.reaches_tour (idle : v.Idle) :
    (n : Node) → ∀ view state, Reaches (tour v view n state).calls view.depth n.depth
  | .leaf l, view, state => by
      rw [tour, Node.depth]
      exact idle.reaches_around view (.leaf l) (fun _ => .nothing) state
  | .block head children, view, state => by
      cases head with
      | context overlay => exact idle.reaches_tours children (view.under overlay) state
      | _ => exact idle.reaches_around view _ (idle.reaches_tours children (view.below _)) state

theorem Visitor.Idle.reaches_tours (idle : v.Idle) :
    (nodes : List Node) → ∀ view state,
      Reaches (tours v view nodes state).calls view.depth (Node.depths nodes)
  | [], view, state => .nothing
  | n :: rest, view, state => by
      rw [tours, Node.depths]
      exact .append (idle.reaches_tour n view state) (idle.reaches_tours rest view _)

end

end

namespace Config

variable {c : Config} {nodes : List Node} {e : DepthLimit}

theorem refusal?_eq_some : c.refusal? nodes = some e ↔ c.engine = .recursive ∧
    ∃ limit, c.maxDepth = some limit ∧ limit.toNat < Node.depths nodes ∧
      e = ⟨limit.toNat, Node.depths nodes⟩ := by
  rw [refusal?, ← Node.measuredDepth_eq]
  split
  · next limit engine limited =>
    simp [engine, limited, eq_comm]
  · next other =>
    constructor
    · nofun
    · rintro ⟨engine, limit, limited, -⟩
      exact absurd limited (other limit engine)

theorem accepts_iff {limit : UInt64} :
    (⟨.recursive, some limit⟩ : Config).refusal? nodes = none ↔
      Node.depths nodes ≤ limit.toNat := by
  simp only [refusal?, ← Node.measuredDepth_eq]
  split
  · next less => exact iff_of_false nofun (Nat.not_le.2 less)
  · next within => exact iff_of_true rfl (Nat.not_lt.1 within)

theorem walk_error {v : Visitor σ} {fuel : Nat} {state : σ} :
    c.walk v fuel nodes state = .error e ↔ c.refusal? nodes = some e := by
  rw [walk]
  cases c.refusal? nodes <;> simp

theorem walk_ok {v : Visitor σ} {fuel : Nat} {state : σ} (accepted : c.refusal? nodes = none) :
    c.walk v fuel nodes state = .ok (c.engine.walk v fuel nodes state) := by
  rw [walk, accepted]

end Config

end StyleTree.Walk

namespace StyleTree.Session

open Walk (DepthLimit)

theorem run_refused {s : Session} {e : DepthLimit} (refused : s.config.refusal? s.tree = some e)
    {x : Step} (walks : x = .pass ∨ ∃ script, x = .walk script) (steps : List Step) :
    s.run (x :: steps) = .error (.depth e) :: s.run steps := by
  have failed : s.step x = .error (.depth e) := by
    rcases walks with rfl | ⟨script, rfl⟩
    · rw [step, Pass.run, Walk.Config.walk, refused]
      rfl
    · rw [step, Walk.Config.walk, refused]
      rfl
  rw [run, failed]

end StyleTree.Session

namespace StyleTree.Walk

universe u w
variable {σ : Type u} {τ : Type w}

/-- An idle walk of a tree makes certain calls, in one run. A walk of the tree under settings is
refused exactly if they name the recursive engine and a limit, and one of those calls is at the
depth of the limit or below it. The refusal tells the limit and the number of levels down to the
deepest call. No hook is called, as every visitor is refused alike before the first step, and a
session goes on with the tree and the counts that it had. A walk that is not refused is that of the
engine, with the same calls. -/
theorem walk_refused {w : Visitor τ} (idle : w.Idle) (start : τ) (nodes : List Node) :
    ∃ (calls : List (Call τ)) (idleRun : Run τ),
      (∀ calls' r, Engine.recursive.Walks w nodes start calls' r ↔ calls' = calls ∧ r = idleRun) ∧
      ∀ (c : Config) (v : Visitor σ) (fuel : Nat) (state : σ),
        ((∃ e, c.walk v fuel nodes state = .error e) ↔ c.engine = .recursive ∧
          ∃ limit, c.maxDepth = some limit ∧ ∃ call ∈ calls, limit.toNat ≤ call.view.depth) ∧
        (∀ e, c.walk v fuel nodes state = .error e →
          c.maxDepth.map UInt64.toNat = some e.limit ∧
          (∃ call ∈ calls, e.depth = 1 + call.view.depth) ∧
          (∀ call ∈ calls, 1 + call.view.depth ≤ e.depth) ∧
          (∀ (σ' : Type u) (v' : Visitor σ') state', c.walk v' 0 nodes state' = .error e) ∧
          ∀ s : Session, s.config = c → s.tree = nodes → ∀ x : Session.Step,
            x = .pass ∨ (∃ script, x = .walk script) →
              ∀ steps, s.run (x :: steps) = .error (.depth e) :: s.run steps) ∧
        ((∀ e, c.walk v fuel nodes state ≠ .error e) →
          c.walk v fuel nodes state = .ok (c.engine.walk v fuel nodes state) ∧
          ∀ calls' r, (∃ fuel, c.walk v.traced fuel nodes (state, []) =
              .ok (some (r.traced calls'))) ↔ c.engine.Walks v nodes state calls' r) := by
  obtain ⟨idleRun, walks⟩ := idle.walks_tour .recursive nodes start
  have reaches := idle.reaches_tours nodes .root start
  generalize (tours w .root nodes start).calls = calls at walks reaches
  have depth : View.root.depth = 0 := rfl
  refine ⟨calls, idleRun, walks, fun c v fuel state => ?_⟩
  refine ⟨?_, fun e refused => ?_, fun accepted => ?_⟩
  · simp only [Config.walk_error, Config.refusal?_eq_some]
    constructor
    · rintro ⟨_, engine, limit, limited, less, -⟩
      obtain ⟨call, member, deep⟩ := reaches.attained (by omega)
      exact ⟨engine, limit, limited, call, member, by omega⟩
    · rintro ⟨engine, limit, limited, call, member, deep⟩
      have := reaches.bounded call member
      exact ⟨_, engine, limit, limited, by omega, rfl⟩
  · rw [Config.walk_error] at refused
    obtain ⟨engine, limit, limited, less, rfl⟩ := Config.refusal?_eq_some.1 refused
    obtain ⟨call, member, deep⟩ := reaches.attained (by omega)
    refine ⟨by rw [limited]; rfl, ⟨call, member, by simp only; omega⟩, ?_, ?_, ?_⟩
    · intro call member
      have := reaches.bounded call member
      simp only
      omega
    · intro σ' v' state'
      exact Config.walk_error.2 refused
    · rintro s rfl rfl x walks steps
      exact Session.run_refused refused walks steps
  · have none : c.refusal? nodes = none := by
      rw [Option.eq_none_iff_forall_ne_some]
      exact fun e refused => accepted e (Config.walk_error.2 refused)
    refine ⟨Config.walk_ok none, fun calls' r => ?_⟩
    simp only [Config.walk_ok none, Except.ok.injEq, Engine.Walks]

theorem walk_refused_empty_blocks :
    let w : Visitor Nat := .ofEnter fun _ node count => ⟨count + 1, node, [], .proceed⟩
    let nodes : List Node :=
      [.atRoot [.context .empty [.context .empty [.rule "a" []], .context .empty []]]]
    let low : Config := ⟨.recursive, some 1⟩
    let high : Config := ⟨.recursive, some 2⟩
    w.Idle ∧ low.walk w 0 nodes 0 = .error ⟨1, 2⟩ ∧
      high.walk w 9 nodes 0 = .ok (some ⟨2, nodes, none⟩) ∧
      ∃ calls idleRun, Engine.recursive.Walks w nodes 0 calls idleRun ∧
        (∃ call ∈ calls, 2 = 1 + call.view.depth) ∧ ∀ call ∈ calls, call.view.depth < 2 := by
  intro w nodes low high
  have idle : w.Idle :=
    ⟨fun _ _ _ => rfl, fun _ _ _ => rfl, fun _ _ _ => rfl, fun _ _ _ => rfl, fun _ _ _ => rfl⟩
  have refused : low.walk w 0 nodes 0 = .error ⟨1, 2⟩ := by cbv
  obtain ⟨calls, idleRun, walks, limits⟩ := walk_refused idle 0 nodes
  obtain ⟨-, tells, -⟩ := limits low w 0 0
  obtain ⟨-, deepest, bounded, -⟩ := tells _ refused
  refine ⟨idle, refused, by cbv, calls, idleRun, (walks _ _).2 ⟨rfl, rfl⟩, deepest, ?_⟩
  intro call member
  have less : 1 + call.view.depth ≤ 2 := bounded call member
  omega

end StyleTree.Walk
