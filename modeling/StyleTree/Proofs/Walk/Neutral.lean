import StyleTree.Proofs.Walk.Composition
import StyleTree.Proofs.Node.Similar
import Mathlib.Data.List.Forall2

namespace StyleTree.Walk

open Node (Similar)

universe u
variable {σ : Type u} {v : Visitor σ}

inductive Action.Alike : Action → Action → Prop where
  | proceed : Alike .proceed .proceed
  | skip : Alike .skip .skip
  | stop : Alike .stop .stop
  | replace {nodes nodes' : List Node} (similar : Similar nodes nodes') :
      Alike (.replace nodes) (.replace nodes')

structure Entered.Alike (e e' : Entered σ) : Prop where
  state : e.state = e'.state
  node : e.node.Alike e'.node
  requests : List.Forall₂ Similar e.requests e'.requests
  action : e.action.Alike e'.action

structure Exited.Alike (x x' : Exited σ) : Prop where
  state : x.state = x'.state
  node : x.node.Alike x'.node
  flow : x.flow = x'.flow

/-- To nodes that are alike the hooks give answers that are alike. -/
structure Visitor.Blind (v : Visitor σ) : Prop where
  enter : ∀ (view : View) {m n : Node} (state : σ), m.Alike n →
    (v.enter view m state).Alike (v.enter view n state)
  exit : ∀ (view : View) {m n : Node} (state : σ), m.Alike n →
    (v.exit view m state).Alike (v.exit view n state)

inductive Verdict.Alike : Verdict → Verdict → Prop where
  | descend : Alike .descend .descend
  | skip : Alike .skip .skip
  | halt : Alike .halt .halt
  | replace {nodes nodes' : List Node} (similar : Similar nodes nodes') (revisit : Bool) :
      Alike (.replace nodes revisit) (.replace nodes' revisit)

namespace Verdict.Alike

variable {d d' : Verdict}

theorem halts (alike : Verdict.halt.Alike d) : d = .halt := by
  cases alike
  rfl

theorem replaces {nodes : List Node} {revisit : Bool}
    (alike : (Verdict.replace nodes revisit).Alike d) :
    ∃ nodes', d = .replace nodes' revisit ∧ Similar nodes nodes' := by
  cases alike with
  | replace similar => exact ⟨_, rfl, similar⟩

theorem stays (alike : d.Alike d') (stays : d.stays) : d'.stays := by
  cases alike with
  | descend => rfl
  | skip => rfl
  | halt => cases stays
  | replace => cases stays

end Verdict.Alike

namespace Entered.Alike

variable {e e' : Entered σ}

theorem verdict (alike : e.Alike e') : e.verdict.Alike e'.verdict := by
  obtain ⟨_, _, requests, action⟩ := e
  obtain ⟨_, _, requests', action'⟩ := e'
  have asked : List.Forall₂ Similar requests requests' := alike.requests
  have action : action.Alike action' := alike.action
  cases asked with
  | nil =>
      cases action with
      | proceed => exact .descend
      | skip => exact .skip
      | stop => exact .halt
      | replace similar => exact .replace similar true
  | cons similar _ =>
      cases action with
      | proceed => exact .replace similar true
      | skip => exact .replace similar false
      | stop => exact .replace similar false
      | replace _ => exact .replace similar true

theorem below (alike : e.Alike e') (view : View) :
    view.below e.node = view.below e'.node := by
  rw [View.below, View.below, alike.node.bare]

theorem inside (alike : e.Alike e') : Similar e.inside e'.inside := by
  rw [Entered.inside, Entered.inside]
  generalize e.verdict = d, e'.verdict = d', alike.verdict = verdict
  cases verdict with
  | descend => exact alike.node.children
  | _ => rfl

theorem refill (alike : e.Alike e') {a b : List Node} (similar : Similar a b) :
    (e.refill a).Alike (e'.refill b) := by
  rw [Entered.refill, Entered.refill]
  generalize e.verdict = d, e'.verdict = d', alike.verdict = verdict
  cases verdict with
  | descend => exact alike.node.withChildren similar
  | _ => exact alike.node

end Entered.Alike

structure Call.Alike (c c' : Call σ) : Prop where
  hook : c.hook = c'.hook
  view : c.view = c'.view
  node : c.node.Alike c'.node
  state : c.state = c'.state

structure Run.Alike (r r' : Run σ) : Prop where
  state : r.state = r'.state
  nodes : Similar r.nodes r'.nodes
  halt : r.halt.isSome = r'.halt.isSome

namespace Run.Alike

variable {r r' r'' : Run σ}

theorem trans (alike : r.Alike r') (alike' : r'.Alike r'') : r.Alike r'' :=
  ⟨alike.state.trans alike'.state, alike.nodes.trans alike'.nodes, alike.halt.trans alike'.halt⟩

theorem after (alike : r.Alike r') {nodes nodes' : List Node} (similar : Similar nodes nodes') :
    (r.after nodes).Alike (r'.after nodes') :=
  ⟨alike.state, similar.append alike.nodes, alike.halt⟩

theorem outcome (alike : r.Alike r') : r.outcome = r'.outcome := by
  rw [Run.outcome, Run.outcome, alike.halt]

theorem goes (alike : r.Alike r') (goes : r.halt = none) : r'.halt = none := by
  rw [← Option.isNone_iff_eq_none, ← Option.isSome_eq_false_iff, ← alike.halt, goes]
  rfl

theorem halts (alike : r.Alike r') (halts : r.halt.isSome) : ∃ halt, r'.halt = some halt := by
  rw [alike.halt] at halts
  exact Option.isSome_iff_exists.1 halts

end Run.Alike

/-! ## Opening neutral contexts -/

def Covers (v : Visitor σ) (a b : List Node) : Prop :=
  ∀ (view : View) (index : Nat) (state : σ) (calls : List (Call σ)) (run : Run σ),
    Sweep v view index a state calls run → ∀ index',
      ∃ run', Sweep v view index' b state calls run' ∧ run.Alike run'

namespace Covers

variable {a a' b b' c : List Node}

theorem refl (a : List Node) : Covers v a a := by
  intro _ _ _ _ _ sweep index'
  obtain ⟨halt, sweep, same⟩ := sweep.shift index'
  exact ⟨_, sweep, rfl, rfl, same.symm⟩

theorem trans (covers : Covers v a b) (covers' : Covers v b c) : Covers v a c := by
  intro _ _ _ _ _ sweep index'
  obtain ⟨run, sweep, alike⟩ := covers _ _ _ _ _ sweep index'
  obtain ⟨run', sweep, alike'⟩ := covers' _ _ _ _ _ sweep index'
  exact ⟨run', sweep, alike.trans alike'⟩

theorem append (covers : Covers v a a') (covers' : Covers v b b') (similar : Similar b b') :
    Covers v (a ++ b) (a' ++ b') := by
  intro _ _ _ _ _ sweep index'
  rcases sweep.splits with ⟨first, walked, halts, rfl⟩ |
    ⟨earlier, later, first, second, walked, goes, next, rfl, rfl⟩
  · obtain ⟨first', walked, alike⟩ := covers _ _ _ _ _ walked index'
    have halts' : first'.halt.isSome := alike.halt ▸ halts
    exact ⟨_, walked.append_stopped halts' b', alike.state, alike.nodes.append similar, alike.halt⟩
  · obtain ⟨first', walked, alike⟩ := covers _ _ _ _ _ walked index'
    rw [alike.state] at next
    obtain ⟨second', next, alike'⟩ := covers' _ _ _ _ _ next (index' + first'.nodes.length)
    exact ⟨_, walked.append_completed (alike.goes goes) next, alike'.after alike.nodes⟩

theorem wrap (children : List Node) : Covers v children [.context .empty children] := by
  intro view _ _ calls run sweep index'
  obtain ⟨inner, within, alike⟩ := refl children _ _ _ _ _ sweep 0
  have similar : Similar run.nodes [.context .empty inner.nodes] :=
    alike.nodes.trans (Similar.wrapped inner.nodes).symm
  cases halt : inner.halt with
  | some => exact ⟨_, .contextHalt within halt, alike.state, similar, halt ▸ alike.halt⟩
  | none =>
      have walked : Sweep v view index' [.context .empty children] _ (calls ++ []) _ :=
        .context within halt .nil
      rw [List.append_nil] at walked
      exact ⟨_, walked, alike.state, similar, halt ▸ alike.halt⟩

end Covers

mutual

theorem covers_surface : (n : Node) → Covers v n.surface [n]
  | .leaf l => .refl _
  | .block head children => by
      rw [Node.surface]
      split
      · next neutral =>
        rw [neutral]
        exact (covers_surfaces children).trans (.wrap children)
      · exact .refl _

theorem covers_surfaces : (siblings : List Node) → Covers v (Node.surfaces siblings) siblings
  | [] => .refl []
  | n :: rest => (covers_surface n).append (covers_surfaces rest) (Node.unwraps_surfaces rest)

end

/-! ## Walks of similar siblings -/

def Echoes (v : Visitor σ) (view : View) (siblings : List Node) (state : σ)
    (calls : List (Call σ)) (run : Run σ) : Prop :=
  ∀ index, ∃ calls' run', Sweep v view index siblings state calls' run' ∧
    List.Forall₂ Call.Alike calls calls' ∧ run.Alike run'

theorem Echoes.of_surfaces {view : View} {siblings : List Node} {state : σ}
    {calls : List (Call σ)} {run : Run σ}
    (echoes : Echoes v view (Node.surfaces siblings) state calls run) :
    Echoes v view siblings state calls run := by
  intro index
  obtain ⟨calls', run', sweep, same, alike⟩ := echoes index
  obtain ⟨run'', sweep, alike'⟩ := covers_surfaces siblings _ _ _ _ _ sweep index
  exact ⟨calls', run'', sweep, same, alike.trans alike'⟩

theorem Entered.Alike.within {e e' : Entered σ} (alike : e.Alike e') {view : View}
    {calls : List (Call σ)} {inner : Run σ}
    (echoes : ∀ {b}, Similar e.inside b →
      Echoes v (view.below e.node) (Node.surfaces b) e.state calls inner) :
    ∃ calls' inner', Sweep v (view.below e'.node) 0 e'.inside e'.state calls' inner' ∧
      List.Forall₂ Call.Alike calls calls' ∧ inner.Alike inner' := by
  rw [← alike.below, ← alike.state]
  exact Echoes.of_surfaces (echoes alike.inside) 0

theorem Sweep.echoes (blind : v.Blind) {view : View} {index : Nat} {a b : List Node} {state : σ}
    {calls : List (Call σ)} {run : Run σ} (sweep : Sweep v view index a state calls run)
    (similar : Similar a b) : Echoes v view b state calls run := by
  -- the surface of `b` has the parts of `a` in their order
  apply Echoes.of_surfaces
  intro place
  induction sweep generalizing b place with
  | nil =>
      rw [similar.surface_nil]
      exact ⟨_, _, .nil, .nil, rfl, rfl, rfl⟩
  | @context _ _ overlay _ _ _ _ _ _ _ _ goes _ ihWithin ihLater =>
      by_cases neutral : overlay = .empty
      · -- the children of the neutral context are siblings of what comes later
        subst neutral
        obtain ⟨b', b'', parts, first, second⟩ := similar.surface_neutral
        obtain ⟨_, first', within, same, alike⟩ := Echoes.of_surfaces (ihWithin first) place
        rw [alike.state] at ihLater
        obtain ⟨_, second', later, same', alike'⟩ :=
          Echoes.of_surfaces (ihLater second) (place + first'.nodes.length)
        rw [parts]
        exact ⟨_, _, within.append_completed (alike.goes goes) later, List.rel_append same same',
          alike'.after ((Similar.wrapped _).trans alike.nodes)⟩
      · obtain ⟨_, _, parts, similar', similar⟩ := similar.surface_context neutral
        obtain ⟨_, inner, within, calls, alike⟩ := Echoes.of_surfaces (ihWithin similar') 0
        rw [alike.state] at ihLater
        obtain ⟨_, _, later, calls', alike'⟩ := Echoes.of_surfaces (ihLater similar) (place + 1)
        rw [parts]
        exact ⟨_, _, .context within (alike.goes goes) later, List.rel_append calls calls',
          alike'.after (Node.Alike.block _ alike.nodes).similar⟩
  | @contextHalt _ _ overlay _ _ _ _ _ _ _ halts ihWithin =>
      by_cases neutral : overlay = .empty
      · subst neutral
        obtain ⟨b', b'', parts, first, second⟩ := similar.surface_neutral
        obtain ⟨_, first', within, same, alike⟩ := Echoes.of_surfaces (ihWithin first) place
        rw [parts]
        exact ⟨_, _, within.append_stopped (alike.halt ▸ halts ▸ rfl) b'', same,
          alike.state, ((Similar.wrapped _).trans alike.nodes).append second, halts ▸ alike.halt⟩
      · obtain ⟨_, _, parts, similar', similar⟩ := similar.surface_context neutral
        obtain ⟨_, inner, within, calls, alike⟩ := Echoes.of_surfaces (ihWithin similar') 0
        obtain ⟨halt, halts'⟩ := alike.halts (halts ▸ rfl)
        rw [parts]
        exact ⟨_, _, .contextHalt within halts', calls,
          alike.state, (Node.Alike.block _ alike.nodes).cons similar, rfl⟩
  | @revisit view _ node _ state _ _ _ _ kind entered verdict _ ihLater =>
      obtain ⟨n, _, parts, kind', same, similar⟩ := similar.surface_node kind
      have alike := blind.enter view state same
      subst entered
      obtain ⟨nodes, verdict', similar'⟩ := (verdict ▸ alike.verdict).replaces
      rw [alike.state] at ihLater
      obtain ⟨_, _, later, calls, alike'⟩ :=
        Echoes.of_surfaces (ihLater (similar'.append similar)) place
      rw [parts]
      exact ⟨_, _, .revisit kind' rfl verdict' later,
        .cons ⟨rfl, rfl, same, rfl⟩ calls, alike'⟩
  | @pass view _ node _ state _ _ _ _ kind entered verdict _ ihLater =>
      obtain ⟨n, _, parts, kind', same, similar⟩ := similar.surface_node kind
      have alike := blind.enter view state same
      subst entered
      obtain ⟨nodes, verdict', similar'⟩ := (verdict ▸ alike.verdict).replaces
      rw [alike.state] at ihLater
      obtain ⟨_, _, later, calls, alike'⟩ :=
        Echoes.of_surfaces (ihLater similar) (place + nodes.length)
      rw [parts]
      exact ⟨_, _, .pass kind' rfl verdict' later,
        .cons ⟨rfl, rfl, same, rfl⟩ calls, alike'.after similar'⟩
  | @halt view _ node _ state _ kind entered verdict =>
      obtain ⟨n, _, parts, kind', same, similar⟩ := similar.surface_node kind
      have alike := blind.enter view state same
      subst entered
      have verdict' := (verdict ▸ alike.verdict).halts
      rw [parts]
      exact ⟨_, _, .halt kind' rfl verdict', .cons ⟨rfl, rfl, same, rfl⟩ .nil,
        alike.state, alike.node.cons similar, rfl⟩
  | @insideHalt view _ node _ state _ _ _ _ kind entered stays _ halts ihWithin =>
      obtain ⟨n, _, parts, kind', same, similar⟩ := similar.surface_node kind
      have alike := blind.enter view state same
      subst entered
      obtain ⟨_, inner, within, calls, alike'⟩ := alike.within ihWithin
      obtain ⟨halt, halts'⟩ := alike'.halts (halts ▸ rfl)
      rw [parts]
      exact ⟨_, _, .insideHalt kind' rfl (alike.verdict.stays stays) within halts',
        .cons ⟨rfl, rfl, same, rfl⟩ calls,
        alike'.state, (alike.refill alike'.nodes).cons similar, rfl⟩
  | @exitHalt view _ node _ state _ _ _ _ kind entered stays _ goes exited flow ihWithin =>
      obtain ⟨n, _, parts, kind', same, similar⟩ := similar.surface_node kind
      have alike := blind.enter view state same
      subst entered exited
      obtain ⟨_, inner, within, calls, alike'⟩ := alike.within ihWithin
      have refilled := alike.refill alike'.nodes
      have left := blind.exit view inner.state refilled
      rw [alike'.state] at flow ⊢
      rw [parts]
      exact ⟨_, _, .exitHalt kind' rfl (alike.verdict.stays stays) within
          (alike'.goes goes) rfl (left.flow ▸ flow),
        .cons ⟨rfl, rfl, same, rfl⟩ (List.rel_append calls (.cons ⟨rfl, rfl, refilled, rfl⟩ .nil)),
        left.state, left.node.cons similar, rfl⟩
  | @exit view _ node _ state _ _ _ _ _ _ kind entered stays _ goes exited flow _ ihWithin
      ihLater =>
      obtain ⟨n, _, parts, kind', same, similar⟩ := similar.surface_node kind
      have alike := blind.enter view state same
      subst entered exited
      obtain ⟨_, inner, within, calls, alike'⟩ := alike.within ihWithin
      have refilled := alike.refill alike'.nodes
      have left := blind.exit view inner.state refilled
      rw [alike'.state] at flow ihLater ⊢
      rw [left.state] at ihLater
      obtain ⟨_, _, later, calls', alike''⟩ := Echoes.of_surfaces (ihLater similar) (place + 1)
      rw [parts]
      exact ⟨_, _, .exit kind' rfl (alike.verdict.stays stays) within
          (alike'.goes goes) rfl (left.flow ▸ flow) later,
        .cons ⟨rfl, rfl, same, rfl⟩
          (List.rel_append calls (.cons ⟨rfl, rfl, refilled, rfl⟩ calls')),
        alike''.after left.node.similar⟩

theorem Engine.Walks.echoes {e : Engine} (e' : Engine) (blind : v.Blind) {a b : List Node}
    {state : σ} {calls : List (Call σ)} {run : Run σ} (walks : e.Walks v a state calls run)
    (similar : Similar a b) : ∃ calls' run', e'.Walks v b state calls' run' ∧
      List.Forall₂ Call.Alike calls calls' ∧ run.Alike run' := by
  obtain ⟨calls', run', sweep, same, alike⟩ := (walks_sweep.1 walks).echoes blind similar 0
  exact ⟨calls', run', walks_sweep.2 sweep, same, alike⟩

theorem Engine.terminates_of_similar (e e' : Engine) (blind : v.Blind) {a b : List Node} {state : σ}
    (similar : Similar a b) (ends : ∃ fuel, (e.walk v fuel a state).isSome) :
    ∃ fuel, (e'.walk v fuel b state).isSome := by
  obtain ⟨calls, run, walks⟩ := terminates_iff_walks.1 ends
  obtain ⟨calls', run', walks, -⟩ := walks.echoes e' blind similar
  exact terminates_iff_walks.2 ⟨calls', run', walks⟩

/-- A visitor that makes no difference between similar siblings walks similar trees alike: one walk
terminates exactly if the other one does, and then call for call the hooks see the same. Either walk
may be the work of either engine. -/
theorem walks_similar (blind : v.Blind) {a b : List Node} (similar : Similar a b) (e e' : Engine)
    (state : σ) :
    ((∃ fuel, (e.walk v fuel a state).isSome) ↔ ∃ fuel, (e'.walk v fuel b state).isSome) ∧
      ∀ fuel fuel' run run', e.walk v fuel a state = some run →
        e'.walk v fuel' b state = some run' →
          run.outcome = run'.outcome ∧ run.state = run'.state ∧ Similar run.nodes run'.nodes ∧
            ∃ calls calls', (∀ c, e.Walks v a state c run ↔ c = calls) ∧
              (∀ c, e'.Walks v b state c run' ↔ c = calls') ∧
                List.Forall₂ Call.Alike calls calls' := by
  constructor
  · constructor
    · exact Engine.terminates_of_similar e e' blind similar
    · exact Engine.terminates_of_similar e' e blind similar.symm
  · intro fuel fuel' run run' ended ended'
    obtain ⟨calls, walks⟩ := Engine.ends_iff_walks.1 ⟨fuel, ended⟩
    obtain ⟨calls', run'', walks', same, alike⟩ := walks.echoes e' blind similar
    have sweep := Engine.walks_sweep.1 walks
    have sweep' := Engine.walks_sweep.1 walks'
    obtain rfl : run' = run'' := (Engine.ends_exactly sweep' e' run').1 ⟨fuel', ended'⟩
    refine ⟨alike.outcome, alike.state, alike.nodes, calls, calls', fun c => ?_, fun c => ?_, same⟩
    · rw [Engine.walks_exactly sweep, eq_self_iff_true, and_true]
    · rw [Engine.walks_exactly sweep', eq_self_iff_true, and_true]

theorem walks_similar_unwrapping_rules :
    let v : Visitor Nat := .ofEnter fun _ node count =>
      ⟨count + 1, node, if node.kind = .rule then [[.context .empty node.children]] else [],
        .proceed⟩
    let a : List Node := [.rule "a" [.context .empty [.comment "x"]], .context .empty []]
    let b : List Node := [.context .empty [.rule "a" [.comment "x"]]]
    let inner : Node := .context .empty [.context .empty [.comment "x"]]
    let run : Run Nat := ⟨2, [inner, .context .empty []], none⟩
    let run' : Run Nat := ⟨2, [inner], none⟩
    v.Blind ∧ Similar a b ∧ recursive v 6 a 0 = some run ∧ iterative v 12 b 0 = some run' ∧
      ∃ calls calls', (∀ c, Engine.recursive.Walks v a 0 c run ↔ c = calls) ∧
        (∀ c, Engine.iterative.Walks v b 0 c run' ↔ c = calls') ∧
          List.Forall₂ Call.Alike calls calls' := by
  intro v a b inner run run'
  have blind : v.Blind := by
    refine ⟨fun view m n count alike => ⟨rfl, alike, ?_, .proceed⟩,
      fun view m n count alike => ⟨rfl, alike, rfl⟩⟩
    simp only [v, Visitor.ofEnter, alike.kind]
    split
    · exact .cons ((Similar.wrapped _).trans (alike.children.trans (Similar.wrapped _).symm)) .nil
    · exact .nil
  have similar : Similar a b := by decide
  have ended : recursive v 6 a 0 = some run := by cbv
  have ended' : iterative v 12 b 0 = some run' := by cbv
  obtain ⟨-, -, -, calls⟩ :=
    (walks_similar blind similar .recursive .iterative 0).2 6 12 run run' ended ended'
  exact ⟨blind, similar, ended, ended', calls⟩

end StyleTree.Walk
