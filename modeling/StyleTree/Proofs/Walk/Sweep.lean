import StyleTree.Walk.Visitor

/-!
# Sweeps

What a walk does to a list of siblings, told by the shape of the tree: no index moves, no stack and
no fuel. `Sweep v view index nodes state calls run` says that the walk of `nodes`, the first of
which is at place `index`, makes exactly these hook calls and ends in this run. Both engines are
compared with it.
-/

namespace StyleTree.Walk

universe u
variable {σ : Type u}

structure Call (σ : Type u) where
  hook : Hook
  view : View
  node : Node
  state : σ

namespace View

def under (view : View) (overlay : Overlay) : View :=
  { view with ambient := view.ambient.merge overlay }

def below (view : View) (node : Node) : View where
  ancestors := ⟨fun _ => view.path ++ [node.bare]⟩
  depth := view.depth + 1
  parent? := some node.bare
  ambient := view.ambient

@[simp] theorem path_under (view : View) (overlay : Overlay) :
    (view.under overlay).path = view.path := rfl

@[simp] theorem path_below (view : View) (node : Node) :
    (view.below node).path = view.path ++ [node.bare] := rfl

end View

def Verdict.stays : Verdict → Bool
  | .descend => true
  | .skip => true
  | _ => false

theorem Verdict.descend_or_skip {d : Verdict} (stays : d.stays) : d = .descend ∨ d = .skip := by
  cases d <;> simp_all [Verdict.stays]

namespace Entered

def inside (e : Entered σ) : List Node :=
  match e.verdict with
  | .descend => e.node.children
  | _ => []

def refill (e : Entered σ) (children : List Node) : Node :=
  match e.verdict with
  | .descend => e.node.withChildren children
  | _ => e.node

@[simp] theorem refill_inside (e : Entered σ) : e.refill e.inside = e.node := by
  cases verdict : e.verdict <;> simp [refill, inside, verdict]

theorem inside_cases (e : Entered σ) : e.inside = [] ∨ e.inside = e.node.children := by
  cases verdict : e.verdict <;> simp [inside, verdict]

theorem kind_refill (e : Entered σ) (children : List Node) :
    (e.refill children).kind = e.node.kind := by
  cases verdict : e.verdict <;> simp [refill, verdict]

end Entered

inductive Sweep (v : Visitor σ) :
    View → Nat → List Node → σ → List (Call σ) → Run σ → Prop where
  | nil {view index state} : Sweep v view index [] state [] ⟨state, [], none⟩
  | context {view index overlay children rest state calls inner calls' run}
      (within : Sweep v (view.under overlay) 0 children state calls inner)
      (goes : inner.halt = none)
      (later : Sweep v view (index + 1) rest inner.state calls' run) :
      Sweep v view index (.block (.context overlay) children :: rest) state (calls ++ calls')
        (run.after [.block (.context overlay) inner.nodes])
  | contextHalt {view index overlay children rest state calls inner halt}
      (within : Sweep v (view.under overlay) 0 children state calls inner)
      (halts : inner.halt = some halt) :
      Sweep v view index (.block (.context overlay) children :: rest) state calls
        ⟨inner.state, .block (.context overlay) inner.nodes :: rest, some halt⟩
  | revisit {view index node rest state e nodes calls run}
      (kind : node.kind ≠ .context) (entered : v.enter view node state = e)
      (verdict : e.verdict = .replace nodes true)
      (later : Sweep v view index (nodes ++ rest) e.state calls run) :
      Sweep v view index (node :: rest) state (⟨.enter, view, node, state⟩ :: calls) run
  | pass {view index node rest state e nodes calls run}
      (kind : node.kind ≠ .context) (entered : v.enter view node state = e)
      (verdict : e.verdict = .replace nodes false)
      (later : Sweep v view (index + nodes.length) rest e.state calls run) :
      Sweep v view index (node :: rest) state (⟨.enter, view, node, state⟩ :: calls)
        (run.after nodes)
  | halt {view index node rest state e}
      (kind : node.kind ≠ .context) (entered : v.enter view node state = e)
      (verdict : e.verdict = .halt) :
      Sweep v view index (node :: rest) state [⟨.enter, view, node, state⟩]
        ⟨e.state, e.node :: rest, some ⟨.enter, index⟩⟩
  | insideHalt {view index node rest state e calls inner halt}
      (kind : node.kind ≠ .context) (entered : v.enter view node state = e)
      (verdict : e.verdict.stays)
      (within : Sweep v (view.below e.node) 0 e.inside e.state calls inner)
      (halts : inner.halt = some halt) :
      Sweep v view index (node :: rest) state (⟨.enter, view, node, state⟩ :: calls)
        ⟨inner.state, e.refill inner.nodes :: rest, some halt⟩
  | exitHalt {view index node rest state e calls inner x}
      (kind : node.kind ≠ .context) (entered : v.enter view node state = e)
      (verdict : e.verdict.stays)
      (within : Sweep v (view.below e.node) 0 e.inside e.state calls inner)
      (goes : inner.halt = none)
      (exited : v.exit view (e.refill inner.nodes) inner.state = x) (flow : x.flow = .halt) :
      Sweep v view index (node :: rest) state
        (⟨.enter, view, node, state⟩ ::
          (calls ++ [⟨.exit, view, e.refill inner.nodes, inner.state⟩]))
        ⟨x.state, x.node :: rest, some ⟨.exit, index⟩⟩
  | exit {view index node rest state e calls inner x calls' run}
      (kind : node.kind ≠ .context) (entered : v.enter view node state = e)
      (verdict : e.verdict.stays)
      (within : Sweep v (view.below e.node) 0 e.inside e.state calls inner)
      (goes : inner.halt = none)
      (exited : v.exit view (e.refill inner.nodes) inner.state = x) (flow : x.flow = .proceed)
      (later : Sweep v view (index + 1) rest x.state calls' run) :
      Sweep v view index (node :: rest) state
        (⟨.enter, view, node, state⟩ ::
          (calls ++ ⟨.exit, view, e.refill inner.nodes, inner.state⟩ :: calls'))
        (run.after [x.node])

theorem Sweep.exitEmpty {v : Visitor σ} {view : View} {index : Nat} {node : Node}
    {rest : List Node} {state : σ} {e : Entered σ} {x : Exited σ} {calls : List (Call σ)}
    {run : Run σ} (kind : node.kind ≠ .context) (entered : v.enter view node state = e)
    (stays : e.verdict.stays) (empty : e.inside = []) (exited : v.exit view e.node e.state = x)
    (flow : x.flow = .proceed) (later : Sweep v view (index + 1) rest x.state calls run) :
    Sweep v view index (node :: rest) state
      (⟨.enter, view, node, state⟩ :: ⟨.exit, view, e.node, e.state⟩ :: calls)
      (run.after [x.node]) := by
  have within : Sweep v (view.below e.node) 0 e.inside e.state [] ⟨e.state, [], none⟩ := by
    rw [empty]
    exact .nil
  have refill : e.refill [] = e.node := by rw [← empty, e.refill_inside]
  rw [← refill] at exited ⊢
  exact .exit kind entered stays within rfl exited flow later

end StyleTree.Walk
