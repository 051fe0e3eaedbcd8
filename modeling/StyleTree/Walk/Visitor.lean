import StyleTree.Walk.Trail

namespace StyleTree.Walk

universe u

/-- What a hook sees of its surroundings. Contexts are no ancestors. The list of the ancestors is
made only when a hook asks for it. -/
structure View where
  ancestors : Thunk (List Node)
  depth : Nat
  parent? : Option Node
  ambient : Overlay
  deriving Inhabited

namespace View

def path (v : View) : List Node := v.ancestors.get

@[ext] theorem ext {v w : View} (path : v.path = w.path) (depth : v.depth = w.depth)
    (parent : v.parent? = w.parent?) (ambient : v.ambient = w.ambient) : v = w := by
  obtain ⟨⟨f⟩, _, _, _⟩ := v
  obtain ⟨⟨g⟩, _, _, _⟩ := w
  have same : f = g := funext fun _ => path
  simp_all

end View

def Trail.view (t : Trail) (ambient : Overlay) : View :=
  ⟨⟨fun _ => t.path⟩, t.depth, t.parent?, ambient⟩

inductive Action where
  | proceed
  | skip
  | stop
  | replace (nodes : List Node)
  deriving DecidableEq, Inhabited

inductive Flow where
  | proceed
  | halt
  deriving DecidableEq, Inhabited

/-- The answer of an enter hook: the node as the hook leaves it, the replacements it asked for in
the order of asking, and an action. -/
structure Entered (σ : Type u) where
  state : σ
  node : Node
  requests : List (List Node)
  action : Action

structure Exited (σ : Type u) where
  state : σ
  node : Node
  flow : Flow

structure Visitor (σ : Type u) where
  enter : View → Node → σ → Entered σ
  exit : View → Node → σ → Exited σ

def Visitor.ofEnter {σ : Type u} (enter : View → Node → σ → Entered σ) : Visitor σ where
  enter
  exit _ node state := ⟨state, node, .proceed⟩

inductive Verdict where
  | descend
  | skip
  | halt
  | replace (nodes : List Node) (revisit : Bool)
  deriving DecidableEq

/-- A request goes before replacement nodes that are returned. Inserted nodes are walked again
unless the action is to skip or to stop, and then a stop does not end the walk. -/
def Action.verdict : Action → Option (List Node) → Verdict
  | .proceed, none => .descend
  | .skip, none => .skip
  | .stop, none => .halt
  | .replace nodes, none => .replace nodes true
  | .proceed, some nodes => .replace nodes true
  | .replace _, some nodes => .replace nodes true
  | .skip, some nodes => .replace nodes false
  | .stop, some nodes => .replace nodes false

def Entered.verdict {σ : Type u} (e : Entered σ) : Verdict := e.action.verdict e.requests.head?

inductive Hook where
  | enter
  | exit
  deriving DecidableEq

structure Halt where
  hook : Hook
  index : Nat
  deriving DecidableEq

inductive Outcome where
  | completed
  | stopped
  deriving DecidableEq, Inhabited

def Outcome.name : Outcome → String
  | .completed => "Completed"
  | .stopped => "Stopped"

structure Run (σ : Type u) where
  state : σ
  nodes : List Node
  halt : Option Halt

def Run.outcome {σ : Type u} (r : Run σ) : Outcome :=
  if r.halt.isSome then .stopped else .completed

theorem Run.outcome_completed {σ : Type u} {r : Run σ} :
    r.outcome = .completed ↔ r.halt = none := by
  cases h : r.halt <;> simp [outcome, h]

theorem Run.outcome_stopped {σ : Type u} {r : Run σ} :
    r.outcome = .stopped ↔ r.halt.isSome := by
  cases h : r.halt <;> simp [outcome, h]

def Run.after {σ : Type u} (before : List Node) (r : Run σ) : Run σ :=
  { r with nodes := before ++ r.nodes }

end StyleTree.Walk
