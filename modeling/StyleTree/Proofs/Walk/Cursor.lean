import StyleTree.Proofs.Walk.Bracketing

/-!
# Cursors

A cursor is a place in a whole tree at which a walk stands. A `Move` takes the walk to the next
place, with one hook call at most; the tree is never taken apart. `walks_course`: every walk of
either engine is a course of such moves from the start of the tree, and `Move.tree_of_call`: a move
changes nothing but the place of the node that its hook call is given.
-/

namespace StyleTree.Walk

universe u
variable {σ : Type u} {v : Visitor σ}

def Verdict.inserted : Verdict → List Node
  | .replace nodes _ => nodes
  | _ => []

namespace Call

def exited (v : Visitor σ) (c : Call σ) : Exited σ := v.exit c.view c.node c.state

def left (v : Visitor σ) (c : Call σ) : Node :=
  match c.hook with
  | .enter => (c.entered v).node
  | .exit => (c.exited v).node

def inserted (v : Visitor σ) (c : Call σ) : List Node := (c.entered v).verdict.inserted

def leaves (v : Visitor σ) (c : Call σ) : List Node :=
  if c.splices v then c.inserted v else [c.left v]

/-- The hook ends the walk: an enter hook by the action to stop, if it asked for no replacement. -/
def Stops (v : Visitor σ) (c : Call σ) : Prop :=
  match c.hook with
  | .enter => (c.entered v).action = .stop ∧ (c.entered v).requests = []
  | .exit => (c.exited v).flow = .halt

end Call

theorem Entered.verdict_eq_halt {e : Entered σ} :
    e.verdict = .halt ↔ e.action = .stop ∧ e.requests = [] := by
  obtain ⟨state, node, requests, action⟩ := e
  cases requests <;> cases action <;> simp [Entered.verdict, Action.verdict]

namespace Call

variable {c : Call σ}

theorem stops_enter (hook : c.hook = .enter) : c.Stops v ↔ (c.entered v).verdict = .halt := by
  simp only [Stops, hook, Entered.verdict_eq_halt]

theorem stops_exit (hook : c.hook = .exit) : c.Stops v ↔ (c.exited v).flow = .halt := by
  simp only [Stops, hook]

theorem leaves_replaced (hook : c.hook = .enter) {nodes : List Node} {revisit : Bool}
    (verdict : (c.entered v).verdict = .replace nodes revisit) : c.leaves v = nodes := by
  simp [leaves, splices, isEnter, hook, verdict, Verdict.replaces, inserted, Verdict.inserted]

theorem leaves_kept (keeps : (c.entered v).verdict.replaces = false) :
    c.leaves v = [c.left v] := by
  simp [leaves, splices, keeps]

theorem leaves_exit (hook : c.hook = .exit) : c.leaves v = [c.left v] := by
  simp [leaves, splices, isEnter, hook]

theorem leaves_of_stops (stops : c.Stops v) : c.leaves v = [c.left v] := by
  cases hook : c.hook with
  | enter =>
      have verdict := (stops_enter hook).1 stops
      exact leaves_kept (by rw [verdict]; rfl)
  | exit => exact leaves_exit hook

end Call

/-- A block that a walk is inside of, with the siblings around it: a node that was entered, or a
wrapper, which is a context that the walk met among the siblings. -/
inductive Level where
  | node (before : List Node) (head : Head) (after : List Node)
  | wrapper (before : List Node) (overlay : Overlay) (after : List Node)

namespace Level

def around : Level → List Node → List Node
  | .node before head after, children => before ++ .block head children :: after
  | .wrapper before overlay after, children => before ++ .block (.context overlay) children :: after

def owner? : Level → Option Node
  | .node _ head _ => some (.block head [])
  | .wrapper .. => none

def overlay? : Level → Option Overlay
  | .node .. => none
  | .wrapper _ overlay _ => some overlay

def enclose (levels : List Level) (nodes : List Node) : List Node :=
  levels.foldl (fun nodes level => level.around nodes) nodes

def path (levels : List Level) : List Node := (levels.filterMap owner?).reverse

def overlays (levels : List Level) : List Overlay := (levels.filterMap overlay?).reverse

def view (levels : List Level) : View where
  ancestors := ⟨fun _ => path levels⟩
  depth := (path levels).length
  parent? := (path levels).getLast?
  ambient := (overlays levels).foldl .merge .empty

theorem view_nil : view [] = .root := by
  ext1 <;> rfl

theorem view_node (levels : List Level) (before after : List Node) (head : Head) :
    view (.node before head after :: levels) = (view levels).below (.block head []) := by
  have path : path (.node before head after :: levels) = path levels ++ [.block head []] := by
    have owners : (Level.node before head after :: levels).filterMap owner? =
        .block head [] :: levels.filterMap owner? := List.filterMap_cons_some rfl
    rw [Level.path, owners, List.reverse_cons]
    rfl
  have overlays : overlays (.node before head after :: levels) = overlays levels := by
    rw [Level.overlays, List.filterMap_cons_none rfl]
    rfl
  ext1
  · exact path
  · exact (congrArg List.length path).trans (by simp [view, View.below])
  · exact (congrArg List.getLast? path).trans (by simp [View.below, Node.bare, Node.withChildren])
  · exact congrArg (List.foldl Overlay.merge .empty) overlays

theorem view_wrapper (levels : List Level) (before after : List Node) (overlay : Overlay) :
    view (.wrapper before overlay after :: levels) = (view levels).under overlay := by
  have path : path (.wrapper before overlay after :: levels) = path levels := by
    rw [Level.path, List.filterMap_cons_none rfl]
    rfl
  have overlays : overlays (.wrapper before overlay after :: levels) =
      overlays levels ++ [overlay] := by
    have upper : (Level.wrapper before overlay after :: levels).filterMap overlay? =
        overlay :: levels.filterMap overlay? := List.filterMap_cons_some rfl
    rw [Level.overlays, upper, List.reverse_cons]
    rfl
  ext1
  · exact path
  · exact congrArg List.length path
  · exact congrArg List.getLast? path
  · exact (congrArg (List.foldl Overlay.merge .empty) overlays).trans (by
      simp [view, View.under])

end Level

/-- A walk stands at the first of the rest of some siblings. The hook to be called there is the
enter hook, or the exit hook if the walk of all that is inside the node is behind it. -/
structure Cursor where
  above : List Level
  before : List Node
  rest : List Node
  hook : Hook

namespace Cursor

def start (nodes : List Node) : Cursor := ⟨[], [], nodes, .enter⟩

def tree (k : Cursor) : List Node := Level.enclose k.above (k.before ++ k.rest)

def view (k : Cursor) : View := Level.view k.above

structure Calls (k : Cursor) (state : σ) (c : Call σ) (after : List Node) : Prop where
  rest : k.rest = c.node :: after
  hook : c.hook = k.hook
  view : c.view = k.view
  state : c.state = state
  kind : c.hook = .enter → c.node.kind ≠ .context

end Cursor

inductive Move (v : Visitor σ) : Cursor → σ → Option (Call σ) → Cursor → σ → Prop where
  | wrap {above before overlay children rest state} :
      Move v ⟨above, before, .block (.context overlay) children :: rest, .enter⟩ state none
        ⟨.wrapper before overlay rest :: above, [], children, .enter⟩ state
  | unwrap {above before overlay children rest state} :
      Move v ⟨.wrapper before overlay rest :: above, children, [], .enter⟩ state none
        ⟨above, before ++ [.block (.context overlay) children], rest, .enter⟩ state
  | revisit {above before node rest state e nodes}
      (kind : node.kind ≠ .context) (entered : v.enter (Level.view above) node state = e)
      (verdict : e.verdict = .replace nodes true) :
      Move v ⟨above, before, node :: rest, .enter⟩ state
        (some ⟨.enter, Level.view above, node, state⟩)
        ⟨above, before, nodes ++ rest, .enter⟩ e.state
  | pass {above before node rest state e nodes}
      (kind : node.kind ≠ .context) (entered : v.enter (Level.view above) node state = e)
      (verdict : e.verdict = .replace nodes false) :
      Move v ⟨above, before, node :: rest, .enter⟩ state
        (some ⟨.enter, Level.view above, node, state⟩)
        ⟨above, before ++ nodes, rest, .enter⟩ e.state
  | stay {above before node rest state e}
      (kind : node.kind ≠ .context) (entered : v.enter (Level.view above) node state = e)
      (stays : e.verdict.stays) (nothing : e.inside = []) :
      Move v ⟨above, before, node :: rest, .enter⟩ state
        (some ⟨.enter, Level.view above, node, state⟩)
        ⟨above, before, e.node :: rest, .exit⟩ e.state
  | descend {above before node rest state e head children}
      (kind : node.kind ≠ .context) (entered : v.enter (Level.view above) node state = e)
      (verdict : e.verdict = .descend) (shape : e.node = .block head children) :
      Move v ⟨above, before, node :: rest, .enter⟩ state
        (some ⟨.enter, Level.view above, node, state⟩)
        ⟨.node before head rest :: above, [], children, .enter⟩ e.state
  | ascend {above before head children rest state} :
      Move v ⟨.node before head rest :: above, children, [], .enter⟩ state none
        ⟨above, before, .block head children :: rest, .exit⟩ state
  | exit {above before node rest state x}
      (exited : v.exit (Level.view above) node state = x) (flow : x.flow = .proceed) :
      Move v ⟨above, before, node :: rest, .exit⟩ state
        (some ⟨.exit, Level.view above, node, state⟩)
        ⟨above, before ++ [x.node], rest, .enter⟩ x.state

section
variable {k k' : Cursor} {state state' : σ} {c : Call σ}

theorem Move.tree_of_silent (move : Move v k state none k' state') :
    k'.tree = k.tree ∧ state' = state := by
  cases move with
  | wrap => exact ⟨rfl, rfl⟩
  | unwrap => exact ⟨by simp [Cursor.tree, Level.enclose, Level.around], rfl⟩
  | ascend => exact ⟨by simp [Cursor.tree, Level.enclose, Level.around], rfl⟩

theorem Move.tree_of_call (move : Move v k state (some c) k' state') :
    ∃ after, k.Calls state c after ∧
      k'.tree = Level.enclose k.above (k.before ++ (c.leaves v ++ after)) := by
  cases move with
  | @revisit above _ node _ _ _ nodes kind entered verdict =>
      subst entered
      have leaves : Call.leaves v ⟨.enter, Level.view above, node, state⟩ = nodes :=
        Call.leaves_replaced rfl verdict
      refine ⟨_, ⟨rfl, rfl, rfl, rfl, fun _ => kind⟩, ?_⟩
      rw [leaves]
      rfl
  | @pass above _ node _ _ _ nodes kind entered verdict =>
      subst entered
      have leaves : Call.leaves v ⟨.enter, Level.view above, node, state⟩ = nodes :=
        Call.leaves_replaced rfl verdict
      refine ⟨_, ⟨rfl, rfl, rfl, rfl, fun _ => kind⟩, ?_⟩
      rw [leaves, ← List.append_assoc]
      rfl
  | @stay above _ node _ _ _ kind entered stays nothing =>
      subst entered
      have leaves : Call.leaves v ⟨.enter, Level.view above, node, state⟩ = [_] :=
        Call.leaves_kept (Verdict.replaces_of_stays stays)
      refine ⟨_, ⟨rfl, rfl, rfl, rfl, fun _ => kind⟩, ?_⟩
      rw [leaves]
      rfl
  | @descend above _ node _ _ _ head children kind entered verdict shape =>
      subst entered
      have stays : (v.enter (Level.view above) node state).verdict.stays := by rw [verdict]; rfl
      have leaves :
          Call.leaves v ⟨.enter, Level.view above, node, state⟩ = [.block head children] :=
        shape ▸ Call.leaves_kept (Verdict.replaces_of_stays stays)
      refine ⟨_, ⟨rfl, rfl, rfl, rfl, fun _ => kind⟩, ?_⟩
      rw [leaves]
      rfl
  | exit exited flow =>
      subst exited
      refine ⟨_, ⟨rfl, rfl, rfl, rfl, nofun⟩, ?_⟩
      rw [Call.leaves_exit rfl, Cursor.tree, List.append_assoc]
      rfl

theorem Move.not_stops (move : Move v k state (some c) k' state') : ¬ c.Stops v := by
  cases move with
  | exit exited flow =>
      subst exited
      rw [Call.stops_exit rfl, Call.exited, flow]
      rintro ⟨⟩
  | stay kind entered stays nothing =>
      subst entered
      rw [Call.stops_enter rfl]
      rcases Verdict.descend_or_skip stays with verdict | verdict <;> rw [Call.entered, verdict] <;>
        rintro ⟨⟩
  | revisit kind entered verdict =>
      subst entered
      rw [Call.stops_enter rfl, Call.entered, verdict]
      rintro ⟨⟩
  | pass kind entered verdict =>
      subst entered
      rw [Call.stops_enter rfl, Call.entered, verdict]
      rintro ⟨⟩
  | descend kind entered verdict shape =>
      subst entered
      rw [Call.stops_enter rfl, Call.entered, verdict]
      rintro ⟨⟩

end

inductive Course (v : Visitor σ) : Cursor → σ → List (Call σ) → Cursor → σ → Prop where
  | refl {k state} : Course v k state [] k state
  | move {k k' k'' state state' state'' call calls} (first : Move v k state call k' state')
      (later : Course v k' state' calls k'' state'') :
      Course v k state (call.toList ++ calls) k'' state''

inductive Ends (v : Visitor σ) : Cursor → σ → List (Call σ) → Run σ → Prop where
  | completed {nodes state} : Ends v ⟨[], nodes, [], .enter⟩ state [] ⟨state, nodes, none⟩
  | enter {above before node rest state e}
      (kind : node.kind ≠ .context) (entered : v.enter (Level.view above) node state = e)
      (verdict : e.verdict = .halt) :
      Ends v ⟨above, before, node :: rest, .enter⟩ state [⟨.enter, Level.view above, node, state⟩]
        ⟨e.state, Level.enclose above (before ++ e.node :: rest), some ⟨.enter, before.length⟩⟩
  | exit {above before node rest state x}
      (exited : v.exit (Level.view above) node state = x) (flow : x.flow = .halt) :
      Ends v ⟨above, before, node :: rest, .exit⟩ state [⟨.exit, Level.view above, node, state⟩]
        ⟨x.state, Level.enclose above (before ++ x.node :: rest), some ⟨.exit, before.length⟩⟩

namespace Course

variable {k k' k'' : Cursor} {state state' state'' : σ} {calls calls' : List (Call σ)}

theorem trans (first : Course v k state calls k' state')
    (later : Course v k' state' calls' k'' state'') :
    Course v k state (calls ++ calls') k'' state'' := by
  induction first with
  | refl => exact later
  | move first _ ih =>
      rw [List.append_assoc]
      exact .move first (ih later)

theorem single {call : Option (Call σ)} (move : Move v k state call k' state') :
    Course v k state call.toList k' state' := by
  have course := Course.move move .refl
  rwa [List.append_nil] at course

theorem silent (course : Course v k state calls k' state')
    (move : Move v k' state' none k'' state'') : Course v k state calls k'' state'' := by
  have whole := course.trans (single move)
  rwa [Option.toList_none, List.append_nil] at whole

theorem not_stops (course : Course v k state calls k' state') :
    ∀ c ∈ calls, ¬ c.Stops v := by
  induction course with
  | refl => nofun
  | move first _ ih =>
      intro c member
      rcases List.mem_append.1 member with member | member
      · rw [Option.mem_toList] at member
        subst member
        exact first.not_stops
      · exact ih c member

theorem split {earlier later : List (Call σ)} {c : Call σ}
    (course : Course v k state calls k' state') (parts : calls = earlier ++ c :: later) :
    ∃ here at_here after, Course v k state earlier here at_here ∧
      Course v here at_here (c :: later) k' state' ∧ here.Calls at_here c after := by
  induction course generalizing earlier with
  | refl => simp at parts
  | @move k _ _ state _ _ call calls first course ih =>
      cases call with
      | none =>
          obtain ⟨here, at_here, after, past, ahead, called⟩ := ih parts
          exact ⟨here, at_here, after, .move first past, ahead, called⟩
      | some d =>
          cases earlier with
          | nil =>
              cases parts
              obtain ⟨after, called, -⟩ := first.tree_of_call
              exact ⟨k, state, after, .refl, .move first course, called⟩
          | cons d' earlier =>
              obtain ⟨rfl, rest⟩ := List.cons.inj parts
              obtain ⟨here, at_here, after, past, ahead, called⟩ := ih rest
              exact ⟨here, at_here, after, .move first past, ahead, called⟩

end Course

theorem Ends.last {k : Cursor} {state : σ} {last : List (Call σ)} {run : Run σ}
    (ends : Ends v k state last run) :
    (last = [] ∧ run.halt = none ∧ k = ⟨[], run.nodes, [], .enter⟩ ∧ state = run.state) ∨
    ∃ c after, last = [c] ∧ run.halt.isSome ∧ k.Calls state c after ∧ c.Stops v ∧
      run.nodes = Level.enclose k.above (k.before ++ c.left v :: after) := by
  cases ends with
  | completed => exact .inl ⟨rfl, rfl, rfl, rfl⟩
  | enter kind entered verdict =>
      subst entered
      refine .inr ⟨_, _, rfl, rfl, ⟨rfl, rfl, rfl, rfl, fun _ => kind⟩, ?_, rfl⟩
      exact (Call.stops_enter rfl).2 verdict
  | exit exited flow =>
      subst exited
      refine .inr ⟨_, _, rfl, rfl, ⟨rfl, rfl, rfl, rfl, nofun⟩, ?_, rfl⟩
      exact (Call.stops_exit rfl).2 flow

/-! ## From sweeps to courses -/

def Arrives (v : Visitor σ) (k : Cursor) (state : σ) (calls : List (Call σ)) (above : List Level)
    (before : List Node) (run : Run σ) : Prop :=
  match run.halt with
  | none => Course v k state calls ⟨above, before ++ run.nodes, [], .enter⟩ run.state
  | some halt => ∃ earlier k' state' last, calls = earlier ++ last ∧
      Course v k state earlier k' state' ∧
        Ends v k' state' last ⟨run.state, Level.enclose above (before ++ run.nodes), some halt⟩

section
variable {k k' : Cursor} {above : List Level} {before nodes : List Node} {state state' : σ}
  {calls calls' : List (Call σ)} {run : Run σ}

theorem arrives_after : Arrives v k state calls above before (run.after nodes) ↔
    Arrives v k state calls above (before ++ nodes) run := by
  simp only [Arrives, Run.after, List.append_assoc]

theorem Arrives.prepend (first : Course v k state calls k' state')
    (arrives : Arrives v k' state' calls' above before run) :
    Arrives v k state (calls ++ calls') above before run := by
  cases halt : run.halt with
  | none =>
      simp only [Arrives, halt] at arrives ⊢
      exact first.trans arrives
  | some halt =>
      simp only [Arrives, halt] at arrives ⊢
      obtain ⟨earlier, k, state, last, rfl, course, ends⟩ := arrives
      have parts := (List.append_assoc calls earlier last).symm
      exact ⟨calls ++ earlier, k, state, last, parts, first.trans course, ends⟩

theorem Arrives.out {level : Level} {halt : Halt} (halts : run.halt = some halt)
    (arrives : Arrives v k state calls (level :: above) [] run)
    (same : level.around run.nodes = before ++ nodes) :
    Arrives v k state calls above before ⟨run.state, nodes, some halt⟩ := by
  simp only [Arrives, halts, List.nil_append] at arrives
  simp only [Arrives, ← same]
  exact arrives

end

theorem arrives_inside {node : Node} {state : σ} {e : Entered σ} {calls : List (Call σ)}
    {inner : Run σ} {above : List Level} (kind : node.kind ≠ .context)
    (entered : v.enter (Level.view above) node state = e) (stays : e.verdict.stays)
    (within : Sweep v ((Level.view above).below e.node) 0 e.inside e.state calls inner)
    (arrives : ∀ {levels : List Level}, Level.view levels = (Level.view above).below e.node →
      Arrives v ⟨levels, [], e.inside, .enter⟩ e.state calls levels [] inner)
    (before rest : List Node) :
    match inner.halt with
    | none => Course v ⟨above, before, node :: rest, .enter⟩ state
        (⟨.enter, Level.view above, node, state⟩ :: calls)
        ⟨above, before, e.refill inner.nodes :: rest, .exit⟩ inner.state
    | some halt => Arrives v ⟨above, before, node :: rest, .enter⟩ state
        (⟨.enter, Level.view above, node, state⟩ :: calls) above before
        ⟨inner.state, e.refill inner.nodes :: rest, some halt⟩ := by
  -- with nothing inside, as in a leaf or a skipped node, one move goes to the exit hook
  by_cases nothing : e.inside = []
  · rw [nothing] at within
    cases within
    have same : e.refill [] = e.node := by rw [← nothing, e.refill_inside]
    simp only [same]
    exact Course.single (.stay kind entered stays nothing)
  · cases verdict : e.verdict with
    | descend =>
        cases shape : e.node with
        | leaf l => simp [Entered.inside, verdict, shape, Node.children] at nothing
        | block head children =>
            have inside : e.inside = children := by
              simp [Entered.inside, verdict, shape, Node.children]
            have refill (nodes : List Node) : e.refill nodes = .block head nodes := by
              simp [Entered.refill, verdict, shape, Node.withChildren]
            have seen : Level.view (.node before head rest :: above) =
                (Level.view above).below e.node := by
              rw [Level.view_node, shape]
              rfl
            have first : Course v ⟨above, before, node :: rest, .enter⟩ state
                [⟨.enter, Level.view above, node, state⟩]
                ⟨.node before head rest :: above, [], children, .enter⟩ e.state :=
              .single (.descend kind entered verdict shape)
            have inner := Arrives.prepend first (inside ▸ arrives seen)
            -- out again: by a move to the exit hook, or because the walk was ended inside
            split
            · next goes =>
              simp only [Arrives, goes, List.nil_append] at inner
              rw [refill]
              exact inner.silent .ascend
            · next halts =>
              exact inner.out halts (by simp [Level.around, refill])
    | _ => simp [Entered.inside, verdict] at nothing

theorem Sweep.arrives {view : View} {index : Nat} {siblings : List Node} {state : σ}
    {calls : List (Call σ)} {run : Run σ} (sweep : Sweep v view index siblings state calls run)
    (above : List Level) (before : List Node) (seen : Level.view above = view)
    (place : before.length = index) :
    Arrives v ⟨above, before, siblings, .enter⟩ state calls above before run := by
  -- any levels that show the view of the sweep will do, so the lists inside take one level more
  induction sweep generalizing above before with
  | nil =>
      simp only [Arrives, List.append_nil]
      exact .refl
  | @context _ _ overlay children rest _ _ inner _ run _ goes _ ihWithin ihLater =>
      subst place seen
      have within := ihWithin _ [] (Level.view_wrapper above before rest overlay) rfl
      simp only [Arrives, goes, List.nil_append] at within
      have past := ((Course.single .wrap).trans within).silent .unwrap
      exact arrives_after.2 (.prepend past (ihLater _ _ rfl (by simp)))
  | @contextHalt _ _ overlay children rest _ _ inner halt _ halts ihWithin =>
      subst place seen
      have within := ihWithin _ [] (Level.view_wrapper above before rest overlay) rfl
      exact (Arrives.prepend (.single .wrap) within).out halts rfl
  | revisit kind entered verdict _ ihLater =>
      subst place seen
      exact .prepend (.single (.revisit kind entered verdict)) (ihLater _ _ rfl rfl)
  | pass kind entered verdict _ ihLater =>
      subst place seen
      apply arrives_after.2
      exact .prepend (.single (.pass kind entered verdict)) (ihLater _ _ rfl (by simp))
  | halt kind entered verdict =>
      subst place seen
      exact ⟨[], _, _, _, rfl, .refl, .enter kind entered verdict⟩
  | insideHalt kind entered stays within halts ihWithin =>
      subst place seen
      have inside :=
        arrives_inside kind entered stays within (fun seen => ihWithin _ [] seen rfl) before
      simp only [halts] at inside
      exact inside _
  | exitHalt kind entered stays within goes exited flow ihWithin =>
      subst place seen
      have inside :=
        arrives_inside kind entered stays within (fun seen => ihWithin _ [] seen rfl) before
      simp only [goes] at inside
      exact ⟨_, _, _, _, rfl, inside _, .exit exited flow⟩
  | @exit _ _ _ rest _ _ _ _ x _ _ kind entered stays within goes exited flow _ ihWithin ihLater =>
      subst place seen
      have inside :=
        arrives_inside kind entered stays within (fun seen => ihWithin _ [] seen rfl) before
      simp only [goes] at inside
      have past := (inside rest).trans (.single (.exit exited flow))
      have whole := Arrives.prepend past (ihLater _ _ rfl (by simp))
      rw [List.append_assoc] at whole
      exact arrives_after.2 whole

theorem walks_course {e : Engine} {nodes : List Node} {state : σ} {calls : List (Call σ)}
    {run : Run σ} (walks : e.Walks v nodes state calls run) :
    ∃ earlier k state' last, calls = earlier ++ last ∧
      Course v (.start nodes) state earlier k state' ∧ Ends v k state' last run := by
  have arrives := (Engine.walks_sweep.1 walks).arrives [] [] Level.view_nil rfl
  obtain ⟨state', nodes', halt⟩ := run
  cases halt with
  | none => exact ⟨calls, _, _, [], (List.append_nil _).symm, arrives, .completed⟩
  | some halt => exact arrives

theorem walks_split {e : Engine} {nodes : List Node} {state : σ} {earlier later : List (Call σ)}
    {c : Call σ} {run : Run σ} (walks : e.Walks v nodes state (earlier ++ c :: later) run) :
    ∃ k at_call after, Course v (.start nodes) state earlier k at_call ∧ k.Calls at_call c after ∧
      ∃ ahead k' state' last, Course v k at_call ahead k' state' ∧ Ends v k' state' last run := by
  obtain ⟨first, k', state', last, parts, course, ends⟩ := walks_course walks
  rcases ends.last with ⟨rfl, -⟩ | ⟨d, after, rfl, -, called, -⟩
  · rw [List.append_nil] at parts
    obtain ⟨k, at_call, after, past, ahead, called⟩ := course.split parts.symm
    exact ⟨k, at_call, after, past, called, _, k', state', [], ahead, ends⟩
  -- the call is the last one, which no move makes, or one of the course
  · rcases List.eq_nil_or_concat later with rfl | ⟨later, x, rfl⟩
    · obtain ⟨rfl, same⟩ := List.append_inj' parts rfl
      cases same
      exact ⟨k', state', after, course, called, [], k', state', _, .refl, ends⟩
    · rw [List.concat_eq_append, ← List.cons_append, ← List.append_assoc] at parts
      obtain ⟨k, at_call, after, past, ahead, called⟩ :=
        course.split (List.append_inj' parts rfl).1.symm
      exact ⟨k, at_call, after, past, called, _, k', state', [d], ahead, ends⟩

theorem walks_calls {e : Engine} {nodes : List Node} {state : σ} {earlier later : List (Call σ)}
    {c : Call σ} {run : Run σ} (walks : e.Walks v nodes state (earlier ++ c :: later) run) :
    ∃ k state' after, Course v (.start nodes) state earlier k state' ∧ k.Calls state' c after := by
  obtain ⟨k, state', after, course, called, -⟩ := walks_split walks
  exact ⟨k, state', after, course, called⟩

theorem walks_goes {e : Engine} {nodes : List Node} {state : σ} {earlier later : List (Call σ)}
    {c : Call σ} {run : Run σ} (walks : e.Walks v nodes state (earlier ++ c :: later) run) :
    ∀ d ∈ earlier, ¬ d.Stops v := by
  obtain ⟨_, _, _, course, _⟩ := walks_calls walks
  exact course.not_stops

end StyleTree.Walk
