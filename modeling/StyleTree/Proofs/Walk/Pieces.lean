import StyleTree.Proofs.Walk.Cursor
import StyleTree.Proofs.Css.Wrappers

namespace StyleTree.Walk

universe u
variable {σ : Type u} {v : Visitor σ}

namespace Frame

def before (f : Frame) : List Node := f.nodes.toList.take f.index

def after (f : Frame) : List Node := f.nodes.toList.drop (f.index + 1)

def ring? (f : Frame) : Option Ring :=
  match f.current? with
  | some (.block head _) => some ⟨f.before, head, f.after⟩
  | _ => none

end Frame

namespace Machine

def rings (below : Array Frame) : List Ring := (below.toList.filterMap Frame.ring?).reverse

/-- Where the hook calls of the next iteration are made: at the current node of the top frame, or
at the owner of its siblings if all of them are done. -/
def place (m : Machine) : Place :=
  match m.top.current?, m.below.back? with
  | some _, _ => ⟨m.top.before, m.top.after, rings m.below⟩
  | none, some parent => ⟨parent.before, parent.after, rings m.below.pop⟩
  | none, none => ⟨[], [], []⟩

/-- The hook that the next iteration calls first. It calls none where it opens or closes a wrapper
or ends the walk. -/
def hook? (m : Machine) : Option Hook :=
  match m.top.current? with
  | some node => if node.kind = .context then none else some .enter
  | none => if m.top.owner = .node then some .exit else none

end Machine

def Step.whole? : Step σ → Option (List Node)
  | .next m _ => some m.whole
  | .done m _ _ => some m.whole
  | .stuck => none

def Step.traced (calls : List (Call σ)) : Step σ → Step (σ × List (Call σ))
  | .next m state => .next m (state, calls)
  | .done m state halt => .done m (state, calls) halt
  | .stuck => .stuck

inductive Rewrites (v : Visitor σ) : List Node → List (Call σ) → List Node → Prop where
  | nothing {nodes} : Rewrites v nodes [] nodes
  | call {c calls nodes} (later : Rewrites v (c.leaves v) calls nodes) :
      Rewrites v [c.node] (c :: calls) nodes

theorem Rewrites.one (v : Visitor σ) (c : Call σ) : Rewrites v [c.node] [c] (c.leaves v) :=
  .call .nothing

structure Machine.Iterates (v : Visitor σ) (m : Machine) (state : σ) (calls : List (Call σ))
    (tree : List Node) : Prop where
  makes : ∀ log, m.step v.traced (state, log) = (m.step v state).traced (log ++ calls)
  first : calls.head?.map Call.hook = m.hook?
  holds : (m.step v state).whole? = some tree
  rewrites : ∃ here left, Rewrites v here calls left ∧ m.whole = m.place.fill here ∧
    tree = m.place.fill left

theorem Frame.ring?_block {f : Frame} {head : Head} {inside : List Node}
    (current : f.current? = some (.block head inside)) :
    f.ring? = some ⟨f.before, head, f.after⟩ := by
  rw [ring?, current]

theorem Frame.refill_block {f : Frame} {head : Head} {inside : List Node}
    (current : f.current? = some (.block head inside)) (children : Array Node) :
    (f.refill children).nodes.toList = f.before ++ .block head children.toList :: f.after := by
  obtain ⟨before, rest, nodes, index⟩ := f.exists_split current
  simp [refill, current, put, Frame.before, Frame.after, nodes, index, Node.withChildren]

theorem Machine.rings_push {frame : Frame} {head : Head} {inside : List Node}
    (current : frame.current? = some (.block head inside)) (below : Array Frame) :
    rings (below.push frame) = ⟨frame.before, head, frame.after⟩ :: rings below := by
  simp [rings, List.filterMap_append, Frame.ring?_block current]

theorem Standing.giveBack_eq {below : Array Frame} {owners : Array Nat} {owner : Owner}
    {view : View} (h : Standing below owners owner view) (nodes : Array Node) :
    (Machine.giveBack nodes below).toList = Place.enclose (Machine.rings below) nodes.toList := by
  have push {below : Array Frame} {frame : Frame} {head : Head}
      (ih : ∀ nodes : Array Node,
        (Machine.giveBack nodes below).toList = Place.enclose (Machine.rings below) nodes.toList)
      (current : frame.current? = some (.block head [])) (nodes : Array Node) :
      (Machine.giveBack nodes (below.push frame)).toList =
        Place.enclose (Machine.rings (below.push frame)) nodes.toList := by
    rw [Machine.giveBack, Array.foldr_push, Machine.rings_push current]
    exact (ih _).trans (congrArg _ (Frame.refill_block current nodes))
  -- the lowest frames are put back last, where the rings that are left are around all
  induction h generalizing nodes with
  | root => rfl
  | node standing ambient current ih => exact push ih current nodes
  | wrapper standing ambient current ih => exact push ih current nodes

namespace Stack

variable (k : Stack) (before rest nodes : List Node) (head : Head)

def place (before rest : List Node) : Place := ⟨before, rest, Machine.rings k.below⟩

theorem frame_before : (k.frame before rest).before = before := by
  simp [frame, Frame.before]

theorem frame_after (node : Node) : (k.frame before (node :: rest)).after = rest := by
  simp [frame, Frame.after]

theorem whole_machine : (k.machine before rest).whole = (k.place before []).fill rest := by
  have all : (k.frame before rest).nodes.toList = before ++ (rest ++ []) := by simp [frame]
  exact (k.standing.giveBack_eq _).trans (congrArg _ all)

theorem fill_append :
    (k.place before []).fill (nodes ++ rest) = (k.place before rest).fill nodes := by
  simp [Place.fill, Place.siblings, place]

theorem fill_before :
    (k.place (before ++ nodes) []).fill rest = (k.place before rest).fill nodes := by
  simp [Place.fill, Place.siblings, place]

theorem whole_node (node : Node) :
    (k.machine before (node :: rest)).whole = (k.place before rest).fill [node] :=
  (k.whole_machine ..).trans (k.fill_append before rest [node])

theorem place_root : (root.machine nodes []).place = ⟨[], [], []⟩ := by
  have done := root.frame_end nodes
  simp only [Machine.place, machine, done]
  rfl

theorem place_machine (node : Node) :
    (k.machine before (node :: rest)).place = k.place before rest := by
  have current := k.frame_current before node rest
  simp only [Machine.place, machine, current, frame_before, frame_after]
  rfl

variable {k} {before rest}

theorem hook_machine (node : Node) : (k.machine before (node :: rest)).hook? =
    if node.kind = .context then none else some .enter := by
  have current := k.frame_current before node rest
  simp only [Machine.hook?, machine, current]

theorem hook_end : (k.machine nodes []).hook? =
    if k.owner = .node then some .exit else none := by
  have done := k.frame_end nodes
  simp only [Machine.hook?, machine, done]
  rfl

section
variable {k' : Stack} (below : k'.below = k.below.push (k.frame before (.block head [] :: rest)))
include below

theorem place_above : (k'.machine nodes []).place = k.place before rest := by
  have done := k'.frame_end nodes
  simp only [Machine.place, machine, done, below, Array.back?_push, Array.pop_push, frame_before,
    frame_after]
  rfl

theorem whole_above (inside : List Node) :
    (k'.machine nodes inside).whole =
      (k.place before rest).fill [.block head (nodes ++ inside)] := by
  have current := k.frame_current before (.block head []) rest
  rw [whole_machine, place, below, Machine.rings_push current, frame_before, frame_after]
  simp [Place.fill, Place.siblings, place, Place.enclose, Ring.around]

end

/-! ## Iterations -/

variable {state : σ}

theorem leave_traced (node : Node) (log : List (Call σ)) :
    (k.machine before (node :: rest)).leave v.traced (state, log) =
      ((k.machine before (node :: rest)).leave v state).traced
        (log ++ [⟨.exit, k.view, node, state⟩]) := by
  rw [leave_eq (v := v.traced) rfl, leave_eq (v := v) rfl]
  cases flow : (v.exit k.view node state).flow <;>
    simp only [Visitor.traced, Exited.map, flow, Step.traced]

theorem leave_whole (node : Node) :
    ((k.machine before (node :: rest)).leave v state).whole? =
      some ((k.place before rest).fill [(v.exit k.view node state).node]) := by
  rw [leave_eq rfl]
  split
  · exact congrArg some (k.whole_node ..)
  · exact congrArg some ((k.whole_machine ..).trans (k.fill_before before rest [_]))

theorem iterates {m : Machine} {here left : List Node} {calls : List (Call σ)}
    (rewrites : Rewrites v here calls left) (place : m.place = k.place before rest)
    (whole : m.whole = (k.place before rest).fill here)
    (makes : ∀ log, m.step v.traced (state, log) = (m.step v state).traced (log ++ calls))
    (first : calls.head?.map Call.hook = m.hook?)
    (holds : (m.step v state).whole? = some ((k.place before rest).fill left)) :
    ∃ calls tree, m.Iterates v state calls tree :=
  ⟨calls, _, makes, first, holds, here, left, rewrites, place ▸ whole, place ▸ rfl⟩

theorem iterates_end (k : Stack) (nodes : List Node) (state : σ) :
    ∃ calls tree, (k.machine nodes []).Iterates v state calls tree := by
  obtain rfl | ⟨k, before, head, rest, rfl⟩ | ⟨k, before, overlay, rest, rfl⟩ := k.exists_below
  · refine ⟨[], _, fun log => ?_, ?_, ?_, nodes, nodes, .nothing, ?_, rfl⟩
    · rw [step_close_root, step_close_root, List.append_nil]
      rfl
    · rw [hook_end]
      rfl
    · rw [step_close_root, place_root, Step.whole?, whole_machine]
      rfl
    · exact (whole_machine ..).trans (by simp [place_root, Place.fill, Place.siblings, place]; rfl)
  · have whole : ((k.node before head rest).machine nodes []).whole =
        (k.place before rest).fill [.block head (nodes ++ [])] := whole_above nodes head rfl []
    rw [List.append_nil] at whole
    have called := Rewrites.one v ⟨.exit, k.view, .block head nodes, state⟩
    refine iterates called (place_above nodes head rfl) whole (fun log => ?_) ?_ ?_
    · rw [step_close_node, step_close_node, leave_traced]
    · rw [hook_end]
      rfl
    · rw [step_close_node, leave_whole, Call.leaves_exit rfl]
      rfl
  · refine iterates .nothing (place_above nodes (.context overlay) rfl)
      (whole_above nodes (.context overlay) rfl []) (fun log => ?_) ?_ ?_
    · rw [step_close_wrapper, step_close_wrapper, List.append_nil]
      rfl
    · rw [hook_end]
      rfl
    · rw [step_close_wrapper, Step.whole?, whole_machine, fill_before, List.append_nil]

theorem iterates_node (k : Stack) (before : List Node) (node : Node) (rest : List Node)
    (state : σ) : ∃ calls tree, (k.machine before (node :: rest)).Iterates v state calls tree := by
  have place := k.place_machine before rest node
  have whole := k.whole_node before rest node
  by_cases kind : node.kind = .context
  · obtain ⟨overlay, children, rfl⟩ := Node.exists_of_context kind
    refine iterates .nothing place whole (fun log => ?_) ?_ ?_
    · rw [step_context, step_context, List.append_nil]
      rfl
    · rw [hook_machine]
      rfl
    · rw [step_context, Step.whole?, whole_above [] (.context overlay) rfl children]
      rfl
  · obtain ⟨e, entered⟩ : ∃ e, v.enter k.view node state = e := ⟨_, rfl⟩
    have traced (log) : v.traced.enter k.view node (state, log) =
        e.map fun state' => (state', log ++ [⟨.enter, k.view, node, state⟩]) := by
      rw [v.enter_traced, entered]
    have first : some Hook.enter = (k.machine before (node :: rest)).hook? := by
      rw [hook_machine, if_neg kind]
    have called := Rewrites.one v ⟨.enter, k.view, node, state⟩
    have kept (stays : e.verdict.replaces = false) :
        Call.leaves v ⟨.enter, k.view, node, state⟩ = [e.node] := by
      subst entered
      exact Call.leaves_kept stays
    -- the answer of the hook says what the machine goes on with; the tree is what the call leaves
    cases verdict : e.verdict with
    | halt =>
        refine iterates called place whole (fun log => ?_) first ?_
        · rw [step_halt kind entered verdict, step_halt kind (traced log) verdict]
          rfl
        · rw [step_halt kind entered verdict, kept (by rw [verdict]; rfl), Step.whole?, whole_node]
    | replace nodes revisit =>
        have leaves : Call.leaves v ⟨.enter, k.view, node, state⟩ = nodes := by
          subst entered
          exact Call.leaves_replaced rfl verdict
        refine iterates called place whole (fun log => ?_) first ?_
        · cases revisit with
          | true =>
              rw [step_revisit nodes kind entered verdict,
                step_revisit nodes kind (traced log) verdict]
              rfl
          | false =>
              rw [step_pass nodes kind entered verdict, step_pass nodes kind (traced log) verdict]
              rfl
        · rw [leaves]
          cases revisit with
          | true =>
              rw [step_revisit nodes kind entered verdict, Step.whole?, whole_machine, fill_append]
          | false =>
              rw [step_pass nodes kind entered verdict, Step.whole?, whole_machine, fill_before]
    | _ =>
        have stays : e.verdict.stays := by rw [verdict]; rfl
        have leaves := kept (Verdict.replaces_of_stays stays)
        by_cases inside : e.inside = []
        -- the node is left in the same iteration, so that it gets two calls
        · have left := Rewrites.one v ⟨.exit, k.view, e.node, e.state⟩
          rw [← leaves] at left
          have both := Rewrites.call left
          refine iterates both place whole (fun log => ?_) first ?_
          · rw [step_leaves kind entered stays inside, step_leaves kind (traced log) stays inside,
              Entered.node_map, Entered.state_map, leave_traced, List.append_assoc]
            rfl
          · rw [step_leaves kind entered stays inside, leave_whole, Call.leaves_exit rfl]
            rfl
        · obtain ⟨head, refill, -, step⟩ := step_opens kind entered before rest inside
          have same : e.node = .block head e.inside := e.refill_inside ▸ refill e.inside
          refine iterates called place whole (fun log => ?_) first ?_
          · obtain ⟨head', refill', -, step'⟩ :=
              step_opens kind (traced log) before rest inside
            have heads : head' = head := by
              have both := (refill' []).symm.trans (refill [])
              cases both
              rfl
            rw [step, step', heads]
            rfl
          · rw [step, Step.whole?, whole_above [] head rfl e.inside, leaves, same]
            rfl

theorem exists_iterates (k : Stack) (before siblings : List Node) (state : σ) :
    ∃ calls tree, (k.machine before siblings).Iterates v state calls tree := by
  cases siblings with
  | nil => exact k.iterates_end before state
  | cons node rest => exact k.iterates_node before node rest state

end Stack

inductive Edits (v : Visitor σ) : List Node → List (Call σ) → List Node → Prop where
  | nothing {tree} : Edits v tree [] tree
  | edit {here left calls calls' tree} {place : Place} (rewrites : Rewrites v here calls left)
      (later : Edits v (place.fill left) calls' tree) :
      Edits v (place.fill here) (calls ++ calls') tree

theorem Edits.last {here left : List Node} {calls : List (Call σ)} {place : Place}
    (rewrites : Rewrites v here calls left) :
    Edits v (place.fill here) calls (place.fill left) := by
  have edits : Edits v (place.fill here) (calls ++ []) (place.fill left) := .edit rewrites .nothing
  rwa [List.append_nil] at edits

theorem Stack.run_edits {fuel : Nat} {k : Stack} {before siblings : List Node} {state : σ}
    {run : Run σ} (ended : (k.machine before siblings).run v fuel state = some run)
    (log : List (Call σ)) :
    ∃ calls, (k.machine before siblings).run v.traced fuel (state, log) =
        some (run.traced (log ++ calls)) ∧
      Edits v (k.machine before siblings).whole calls run.nodes := by
  induction fuel generalizing k before siblings state log with
  | zero => cases ended
  | succ fuel ih =>
      obtain ⟨calls, tree, makes, -, holds, here, left, rewrites, held, leaves⟩ :=
        k.exists_iterates (v := v) before siblings state
      have sound := k.step_sound (v := v) before siblings state
      rw [Machine.run] at ended
      rw [Machine.run, makes, held]
      cases step : (k.machine before siblings).step v state with
      | next m state' =>
          rw [step] at ended holds sound
          obtain ⟨k', before', siblings', rfl⟩ := sound
          obtain ⟨calls', traced, edits⟩ := ih ended (log ++ calls)
          cases holds
          rw [leaves] at edits
          rw [List.append_assoc] at traced
          exact ⟨_, traced, .edit rewrites edits⟩
      | done m state' halt =>
          rw [step] at ended holds
          cases ended
          cases holds
          exact ⟨calls, rfl, leaves ▸ .last rewrites⟩
      | stuck =>
          rw [step] at sound
          cases sound

namespace Machine

variable {m : Machine} {nodes : List Node} {state state' : σ}

theorem exists_iterates (reached : Reaches v (.start nodes) state m state') :
    ∃ calls tree, m.Iterates v state' calls tree := by
  obtain ⟨k, before, siblings, rfl⟩ := reaches_stack reached
  exact k.exists_iterates before siblings state'

theorem Iterates.silent {calls : List (Call σ)} {tree : List Node}
    (iterates : m.Iterates v state calls tree) (silent : m.hook? = none) : tree = m.whole := by
  obtain ⟨here, left, rewrites, before, after⟩ := iterates.rewrites
  have first := iterates.first
  cases rewrites with
  | nothing => exact after.trans before.symm
  | call => rw [silent] at first; cases first

theorem Reaches.head {m' m'' : Machine} {state'' : σ}
    (step : m.step v state = .next m' state') (later : Reaches v m' state' m'' state'') :
    Reaches v m state m'' state'' := by
  induction later with
  | refl => exact .next .refl step
  | next _ step' ih => exact .next ih step'

theorem reaches_of_run {fuel : Nat} {run : Run σ} (ended : m.run v fuel state = some run) :
    ∃ m' s m'', Reaches v m state m' s ∧ m'.step v s = .done m'' run.state run.halt ∧
      m''.whole = run.nodes := by
  induction fuel generalizing m state with
  | zero => cases ended
  | succ fuel ih =>
      rw [Machine.run] at ended
      split at ended
      · next step =>
        obtain ⟨m', s, m'', reached, done⟩ := ih ended
        exact ⟨m', s, m'', .head step reached, done⟩
      · next m'' _ _ step =>
        cases ended
        exact ⟨m, state, m'', .refl, step, rfl⟩
      · cases ended

end Machine

/-- The pieces of the first machine make up the input. On every machine that a walk comes to, the
next iteration changes the tree that the pieces make up by its hook calls at their one place, and
not at all without a hook call; the blocks around the place and the siblings there stay. What the
walk gives back is what its last machine holds, and is what all its hook calls, one iteration after
another, make of the input. -/
theorem walks_whole (v : Visitor σ) (nodes : List Node) (state : σ) :
    (Machine.start nodes).whole = nodes ∧
    (∀ m s, Machine.Reaches v (.start nodes) state m s →
      ∃ calls tree, m.Iterates v s calls tree ∧ (m.hook? = none → tree = m.whole)) ∧
    ∀ fuel run, iterative v fuel nodes state = some run →
      (∃ m s m', Machine.Reaches v (.start nodes) state m s ∧
        m.step v s = .done m' run.state run.halt ∧ run.nodes = m'.whole) ∧
      ∃ calls, Engine.iterative.Walks v nodes state calls run ∧ Edits v nodes calls run.nodes := by
  refine ⟨rfl, fun m s reached => ?_, fun fuel run ended => ⟨?_, ?_⟩⟩
  · obtain ⟨calls, tree, iterates⟩ := Machine.exists_iterates reached
    exact ⟨calls, tree, iterates, iterates.silent⟩
  · obtain ⟨m, s, m', reached, done, whole⟩ := Machine.reaches_of_run ended
    exact ⟨m, s, m', reached, done, whole.symm⟩
  · have start : (Stack.root.machine [] nodes).run v fuel state = some run := ended
    obtain ⟨calls, traced, edits⟩ := Stack.run_edits start []
    exact ⟨calls, ⟨fuel, traced⟩, edits⟩

theorem walks_whole_behind_inserted :
    let v : Visitor Unit := .ofEnter fun _ node _ =>
      ⟨(), node, if node.text = "x" then [[.comment "a", .comment "b"]] else [],
        if node.text = "x" then .skip else .proceed⟩
    let nodes : List Node := [.context .empty [.rule "r" [.comment "x", .comment "y"]]]
    ∃ m calls tree, Machine.Reaches v (.start nodes) () m () ∧ m.Iterates v () calls tree ∧
      m.whole = nodes ∧
      tree = [.context .empty [.rule "r" [.comment "a", .comment "b", .comment "y"]]] := by
  intro v nodes
  have reached : Machine.Reaches v (.start nodes) () _ () := .next (.next .refl rfl) rfl
  obtain ⟨calls, tree, iterates, -⟩ := (walks_whole v nodes ()).2.1 _ () reached
  refine ⟨_, calls, tree, reached, iterates, rfl, ?_⟩
  have holds := iterates.holds
  cases holds
  rfl

end StyleTree.Walk
