import StyleTree.Proofs.Walk.Interruption

/-!
# What hooks see

A ledger of the calls so far and the cursor of the next call are in step: the open nodes are the
owners of the levels above, and the exit hook of a node is called when it was opened last. So the
ancestors that a hook sees are the open nodes, and its ambient settings are those of the wrappers
above.
-/

namespace StyleTree.Walk

universe u
variable {σ : Type u} {v : Visitor σ}

theorem View.below_bare (view : View) (node : Node) : view.below node.bare = view.below node := by
  have bare : node.bare.bare = node.bare := node.withChildren_withChildren [] []
  simp only [below, bare]

inductive Opens : List Open → List Level → Prop where
  | root : Opens [] []
  | node {o opened levels before head after} (fields : o.node.bare = .block head [])
      (descended : o.verdict = .descend) (entered : o.view = Level.view levels)
      (above : Opens opened levels) : Opens (o :: opened) (.node before head after :: levels)
  | wrapper {opened levels before overlay after} (above : Opens opened levels) :
      Opens opened (.wrapper before overlay after :: levels)

theorem Opens.fits {opened : List Open} {levels : List Level} (opens : Opens opened levels) :
    Fits opened (Level.view levels) := by
  induction opens with
  | root =>
      rw [Level.view_nil]
      exact Fits.root
  | node fields descended _ _ ih =>
      rw [Level.view_node, ← fields, View.below_bare]
      exact ih.below descended
  | wrapper _ ih =>
      rw [Level.view_wrapper]
      exact ih.under _

inductive InStep : List Open → Cursor → Prop where
  | enter {opened above before rest} (opens : Opens opened above) :
      InStep opened ⟨above, before, rest, .enter⟩
  | exit {o opened above before node rest} (opens : Opens opened above)
      (entered : o.view = Level.view above) (fields : node.bare = o.node.bare)
      (stays : o.verdict.stays) (skipped : o.verdict = .skip → node = o.node) :
      InStep (o :: opened) ⟨above, before, node :: rest, .exit⟩

section
variable {k k' : Cursor} {state state' : σ} {l : Ledger}

theorem Move.inStep {call : Option (Call σ)} (move : Move v k state call k' state')
    (inStep : InStep l.opened k) :
    ∃ l', l.follow v call.toList = some l' ∧ InStep l'.opened k' := by
  -- a move without a call is about a level, one with a call about an entry of the ledger
  generalize top : l.opened = opened at inStep
  cases move with
  | wrap =>
      cases inStep with
      | enter opens => exact ⟨l, rfl, top ▸ .enter (.wrapper opens)⟩
  | unwrap =>
      cases inStep with
      | enter opens =>
          cases opens with
          | wrapper above => exact ⟨l, rfl, top ▸ .enter above⟩
  | ascend =>
      cases inStep with
      | enter opens =>
          cases opens with
          | @node o _ _ _ _ _ fields descended entered above =>
              have stays : o.verdict.stays := by rw [descended]; rfl
              refine ⟨l, rfl, top ▸ .exit above entered fields.symm stays ?_⟩
              intro skipped
              rw [descended] at skipped
              cases skipped
  | revisit kind entered verdict =>
      cases inStep with
      | enter opens =>
          have fits : Fits l.opened _ := top ▸ opens.fits
          exact ⟨_, Sweep.follow_replaced fits entered verdict, .enter (top ▸ opens)⟩
  | pass kind entered verdict =>
      cases inStep with
      | enter opens =>
          have fits : Fits l.opened _ := top ▸ opens.fits
          exact ⟨_, Sweep.follow_replaced fits entered verdict, .enter (top ▸ opens)⟩
  | stay kind entered stays nothing =>
      cases inStep with
      | enter opens =>
          subst entered
          have fits : Fits l.opened _ := top ▸ opens.fits
          have keeps := Verdict.replaces_of_stays stays
          refine ⟨_, (Ledger.follow_one _).trans (Ledger.record_enter rfl fits keeps), ?_⟩
          exact .exit (top ▸ opens) rfl rfl stays fun _ => rfl
  | @descend above _ node _ _ _ _ _ kind entered verdict shape =>
      cases inStep with
      | enter opens =>
          subst entered
          have fits : Fits l.opened _ := top ▸ opens.fits
          have keeps : (v.enter (Level.view above) node state).verdict.replaces = false := by
            rw [verdict]
            rfl
          refine ⟨_, (Ledger.follow_one _).trans (Ledger.record_enter rfl fits keeps), ?_⟩
          exact .enter (.node (congrArg Node.bare shape) verdict rfl (top ▸ opens))
  | exit exited flow =>
      cases inStep with
      | exit opens entered fields stays skipped =>
          have closes : Open.Closes _ (⟨.exit, _, _, state⟩ : Call σ) :=
            ⟨entered.symm, fields, stays, skipped⟩
          exact ⟨_, (Ledger.follow_one _).trans (Ledger.record_exit rfl top closes), .enter opens⟩

theorem Course.inStep {calls : List (Call σ)} (course : Course v k state calls k' state')
    (inStep : InStep l.opened k) :
    ∃ l', l.follow v calls = some l' ∧ InStep l'.opened k' := by
  induction course generalizing l with
  | refl => exact ⟨l, rfl, inStep⟩
  | move first _ ih =>
      obtain ⟨l₁, followed, inStep⟩ := first.inStep inStep
      obtain ⟨l₂, followed', inStep⟩ := ih inStep
      exact ⟨l₂, by rw [Ledger.follow_append, followed, Option.bind_some, followed'], inStep⟩

end

theorem Ledger.Accounts.entered_open {l : Ledger} {calls : List (Call σ)}
    (accounts : l.Accounts v calls) {o : Open} (member : o ∈ l.opened) :
    ∃ d, calls[o.place]? = some d ∧ d.hook = .enter ∧ o = d.opening v o.place := by
  obtain ⟨d, found, same⟩ := accounts.opened o member
  obtain ⟨bound, here⟩ := List.getElem?_eq_some_iff.1 found
  have place : o.place ∈ calls.findIdxs Call.isEnter := by
    rw [← accounts.entered.mem_iff]
    exact List.mem_append_right _ (List.mem_map_of_mem member)
  have enter : calls[o.place].isEnter := (List.mem_findIdxs_iff_pos_getElem bound).1 place
  rw [here] at enter
  exact ⟨d, found, by simpa [Call.isEnter] using enter, same⟩

/-- These nodes are open after the earlier calls, besides the node of the call itself: an exit call
closes the latest one, and it sees what the enter call of this node saw. -/
def Call.OpenBeside (v : Visitor σ) (earlier : List (Call σ)) (l : Ledger) (c : Call σ)
    (opened : List Open) : Prop :=
  match c.hook with
  | .enter => l.opened = opened
  | .exit => ∃ o d, l.opened = o :: opened ∧ o.Closes c ∧ earlier[o.place]? = some d ∧
      d.hook = .enter ∧ o = d.opening v o.place ∧ c.view = d.view

theorem InStep.openBeside {l : Ledger} {k : Cursor} {earlier : List (Call σ)} {state : σ}
    {c : Call σ} {after : List Node} (inStep : InStep l.opened k) (called : k.Calls state c after)
    (accounts : l.Accounts v earlier) :
    ∃ opened, Opens opened k.above ∧ c.OpenBeside v earlier l opened := by
  have hook : c.hook = k.hook := called.hook
  generalize top : l.opened = opened at inStep
  cases inStep with
  | enter opens =>
      refine ⟨opened, opens, ?_⟩
      rw [Call.OpenBeside, hook]
      exact top
  | @exit o opened _ _ node rest opens entered fields stays skipped =>
      obtain rfl : node = c.node := (List.cons.inj called.rest).1
      obtain ⟨d, found, enter, same⟩ := accounts.entered_open (o := o) (top ▸ List.mem_cons_self)
      have closes : o.Closes c := ⟨called.view.trans entered.symm, fields, stays, skipped⟩
      refine ⟨opened, opens, ?_⟩
      rw [Call.OpenBeside, hook]
      exact ⟨o, d, top, closes, found, enter, same, closes.view.trans (congrArg Open.view same)⟩

/-- Every call of a walk, whether the walk comes to an end or not, sees as its ancestors the nodes
that are open besides its own, without children, but otherwise as their enter hooks left them. Its
ambient settings are those of the wrappers around it, the inner ones above the outer ones. -/
theorem walks_show {e : Engine} {nodes : List Node} {state : σ} {earlier : List (Call σ)}
    {c : Call σ} (begins : e.Begins v nodes state (earlier ++ [c])) :
    (∃ (l : Ledger) (opened : List Open), Ledger.follow v {} earlier = some l ∧
      l.Accounts v earlier ∧ c.OpenBeside v earlier l opened ∧
      (∀ o ∈ opened, o.verdict = .descend) ∧
      c.view.path = (opened.map fun o => o.node.bare).reverse) ∧
    c.view.depth = c.view.path.length ∧ c.view.parent? = c.view.path.getLast? ∧
    ∃ k state' after, Course v (.start nodes) state earlier k state' ∧ k.Calls state' c after ∧
      c.view.path = Level.path k.above ∧
      c.view.ambient = (Level.overlays k.above).foldl .merge .empty ∧
      ∀ key, c.view.ambient.get? key =
        (Level.overlays k.above).reverse.findSome? (·.get? key) := by
  obtain ⟨k, state', after, course, called⟩ := begins.calls
  obtain ⟨l, followed, inStep⟩ := course.inStep (l := {}) (.enter .root)
  have accounts : l.Accounts v earlier := Ledger.Accounts.of_follow followed
  obtain ⟨opened, opens, beside⟩ := inStep.openBeside called accounts
  have seen : c.view = Level.view k.above := called.view
  have fits : Fits opened c.view := seen ▸ opens.fits
  have path : c.view.path = Level.path k.above := congrArg View.path seen
  have depth : c.view.depth = (Level.path k.above).length := congrArg View.depth seen
  have parent : c.view.parent? = (Level.path k.above).getLast? := congrArg View.parent? seen
  have ambient : c.view.ambient = (Level.overlays k.above).foldl .merge .empty :=
    congrArg View.ambient seen
  have shadows (key : String) : c.view.ambient.get? key =
      (Level.overlays k.above).reverse.findSome? (·.get? key) := by
    rw [ambient, Overlay.get?_foldl_merge, Overlay.get?_empty, Option.or_none]
  exact ⟨⟨l, opened, followed, accounts, beside, fits.descended, fits.path⟩, path ▸ depth,
    path ▸ parent, k, state', after, course, called, path, ambient, shadows⟩

theorem walks_show_through_wrappers :
    let v : Visitor Unit :=
      { enter := fun _ node _ => ⟨(), node.withText "seen", [], .proceed⟩
        exit := fun _ node _ => ⟨(), node, .halt⟩ }
    let outer := Overlay.empty.insert "k" (.flag true)
    let inner := Overlay.empty.insert "k" (.flag false)
    let nodes : List Node := [.context outer [.rule "a" [.context inner [.comment "x"]]]]
    let above : View := View.root.under outer
    let here : View := (above.below (.rule "seen" [])).under inner
    let a : Call Unit := ⟨.enter, above, .rule "a" [.context inner [.comment "x"]], ()⟩
    let b : Call Unit := ⟨.enter, here, .comment "x", ()⟩
    let c : Call Unit := ⟨.exit, here, .comment "seen", ()⟩
    Engine.iterative.Begins v nodes () ([a, b] ++ [c]) ∧
      c.view.ambient.get? "k" = some (.flag false) ∧
      ∃ (l : Ledger) (opened : List Open), Ledger.follow v {} [a, b] = some l ∧
        c.OpenBeside v [a, b] l opened ∧
        [Node.rule "seen" []] = (opened.map fun o => o.node.bare).reverse ∧
      -- a walk without an end shows as much at each of its calls
      let endless : Visitor Unit := .ofEnter fun _ node _ => ⟨(), node, [], .replace [node]⟩
      ∀ count, ∃ earlier c, Engine.recursive.Begins endless [.comment "x"] () (earlier ++ [c]) ∧
        earlier.length = count ∧ c.view.depth = c.view.path.length := by
  intro v outer inner nodes above here a b c
  have kind : (Node.rule "a" [.context inner [.comment "x"]]).kind ≠ .context := by decide
  have isLeaf : (Node.comment "x").kind ≠ .context := by decide
  have nothing : Sweep v (here.below (.comment "seen")) 0 [] () [] ⟨(), [], none⟩ := .nil
  have leaf : Sweep v here 0 [.comment "x"] () [b, c]
      ⟨(), [.comment "seen"], some ⟨.exit, 0⟩⟩ :=
    Sweep.exitHalt isLeaf rfl rfl nothing rfl rfl rfl
  have wrapped : Sweep v (above.below (.rule "seen" [])) 0 [.context inner [.comment "x"]] ()
      [b, c] ⟨(), [.context inner [.comment "seen"]], some ⟨.exit, 0⟩⟩ :=
    Sweep.contextHalt leaf rfl
  have rule : Sweep v above 0 [.rule "a" [.context inner [.comment "x"]]] () [a, b, c]
      ⟨(), [.rule "seen" [.context inner [.comment "seen"]]], some ⟨.exit, 0⟩⟩ :=
    Sweep.insideHalt kind rfl rfl wrapped rfl
  have walks : Engine.iterative.Walks v nodes () [a, b, c]
      ⟨(), [.context outer [.rule "seen" [.context inner [.comment "seen"]]]],
        some ⟨.exit, 0⟩⟩ :=
    Engine.walks_sweep.2 (Sweep.contextHalt rule rfl)
  have begins : Engine.iterative.Begins v nodes () ([a, b] ++ [c]) := walks.begins
  obtain ⟨⟨l, opened, followed, -, beside, -, path⟩, -⟩ := walks_show begins
  refine ⟨begins, by decide, l, opened, followed, beside, path, ?_⟩
  intro endless count
  have never : ¬ ∃ calls run, Engine.recursive.Walks endless [.comment "x"] () calls run := by
    rintro ⟨calls, run, walks⟩
    exact isLeaf ((Engine.walks_sweep.1 walks).kind_of_replaced fun _ => rfl)
  obtain ⟨earlier, last, begins, length⟩ := Engine.exists_begins never count
  exact ⟨earlier, last, begins, length, (walks_show begins).2.1⟩

end StyleTree.Walk
