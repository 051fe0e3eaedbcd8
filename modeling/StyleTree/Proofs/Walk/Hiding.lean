import StyleTree.Proofs.Walk.Surroundings

/-!
# Contexts behind the scenes

A walk shows no context to a hook, neither as its node nor as an ancestor, and what is below a
context sees the keys of its overlay. But the walk looks for a context before it calls the enter
hook of a node and not after it. A hook that leaves a context in place of its node brings it to
light: `walks_reveal`. As long as no hook does so, contexts are hidden: `walks_hide`.
-/

namespace StyleTree.Walk

universe u
variable {σ : Type u} {v : Visitor σ}

/-- The enter hook leaves a context in place of its node, which the walk takes for a node that was
entered. -/
def Call.Reveals (v : Visitor σ) (c : Call σ) : Prop :=
  c.hook = .enter ∧ (c.entered v).verdict.stays ∧ (c.entered v).node.kind = .context

namespace Level

def head : Level → Head
  | .node _ head _ => head
  | .wrapper _ overlay _ => .context overlay

theorem head_of_overlay {level : Level} {overlay : Overlay}
    (lays : level.overlay? = some overlay) : level.head = .context overlay := by
  cases level with
  | node => cases lays
  | wrapper before o after =>
      obtain rfl := Option.some.inj lays
      rfl

theorem ambient_of_overlay {inner outer : List Level} {level : Level} {overlay : Overlay}
    {key : String} {value : Setting} (lays : level.overlay? = some overlay)
    (found : overlay.get? key = some value)
    (free : ∀ l ∈ inner, ∀ o, l.overlay? = some o → o.get? key = none) :
    (view (inner ++ level :: outer)).ambient.get? key = some value := by
  have within : (inner.filterMap overlay?).findSome? (·.get? key) = none := by
    rw [List.findSome?_eq_none_iff]
    intro o member
    obtain ⟨l, member, lays⟩ := List.mem_filterMap.1 member
    exact free l member o lays
  have found : (overlays (inner ++ level :: outer)).reverse.findSome? (·.get? key) =
      some value := by
    rw [overlays, List.reverse_reverse, List.filterMap_append, List.filterMap_cons_some lays,
      List.findSome?_append, within, List.findSome?_cons, found]
    rfl
  have shadows := Overlay.get?_foldl_merge (overlays (inner ++ level :: outer)) .empty key
  rw [found] at shadows
  exact shadows

end Level

theorem Opens.overlay_of_head {opened : List Open} {levels : List Level}
    (opens : Opens opened levels) (hidden : ∀ o ∈ opened, o.node.kind ≠ .context) :
    ∀ level ∈ levels, ∀ overlay, level.head = .context overlay →
      level.overlay? = some overlay := by
  induction opens with
  | root => nofun
  | @node o _ _ _ head _ fields _ _ _ ih =>
      obtain ⟨here, hidden⟩ := List.forall_mem_cons.1 hidden
      refine List.forall_mem_cons.2 ⟨?_, ih hidden⟩
      intro overlay same
      obtain rfl : head = .context overlay := same
      have kind : o.node.kind = .context := by
        rw [← o.node.kind_bare, fields]
        rfl
      exact absurd kind here
  | wrapper _ ih =>
      refine List.forall_mem_cons.2 ⟨?_, ih hidden⟩
      intro overlay same
      rw [Head.context.inj same]
      rfl

theorem Ledger.Accounts.hidden {l : Ledger} {calls : List (Call σ)} (accounts : l.Accounts v calls)
    (plain : ∀ d ∈ calls, ¬ d.Reveals v) {o : Open} (member : o ∈ l.opened)
    (stays : o.verdict.stays) : o.node.kind ≠ .context := by
  obtain ⟨d, found, enter, same⟩ := accounts.entered_open member
  rw [same] at stays ⊢
  intro kind
  exact plain d (List.mem_of_getElem? found) ⟨enter, stays, kind⟩

theorem Call.OpenBeside.subset {earlier : List (Call σ)} {l : Ledger} {c : Call σ}
    {opened : List Open} (beside : c.OpenBeside v earlier l opened) : opened ⊆ l.opened := by
  rw [Call.OpenBeside] at beside
  split at beside
  · exact beside ▸ List.Subset.refl _
  · obtain ⟨o, -, top, -⟩ := beside
    exact top ▸ List.subset_cons_self o opened

/-- No enter hook is called on a context. Nor is an exit hook, nor does a hook see a context among
its ancestors, unless an earlier enter hook left a context in place of its node. Unless one did so,
all contexts around a call are wrappers, and the call sees each of their settings that no wrapper
further in has a setting for. -/
theorem walks_hide {e : Engine} {nodes : List Node} {state : σ} {earlier : List (Call σ)}
    {c : Call σ} (begins : e.Begins v nodes state (earlier ++ [c])) :
    (c.hook = .enter → c.node.kind ≠ .context) ∧
    ((∀ d ∈ earlier, ¬ d.Reveals v) →
      c.node.kind ≠ .context ∧ (∀ n ∈ c.view.path, n.kind ≠ .context) ∧
      (∀ n ∈ c.view.parent?, n.kind ≠ .context) ∧
      ∃ k state' after, Course v (.start nodes) state earlier k state' ∧ k.Calls state' c after ∧
        ∀ inner level outer overlay key value, k.above = inner ++ level :: outer →
          level.head = .context overlay → overlay.get? key = some value →
            (∀ l ∈ inner, ∀ o, l.head = .context o → o.get? key = none) →
              c.view.ambient.get? key = some value) := by
  obtain ⟨k, state', after, course, called⟩ := begins.calls
  refine ⟨called.kind, fun plain => ?_⟩
  obtain ⟨l, followed, inStep⟩ := course.inStep (l := {}) (.enter .root)
  have accounts : l.Accounts v earlier := Ledger.Accounts.of_follow followed
  obtain ⟨opened, opens, beside⟩ := inStep.openBeside called accounts
  have seen : c.view = Level.view k.above := called.view
  have fits : Fits opened c.view := seen ▸ opens.fits
  have hidden : ∀ o ∈ opened, o.node.kind ≠ .context := by
    intro o member
    have stays : o.verdict.stays := by
      rw [fits.descended o member]
      rfl
    exact accounts.hidden plain (beside.subset member) stays
  have path : ∀ n ∈ c.view.path, n.kind ≠ .context := by
    intro n member
    rw [fits.path, List.mem_reverse] at member
    obtain ⟨o, among, rfl⟩ := List.mem_map.1 member
    rw [o.node.kind_bare]
    exact hidden o among
  refine ⟨?_, path, ?_, k, state', after, course, called, ?_⟩
  · cases hook : c.hook with
    | enter => exact called.kind hook
    | exit =>
        rw [Call.OpenBeside, hook] at beside
        obtain ⟨o, d, top, closes, -⟩ := beside
        rw [← c.node.kind_bare, closes.fields, o.node.kind_bare]
        exact accounts.hidden plain (top ▸ List.mem_cons_self) closes.stays
  · intro n parent
    have last : c.view.parent? = c.view.path.getLast? := by
      rw [seen]
      rfl
    exact path n (List.mem_of_getLast? (last ▸ parent))
  · intro inner level outer overlay key value parts context found free
    have overlays := opens.overlay_of_head hidden
    rw [parts, List.forall_mem_append, List.forall_mem_cons] at overlays
    rw [seen, parts]
    refine Level.ambient_of_overlay (overlays.2.1 overlay context) found fun l member o lays => ?_
    exact free l member o (Level.head_of_overlay lays)

theorem walks_hide_around_comment :
    let v : Visitor Unit := .ofEnter fun _ node _ =>
      ⟨(), .atRoot node.children, [], if node.kind = .comment then .stop else .proceed⟩
    let far := Overlay.empty.insert "k" (.flag true)
    let near := Overlay.empty.insert "j" (.flag false)
    let nodes : List Node := [.context far [.rule "a" [.context near [.comment "x"]]]]
    let above : View := View.root.under far
    let here : View := (above.below (.atRoot [])).under near
    let a : Call Unit := ⟨.enter, above, .rule "a" [.context near [.comment "x"]], ()⟩
    let b : Call Unit := ⟨.enter, here, .comment "x", ()⟩
    Engine.recursive.Begins v nodes () ([a] ++ [b]) ∧ (∀ d ∈ [a], ¬ d.Reveals v) ∧
      b.node.kind ≠ .context ∧ (∀ n ∈ b.view.path, n.kind ≠ .context) ∧
      ∃ k state' after, Course v (.start nodes) () [a] k state' ∧ k.Calls state' b after ∧
        ∀ inner level outer overlay key value, k.above = inner ++ level :: outer →
          level.head = .context overlay → overlay.get? key = some value →
            (∀ l ∈ inner, ∀ o, l.head = .context o → o.get? key = none) →
              b.view.ambient.get? key = some value := by
  intro v far near nodes above here a b
  have kind : (Node.rule "a" [.context near [.comment "x"]]).kind ≠ .context := by decide
  have isLeaf : (Node.comment "x").kind ≠ .context := by decide
  have leaf : Sweep v here 0 [.comment "x"] () [b] ⟨(), [.atRoot []], some ⟨.enter, 0⟩⟩ :=
    Sweep.halt isLeaf rfl rfl
  have wrapped : Sweep v (above.below (.atRoot [])) 0 [.context near [.comment "x"]] () [b]
      ⟨(), [.context near [.atRoot []]], some ⟨.enter, 0⟩⟩ :=
    Sweep.contextHalt leaf rfl
  have rule : Sweep v above 0 [.rule "a" [.context near [.comment "x"]]] () [a, b]
      ⟨(), [.atRoot [.context near [.atRoot []]]], some ⟨.enter, 0⟩⟩ :=
    Sweep.insideHalt kind rfl rfl wrapped rfl
  have walks : Engine.recursive.Walks v nodes () [a, b]
      ⟨(), [.context far [.atRoot [.context near [.atRoot []]]]], some ⟨.enter, 0⟩⟩ :=
    Engine.walks_sweep.2 (Sweep.contextHalt rule rfl)
  have begins : Engine.recursive.Begins v nodes () ([a] ++ [b]) := walks.begins
  have plain : ∀ d ∈ [a], ¬ d.Reveals v := by
    rw [List.forall_mem_singleton]
    rintro ⟨-, -, kind⟩
    cases kind
  obtain ⟨isNode, path, -, around⟩ := (walks_hide begins).2 plain
  exact ⟨begins, plain, isNode, path, around⟩

/-- An enter hook makes a context of its node. Then its exit hook is called on the context, and what
is inside has the context for an ancestor and does not see its settings. -/
theorem walks_reveal :
    let settings := Overlay.empty.insert "k" (.flag true)
    let v : Visitor Unit := .ofEnter fun _ node _ =>
      ⟨(), if node.kind = .rule then .context settings [.comment "x"] else node, [], .proceed⟩
    let inside : View := View.root.below (.context settings [])
    (∀ e : Engine, e.Walks v [.rule "a" []] ()
      [⟨.enter, .root, .rule "a" [], ()⟩, ⟨.enter, inside, .comment "x", ()⟩,
        ⟨.exit, inside, .comment "x", ()⟩, ⟨.exit, .root, .context settings [.comment "x"], ()⟩]
      ⟨(), [.context settings [.comment "x"]], none⟩) ∧
    inside.path = [.context settings []] ∧ inside.parent? = some (.context settings []) ∧
      inside.ambient.get? "k" = none := by
  intro settings v inside
  have isRule : (Node.rule "a" []).kind ≠ .context := by decide
  have isLeaf : (Node.comment "x").kind ≠ .context := by decide
  have leaf : Sweep v inside 0 [.comment "x"] ()
      [⟨.enter, inside, .comment "x", ()⟩, ⟨.exit, inside, .comment "x", ()⟩]
      ⟨(), [.comment "x"], none⟩ :=
    Sweep.exitEmpty isLeaf rfl rfl rfl rfl rfl .nil
  have rule : Sweep v .root 0 [.rule "a" []] ()
      [⟨.enter, .root, .rule "a" [], ()⟩, ⟨.enter, inside, .comment "x", ()⟩,
        ⟨.exit, inside, .comment "x", ()⟩, ⟨.exit, .root, .context settings [.comment "x"], ()⟩]
      ⟨(), [.context settings [.comment "x"]], none⟩ :=
    Sweep.exit isRule rfl rfl leaf rfl rfl rfl .nil
  exact ⟨fun e => Engine.walks_sweep.2 rule, rfl, rfl, rfl⟩

end StyleTree.Walk
