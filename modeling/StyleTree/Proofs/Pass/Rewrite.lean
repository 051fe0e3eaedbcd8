import StyleTree.Pass
import StyleTree.Proofs.Walk.Agreement
import StyleTree.Proofs.Walk.Composition

/-!
# The standard pass as a rewrite

What the standard pass leaves of a tree, told node by node and without a walk. `walks_rewrite`: both
engines end with this tree, and the pass has counted the nodes that it came by.
-/

namespace StyleTree.Pass

open Walk

def isSupports (n : Node) : Bool := n.atRuleName? = some "@supports"

def isStop (n : Node) : Bool := n.atRuleName? = some "@stop-the-walk"

def isMargin (n : Node) : Bool := n.declaration?.any (·.property = "margin")

def isComment (n : Node) : Bool := n.kind = .comment

def isShown (n : Node) : Bool := n.kind ≠ .context

mutual

def exposed : Node → List Node
  | .leaf l => [.leaf l]
  | .block head children =>
      .block head children ::
        if isSupports (.block head children) then [] else exposedAll children

def exposedAll : List Node → List Node
  | [] => []
  | n :: rest => exposed n ++ exposedAll rest

end

def longhands (value : Option String) : List Node :=
  ["MARGIN-TOP", "MARGIN-RIGHT", "MARGIN-BOTTOM", "MARGIN-LEFT"].map fun side =>
    .leaf (.declaration ⟨side, value, false, none⟩)

mutual

def rewrite : Node → List Node
  | .leaf (.comment ..) => []
  | .leaf (.declaration d) =>
      if d.property = "margin" then longhands d.value
      else [.leaf (.declaration { d with property := Text.upper d.property })]
  | .block head children =>
      if isSupports (.block head children) || isStop (.block head children) then
        [.block head children]
      else [.block head (rewriteAll children)]

/-- Nothing is rewritten behind a node that ends the walk or has such a node inside. -/
def rewriteAll : List Node → List Node
  | [] => []
  | n :: rest => rewrite n ++ if (exposed n).any isStop then rest else rewriteAll rest

end

/-! ## What the hooks answer -/

section
variable (view : View) (p : Pass)

def entering : Pass := { p with entered := p.entered + 1 }

theorem enter_comment (text : String) (span : Option Span) :
    visitor.enter view (.leaf (.comment text span)) p =
      ⟨{ p.entering with replaced := p.replaced + 1 }, .leaf (.comment text span), [[]],
        .proceed⟩ := rfl

theorem enter_margin {d : Declaration} (margin : d.property = "margin") :
    visitor.enter view (.leaf (.declaration d)) p =
      ⟨{ p.entering with replaced := p.replaced + 1 }, .leaf (.declaration d), [],
        .replace (marginBySide d)⟩ := by
  simp only [visitor, enter, margin, if_true]
  rfl

theorem enter_declaration {d : Declaration} (other : d.property ≠ "margin") :
    visitor.enter view (.leaf (.declaration d)) p =
      ⟨p.entering, .leaf (.declaration { d with property := Text.upper d.property }), [],
        .proceed⟩ := by
  simp only [visitor, enter, other, if_false]
  rfl

theorem enter_block (head : Head) (children : List Node) :
    visitor.enter view (.block head children) p =
      ⟨p.entering, .block head children, [],
        if isSupports (.block head children) then .skip
        else if isStop (.block head children) then .stop else .proceed⟩ := by
  cases head with
  | atRule name params span =>
      simp only [visitor, enter, isSupports, isStop, Node.atRuleName?, Option.some.injEq,
        decide_eq_true_eq]
      split_ifs <;> rfl
  | _ => rfl

theorem entered_cases (n : Node) : (visitor.enter view n p).node = n ∨
    ∃ d d', n = .leaf (.declaration d) ∧
      (visitor.enter view n p).node = .leaf (.declaration d') := by
  rcases n with (d | ⟨text, span⟩) | ⟨head, children⟩
  · by_cases margin : d.property = "margin"
    · exact .inl (by rw [enter_margin view p margin])
    · exact .inr ⟨d, _, rfl, by rw [enter_declaration view p margin]⟩
  · exact .inl rfl
  · exact .inl (by rw [enter_block])

theorem entered_children (n : Node) : (visitor.enter view n p).node.children = n.children := by
  rcases entered_cases view p n with same | ⟨d, d', rfl, left⟩
  · rw [same]
  · rw [left]
    rfl

theorem replaced_cases {n : Node} {nodes : List Node} {revisit : Bool}
    (verdict : (visitor.enter view n p).verdict = .replace nodes revisit) :
    (∃ d, d.property = "margin" ∧ n = .leaf (.declaration d) ∧ nodes = marginBySide d) ∨
      ∃ text span, n = .leaf (.comment text span) ∧ nodes = [] := by
  rcases n with (d | ⟨text, span⟩) | ⟨head, children⟩
  · by_cases margin : d.property = "margin"
    · rw [enter_margin view p margin] at verdict
      cases verdict
      exact .inl ⟨d, margin, rfl, rfl⟩
    · rw [enter_declaration view p margin] at verdict
      cases verdict
  · rw [enter_comment] at verdict
    cases verdict
    exact .inr ⟨text, span, rfl, rfl⟩
  · rw [enter_block] at verdict
    split_ifs at verdict <;> cases verdict

end

/-! ## What the pass counts -/

structure Tallied (p : Pass) (nodes : List Node) (p' : Pass) : Prop where
  entered : p'.entered = p.entered + nodes.countP isShown + 4 * nodes.countP isMargin
  replaced : p'.replaced = p.replaced + nodes.countP isComment + nodes.countP isMargin
  exited : p'.exited + p'.replaced + p.entered = p'.entered + p.exited + p.replaced

namespace Tallied

variable {p p' p'' : Pass} {nodes nodes' : List Node} {n : Node}

theorem nil (p : Pass) : Tallied p [] p := ⟨by simp, by simp, by omega⟩

theorem append (first : Tallied p nodes p') (later : Tallied p' nodes' p'') :
    Tallied p (nodes ++ nodes') p'' := by
  have entered := later.entered
  have replaced := later.replaced
  have exited := later.exited
  rw [first.entered] at entered
  rw [first.replaced] at replaced
  have exited' := first.exited
  constructor
  · rw [List.countP_append, List.countP_append]
    omega
  · rw [List.countP_append, List.countP_append]
    omega
  · omega

theorem around (shown : isShown n) (noComment : isComment n = false) (noMargin : isMargin n = false)
    (inside : Tallied p.entering nodes p') :
    Tallied p (n :: nodes) { p' with exited := p'.exited + 1 } := by
  have entered : p'.entered = p.entered + 1 + _ + _ := inside.entered
  have replaced : p'.replaced = p.replaced + _ + _ := inside.replaced
  have exited : p'.exited + p'.replaced + (p.entered + 1) = p'.entered + p.exited + p.replaced :=
    inside.exited
  constructor
  · simp only [List.countP_cons, shown, noMargin, if_true, Bool.false_eq_true, if_false]
    omega
  · simp only [List.countP_cons, noComment, noMargin, Bool.false_eq_true, if_false]
    omega
  · simp only
    omega

theorem uncounted (hidden : isShown n = false) (noComment : isComment n = false)
    (noMargin : isMargin n = false) (inside : Tallied p nodes p') : Tallied p (n :: nodes) p' := by
  have ⟨entered, replaced, exited⟩ := inside
  constructor
  · simp only [List.countP_cons, hidden, noMargin, Bool.false_eq_true, if_false]
    exact entered
  · simp only [List.countP_cons, noComment, noMargin, Bool.false_eq_true, if_false]
    exact replaced
  · exact exited

end Tallied

/-! ## The walk of a tree -/

def Yields (nodes left seen : List Node) : Prop :=
  ∀ view index p, ∃ calls run, Sweep visitor view index nodes p calls run ∧ run.nodes = left ∧
    run.halt.isSome = seen.any isStop ∧ (run.halt = none → Tallied p seen run.state)

theorem Yields.nil : Yields [] [] [] := fun _ _ p => ⟨[], _, .nil, rfl, rfl, fun _ => .nil p⟩

theorem Yields.append {a b left left' seen seen' : List Node} (first : Yields a left seen)
    (later : Yields b left' seen') :
    Yields (a ++ b) (left ++ if seen.any isStop then b else left') (seen ++ seen') := by
  intro view index p
  obtain ⟨calls, run, sweep, rfl, halts, tallied⟩ := first view index p
  cases goes : run.halt with
  | some halt =>
      have stops : seen.any isStop := by rw [← halts, goes]; rfl
      have whole := sweep.append_stopped (by rw [goes]; rfl) b
      refine ⟨calls, _, whole, ?_, ?_, ?_⟩
      · rw [if_pos stops]
      · rw [List.any_append, stops, goes]
        rfl
      · intro completed
        cases goes.symm.trans completed
  | none =>
      have goesOn : seen.any isStop = false := by rw [← halts, goes]; rfl
      obtain ⟨calls', run', sweep', rfl, halts', tallied'⟩ :=
        later view (index + run.nodes.length) run.state
      have whole := sweep.append_completed goes sweep'
      refine ⟨_, _, whole, ?_, ?_, ?_⟩
      · rw [goesOn]
        rfl
      · rw [List.any_append, goesOn, Bool.false_or, ← halts']
        rfl
      · intro completed
        exact (tallied goes).append (tallied' completed)

theorem yields_kept {n left : Node} {action : Action} (shown : isShown n)
    (noComment : isComment n = false) (noMargin : isMargin n = false) (noStop : isStop n = false)
    (entered : ∀ view p, visitor.enter view n p = ⟨p.entering, left, [], action⟩)
    (closed : action = .skip ∨ action = .proceed ∧ left.children = []) :
    Yields [n] [left] [n] := by
  intro view index p
  obtain ⟨e, same⟩ : ∃ e : Entered Pass, e = ⟨p.entering, left, [], action⟩ := ⟨_, rfl⟩
  have entered : visitor.enter view n p = e := (entered view p).trans same.symm
  have kind : n.kind ≠ .context := by simpa [isShown] using shown
  have stays : e.verdict.stays := by
    rcases closed with rfl | ⟨rfl, -⟩ <;> rw [same] <;> rfl
  have inside : e.inside = [] := by
    rcases closed with rfl | ⟨rfl, leaf⟩ <;> rw [same]
    · rfl
    · exact leaf
  refine ⟨_, _, .exitEmpty kind entered stays inside rfl rfl .nil, ?_, ?_, ?_⟩
  · rw [same]
    rfl
  · rw [List.any_cons, noStop]
    rfl
  · intro _
    rw [same]
    exact .around shown noComment noMargin (.nil p.entering)

theorem yields_declaration {d : Declaration} (other : d.property ≠ "margin") :
    Yields [.leaf (.declaration d)]
      [.leaf (.declaration { d with property := Text.upper d.property })]
      [.leaf (.declaration d)] := by
  have noMargin : isMargin (.leaf (.declaration d)) = false := by
    simpa [isMargin, Node.declaration?] using other
  exact yields_kept rfl rfl noMargin rfl (fun view p => enter_declaration view p other)
    (.inr ⟨rfl, rfl⟩)

theorem yields_declarations {ds : List Declaration} (others : ∀ d ∈ ds, d.property ≠ "margin") :
    Yields (ds.map fun d => .leaf (.declaration d))
      (ds.map fun d => .leaf (.declaration { d with property := Text.upper d.property }))
      (ds.map fun d => .leaf (.declaration d)) := by
  induction ds with
  | nil => exact .nil
  | cons d ds ih =>
      have first := yields_declaration (others d List.mem_cons_self)
      have later := ih fun d' member => others d' (List.mem_cons_of_mem d member)
      exact first.append later

theorem yields_sides (d : Declaration) :
    Yields (marginBySide d) (longhands d.value) (marginBySide d) := by
  have others : ∀ d' ∈ sides.map (Declaration.mk · d.value false none), d'.property ≠ "margin" := by
    simp [sides]
  have upper : sides.map Text.upper =
      ["MARGIN-TOP", "MARGIN-RIGHT", "MARGIN-BOTTOM", "MARGIN-LEFT"] := by decide
  have yields := yields_declarations others
  simp only [List.map_map] at yields
  rw [longhands, ← upper, List.map_map]
  exact yields

theorem yields_margin {d : Declaration} (margin : d.property = "margin") :
    Yields [.leaf (.declaration d)] (longhands d.value) [.leaf (.declaration d)] := by
  intro view index p
  let p' : Pass := { p.entering with replaced := p.replaced + 1 }
  -- the sides are walked in the place of the margin
  obtain ⟨calls, run, sweep, left, halts, tallied⟩ := yields_sides d view index p'
  have entered : visitor.enter view (.leaf (.declaration d)) p =
      ⟨p', .leaf (.declaration d), [], .replace (marginBySide d)⟩ := enter_margin view p margin
  have later : Sweep visitor view index (marginBySide d ++ []) p' calls run := by
    rwa [List.append_nil]
  refine ⟨_, run, .revisit (by rintro ⟨⟩) entered rfl later, left, halts, ?_⟩
  intro completed
  have before : p'.entered = p.entered + 1 ∧ p'.replaced = p.replaced + 1 ∧ p'.exited = p.exited :=
    ⟨rfl, rfl, rfl⟩
  obtain ⟨entered, replaced, exited⟩ := tallied completed
  have sides : (marginBySide d).countP isShown = 4 ∧ (marginBySide d).countP isMargin = 0 ∧
      (marginBySide d).countP isComment = 0 := by
    refine ⟨rfl, ?_, rfl⟩
    simp [marginBySide, sides, isMargin, Node.declaration?]
  have alone : [Node.leaf (.declaration d)].countP isShown = 1 ∧
      [Node.leaf (.declaration d)].countP isMargin = 1 ∧
      [Node.leaf (.declaration d)].countP isComment = 0 := by
    refine ⟨rfl, ?_, rfl⟩
    simp [isMargin, Node.declaration?, margin]
  constructor <;> omega

theorem yields_comment (text : String) (span : Option Span) :
    Yields [.leaf (.comment text span)] [] [.leaf (.comment text span)] := by
  intro view index p
  obtain ⟨e, entered⟩ : ∃ e, visitor.enter view (.leaf (.comment text span)) p = e := ⟨_, rfl⟩
  have same := entered.symm.trans (enter_comment view p text span)
  have verdict : e.verdict = .replace [] true := by
    rw [same]
    rfl
  refine ⟨_, _, .revisit (by rintro ⟨⟩) entered verdict .nil, rfl, rfl, ?_⟩
  rw [same]
  intro _
  have alone : [Node.leaf (.comment text span)].countP isShown = 1 ∧
      [Node.leaf (.comment text span)].countP isMargin = 0 ∧
      [Node.leaf (.comment text span)].countP isComment = 1 := ⟨rfl, rfl, rfl⟩
  constructor <;> simp only [entering] <;> omega

section
variable {head : Head} {children left seen : List Node}

theorem isComment_block : isComment (.block head children) = false := by
  cases head <;> rfl

theorem isStop_of_supports {n : Node} (supports : isSupports n) : isStop n = false := by
  have name : n.atRuleName? = some "@supports" := of_decide_eq_true supports
  rw [isStop, name]
  decide

theorem yields_supports (shown : isShown (.block head children))
    (supports : isSupports (.block head children)) :
    Yields [.block head children] [.block head children] [.block head children] := by
  have noStop : isStop (.block head children) = false := isStop_of_supports supports
  refine yields_kept shown isComment_block rfl noStop (fun view p => ?_) (.inl rfl)
  rw [enter_block, if_pos supports]

theorem yields_stop (noSupports : isSupports (.block head children) = false)
    (stop : isStop (.block head children)) (seen : List Node) :
    Yields [.block head children] [.block head children] (.block head children :: seen) := by
  intro view index p
  obtain ⟨e, entered⟩ : ∃ e, visitor.enter view (.block head children) p = e := ⟨_, rfl⟩
  have same : e = ⟨p.entering, .block head children, [], .stop⟩ := by
    rw [← entered, enter_block, noSupports, stop]
    rfl
  have kind : (Node.block head children).kind ≠ .context := by
    intro context
    obtain ⟨overlay, children', shape⟩ := Node.exists_of_context context
    rw [shape] at stop
    cases stop
  have verdict : e.verdict = .halt := by
    rw [same]
    rfl
  refine ⟨_, _, .halt kind entered verdict, ?_, ?_, nofun⟩
  · rw [same]
  · rw [List.any_cons, stop]
    rfl

theorem yields_context {overlay : Overlay} (inner : Yields children left seen) :
    Yields [.block (.context overlay) children] [.block (.context overlay) left]
      (.block (.context overlay) children :: seen) := by
  intro view index p
  obtain ⟨calls, run, within, rfl, halts, tallied⟩ := inner (view.under overlay) 0 p
  cases goes : run.halt with
  | some halt =>
      rw [goes] at halts
      exact ⟨_, _, .contextHalt within goes, rfl, halts, nofun⟩
  | none =>
      rw [goes] at halts
      refine ⟨_, _, .context within goes .nil, rfl, halts, ?_⟩
      intro _
      exact (tallied goes).uncounted rfl rfl rfl

theorem yields_inside (shown : isShown (.block head children))
    (noSupports : isSupports (.block head children) = false)
    (noStop : isStop (.block head children) = false) (inner : Yields children left seen) :
    Yields [.block head children] [.block head left] (.block head children :: seen) := by
  intro view index p
  obtain ⟨e, entered⟩ : ∃ e, visitor.enter view (.block head children) p = e := ⟨_, rfl⟩
  have same : e = ⟨p.entering, .block head children, [], .proceed⟩ := by
    rw [← entered, enter_block, noSupports, noStop]
    rfl
  have kind : (Node.block head children).kind ≠ .context := by simpa [isShown] using shown
  have verdict : e.verdict = .descend := by
    rw [same]
    rfl
  have stays : e.verdict.stays := by
    rw [verdict]
    rfl
  have inside : e.inside = children := by
    rw [Entered.inside, verdict, same]
    rfl
  have refill (nodes : List Node) : e.refill nodes = .block head nodes := by
    rw [Entered.refill, verdict, same]
    rfl
  obtain ⟨calls, run, within, rfl, halts, tallied⟩ := inner (view.below e.node) 0 e.state
  rw [← inside] at within
  cases goes : run.halt with
  | some halt =>
      rw [goes] at halts
      refine ⟨_, _, .insideHalt kind entered stays within goes, ?_, ?_, by simp⟩
      · rw [refill]
      · rw [List.any_cons, noStop, Bool.false_or, ← halts]
  | none =>
      rw [goes] at halts
      refine ⟨_, _, .exit kind entered stays within goes rfl rfl .nil, ?_, ?_, ?_⟩
      · exact congrArg (· :: []) (refill run.nodes)
      · rw [List.any_cons, noStop, Bool.false_or, ← halts]
        rfl
      · intro _
        have counted : Tallied p.entering seen run.state := by
          have tallied := tallied goes
          rwa [same] at tallied
        exact counted.around shown isComment_block rfl

end

mutual

theorem yields_node : (n : Node) → Yields [n] (rewrite n) (exposed n)
  | .leaf (.comment text span) => yields_comment text span
  | .leaf (.declaration d) => by
      rw [rewrite, exposed]
      split
      · next margin => exact yields_margin margin
      · next other => exact yields_declaration other
  | .block head children => by
      have inner := yields_nodes children
      rw [rewrite, exposed]
      by_cases kind : (Node.block head children).kind = .context
      · obtain ⟨overlay, _, shape⟩ := Node.exists_of_context kind
        cases shape
        exact yields_context inner
      · have shown : isShown (.block head children) := by simpa [isShown] using kind
        cases supports : isSupports (.block head children) with
        | true => exact yields_supports shown supports
        | false =>
            cases stop : isStop (.block head children) with
            | true => exact yields_stop supports stop _
            | false => exact yields_inside shown supports stop inner

theorem yields_nodes : (nodes : List Node) → Yields nodes (rewriteAll nodes) (exposedAll nodes)
  | [] => .nil
  | n :: rest => by
      rw [rewriteAll, exposedAll]
      exact (yields_node n).append (yields_nodes rest)

end

/-- The walk of a tree by a fresh pass ends, with either engine, in one run: that of the rewrite. It
is stopped exactly by an at-rule that is not inside of an @supports block. A completed pass has
replaced the comments and the margins, has entered every node that is no context and each side of a
margin, and has exited what it entered and did not replace. -/
theorem walks_rewrite (e : Engine) (nodes : List Node) :
    ∃ run : Run Pass, (∀ r, (∃ fuel, e.walk visitor fuel nodes {} = some r) ↔ r = run) ∧
      run.nodes = rewriteAll nodes ∧
      (run.outcome = .stopped ↔
        ∃ n ∈ exposedAll nodes, n.atRuleName? = some "@stop-the-walk") ∧
      (run.outcome = .completed →
        run.state.replaced =
          (exposedAll nodes).countP isComment + (exposedAll nodes).countP isMargin ∧
        run.state.entered =
          (exposedAll nodes).countP isShown + 4 * (exposedAll nodes).countP isMargin ∧
        run.state.exited + run.state.replaced = run.state.entered) := by
  obtain ⟨calls, run, sweep, left, halts, tallied⟩ := yields_nodes nodes .root 0 {}
  have walks : e.Walks visitor nodes {} calls run := Engine.walks_sweep.2 sweep
  refine ⟨run, fun r => ?_, left, ?_, ?_⟩
  · rw [Engine.ends_iff_walks]
    constructor
    · rintro ⟨calls', walks'⟩
      exact (Engine.walks_agree walks' walks).2
    · rintro rfl
      exact ⟨calls, walks⟩
  · rw [Run.outcome_stopped, halts, List.any_eq_true]
    simp only [isStop, decide_eq_true_eq]
  · intro completed
    have ⟨entered, replaced, exited⟩ := tallied (Run.outcome_completed.1 completed)
    have fresh : ({} : Pass).entered = 0 ∧ ({} : Pass).replaced = 0 ∧ ({} : Pass).exited = 0 :=
      ⟨rfl, rfl, rfl⟩
    omega

example :
    rewriteAll [.declaration "margin" "0" true, .context .empty [.comment "x", .rule "a" [
        .declaration "top" "0" true, .atRule "@stop-the-walk" "" [.comment "y"], .comment "z"]],
      .declaration "left" "0" false] =
    longhands (some "0") ++ [.context .empty [.rule "a" [
        .declaration "TOP" "0" true, .atRule "@stop-the-walk" "" [.comment "y"], .comment "z"]],
      .declaration "left" "0" false] := by decide

end StyleTree.Pass
