import StyleTree.Proofs.Pass.Rewrite
import StyleTree.Proofs.Walk.Bracketing
import StyleTree.Proofs.Walk.Unmarked
import Mathlib

namespace StyleTree

namespace Node

def span? : Node → Option Span
  | .leaf (.declaration d) => d.span
  | .leaf (.comment _ span) => span
  | .block (.rule _ span) _ => span
  | .block (.atRule _ _ span) _ => span
  | .block _ _ => none

def overlay? : Node → Option Overlay
  | .block (.context overlay) _ => some overlay
  | _ => none

theorem span?_withChildren (n : Node) (children : List Node) :
    (n.withChildren children).span? = n.span? := by
  cases n with
  | leaf => rfl
  | block head => cases head <;> rfl

theorem overlay?_withChildren (n : Node) (children : List Node) :
    (n.withChildren children).overlay? = n.overlay? := by
  cases n with
  | leaf => rfl
  | block head => cases head <;> rfl

end Node

namespace Pass

open Walk
open Node (unmarkedAll)

theorem ignoresMarks : visitor.IgnoresMarks where
  enter view view' n p := by
    rcases n with (d | ⟨text, span⟩) | ⟨head, children⟩
    · let d' : Declaration := { d with span := none }
      by_cases margin : d.property = "margin"
      · have margin' : d'.property = "margin" := margin
        rw [enter_margin view p margin]
        exact enter_margin view' p margin'
      · have margin' : d'.property ≠ "margin" := margin
        rw [enter_declaration view p margin]
        exact enter_declaration view' p margin'
    · rfl
    · have read : (Node.block head children).unmarked =
          .block head.unmarked (unmarkedAll children) := rfl
      have names := (Node.block head children).atRuleName?_unmarked
      rw [read] at names ⊢
      rw [enter_block, enter_block, isSupports, isStop, names, ← isSupports, ← isStop]
      split_ifs <;> rfl
  exit view view' n p := rfl

def isReplaced (n : Node) : Bool := isComment n || isMargin n

/-- Siblings and what is left of them: in the place of the replaced ones there are nodes without
spans, and the others are there with their kinds, their spans, their overlays, and what is left of
their children. -/
inductive Outlasts : List Node → List Node → List Node → Prop where
  | nil : Outlasts [] [] []
  | replaced {n : Node} {new rest left replaced : List Node} (gone : isReplaced n)
      (unplaced : ∀ n ∈ new, n.span? = none) (later : Outlasts replaced rest left) :
      Outlasts (n :: replaced) (n :: rest) (new ++ left)
  | kept {n n' : Node} {rest left replaced replaced' : List Node} (kind : n'.kind = n.kind)
      (span : n'.span? = n.span?) (overlay : n'.overlay? = n.overlay?)
      (inside : Outlasts replaced n.children n'.children) (later : Outlasts replaced' rest left) :
      Outlasts (replaced ++ replaced') (n :: rest) (n' :: left)

def replacedBy (calls : List (Call Pass)) : List Node :=
  (calls.filter (·.splices visitor)).map Call.node

namespace Outlasts

variable {n n' : Node} {rest left replaced new : List Node}

mutual

theorem node : (n : Node) → Outlasts [] n.children n.children
  | .leaf _ => .nil
  | .block _ children => refl children

theorem refl : (nodes : List Node) → Outlasts [] nodes nodes
  | [] => .nil
  | n :: rest => .kept rfl rfl rfl (node n) (refl rest)

end

theorem of_nil (outlasts : Outlasts replaced [] left) : replaced = [] ∧ left = [] := by
  cases outlasts
  exact ⟨rfl, rfl⟩

theorem children {nodes : List Node} (inside : Outlasts replaced n.children nodes) :
    Outlasts replaced n.children (n.withChildren nodes).children := by
  cases n with
  | leaf =>
      obtain ⟨rfl, -⟩ := inside.of_nil
      exact .nil
  | block => exact inside

theorem unplaced (outlasts : Outlasts replaced (new ++ rest) left)
    (stay : ∀ n ∈ new, isReplaced n = false ∧ n.children = [] ∧ n.span? = none) :
    ∃ new' left', left = new' ++ left' ∧ (∀ n ∈ new', n.span? = none) ∧
      Outlasts replaced rest left' := by
  induction new generalizing replaced left with
  | nil => exact ⟨[], left, rfl, nofun, outlasts⟩
  | cons n new ih =>
      obtain ⟨⟨stays, leaf, none⟩, others⟩ := List.forall_mem_cons.1 stay
      cases outlasts with
      | replaced gone => exact absurd gone (by simp [stays])
      | @kept _ n' _ left _ _ kind span overlay inside later =>
          rw [leaf] at inside
          obtain ⟨rfl, -⟩ := inside.of_nil
          obtain ⟨new', left', rfl, nones, later⟩ := ih later others
          exact ⟨n' :: new', left', rfl, List.forall_mem_cons.2 ⟨span.trans none, nones⟩, later⟩

end Outlasts

section
variable {view : View} {n : Node} {p : Pass} {nodes rest left replaced replaced' : List Node}
  {calls : List (Call Pass)}

theorem replacedBy_append (calls calls' : List (Call Pass)) :
    replacedBy (calls ++ calls') = replacedBy calls ++ replacedBy calls' := by
  simp [replacedBy]

theorem replacedBy_replaced {revisit : Bool}
    (verdict : (visitor.enter view n p).verdict = .replace nodes revisit) :
    replacedBy (⟨.enter, view, n, p⟩ :: calls) = n :: replacedBy calls := by
  have splices : Call.splices visitor ⟨.enter, view, n, p⟩ = true := by
    simp [Call.splices, Call.isEnter, Call.entered, verdict, Verdict.replaces]
  rw [replacedBy, List.filter_cons_of_pos splices]
  rfl

theorem replacedBy_kept (keeps : (visitor.enter view n p).verdict.replaces = false) :
    replacedBy (⟨.enter, view, n, p⟩ :: calls) = replacedBy calls := by
  have splices : ¬ Call.splices visitor ⟨.enter, view, n, p⟩ := by
    simp [Call.splices, Call.entered, keeps]
  rw [replacedBy, List.filter_cons_of_neg splices]
  rfl

theorem replacedBy_exit (view : View) (n : Node) (p : Pass) (calls : List (Call Pass)) :
    replacedBy (⟨.exit, view, n, p⟩ :: calls) = replacedBy calls := rfl

theorem unplaced_of_replaced {revisit : Bool}
    (verdict : (visitor.enter view n p).verdict = .replace nodes revisit) :
    isReplaced n ∧ ∀ m ∈ nodes, isReplaced m = false ∧ m.children = [] ∧ m.span? = none := by
  obtain ⟨d, margin, rfl, rfl⟩ | ⟨text, span, rfl, rfl⟩ := replaced_cases view p verdict
  · refine ⟨by simp [isReplaced, isMargin, Node.declaration?, margin], ?_⟩
    simp [marginBySide, sides, isReplaced, isComment, isMargin, Node.declaration?, Node.kind,
      Leaf.kind, Node.children, Node.span?]
  · exact ⟨rfl, by simp⟩

theorem entered_marks (view : View) (n : Node) (p : Pass) :
    (visitor.enter view n p).node.kind = n.kind ∧
      (visitor.enter view n p).node.span? = n.span? ∧
        (visitor.enter view n p).node.overlay? = n.overlay? := by
  rcases n with (d | ⟨text, span⟩) | ⟨head, children⟩
  · by_cases margin : d.property = "margin"
    · rw [enter_margin view p margin]
      exact ⟨rfl, rfl, rfl⟩
    · rw [enter_declaration view p margin]
      exact ⟨rfl, rfl, rfl⟩
  · exact ⟨rfl, rfl, rfl⟩
  · rw [enter_block]
    exact ⟨rfl, rfl, rfl⟩

theorem Outlasts.refill {e : Entered Pass} (entered : visitor.enter view n p = e)
    (inside : Outlasts replaced e.inside nodes) (later : Outlasts replaced' rest left) :
    Outlasts (replaced ++ replaced') (n :: rest) (e.refill nodes :: left) := by
  subst entered
  obtain ⟨kind, span, overlay⟩ := entered_marks view n p
  have children := entered_children view p n
  rw [Entered.inside] at inside
  rw [Entered.refill]
  generalize (visitor.enter view n p).verdict = verdict at inside ⊢
  cases verdict with
  | descend =>
      refine .kept ?_ ?_ ?_ (children ▸ inside.children) later
      · rw [Node.kind_withChildren, kind]
      · rw [Node.span?_withChildren, span]
      · rw [Node.overlay?_withChildren, overlay]
  | _ =>
      obtain ⟨rfl, -⟩ := inside.of_nil
      exact .kept kind span overlay (children ▸ .node n) later

theorem outlasts_sweep {index : Nat} {siblings : List Node} {run : Run Pass}
    (sweep : Sweep visitor view index siblings p calls run) :
    Outlasts (replacedBy calls) siblings run.nodes := by
  induction sweep with
  | nil => exact .nil
  | context _ _ _ within later =>
      rw [replacedBy_append]
      exact .kept rfl rfl rfl within later
  | contextHalt _ _ within =>
      rw [← List.append_nil (replacedBy _)]
      exact .kept rfl rfl rfl within (.refl _)
  | revisit _ entered verdict _ later =>
      subst entered
      rw [replacedBy_replaced verdict]
      obtain ⟨gone, stay⟩ := unplaced_of_replaced verdict
      obtain ⟨new, left, same, nones, later⟩ := later.unplaced stay
      rw [same]
      exact .replaced gone nones later
  | pass _ entered verdict _ later =>
      subst entered
      rw [replacedBy_replaced verdict]
      obtain ⟨gone, stay⟩ := unplaced_of_replaced verdict
      exact .replaced gone (fun m member => (stay m member).2.2) later
  | @halt _ _ _ rest _ e _ entered verdict =>
      have keeps : Verdict.replaces .halt = false := rfl
      rw [← verdict, ← entered] at keeps
      have inside : Outlasts [] e.inside [] := by
        rw [Entered.inside, verdict]
        exact .nil
      have left := inside.refill entered (.refl rest)
      rw [Entered.refill, verdict] at left
      rwa [replacedBy_kept keeps]
  | insideHalt _ entered stays _ _ within =>
      have keeps := entered ▸ Verdict.replaces_of_stays stays
      rw [replacedBy_kept keeps, ← List.append_nil (replacedBy _)]
      exact .refill entered within (.refl _)
  | exitHalt _ entered stays _ _ exited _ within =>
      have keeps := entered ▸ Verdict.replaces_of_stays stays
      subst exited
      rw [replacedBy_kept keeps, replacedBy_append]
      exact .refill entered within (.refl _)
  | exit _ entered stays _ _ exited _ _ within later =>
      have keeps := entered ▸ Verdict.replaces_of_stays stays
      subst exited
      rw [replacedBy_kept keeps, replacedBy_append, replacedBy_exit]
      exact .refill entered within later

end

def KeepsMarks (nodes : List Node) (p : Pass) (run : Run Pass) : Prop :=
  ∃ calls, (∀ (e : Engine) c, e.Walks visitor nodes p c run ↔ c = calls) ∧
    Outlasts (replacedBy calls) nodes run.nodes

theorem keepsMarks_sweep {nodes : List Node} {p : Pass} {calls : List (Call Pass)} {run : Run Pass}
    (sweep : Sweep visitor .root 0 nodes p calls run) : KeepsMarks nodes p run := by
  refine ⟨calls, fun e c => ?_, outlasts_sweep sweep⟩
  rw [Engine.walks_exactly sweep, eq_self_iff_true, and_true]

/-- A pass cannot tell trees apart that differ only in their spans and overlays: with either engine
it ends on each of them in one run, with the same outcome and the same counts, and what it leaves of
them differs only in spans and overlays again and prints as the same text. The nodes that it does
not replace keep their spans, and the contexts their overlays. -/
theorem walks_marks {a b : List Node} (same : unmarkedAll a = unmarkedAll b) (p : Pass) :
    ∃ run run' : Run Pass,
      (∀ (e : Engine) r, (∃ fuel, e.walk visitor fuel a p = some r) ↔ r = run) ∧
      (∀ (e : Engine) r, (∃ fuel, e.walk visitor fuel b p = some r) ↔ r = run') ∧
      run.outcome = run'.outcome ∧ run.state = run'.state ∧
      unmarkedAll run.nodes = unmarkedAll run'.nodes ∧ toCss run.nodes = toCss run'.nodes ∧
      KeepsMarks a p run ∧ KeepsMarks b p run' := by
  obtain ⟨_, run, sweep, -⟩ := yields_nodes a .root 0 p
  obtain ⟨_, run', sweep', -⟩ := yields_nodes b .root 0 p
  have walks : Engine.recursive.Walks visitor a p _ run := Engine.walks_sweep.2 sweep
  have walks' : Engine.recursive.Walks visitor b p _ run' := Engine.walks_sweep.2 sweep'
  have equal : run.unmarked = run'.unmarked := walks.unmarked_eq ignoresMarks same walks'
  have outcome : run.unmarked.outcome = run'.unmarked.outcome := congrArg Run.outcome equal
  have counts : run.unmarked.state = run'.unmarked.state := congrArg Run.state equal
  have nodes : unmarkedAll run.nodes = unmarkedAll run'.nodes := congrArg Run.nodes equal
  refine ⟨run, run', Engine.ends_exactly sweep, Engine.ends_exactly sweep', outcome, counts, nodes,
    ?_, keepsMarks_sweep sweep, keepsMarks_sweep sweep'⟩
  rw [← toCss_unmarked, nodes, toCss_unmarked]

theorem walks_marks_in_context :
    let tree (overlay : Overlay) (span : Option Span) : List Node :=
      [.context overlay [.leaf (.declaration ⟨"margin", none, true, span⟩),
        .block (.rule "a" span) [.leaf (.comment "y" span)]]]
    let run (overlay : Overlay) (span : Option Span) : Run Pass :=
      ⟨⟨7, 5, 2⟩, [.context overlay (longhands none ++ [.block (.rule "a" span) []])], none⟩
    let overlay := Overlay.empty.insert "x" (.flag true)
    let span : Option Span := some ⟨1, 2⟩
    recursive visitor 9 (tree overlay span) {} = some (run overlay span) ∧
      iterative visitor 18 (tree .empty none) {} = some (run .empty none) ∧
      KeepsMarks (tree overlay span) {} (run overlay span) := by
  intro tree run overlay span
  have ended : recursive visitor 9 (tree overlay span) {} = some (run overlay span) := by cbv
  have ended' : iterative visitor 18 (tree .empty none) {} = some (run .empty none) := by cbv
  have same : unmarkedAll (tree overlay span) = unmarkedAll (tree .empty none) := rfl
  obtain ⟨_, _, ends, -, -, -, -, -, keeps, -⟩ := walks_marks same {}
  cases (ends .recursive (run overlay span)).1 ⟨9, ended⟩
  exact ⟨ended, ended', keeps⟩

end Pass
end StyleTree
