import StyleTree.Css
import Mathlib.Data.List.Basic

namespace StyleTree

structure Ring where
  before : List Node
  head : Head
  after : List Node

def Ring.around (r : Ring) (children : List Node) : List Node :=
  r.before ++ .block r.head children :: r.after

/-- A place in a tree: the siblings before and after it, and the blocks around it, the innermost
first. -/
structure Place where
  before : List Node
  after : List Node
  rings : List Ring

namespace Place

def siblings (place : Place) (nodes : List Node) : List Node :=
  place.before ++ (nodes ++ place.after)

def enclose (rings : List Ring) (nodes : List Node) : List Node :=
  rings.foldl (fun nodes ring => ring.around nodes) nodes

def fill (place : Place) (nodes : List Node) : List Node :=
  enclose place.rings (place.siblings nodes)

def IsAllOfAtRule (place : Place) : Prop :=
  place.before = [] ∧ place.after = [] ∧ ∃ ring ∈ place.rings.head?, ring.head.kind = .atRule

end Place

namespace Css

theorem render_append (a b : List Line) : render (a ++ b) = render a ++ render b := by
  simp [render]

theorem linesOf_append (depth : Nat) (a b : List Node) :
    linesOf depth (a ++ b) = linesOf depth a ++ linesOf depth b := by
  induction a with
  | nil => simp [linesOf]
  | cons n a ih => simp [linesOf, ih]

theorem lines_wrapper {w : Node} (wrapper : w.kind = .context ∨ w.kind = .atRoot) (depth : Nat) :
    lines depth w = linesOf depth w.children := by
  rcases w with (d | ⟨text, span⟩) | ⟨_ | _ | _ | _, children⟩
  case block.context | block.atRoot => rw [lines, Node.children]
  all_goals rcases wrapper with wrapper | wrapper <;> cases wrapper

theorem linesOf_around (depth : Nat) (ring : Ring) (children : List Node) :
    linesOf depth (ring.around children) = linesOf depth ring.before ++
      (lines depth (.block ring.head children) ++ linesOf depth ring.after) := by
  rw [Ring.around, linesOf_append, linesOf]

end Css

open Css

/-! ## The same text -/

section
variable {a b : List Node}

-- only an at-rule asks whether there is anything in it
theorem lines_block_congr {head : Head} (same : ∀ depth, linesOf depth a = linesOf depth b)
    (empty : head.kind = .atRule → (a = [] ↔ b = [])) (depth : Nat) :
    lines depth (.block head a) = lines depth (.block head b) := by
  cases head with
  | atRule name params span =>
      simp only [lines, List.isEmpty_iff, empty rfl, same (depth + 1)]
  | rule selector span => rw [lines, lines, same]
  | context overlay => rw [lines, lines, same]
  | atRoot => rw [lines, lines, same]

theorem Ring.around_ne_nil (ring : Ring) (children : List Node) : ring.around children ≠ [] := by
  simp [around]

theorem Place.linesOf_enclose {rings : List Ring}
    (same : ∀ depth, linesOf depth a = linesOf depth b)
    (empty : ∀ ring ∈ rings.head?, ring.head.kind = .atRule → (a = [] ↔ b = [])) (depth : Nat) :
    linesOf depth (enclose rings a) = linesOf depth (enclose rings b) := by
  induction rings generalizing a b with
  | nil => exact same depth
  | cons ring rings ih =>
      have around (depth : Nat) :
          linesOf depth (ring.around a) = linesOf depth (ring.around b) := by
        rw [linesOf_around, linesOf_around, lines_block_congr same (empty ring rfl)]
      have filled : ring.around a = [] ↔ ring.around b = [] :=
        ⟨fun h => absurd h (ring.around_ne_nil a), fun h => absurd h (ring.around_ne_nil b)⟩
      exact ih around fun _ _ _ => filled

end

/-! ## A longer text -/

def Css.extent (ls : List Line) : Nat := (render ls).length

theorem Css.extent_append (a b : List Line) : extent (a ++ b) = extent a + extent b := by
  rw [extent, render_append, String.length_append]
  rfl

theorem Css.extent_blockLines (depth : Nat) (text : String) (inner : List Line) :
    extent (blockLines depth text inner) =
      extent [⟨depth, text ++ " \x7b"⟩] + (extent inner + extent [⟨depth, "\x7d"⟩]) := by
  rw [← extent_append, ← extent_append]
  rfl

theorem Css.extent_statement (depth : Nat) (text : String) (inner : List Line) :
    extent [⟨depth, text ++ ";"⟩] < extent (blockLines depth text inner) := by
  have opening : extent [⟨depth, text ++ ";"⟩] ≤ extent [⟨depth, text ++ " \x7b"⟩] := by
    have short : ";".length ≤ " \x7b".length := by decide
    simp only [extent, render, List.map_cons, List.map_nil, String.join_cons, String.join_nil,
      Line.render, String.length_append]
    omega
  have closing : 0 < extent [⟨depth, "\x7d"⟩] := by
    have some : 0 < "\x7d".length := by decide
    simp only [extent, render, List.map_cons, List.map_nil, String.join_cons, String.join_nil,
      Line.render, String.length_append]
    omega
  rw [extent_blockLines]
  omega

section
variable {a b : List Node}

theorem lines_block_longer {head : Head}
    (less : ∀ depth, extent (linesOf depth a) < extent (linesOf depth b))
    (filled : a ≠ []) (filled' : b ≠ []) (depth : Nat) :
    extent (lines depth (.block head a)) < extent (lines depth (.block head b)) := by
  have block (text : String) : extent (blockLines depth text (linesOf (depth + 1) a)) <
      extent (blockLines depth text (linesOf (depth + 1) b)) := by
    have inner := less (depth + 1)
    rw [extent_blockLines, extent_blockLines]
    omega
  cases head with
  | atRule name params span =>
      simp only [lines, List.isEmpty_iff, filled, filled', if_false]
      exact block _
  | rule selector span =>
      rw [lines, lines]
      exact block selector
  | context overlay =>
      rw [lines, lines]
      exact less depth
  | atRoot =>
      rw [lines, lines]
      exact less depth

theorem Ring.linesOf_longer {ring : Ring} (less : ∀ depth,
      extent (lines depth (.block ring.head a)) < extent (lines depth (.block ring.head b)))
    (depth : Nat) :
    extent (linesOf depth (ring.around a)) < extent (linesOf depth (ring.around b)) := by
  have block := less depth
  simp only [linesOf_around, extent_append]
  omega

theorem Place.linesOf_enclose_longer {rings : List Ring}
    (less : ∀ depth, extent (linesOf depth a) < extent (linesOf depth b))
    (filled : a ≠ []) (filled' : b ≠ []) (depth : Nat) :
    extent (linesOf depth (enclose rings a)) < extent (linesOf depth (enclose rings b)) := by
  induction rings generalizing a b with
  | nil => exact less depth
  | cons ring rings ih =>
      exact ih (Ring.linesOf_longer (lines_block_longer less filled filled'))
        (ring.around_ne_nil a) (ring.around_ne_nil b)

end

section
variable {w : Node} {place : Place}

theorem Place.linesOf_siblings (wrapper : w.kind = .context ∨ w.kind = .atRoot) (place : Place)
    (depth : Nat) :
    linesOf depth (place.siblings w.children) = linesOf depth (place.siblings [w]) := by
  simp only [siblings, linesOf_append, linesOf, lines_wrapper wrapper, List.append_nil]

theorem toCss_unwrap_same (wrapper : w.kind = .context ∨ w.kind = .atRoot)
    (stays : ¬ (w.children = [] ∧ place.IsAllOfAtRule)) :
    toCss (place.fill w.children) = toCss (place.fill [w]) := by
  have filled : place.siblings [w] ≠ [] := by simp [Place.siblings]
  have empty : ∀ ring ∈ place.rings.head?, ring.head.kind = .atRule →
      (place.siblings w.children = [] ↔ place.siblings [w] = []) := by
    intro ring inner atRule
    refine ⟨fun gone => ?_, fun gone => absurd gone filled⟩
    simp only [Place.siblings, List.append_eq_nil_iff] at gone
    exact absurd ⟨gone.2.1, gone.1, gone.2.2, ring, inner, atRule⟩ stays
  exact congrArg render (Place.linesOf_enclose (place.linesOf_siblings wrapper) empty 0)

theorem toCss_unwrap_shorter (empty : w.children = []) (all : place.IsAllOfAtRule) :
    (toCss (place.fill w.children)).length < (toCss (place.fill [w])).length := by
  obtain ⟨before, after, rings⟩ := place
  obtain ⟨rfl, rfl, ring, inner, atRule⟩ := all
  obtain ⟨rings, rfl⟩ : ∃ outer, rings = ring :: outer := by
    cases rings with
    | nil => cases inner
    | cons ring' outer =>
        cases inner
        exact ⟨outer, rfl⟩
  have nothing : Place.siblings ⟨[], [], ring :: rings⟩ w.children = [] := by
    simp [Place.siblings, empty]
  have alone : Place.siblings ⟨[], [], ring :: rings⟩ [w] = [w] := rfl
  have less (depth : Nat) : extent (lines depth (.block ring.head [])) <
      extent (lines depth (.block ring.head [w])) := by
    cases head : ring.head with
    | atRule name params span =>
        simp only [lines, List.isEmpty_nil, List.isEmpty_cons, if_true, if_false,
          Bool.false_eq_true]
        exact extent_statement ..
    | _ =>
        rw [head] at atRule
        cases atRule
  rw [Place.fill, Place.fill, nothing, alone]
  exact Place.linesOf_enclose_longer (Ring.linesOf_longer less) (ring.around_ne_nil [])
    (ring.around_ne_nil [w]) 0

end

/-- A wrapper, which is a context or a hoisted block, may stand anywhere in a tree. The tree with
the children of the wrapper in its place has the same stylesheet, except exactly if the wrapper is
empty and an at-rule has no other child. Such an at-rule is printed as a block with the wrapper, and
as a statement without it. -/
theorem toCss_unwrap (place : Place) {w : Node} (wrapper : w.kind = .context ∨ w.kind = .atRoot) :
    toCss (place.fill w.children) = toCss (place.fill [w]) ↔
      ¬ (w.children = [] ∧ place.IsAllOfAtRule) := by
  constructor
  · rintro same ⟨empty, all⟩
    have shorter := toCss_unwrap_shorter empty all
    rw [same] at shorter
    exact Nat.lt_irrefl _ shorter
  · exact toCss_unwrap_same wrapper

theorem toCss_unwrap_alone :
    let place : Place := ⟨[], [], [⟨[], .atRule "@layer" "" none, []⟩, ⟨[], .rule "a" none, []⟩]⟩
    let statement : Node := .atRule "@import" "b" []
    toCss (place.fill []) ≠ toCss (place.fill [.atRoot []]) ∧
      toCss (place.fill [statement]) = toCss (place.fill [.context .empty [statement]]) := by
  intro place statement
  have hoisted : (Node.atRoot []).kind = .atRoot := rfl
  have context : (Node.context .empty [statement]).kind = .context := rfl
  constructor
  · intro same
    exact (toCss_unwrap place (.inr hoisted)).1 same ⟨rfl, rfl, rfl, _, rfl, rfl⟩
  · refine (toCss_unwrap place (.inl context)).2 ?_
    rintro ⟨⟨⟩, -⟩

end StyleTree
