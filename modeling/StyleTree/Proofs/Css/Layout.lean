import StyleTree.Css
import Mathlib

namespace StyleTree

namespace Node

mutual

def preorder : Node → List Node
  | .leaf l => [.leaf l]
  | .block head children => .block head children :: preorders children

def preorders : List Node → List Node
  | [] => []
  | n :: rest => preorder n ++ preorders rest

end

def texts : Node → List String
  | .leaf (.declaration d) => d.property :: d.value.toList
  | .leaf (.comment text _) => [text]
  | .block (.rule selector _) _ => [selector]
  | .block (.atRule name params _) _ => [name, params]
  | .block (.context _) _ => []
  | .block .atRoot _ => []

def isRule (n : Node) : Bool := n.kind = .rule

def isFilledAtRule (n : Node) : Bool := n.kind = .atRule && !n.children.isEmpty

end Node

namespace Css

/-- The line that a node begins with. Wrappers and declarations without a value have none. -/
def headline : Node → Option String
  | .leaf (.declaration d) => d.value.map fun value =>
      d.property ++ ": " ++ value ++ (if d.important then " !important" else "") ++ ";"
  | .leaf (.comment text _) => some ("/*" ++ text ++ "*/")
  | .block (.rule selector _) _ => some (selector ++ " \x7b")
  | .block (.atRule name params _) children =>
      some ((if params.isEmpty then name else name ++ " " ++ params) ++
        if children.isEmpty then ";" else " \x7b")
  | .block (.context _) _ => none
  | .block .atRoot _ => none

def Line.raw (l : Line) : String := String.ofList (List.replicate (2 * l.depth) ' ') ++ l.text

def isClosing (line : String) : Bool := line.toList.dropWhile (· = ' ') = ['}']

def isOpening (line : String) : Bool := [' ', '{'].isSuffixOf line.toList

/-- The counter at each of the lines and, last, behind all of them. A closing line lowers it, and an
opening line raises it for what follows. -/
def levels (level : Int) : List String → List Int
  | [] => [level]
  | line :: rest =>
      let here := if isClosing line then level - 1 else level
      here :: levels (if isOpening line then here + 1 else here) rest

def Plain (s : String) : Prop := ∀ c ∈ s.toList, c ∉ ['\n', '{', '}']

theorem Plain.append {s t : String} (plain : Plain s) (plain' : Plain t) : Plain (s ++ t) := by
  intro c member
  rw [String.toList_append] at member
  exact (List.mem_append.1 member).elim (plain c) (plain' c)

theorem Plain.not_mem {s : String} (plain : Plain s) : '\n' ∉ s.toList ∧ '}' ∉ s.toList :=
  ⟨fun member => plain _ member (by simp), fun member => plain _ member (by simp)⟩

theorem toList_raw (l : Line) :
    l.raw.toList = List.replicate (2 * l.depth) ' ' ++ l.text.toList := by
  rw [Line.raw, String.toList_append, String.toList_ofList]

theorem toList_indent (n : Nat) :
    (String.join (List.replicate n "  ")).toList = List.replicate (2 * n) ' ' := by
  induction n with
  | zero => rfl
  | succ n ih =>
      rw [List.replicate_succ, String.join_cons, String.toList_append, ih, Nat.mul_succ,
        Nat.add_comm, List.replicate_add]
      rfl

theorem render_eq (l : Line) : l.render = l.raw ++ "\n" := by
  rw [← String.toList_inj, Line.render, String.toList_append, String.toList_append, toList_indent,
    String.toList_append, toList_raw]

theorem isClosing_raw (l : Line) : isClosing l.raw = isClosing l.text := by
  have skip (n : Nat) (text : List Char) :
      (List.replicate n ' ' ++ text).dropWhile (· = ' ') = text.dropWhile (· = ' ') :=
    List.dropWhile_append_of_pos fun c member => by simp [List.eq_of_mem_replicate member]
  rw [isClosing, isClosing, toList_raw, skip]

theorem not_isClosing {line : String} (plain : '}' ∉ line.toList) : isClosing line = false := by
  rw [isClosing, decide_eq_false_iff_not]
  intro closing
  have member : '}' ∈ line.toList.dropWhile (· = ' ') := by
    rw [closing]
    exact List.mem_singleton.2 rfl
  exact plain ((List.dropWhile_sublist _).subset member)

theorem isOpening_append (depth : Nat) (text : String) :
    isOpening (Line.raw ⟨depth, text ++ " \x7b"⟩) := by
  rw [isOpening, List.isSuffixOf_iff_suffix, toList_raw, String.toList_append, ← List.append_assoc]
  exact List.suffix_append _ _

theorem not_isOpening (depth : Nat) (text : String) {last : String} {c : Char}
    (ends : last.toList.getLast? = some c) (other : c ≠ '{') :
    isOpening (Line.raw ⟨depth, text ++ last⟩) = false := by
  rw [isOpening, Bool.eq_false_iff]
  intro opening
  rw [List.isSuffixOf_iff_suffix, toList_raw, String.toList_append, ← List.append_assoc] at opening
  obtain ⟨before, same⟩ := opening
  have brace := congrArg List.getLast? same
  rw [List.getLast?_append, List.getLast?_append, ends] at brace
  cases brace
  exact other rfl

theorem brace_raw (depth : Nat) : isClosing (Line.raw ⟨depth, "\x7d"⟩) = true ∧
    isOpening (Line.raw ⟨depth, "\x7d"⟩) = false := by
  have last : "\x7d".toList.getLast? = some '}' := rfl
  have noOpening := not_isOpening depth "" last (by decide)
  rw [String.empty_append] at noOpening
  rw [isClosing_raw]
  exact ⟨by simp [isClosing], noOpening⟩

structure LaidOut (depth : Nat) (ls : List Line) (nodes : List Node) : Prop where
  unbroken : ∀ l ∈ ls, '\n' ∉ l.text.toList
  leveled : ∀ rest, levels depth (ls.map Line.raw ++ rest) =
    ls.map (fun l => (l.depth : Int)) ++ levels depth rest
  opened : (ls.map Line.raw).countP isOpening =
    nodes.countP Node.isRule + nodes.countP Node.isFilledAtRule
  told : (ls.filter fun l => !isClosing l.raw).map Line.text = nodes.filterMap headline
  closed : ∀ l ∈ ls, isClosing l.raw → l.text = "\x7d"

namespace LaidOut

variable {depth : Nat} {ls ls' : List Line} {nodes nodes' : List Node} {n : Node} {text : String}

theorem nil (depth : Nat) : LaidOut depth [] [] := ⟨nofun, fun _ => rfl, rfl, rfl, nofun⟩

theorem append (first : LaidOut depth ls nodes) (later : LaidOut depth ls' nodes') :
    LaidOut depth (ls ++ ls') (nodes ++ nodes') where
  unbroken l member := (List.mem_append.1 member).elim (first.unbroken l) (later.unbroken l)
  leveled rest := by
    rw [List.map_append, List.append_assoc, first.leveled, later.leveled, List.map_append,
      List.append_assoc]
  opened := by
    have first := first.opened
    have later := later.opened
    simp only [List.map_append, List.countP_append]
    omega
  told := by rw [List.filter_append, List.map_append, first.told, later.told, List.filterMap_append]
  closed l member := (List.mem_append.1 member).elim (first.closed l) (later.closed l)

theorem hidden (silent : headline n = none) (noRule : n.isRule = false)
    (noAtRule : n.isFilledAtRule = false) (inside : LaidOut depth ls nodes) :
    LaidOut depth ls (n :: nodes) where
  unbroken := inside.unbroken
  leveled := inside.leveled
  opened := by
    rw [inside.opened, List.countP_cons_of_neg (by simp [noRule]),
      List.countP_cons_of_neg (by simp [noAtRule])]
  told := by rw [inside.told, List.filterMap_cons_none silent]
  closed := inside.closed

theorem statement (plain : Plain text) (shut : isOpening (Line.raw ⟨depth, text⟩) = false)
    (shows : headline n = some text) (noRule : n.isRule = false)
    (noAtRule : n.isFilledAtRule = false) : LaidOut depth [⟨depth, text⟩] [n] := by
  have ⟨noBreak, noBrace⟩ := plain.not_mem
  have other : isClosing (Line.raw ⟨depth, text⟩) = false := by
    rw [isClosing_raw]
    exact not_isClosing noBrace
  constructor
  · rintro l ⟨⟩
    · exact noBreak
    · contradiction
  · intro rest
    simp [levels, other, shut]
  · simp [shut, noRule, noAtRule]
  · simp [other, shows]
  · rintro l ⟨⟩ closing
    · rw [other] at closing
      cases closing
    · contradiction

theorem block {inner : List Line} (plain : Plain text) (shows : headline n = some (text ++ " \x7b"))
    (counts : [n].countP Node.isRule + [n].countP Node.isFilledAtRule = 1)
    (inside : LaidOut (depth + 1) inner nodes) :
    LaidOut depth (blockLines depth text inner) (n :: nodes) := by
  have ⟨noBreak, noBrace⟩ := plain.not_mem
  have noClosing : isClosing (Line.raw ⟨depth, text ++ " \x7b"⟩) = false := by
    rw [isClosing_raw]
    exact not_isClosing (by simp [noBrace])
  have ⟨closing, noOpening⟩ := brace_raw depth
  have opening := isOpening_append depth text
  constructor
  · intro l member
    rcases List.mem_cons.1 member with rfl | member
    · simp [noBreak]
    rcases List.mem_append.1 member with member | member
    · exact inside.unbroken l member
    · simp [List.mem_singleton.1 member]
  · intro rest
    have leveled := inside.leveled (Line.raw ⟨depth, "\x7d"⟩ :: rest)
    simp only [Nat.cast_add, Nat.cast_one] at leveled
    simp [blockLines, levels, noClosing, opening, leveled, closing, noOpening]
  · have opened := inside.opened
    have first : (n :: nodes).countP Node.isRule + (n :: nodes).countP Node.isFilledAtRule =
        1 + (nodes.countP Node.isRule + nodes.countP Node.isFilledAtRule) := by
      rw [← List.singleton_append, List.countP_append, List.countP_append]
      omega
    rw [first, ← opened]
    simp [blockLines, opening, noOpening, Nat.add_comm]
  · have told := inside.told
    simp [blockLines, noClosing, closing, told, shows]
  · intro l member isClosing
    rcases List.mem_cons.1 member with rfl | member
    · rw [noClosing] at isClosing
      cases isClosing
    rcases List.mem_append.1 member with member | member
    · exact inside.closed l member isClosing
    · rw [List.mem_singleton.1 member]

end LaidOut

theorem plain_declarationText {d : Declaration} {value : String} (property : Plain d.property)
    (plain : Plain value) : Plain (declarationText d value) := by
  have colon : Plain ": " := by simp [Plain]
  have mark : Plain (if d.important then " !important" else "") := by
    split <;> simp [Plain]
  have semicolon : Plain ";" := by simp [Plain]
  exact (((property.append colon).append plain).append mark).append semicolon

theorem plain_atRuleText {name params : String} (plain : Plain name) (plain' : Plain params) :
    Plain (atRuleText name params) := by
  have blank : Plain " " := by simp [Plain]
  rw [atRuleText]
  split
  · exact plain
  · exact (plain.append blank).append plain'

mutual

theorem laidOut_lines : (n : Node) → (∀ m ∈ n.preorder, ∀ s ∈ m.texts, Plain s) → (depth : Nat) →
    LaidOut depth (lines depth n) n.preorder
  | .leaf (.declaration d), plain, depth => by
      have plain := plain _ (List.mem_singleton.2 rfl)
      rw [lines, leafLines, Node.preorder]
      cases value : d.value with
      | none =>
          have silent : headline (.leaf (.declaration d)) = none := by rw [headline, value]; rfl
          exact .hidden silent rfl rfl (.nil depth)
      | some v =>
          have text := plain_declarationText (plain d.property (by simp [Node.texts]))
            (plain v (by simp [Node.texts, value]))
          have shows : headline (.leaf (.declaration d)) = some (declarationText d v) := by
            rw [headline, value]
            rfl
          have semicolon : ";".toList.getLast? = some ';' := rfl
          exact .statement text (not_isOpening depth _ semicolon (by decide)) shows rfl rfl
  | .leaf (.comment text span), plain, depth => by
      have plain := plain _ (List.mem_singleton.2 rfl) text (List.mem_singleton.2 rfl)
      have opens : Plain "/*" := by simp [Plain]
      have closes : Plain "*/" := by simp [Plain]
      have whole := (opens.append plain).append closes
      have slash : "*/".toList.getLast? = some '/' := rfl
      exact .statement whole (not_isOpening depth _ slash (by decide)) rfl rfl rfl
  | .block (.rule selector span) children, plain, depth => by
      rw [Node.preorder] at plain ⊢
      have inside := laidOut_linesOf children
        (fun m member => plain m (List.mem_cons_of_mem _ member)) (depth + 1)
      have plain := plain _ List.mem_cons_self selector (List.mem_singleton.2 rfl)
      rw [lines]
      exact .block plain rfl rfl inside
  | .block (.atRule name params span) children, plain, depth => by
      rw [Node.preorder] at plain ⊢
      have inside := laidOut_linesOf children
        (fun m member => plain m (List.mem_cons_of_mem _ member)) (depth + 1)
      have plain := plain _ List.mem_cons_self
      have text := plain_atRuleText (plain name (by simp [Node.texts]))
        (plain params (by simp [Node.texts]))
      cases children with
      | nil =>
          have semicolon : ";".toList.getLast? = some ';' := rfl
          have ends : Plain ";" := by simp [Plain]
          rw [lines, Node.preorders]
          exact .statement (text.append ends) (not_isOpening depth _ semicolon (by decide)) rfl rfl
            rfl
      | cons child children =>
          rw [lines]
          exact .block text rfl rfl inside
  | .block (.context overlay) children, plain, depth => by
      rw [Node.preorder] at plain ⊢
      rw [lines]
      exact .hidden rfl rfl rfl (laidOut_linesOf children
        (fun m member => plain m (List.mem_cons_of_mem _ member)) depth)
  | .block .atRoot children, plain, depth => by
      rw [Node.preorder] at plain ⊢
      rw [lines]
      exact .hidden rfl rfl rfl (laidOut_linesOf children
        (fun m member => plain m (List.mem_cons_of_mem _ member)) depth)

theorem laidOut_linesOf : (nodes : List Node) →
    (∀ m ∈ Node.preorders nodes, ∀ s ∈ m.texts, Plain s) → (depth : Nat) →
      LaidOut depth (linesOf depth nodes) (Node.preorders nodes)
  | [], _, depth => .nil depth
  | n :: rest, plain, depth => by
      rw [Node.preorders] at plain ⊢
      have first := laidOut_lines n (fun m member => plain m (List.mem_append_left _ member)) depth
      have later :=
        laidOut_linesOf rest (fun m member => plain m (List.mem_append_right _ member)) depth
      exact first.append later

end

end Css

/-- The stylesheet of a tree whose strings hold no line breaks and no braces. It consists of lines,
each ended by a line break. A counter that the closing lines lower and the opening lines raise is
never negative and ends at zero, and every line has two blanks for each unit of it. The opening
lines are as many as the rules and the at-rules with something in them. But for the closing lines,
which are nothing but a brace, the lines are those that the nodes begin with, in document order. -/
theorem toCss_layout {nodes : List Node}
    (plain : ∀ n ∈ Node.preorders nodes, ∀ s ∈ n.texts, Css.Plain s) :
    ∃ ls : List Css.Line,
      toCss nodes = String.join (ls.map fun l => l.raw ++ "\n") ∧
      (∀ l ∈ ls, '\n' ∉ l.raw.toList) ∧
      Css.levels 0 (ls.map Css.Line.raw) = ls.map (fun l => (l.depth : Int)) ++ [0] ∧
      (ls.map Css.Line.raw).countP Css.isOpening =
        (Node.preorders nodes).countP Node.isRule +
          (Node.preorders nodes).countP Node.isFilledAtRule ∧
      (ls.filter fun l => !Css.isClosing l.raw).map Css.Line.text =
        (Node.preorders nodes).filterMap Css.headline ∧
      ∀ l ∈ ls, Css.isClosing l.raw → l.text = "\x7d" := by
  have laidOut := Css.laidOut_linesOf nodes plain 0
  refine ⟨Css.linesOf 0 nodes, ?_, fun l member => ?_, ?_, laidOut.opened, laidOut.told,
    laidOut.closed⟩
  · rw [toCss, Css.render, funext Css.render_eq]
  · have noBreak := laidOut.unbroken l member
    simp [Css.toList_raw, noBreak]
  · have leveled := laidOut.leveled []
    rw [List.append_nil] at leveled
    exact leveled

theorem toCss_layout_hoisted :
    let nodes : List Node := [.rule "a" [.atRoot [.atRule "@media" "print" [
      .context .empty [.declaration "color" "red" true], .declaration "top" "0" false,
      .leaf (.declaration ⟨"left", none, false, none⟩), .atRule "@layer" "" []]]], .comment "b"]
    ∃ ls : List Css.Line, toCss nodes = String.join (ls.map fun l => l.raw ++ "\n") ∧
      (ls.map Css.Line.raw).countP Css.isOpening = 2 ∧
      (ls.filter fun l => !Css.isClosing l.raw).map Css.Line.text =
        ["a \x7b", "@media print \x7b", "color: red !important;", "top: 0;", "@layer;",
          "/*b*/"] := by
  intro nodes
  have plain : ∀ n ∈ Node.preorders nodes, ∀ s ∈ n.texts, Css.Plain s := by
    simp [nodes, Node.rule, Node.atRoot, Node.atRule, Node.context, Node.comment, Node.declaration,
      Node.preorders, Node.preorder, Node.texts, Css.Plain]
  have blocks : (Node.preorders nodes).countP Node.isRule +
      (Node.preorders nodes).countP Node.isFilledAtRule = 2 := by decide
  have headlines : (Node.preorders nodes).filterMap Css.headline =
      ["a \x7b", "@media print \x7b", "color: red !important;", "top: 0;", "@layer;",
        "/*b*/"] := by decide
  obtain ⟨ls, text, -, -, opened, told, -⟩ := toCss_layout plain
  rw [blocks] at opened
  rw [headlines] at told
  exact ⟨ls, text, opened, told⟩

end StyleTree
