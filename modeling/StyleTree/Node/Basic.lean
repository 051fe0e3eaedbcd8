import StyleTree.Overlay

/-!
Style trees. A leaf is a declaration or a comment; a block is a head with a list of children.
A block whose head is a context only lays an overlay over what is inside it, and counts as no
level of its own.
-/

namespace StyleTree

/-- Where a node stood in its source: byte offsets, the second one exclusive. -/
structure Span where
  start : UInt32
  stop : UInt32
  deriving DecidableEq, Inhabited

structure Declaration where
  property : String
  value : Option String
  important : Bool
  span : Option Span
  deriving DecidableEq, Inhabited

inductive Leaf where
  | declaration (d : Declaration)
  | comment (text : String) (span : Option Span)
  deriving DecidableEq, Inhabited

inductive Head where
  | rule (selector : String) (span : Option Span)
  | atRule (name params : String) (span : Option Span)
  | context (overlay : Overlay)
  | atRoot
  deriving DecidableEq, Inhabited

inductive Node where
  | leaf (l : Leaf)
  | block (head : Head) (children : List Node)
  deriving Inhabited

inductive Kind where
  | rule
  | declaration
  | atRule
  | comment
  | context
  | atRoot
  deriving DecidableEq, Inhabited

namespace Kind

def all : List Kind := [.rule, .declaration, .atRule, .comment, .context, .atRoot]

def tag : Kind → String
  | .rule => "rule"
  | .declaration => "declaration"
  | .atRule => "at-rule"
  | .comment => "comment"
  | .context => "context"
  | .atRoot => "at-root"

def ofTag? (tag : String) : Option Kind := all.find? (·.tag = tag)

theorem ofTag?_tag (k : Kind) : ofTag? k.tag = some k := by cases k <;> decide

def name : Kind → String
  | .rule => "Rule"
  | .declaration => "Declaration"
  | .atRule => "AtRule"
  | .comment => "Comment"
  | .context => "Context"
  | .atRoot => "AtRoot"

def isContainer : Kind → Bool
  | .declaration => false
  | .comment => false
  | _ => true

end Kind

def Leaf.kind : Leaf → Kind
  | .declaration _ => .declaration
  | .comment .. => .comment

namespace Head

def kind : Head → Kind
  | .rule .. => .rule
  | .atRule .. => .atRule
  | .context _ => .context
  | .atRoot => .atRoot

def isContext : Head → Bool
  | .context _ => true
  | _ => false

end Head

namespace Node

mutual

def decEq : (a b : Node) → Decidable (a = b)
  | .leaf l, .leaf m => decidable_of_iff (l = m) (by simp)
  | .leaf _, .block .. => isFalse nofun
  | .block .., .leaf _ => isFalse nofun
  | .block h xs, .block k ys =>
      match decEqList xs ys with
      | isTrue e => decidable_of_iff (h = k) (by simp [e])
      | isFalse ne => isFalse fun same => ne (by injection same)

def decEqList : (xs ys : List Node) → Decidable (xs = ys)
  | [], [] => isTrue rfl
  | [], _ :: _ => isFalse nofun
  | _ :: _, [] => isFalse nofun
  | x :: xs, y :: ys =>
      match decEq x y with
      | isTrue e =>
          match decEqList xs ys with
          | isTrue es => isTrue (by rw [e, es])
          | isFalse ne => isFalse fun same => ne (by injection same)
      | isFalse ne => isFalse fun same => ne (by injection same)

end

instance : DecidableEq Node := decEq

def kind : Node → Kind
  | .leaf l => l.kind
  | .block h _ => h.kind

def children? : Node → Option (List Node)
  | .leaf _ => none
  | .block _ children => some children

def children : Node → List Node
  | .leaf _ => []
  | .block _ children => children

def withChildren : Node → List Node → Node
  | .leaf l, _ => .leaf l
  | .block h _, children => .block h children

def bare (n : Node) : Node := n.withChildren []

@[simp] theorem withChildren_children (n : Node) : n.withChildren n.children = n := by
  cases n <;> rfl

@[simp] theorem withChildren_withChildren (n : Node) (xs ys : List Node) :
    (n.withChildren xs).withChildren ys = n.withChildren ys := by cases n <;> rfl

@[simp] theorem kind_withChildren (n : Node) (xs : List Node) :
    (n.withChildren xs).kind = n.kind := by cases n <;> rfl

theorem kind_bare (n : Node) : n.bare.kind = n.kind := n.kind_withChildren []

theorem isSome_children? (n : Node) : n.children?.isSome = n.kind.isContainer := by
  cases n with
  | leaf l => cases l <;> rfl
  | block h _ => cases h <;> rfl

theorem exists_of_context {n : Node} (h : n.kind = .context) :
    ∃ overlay children, n = .block (.context overlay) children := by
  cases n with
  | leaf l => cases l <;> cases h
  | block head children =>
      cases head with
      | context overlay => exact ⟨overlay, children, rfl⟩
      | _ => cases h

def text : Node → String
  | .leaf (.declaration d) => d.property
  | .leaf (.comment text _) => text
  | .block (.rule selector _) _ => selector
  | .block (.atRule name ..) _ => name
  | .block _ _ => ""

def withText (s : String) : Node → Node
  | .leaf (.declaration d) => .leaf (.declaration { d with property := s })
  | .leaf (.comment _ span) => .leaf (.comment s span)
  | .block (.rule _ span) xs => .block (.rule s span) xs
  | .block (.atRule _ params span) xs => .block (.atRule s params span) xs
  | n => n

def declaration? : Node → Option Declaration
  | .leaf (.declaration d) => some d
  | _ => none

def selector? : Node → Option String
  | .block (.rule selector _) _ => some selector
  | _ => none

def atRuleName? : Node → Option String
  | .block (.atRule name ..) _ => some name
  | _ => none

def rule (selector : String) (children : List Node) : Node := .block (.rule selector none) children

def declaration (property value : String) (important : Bool) : Node :=
  .leaf (.declaration ⟨property, some value, important, none⟩)

def atRule (name params : String) (children : List Node) : Node :=
  .block (.atRule name params none) children

def comment (text : String) : Node := .leaf (.comment text none)

def context (overlay : Overlay) (children : List Node) : Node := .block (.context overlay) children

def atRoot (children : List Node) : Node := .block .atRoot children

end Node
end StyleTree
