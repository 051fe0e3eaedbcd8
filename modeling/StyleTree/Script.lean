import StyleTree.Walk.Config

/-!
Scripted visitors: a list of rules, of which the first that fits a hook call is carried out. A
script ends its walk by itself after a number of enter calls, and can keep a record of its calls.
-/

namespace StyleTree

open Walk (View Visitor Entered Exited Action Hook)

namespace Script

inductive Edit where
  | replace (nodes : List Node)
  | copies (count : Nat)
  | wrap (selector : String)
  | unwrap
  | set (node : Node)
  | text (s : String)
  | value (v : Option String)
  | important (b : Bool)
  | push (nodes : List Node)
  | clear

def Edit.apply (e : Edit) (n : Node) : Node :=
  match e, n with
  | .set m, _ => m
  | .text s, n => n.withText s
  | .value v, .leaf (.declaration d) => .leaf (.declaration { d with value := v })
  | .important b, .leaf (.declaration d) => .leaf (.declaration { d with important := b })
  | .push nodes, n => n.withChildren (n.children ++ nodes)
  | .clear, n => n.bare
  | _, n => n

def Edit.request? (e : Edit) (n : Node) : Option (List Node) :=
  match e with
  | .replace nodes => some nodes
  | .copies count => some (List.replicate count n)
  | .wrap selector => some [.rule selector [n]]
  | .unwrap => some n.children
  | _ => none

structure Edited where
  node : Node
  requests : List (List Node) := []
  asked : List Bool := []

def Edited.apply (x : Edited) (e : Edit) : Edited :=
  let requests := x.requests ++ (e.request? x.node).toList
  { node := e.apply x.node, requests, asked := x.asked ++ [!requests.isEmpty] }

def applyAll (n : Node) (edits : List Edit) : Edited :=
  edits.foldl Edited.apply { node := n }

/-- A rule fits a call if all of its conditions hold; one that is left out always does. -/
structure Rule where
  hook : Hook := .enter
  kind : Option Kind := none
  text : Option String := none
  depth : Option Nat := none
  top : Option Bool := none
  parent : Option Kind := none
  under : Option String := none
  nth : Option Nat := none
  max : Option Nat := none
  ambient : List (String × Option Setting) := []
  edits : List Edit := []
  action : Action := .proceed
  breaks : Bool := false

structure Call where
  hook : Hook
  number : Nat
  view : View
  node : Node

def Rule.fits (r : Rule) (c : Call) (uses : Nat) : Bool :=
  r.hook = c.hook
    && r.kind.all (· = c.node.kind)
    && r.text.all (· = c.node.text)
    && r.depth.all (· = c.view.depth)
    && r.top.all (· = (c.view.depth = 0 : Bool))
    && r.parent.all (c.view.parent?.map Node.kind = some ·)
    && r.under.all (fun s => c.view.path.any (·.text = s))
    && r.nth.all (· = c.number)
    && r.max.all (uses < ·)
    && r.ambient.all (fun e => c.view.ambient.get? e.1 = e.2)

structure Event where
  hook : Option Hook
  view : View
  node : Node
  rule : Option Nat
  asked : Option (List Bool)

structure Progress where
  enters : Nat := 0
  exits : Nat := 0
  deepest : Nat := 0
  uses : List Nat
  events : List Event := []

end Script

structure Script where
  rules : List Script.Rule
  enterLimit : Nat := 300
  records : Bool := true

namespace Script

def find? (s : Script) (c : Call) (uses : List Nat) : Option (Nat × Rule) :=
  let numbered := s.rules.zipIdx.zip uses
  (numbered.find? fun x => x.1.1.fits c x.2).map fun x => (x.1.2, x.1.1)

def record (s : Script) (p : Progress) (e : Event) : Progress :=
  if s.records then { p with events := e :: p.events } else p

def use (p : Progress) (rule : Option (Nat × Rule)) : Progress :=
  match rule with
  | some (place, _) => { p with uses := p.uses.modify place (· + 1) }
  | none => p

def edits (rule : Option (Nat × Rule)) : List Edit := (rule.map (·.2.edits)).getD []

def enter (s : Script) (view : View) (n : Node) (p : Progress) : Entered Progress :=
  let p := { p with enters := p.enters + 1, deepest := max p.deepest view.depth }
  if s.enterLimit < p.enters then
    ⟨s.record p ⟨none, view, n, none, none⟩, n, [], .stop⟩
  else
    let rule := s.find? ⟨.enter, p.enters, view, n⟩ p.uses
    let edited := applyAll n (edits rule)
    let event := ⟨some .enter, view, n, rule.map (·.1), rule.map fun _ => edited.asked⟩
    ⟨use (s.record p event) rule, edited.node, edited.requests,
      (rule.map (·.2.action)).getD .proceed⟩

def exit (s : Script) (view : View) (n : Node) (p : Progress) : Exited Progress :=
  let p := { p with exits := p.exits + 1 }
  let rule := s.find? ⟨.exit, p.exits, view, n⟩ p.uses
  let event := ⟨some .exit, view, n, rule.map (·.1), none⟩
  ⟨use (s.record p event) rule, (applyAll n (edits rule)).node,
    if rule.any (·.2.breaks) then .halt else .proceed⟩

def visitor (s : Script) : Visitor Progress := ⟨s.enter, s.exit⟩

def enterOnly (s : Script) : Visitor Progress := .ofEnter s.enter

def start (s : Script) : Progress := { uses := s.rules.map fun _ => 0 }

def fuel : Nat := 1 <<< 60

end Script
end StyleTree
