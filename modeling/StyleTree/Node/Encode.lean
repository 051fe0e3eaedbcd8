import StyleTree.Node.Basic
import StyleTree.Json.Writer

namespace StyleTree

namespace Span

def toJson (s : Span) : Json :=
  .object [("start", .number (.natural s.start.toNat)), ("end", .number (.natural s.stop.toNat))]

end Span

def spanMembers (span : Option Span) : List (String × Json) :=
  (span.map fun s => ("src", s.toJson)).toList

def Setting.toJson : Setting → Json
  | .flag on => .bool on
  | .text value => .string value

def Overlay.toJson (o : Overlay) : Json := .object (o.entries.map fun e => (e.1, e.2.toJson))

def Kind.member (k : Kind) : String × Json := ("kind", .string k.tag)

def Leaf.members : Leaf → List (String × Json)
  | .declaration d =>
      ("property", .string d.property) :: ((d.value.map fun v => ("value", .string v)).toList
        ++ ("important", .bool d.important) :: spanMembers d.span)
  | .comment text span => ("value", .string text) :: spanMembers span

def Head.members (nodes : Json) : Head → List (String × Json)
  | .rule selector span => ("selector", .string selector) :: ("nodes", nodes) :: spanMembers span
  | .atRule name params span =>
      ("name", .string name) :: ("params", .string params) :: ("nodes", nodes) :: spanMembers span
  | .context overlay => [("context", overlay.toJson), ("nodes", nodes)]
  | .atRoot => [("nodes", nodes)]

namespace Node

mutual

def toJson : Node → Json
  | .leaf l => .object (l.kind.member :: l.members)
  | .block head children =>
      .object (head.kind.member :: head.members (.array (toJsonList children)))

def toJsonList : List Node → List Json
  | [] => []
  | n :: rest => n.toJson :: toJsonList rest

end

end Node

def toCompactJson (nodes : List Node) : String :=
  Json.text .compact (.array (Node.toJsonList nodes))

def toJson (nodes : List Node) : String := Json.text .indented (.array (Node.toJsonList nodes))

end StyleTree
