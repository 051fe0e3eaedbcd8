import StyleTree.Node.Basic
import StyleTree.Json.Refusal

/-!
Nodes from JSON values. A node is an object with a tag among its members, or a list that begins
with the tag and goes on with the fields in their order. Fields of a node are read in the order
of the text; the first refusal counts.
-/

namespace StyleTree

open Json (Refusal Expected)

inductive Field where
  | text
  | value
  | important
  | params
  | overlay
  | nodes
  | span
  deriving DecidableEq

namespace Kind

def recordName (k : Kind) : String := k.name

def fields : Kind → List (String × Field)
  | .rule => [("selector", .text), ("nodes", .nodes), ("src", .span)]
  | .declaration =>
      [("property", .text), ("value", .value), ("important", .important), ("src", .span)]
  | .atRule => [("name", .text), ("params", .params), ("nodes", .nodes), ("src", .span)]
  | .comment => [("value", .text), ("src", .span)]
  | .context => [("context", .overlay), ("nodes", .nodes)]
  | .atRoot => [("nodes", .nodes)]

def expected (k : Kind) : Expected := .record k.recordName

def ofTag (tag : String) : Except Refusal Kind :=
  match ofTag? tag with
  | some k => .ok k
  | none => .error (.unknownTag tag (all.map Kind.tag))

def ofJson : Json → Except Refusal Kind
  | .string tag => ofTag tag
  | .number (.natural n) =>
      match all[n]? with
      | some k => .ok k
      | none => .error (.wrongValue (.number (.natural n)) (.tagNumber all.length))
  | j => .error (.wrongType (.of j) .tag)

end Kind

structure Draft where
  text : Option String := none
  value : Option (Option String) := none
  important : Option Bool := none
  params : Option String := none
  overlay : Option Overlay := none
  nodes : Option (List Node) := none
  span : Option (Option Span) := none

namespace Draft

def has (d : Draft) : Field → Bool
  | .text => d.text.isSome
  | .value => d.value.isSome
  | .important => d.important.isSome
  | .params => d.params.isSome
  | .overlay => d.overlay.isSome
  | .nodes => d.nodes.isSome
  | .span => d.span.isSome

def node (d : Draft) (text : String) : Kind → Node
  | .rule => .block (.rule text (d.span.getD none)) (d.nodes.getD [])
  | .declaration =>
      .leaf (.declaration
        ⟨text, d.value.getD none, d.important.getD false, d.span.getD none⟩)
  | .atRule => .block (.atRule text (d.params.getD "") (d.span.getD none)) (d.nodes.getD [])
  | .comment => .leaf (.comment text (d.span.getD none))
  | .context => .block (.context (d.overlay.getD .empty)) (d.nodes.getD [])
  | .atRoot => .block .atRoot (d.nodes.getD [])

def finish (d : Draft) (k : Kind) (missing : String → Refusal) : Except Refusal Node :=
  match d.text, k.fields.find? (·.2 = .text) with
  | none, some (name, _) => .error (missing name)
  | text, _ => .ok (d.node (text.getD "") k)

def ofMembers (d : Draft) (k : Kind) : Except Refusal Node := d.finish k .missingField

def ofItems (d : Draft) (k : Kind) (count : Nat) : Except Refusal Node :=
  d.finish k fun _ => .wrongLength count (.record k.recordName k.fields.length)

end Draft

namespace Json

def asString : Json → Except Refusal String
  | .string s => .ok s
  | j => .error (.wrongType (.of j) .string)

def asBool : Json → Except Refusal Bool
  | .bool b => .ok b
  | j => .error (.wrongType (.of j) .bool)

def asOptional {α : Type} (read : Json → Except Refusal α) : Json → Except Refusal (Option α)
  | .null => .ok none
  | j => (read j).map some

def asOffset : Json → Except Refusal UInt32
  | .number (.natural n) =>
      if n < 1 <<< 32 then .ok n.toUInt32
      else .error (.wrongValue (.number (.natural n)) .offset)
  | .number (.negative n) => .error (.wrongValue (.number (.negative n)) .offset)
  | j => .error (.wrongType (.of j) .offset)

def asSetting : Json → Except Refusal Setting
  | .bool b => .ok (.flag b)
  | .string s => .ok (.text s)
  | _ => .error .notASetting

def settings (o : Overlay) : List (String × Json) → Except Refusal Overlay
  | [] => .ok o
  | (name, j) :: rest => do settings (o.insert name (← asSetting j)) rest

def asOverlay : Json → Except Refusal Overlay
  | .object members => settings .empty members
  | j => .error (.wrongType (.of j) .map)

end Json

namespace Span

def expected : Expected := .record "Span"

def ofMembers (start stop : Option UInt32) : List (String × Json) → Except Refusal Span
  | [] =>
      match start, stop with
      | none, _ => .error (.missingField "start")
      | _, none => .error (.missingField "end")
      | some start, some stop => .ok ⟨start, stop⟩
  | (name, j) :: rest => do
      if name = "start" then
        if start.isSome then .error (.duplicateField name)
        else ofMembers (some (← j.asOffset)) stop rest
      else if name = "end" then
        if stop.isSome then .error (.duplicateField name)
        else ofMembers start (some (← j.asOffset)) rest
      else ofMembers start stop rest

def ofJson : Json → Except Refusal Span
  | .object members => ofMembers none none members
  | .array [] => .error (.wrongLength 0 (.record "Span" 2))
  | .array (start :: rest) => do
      let start ← start.asOffset
      match rest with
      | [] => .error (.wrongLength 1 (.record "Span" 2))
      | stop :: rest =>
          let stop ← stop.asOffset
          if rest.isEmpty then .ok ⟨start, stop⟩
          else .error (.wrongLength (rest.length + 2) (.items 2))
  | j => .error (.wrongType (.of j) expected)

end Span

def kindOf (kind : Option Kind) : List (String × Json) → Except Refusal Kind
  | [] =>
      match kind with
      | some k => .ok k
      | none => .error (.missingField "kind")
  | (name, j) :: rest =>
      if name = "kind" then
        if kind.isSome then .error (.duplicateField "kind")
        else do kindOf (some (← Kind.ofJson j)) rest
      else kindOf kind rest

namespace Node

mutual

def readField (d : Draft) : Field → Json → Except Refusal Draft
  | .text, j => j.asString.map fun s => { d with text := some s }
  | .value, j => (j.asOptional Json.asString).map fun v => { d with value := some v }
  | .important, j => j.asBool.map fun b => { d with important := some b }
  | .params, j => j.asString.map fun s => { d with params := some s }
  | .overlay, j => j.asOverlay.map fun o => { d with overlay := some o }
  | .span, j => (j.asOptional Span.ofJson).map fun s => { d with span := some s }
  | .nodes, .array items => (ofJsonList items).map fun nodes => { d with nodes := some nodes }
  | .nodes, j => .error (.wrongType (.of j) .list)

def readMembers (k : Kind) (d : Draft) : List (String × Json) → Except Refusal Draft
  | [] => .ok d
  | (name, j) :: rest =>
      match k.fields.lookup name with
      | none => readMembers k d rest
      | some field =>
          if d.has field then .error (.duplicateField name)
          else (readField d field j).bind fun d => readMembers k d rest

/-- Reads fields by their place. `count` is the number of items before these. -/
def readItems (count : Nat) (d : Draft) : List (String × Field) → List Json → Except Refusal Draft
  | _, [] => .ok d
  | [], items => .error (.wrongLength (count + items.length) (.items count))
  | (_, field) :: fields, j :: items =>
      (readField d field j).bind fun d => readItems (count + 1) d fields items

def ofJson : Json → Except Refusal Node
  | .object members =>
      (kindOf none members).bind fun k => (readMembers k {} members).bind fun d => d.ofMembers k
  | .array [] => .error (.missingField "kind")
  | .array (tag :: items) =>
      (Kind.ofJson tag).bind fun k =>
        (readItems 0 {} k.fields items).bind fun d => d.ofItems k items.length
  | j => .error (.wrongType (.of j) .node)

def ofJsonList : List Json → Except Refusal (List Node)
  | [] => .ok []
  | j :: rest => (ofJson j).bind fun n => (ofJsonList rest).map (n :: ·)

end

def ofMembers (k : Kind) (members : List (String × Json)) : Except Refusal Node :=
  (readMembers k {} members).bind fun d => d.ofMembers k

def ofItems (k : Kind) (items : List Json) : Except Refusal Node :=
  (readItems 0 {} k.fields items).bind fun d => d.ofItems k items.length

theorem ofJson_object (members : List (String × Json)) :
    ofJson (.object members) = (kindOf none members).bind fun k => ofMembers k members := by
  simp only [ofJson, ofMembers]

theorem ofJson_array (tag : Json) (items : List Json) :
    ofJson (.array (tag :: items)) = (Kind.ofJson tag).bind fun k => ofItems k items := by
  simp only [ofJson, ofItems]

end Node
end StyleTree
