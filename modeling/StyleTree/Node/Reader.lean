import StyleTree.Node.Decode
import StyleTree.Json.Reader

/-!
The reader of saved trees. Each root is taken in while it is read: a wrong tag is refused as soon as
it is met, and the fields of a root are taken once its closing bracket is reached. So of two errors
in a text the one met first counts.
-/

namespace StyleTree

open Json (Scan Failure Fault Refusal)

def Kind.read (text : List Char) : Except Failure (Kind × List Char) :=
  match Scan.skipBlanks text with
  | '"' :: rest => do
      let (tag, rest) ← Json.scanned (Scan.string rest)
      return (← Json.decoded (Kind.ofTag tag), rest)
  | text => .error (Json.mismatch .tag text)

namespace Node

def readRootMembers (room : Nat) : Nat → Option Kind → Bool → List Char →
    Except Failure ((Kind × List (String × Json)) × List Char)
  | 0, _, _, text => .error (.fault (.into text .endInObject))
  | fuel + 1, kind, first, text => do
      match ← Json.scanned (Scan.nextName first text) with
      | (none, rest) =>
          match kind with
          | none => .error (.refusal (.missingField "kind"))
          | some k => return ((k, []), rest)
      | (some name, rest) =>
          if name = "kind" then
            if kind.isSome then .error (.refusal (.duplicateField name))
            else
              let (k, rest) ← Kind.read (← Json.scanned (Scan.colon rest))
              readRootMembers room fuel (some k) false rest
          else
            let (item, rest) ←
              Json.scanned (Scan.value fuel room (← Json.scanned (Scan.colon rest)))
            let ((k, others), rest) ← readRootMembers room fuel kind false rest
            return ((k, (name, item) :: others), rest)

def readRootItems (room fuel : Nat) (text : List Char) :
    Except Failure ((Kind × List Json) × List Char) := do
  match ← Json.scanned (Scan.nextItem true text) with
  | (false, _) => .error (.refusal (.missingField "kind"))
  | (true, rest) =>
      let (k, rest) ← Kind.read rest
      let (items, rest) ← Json.scanned (Scan.items fuel room false rest)
      return ((k, items), rest)

def readRoot (room fuel : Nat) (text : List Char) : Except Failure (Node × List Char) := do
  match Scan.skipBlanks text with
  | '{' :: rest =>
      let ((k, members), rest) ← readRootMembers room fuel none true rest
      return (← Json.decoded (ofMembers k members), rest)
  | '[' :: rest =>
      let ((k, items), rest) ← readRootItems room fuel rest
      return (← Json.decoded (ofItems k items), rest)
  | text => .error (Json.mismatch .node text)

def readRoots (room : Nat) : Nat → Bool → List Char → Except Failure (List Node × List Char)
  | 0, _, text => .error (.fault (.into text .endInList))
  | fuel + 1, first, text => do
      match ← Json.scanned (Scan.nextItem first text) with
      | (false, rest) => return ([], rest)
      | (true, rest) =>
          let (n, rest) ← readRoot room fuel rest
          let (others, rest) ← readRoots room fuel false rest
          return (n :: others, rest)

end Node

/-- Reads a saved tree: a list of roots. The brackets of the list and of a root are the first two of
those that may be open. -/
def readTree (text : List Char) : Except Failure (List Node) :=
  match Scan.skipBlanks text with
  | '[' :: rest => do
      let (nodes, rest) ← Node.readRoots (Json.nestingLimit - 2) (Scan.fuelFor text) true rest
      Json.scanned (Scan.finish rest)
      return nodes
  | text => .error (Json.mismatch .list text)

end StyleTree
