import StyleTree.Walk.Engine
import StyleTree.Node.Depth
import StyleTree.Json.Writer
import StyleTree.Json.Reader

namespace StyleTree.Walk

open Json (Scan Failure)

structure Config where
  engine : Engine := .iterative
  maxDepth : Option UInt64 := none
  deriving DecidableEq, Inhabited

structure DepthLimit where
  limit : Nat
  depth : Nat
  deriving DecidableEq

def DepthLimit.message (e : DepthLimit) : String :=
  "Tree depth " ++ toString e.depth ++ " exceeds the recursive engine limit of "
    ++ toString e.limit

namespace Config

def refusal? (c : Config) (nodes : List Node) : Option DepthLimit :=
  match c.engine, c.maxDepth with
  | .recursive, some limit =>
      let depth := Node.measuredDepth nodes
      if limit.toNat < depth then some ⟨limit.toNat, depth⟩ else none
  | _, _ => none

universe u

def walk {σ : Type u} (c : Config) (v : Visitor σ) (fuel : Nat) (nodes : List Node) (state : σ) :
    Except DepthLimit (Option (Run σ)) :=
  match c.refusal? nodes with
  | some e => .error e
  | none => .ok (c.engine.walk v fuel nodes state)

def toJson (c : Config) : Json :=
  .object (("engine", .string c.engine.name) ::
    (c.maxDepth.map fun n => ("max_depth", Json.number (.natural n.toNat))).toList)

def text (c : Config) : String := c.toJson.text .compact

end Config

/-- Why settings are not read. A depth of zero is refused only once the text has been read. -/
inductive ConfigError where
  | unread (f : Failure)
  | zeroDepth

namespace Config

def readName (text : List Char) : Except Failure (Engine × List Char) := do
  let (name, rest) ← Json.scanned (Scan.string text)
  match Engine.ofName? name with
  | some e => return (e, rest)
  | none => .error (.refusal (.unknownTag name (Engine.all.map Engine.name)))

def readUnit (text : List Char) : Except Failure (List Char) :=
  match Scan.skipBlanks text with
  | 'n' :: rest => (Json.scanned (Scan.word () ['u', 'l', 'l'] rest)).map (·.2)
  | text => .error (Json.mismatch .unit text)

/-- An engine is a string, or an object with its name as the only member and null for a value. -/
def readEngine (text : List Char) : Except Failure (Engine × List Char) :=
  match Scan.skipBlanks text with
  | '"' :: rest => readName rest
  | '{' :: rest =>
      match Scan.skipBlanks rest with
      | '"' :: rest => do
          let (e, rest) ← readName rest
          let rest ← readUnit (← Json.scanned (Scan.colon rest))
          match Scan.skipBlanks rest with
          | '}' :: rest => return (e, rest)
          | [] => .error (.fault (.before [] .endInObject))
          | rest => .error (.fault (.before rest .valueExpected))
      | [] => .error (.fault (.into [] .endInObject))
      | '}' :: rest => .error (.fault (.into ('}' :: rest) .valueExpected))
      | rest => .error (.fault (.into rest .nameNotString))
  | [] => .error (.fault (.into [] .endInValue))
  | text => .error (.fault (.into text .valueExpected))

def readDepth (text : List Char) : Except Failure (Option UInt64 × List Char) :=
  match Scan.skipBlanks text with
  | 'n' :: rest => Json.scanned (Scan.word none ['u', 'l', 'l'] rest)
  | text =>
      match Scan.scalar text with
      | .ok (.number (.natural n), rest) => .ok (some n.toUInt64, rest)
      | .ok (.number (.negative n), _) =>
          .error (.refusal (.wrongValue (.number (.negative n)) .size))
      | _ => .error (Json.mismatch .size text)

structure Draft where
  engine : Option Engine := none
  maxDepth : Option (Option UInt64) := none

def Draft.config (d : Draft) : Config where
  engine := d.engine.getD .iterative
  maxDepth := d.maxDepth.getD none

def readMembers : Nat → Draft → Bool → List Char → Except Failure (Config × List Char)
  | 0, _, _, text => .error (.fault (.into text .endInObject))
  | fuel + 1, d, first, text => do
      match ← Json.scanned (Scan.nextName first text) with
      | (none, rest) => return (d.config, rest)
      | (some name, rest) =>
          if name = "engine" then
            if d.engine.isSome then .error (.refusal (.duplicateField name))
            else
              let (e, rest) ← readEngine (← Json.scanned (Scan.colon rest))
              readMembers fuel { d with engine := some e } false rest
          else if name = "max_depth" then
            if d.maxDepth.isSome then .error (.refusal (.duplicateField name))
            else
              let (n, rest) ← readDepth (← Json.scanned (Scan.colon rest))
              readMembers fuel { d with maxDepth := some n } false rest
          else .error (.refusal (.unknownField name ["engine", "max_depth"]))

def readListEnd (text : List Char) : Except Failure (List Char) :=
  match Scan.skipBlanks text with
  | [] => .error (.fault (.into [] .endInList))
  | ']' :: rest => .ok rest
  | ',' :: rest =>
      match Scan.skipBlanks rest with
      | ']' :: rest => .error (.fault (.into (']' :: rest) .trailingComma))
      | rest => .error (.fault (.into rest .trailingCharacters))
  | text => .error (.fault (.into text .trailingCharacters))

def readItems (text : List Char) : Except Failure (Config × List Char) := do
  match ← Json.scanned (Scan.nextItem true text) with
  | (false, rest) => return ({}, rest)
  | (true, rest) =>
      let (engine, rest) ← readEngine rest
      match ← Json.scanned (Scan.nextItem false rest) with
      | (false, rest) => return ({ engine }, rest)
      | (true, rest) =>
          let (maxDepth, rest) ← readDepth rest
          return ({ engine, maxDepth }, ← readListEnd rest)

def readText (text : List Char) : Except Failure Config := do
  let (c, rest) ← match Scan.skipBlanks text with
    | '{' :: rest => readMembers (Scan.fuelFor text) {} true rest
    | '[' :: rest => readItems rest
    | text => .error (Json.mismatch (.record "WalkConfig") text)
  Json.scanned (Scan.finish rest)
  return c

def read (text : List Char) : Except ConfigError Config :=
  match readText text with
  | .error f => .error (.unread f)
  | .ok c => if c.maxDepth = some 0 then .error .zeroDepth else .ok c

end Config
end StyleTree.Walk
