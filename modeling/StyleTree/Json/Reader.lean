import StyleTree.Json.Scan
import StyleTree.Json.Refusal

/-!
The reader of JSON text. Values are read from left to right, and the first thing wrong ends the
reading. `room` is the number of brackets that may still be opened.
-/

namespace StyleTree.Json

def nestingLimit : Nat := 127

namespace Scan

def nextItem (first : Bool) (text : List Char) : Scan Bool :=
  match skipBlanks text with
  | [] => .error (.into [] .endInList)
  | ']' :: rest => .ok (false, rest)
  | c :: rest =>
      if first then .ok (true, c :: rest)
      else if c = ',' then
        match skipBlanks rest with
        | [] => .error (.into [] .endInValue)
        | ']' :: rest => .error (.into (']' :: rest) .trailingComma)
        | c :: rest => .ok (true, c :: rest)
      else .error (.into (c :: rest) .listEndExpected)

def nextName (first : Bool) (text : List Char) : Scan (Option String) :=
  match skipBlanks text with
  | [] => .error (.into [] .endInObject)
  | '}' :: rest => .ok (none, rest)
  | c :: rest =>
      if first then name (c :: rest)
      else if c = ',' then
        match skipBlanks rest with
        | [] => .error (.into [] .endInValue)
        | '}' :: rest => .error (.into ('}' :: rest) .trailingComma)
        | c :: rest => name (c :: rest)
      else .error (.into (c :: rest) .objectEndExpected)
where
  name : List Char → Scan (Option String)
    | '"' :: rest => (string rest).map fun (s, rest) => (some s, rest)
    | text => .error (.into text .nameNotString)

def colon (text : List Char) : Except Fault (List Char) :=
  match skipBlanks text with
  | [] => .error (.into [] .endInObject)
  | ':' :: rest => .ok rest
  | text => .error (.into text .colonExpected)

def finish (text : List Char) : Except Fault Unit :=
  match skipBlanks text with
  | [] => .ok ()
  | text => .error (.into text .trailingCharacters)

def scalar (text : List Char) : Scan Json :=
  match text with
  | [] => .error (.into [] .endInValue)
  | 'n' :: rest => word .null ['u', 'l', 'l'] rest
  | 't' :: rest => word (.bool true) ['r', 'u', 'e'] rest
  | 'f' :: rest => word (.bool false) ['a', 'l', 's', 'e'] rest
  | '"' :: rest => (string rest).map fun (s, rest) => (.string s, rest)
  | '-' :: rest => (number true rest).map fun (n, rest) => (.number n, rest)
  | c :: rest =>
      if c.isDigit then (number false (c :: rest)).map fun (n, rest) => (.number n, rest)
      else .error (.into (c :: rest) .valueExpected)

mutual

def value : Nat → Nat → List Char → Except Fault (Json × List Char)
  | 0, _, text => .error (.into text .endInValue)
  | fuel + 1, room, text =>
      match skipBlanks text with
      | '[' :: rest =>
          match room with
          | 0 => .error (.into ('[' :: rest) .nestingLimit)
          | room + 1 => do
              let (items, rest) ← items fuel room true rest
              .ok (.array items, rest)
      | '{' :: rest =>
          match room with
          | 0 => .error (.into ('{' :: rest) .nestingLimit)
          | room + 1 => do
              let (members, rest) ← members fuel room true rest
              .ok (.object members, rest)
      | text => scalar text

def items : Nat → Nat → Bool → List Char → Except Fault (List Json × List Char)
  | 0, _, _, text => .error (.into text .endInList)
  | fuel + 1, room, first, text => do
      match ← nextItem first text with
      | (false, rest) => .ok ([], rest)
      | (true, rest) =>
          let (item, rest) ← value fuel room rest
          let (others, rest) ← items fuel room false rest
          .ok (item :: others, rest)

def members : Nat → Nat → Bool → List Char → Except Fault (List (String × Json) × List Char)
  | 0, _, _, text => .error (.into text .endInObject)
  | fuel + 1, room, first, text => do
      match ← nextName first text with
      | (none, rest) => .ok ([], rest)
      | (some name, rest) =>
          let (item, rest) ← value fuel room (← colon rest)
          let (others, rest) ← members fuel room false rest
          .ok ((name, item) :: others, rest)

end

/-- Fuel that lasts for a text: each bracket takes two units, any other character at most one. -/
def fuelFor (text : List Char) : Nat := 2 * text.length + 2

end Scan

def parse (text : List Char) : Except Fault Json := do
  let (j, rest) ← Scan.value (Scan.fuelFor text) nestingLimit text
  Scan.finish rest
  .ok j

def scanned {α : Type} (s : Except Fault α) : Except Failure α := s.mapError .fault

def decoded {α : Type} (r : Except Refusal α) : Except Failure α := r.mapError .refusal

/-- Why a value of a wrong kind is refused. A bracket is refused unread; any other value is read
first, and a fault in it comes before the refusal. -/
def mismatch (expected : Expected) (text : List Char) : Failure :=
  match Scan.skipBlanks text with
  | '[' :: _ => .refusal (.wrongType .list expected)
  | '{' :: _ => .refusal (.wrongType .map expected)
  | text =>
      match Scan.scalar text with
      | .ok (j, _) => .refusal (.wrongType (.of j) expected)
      | .error f => .fault f

end StyleTree.Json
