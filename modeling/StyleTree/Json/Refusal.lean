import StyleTree.Json.Value
import StyleTree.Json.Fault
import StyleTree.Decimal.Shortest
import StyleTree.Text.Quoted

namespace StyleTree.Json

inductive Found where
  | null
  | bool (b : Bool)
  | number (n : Number)
  | string (s : String)
  | list
  | map
  deriving DecidableEq, Inhabited

def Found.of : Json → Found
  | .null => .null
  | .bool b => .bool b
  | .number n => .number n
  | .string s => .string s
  | .array _ => .list
  | .object _ => .map

def inTicks (s : String) : String := "\x60" ++ s ++ "\x60"

def Found.message : Found → String
  | .null => "null"
  | .bool b => "boolean " ++ inTicks (if b then "true" else "false")
  | .number (.natural n) => "integer " ++ inTicks (toString n)
  | .number (.negative n) => "integer " ++ inTicks ("-" ++ toString n)
  | .number (.double negative d) =>
      "floating point " ++ inTicks (Decimal.numberFormat.text negative d)
  | .string s => "string " ++ Text.quoted s
  | .list => "sequence"
  | .map => "map"

inductive Expected where
  | string
  | bool
  | list
  | map
  | unit
  | offset
  | size
  | tag
  | tagNumber (count : Nat)
  | node
  | record (name : String)
  deriving DecidableEq

def Expected.message : Expected → String
  | .string => "a string"
  | .bool => "a boolean"
  | .list => "a sequence"
  | .map => "a map"
  | .unit => "unit"
  | .offset => "u32"
  | .size => "usize"
  | .tag => "variant identifier"
  | .tagNumber count => "variant index 0 <= i < " ++ toString count
  | .node => "internally tagged enum Node"
  | .record name => "struct " ++ name

inductive Length where
  | record (name : String) (fields : Nat)
  | items (count : Nat)
  deriving DecidableEq

def elementCount (n : Nat) : String := if n = 1 then "1 element" else toString n ++ " elements"

def Length.message : Length → String
  | .record name fields => "struct " ++ name ++ " with " ++ elementCount fields
  | .items count => elementCount count ++ " in sequence"

inductive Refusal where
  | wrongType (found : Found) (expected : Expected)
  | wrongValue (found : Found) (expected : Expected)
  | wrongLength (found : Nat) (expected : Length)
  | missingField (name : String)
  | duplicateField (name : String)
  | unknownField (name : String) (known : List String)
  | unknownTag (name : String) (known : List String)
  | notASetting
  deriving DecidableEq

def oneOf : List String → String
  | [a] => inTicks a
  | [a, b] => inTicks a ++ " or " ++ inTicks b
  | names => "one of " ++ ", ".intercalate (names.map inTicks)

def Refusal.message : Refusal → String
  | .wrongType found expected =>
      "invalid type: " ++ found.message ++ ", expected " ++ expected.message
  | .wrongValue found expected =>
      "invalid value: " ++ found.message ++ ", expected " ++ expected.message
  | .wrongLength found expected =>
      "invalid length " ++ toString found ++ ", expected " ++ expected.message
  | .missingField name => "missing field " ++ inTicks name
  | .duplicateField name => "duplicate field " ++ inTicks name
  | .unknownField name known => "unknown field " ++ inTicks name ++ ", expected " ++ oneOf known
  | .unknownTag name known => "unknown variant " ++ inTicks name ++ ", expected " ++ oneOf known
  | .notASetting => "data did not match any variant of untagged enum ContextValue"

inductive Failure where
  | fault (f : Fault)
  | refusal (r : Refusal)

inductive Category where
  | malformed
  | ended
  | refused
  deriving DecidableEq

namespace Failure

def category : Failure → Category
  | .fault f => if f.cause.isEnd then .ended else .malformed
  | .refusal _ => .refused

def message (source : List Char) : Failure → String
  | .fault f => f.message source
  | .refusal r => r.message

end Failure
end StyleTree.Json
