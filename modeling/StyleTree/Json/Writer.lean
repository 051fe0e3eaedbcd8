import StyleTree.Json.Value
import StyleTree.Decimal.Shortest

namespace StyleTree.Json

/-- `gap` stands before each item and before the closing bracket, by nesting depth. -/
structure Layout where
  gap : Nat → List Char
  colon : List Char

namespace Layout

def compact : Layout := ⟨fun _ => [], [':']⟩

def indented : Layout := ⟨fun depth => '\n' :: List.replicate (2 * depth) ' ', [':', ' ']⟩

end Layout

def hexDigits (n : Nat) : List Char := [Nat.digitChar (n / 16), Nat.digitChar (n % 16)]

def writeChar (c : Char) : List Char :=
  match c with
  | '"' => ['\\', '"']
  | '\\' => ['\\', '\\']
  | '\x08' => ['\\', 'b']
  | '\t' => ['\\', 't']
  | '\n' => ['\\', 'n']
  | '\x0c' => ['\\', 'f']
  | '\r' => ['\\', 'r']
  | c => if c < ' ' then '\\' :: 'u' :: '0' :: '0' :: hexDigits c.toNat else [c]

def writeString (s : String) (rest : List Char) : List Char :=
  '"' :: (s.toList.flatMap writeChar ++ '"' :: rest)

def writeNumber : Number → List Char
  | .natural n => Nat.toDigits 10 n
  | .negative n => '-' :: Nat.toDigits 10 n
  | .double negative d => (Decimal.numberFormat.text negative d).toList

mutual

def write (l : Layout) (depth : Nat) : Json → List Char → List Char
  | .null, rest => 'n' :: 'u' :: 'l' :: 'l' :: rest
  | .bool true, rest => 't' :: 'r' :: 'u' :: 'e' :: rest
  | .bool false, rest => 'f' :: 'a' :: 'l' :: 's' :: 'e' :: rest
  | .number n, rest => writeNumber n ++ rest
  | .string s, rest => writeString s rest
  | .array [], rest => '[' :: ']' :: rest
  | .array (item :: items), rest =>
      '[' :: (l.gap (depth + 1) ++ write l (depth + 1) item
        (writeItems l (depth + 1) items (l.gap depth ++ ']' :: rest)))
  | .object [], rest => '{' :: '}' :: rest
  | .object ((name, item) :: members), rest =>
      '{' :: (l.gap (depth + 1) ++ writeString name (l.colon ++ write l (depth + 1) item
        (writeMembers l (depth + 1) members (l.gap depth ++ '}' :: rest))))

def writeItems (l : Layout) (depth : Nat) : List Json → List Char → List Char
  | [], rest => rest
  | item :: items, rest =>
      ',' :: (l.gap depth ++ write l depth item (writeItems l depth items rest))

def writeMembers (l : Layout) (depth : Nat) : List (String × Json) → List Char → List Char
  | [], rest => rest
  | (name, item) :: members, rest =>
      ',' :: (l.gap depth ++ writeString name (l.colon ++ write l depth item
        (writeMembers l depth members rest)))

end

def text (l : Layout) (j : Json) : String := String.ofList (write l 0 j [])

end StyleTree.Json
