/-!
Faults in JSON text: what is wrong and where. A place is kept as the number of bytes that follow
it, so that a reader needs to know nothing of what it has read; line and column are found at the
end from the whole text.
-/

namespace StyleTree.Json

inductive Cause where
  | endInValue
  | endInList
  | endInObject
  | endInString
  | valueExpected
  | wordExpected
  | listEndExpected
  | objectEndExpected
  | colonExpected
  | nameNotString
  | trailingComma
  | trailingCharacters
  | invalidNumber
  | numberOutOfRange
  | controlCharacter
  | invalidEscape
  | loneSurrogate
  | hexEndUnexpected
  | nestingLimit
  deriving DecidableEq, Inhabited

namespace Cause

def isEnd : Cause → Bool
  | .endInValue => true
  | .endInList => true
  | .endInObject => true
  | .endInString => true
  | _ => false

def message : Cause → String
  | .endInValue => "EOF while parsing a value"
  | .endInList => "EOF while parsing a list"
  | .endInObject => "EOF while parsing an object"
  | .endInString => "EOF while parsing a string"
  | .valueExpected => "expected value"
  | .wordExpected => "expected ident"
  | .listEndExpected => "expected \x60,\x60 or \x60]\x60"
  | .objectEndExpected => "expected \x60,\x60 or \x60\x7d\x60"
  | .colonExpected => "expected \x60:\x60"
  | .nameNotString => "key must be a string"
  | .trailingComma => "trailing comma"
  | .trailingCharacters => "trailing characters"
  | .invalidNumber => "invalid number"
  | .numberOutOfRange => "number out of range"
  | .controlCharacter => "control character (\\u0000-\\u001F) found while parsing a string"
  | .invalidEscape => "invalid escape"
  | .loneSurrogate => "lone leading surrogate in hex escape"
  | .hexEndUnexpected => "unexpected end of hex escape"
  | .nestingLimit => "recursion limit exceeded"

end Cause

/-- `left` is the number of bytes after the place of the fault. -/
structure Fault where
  cause : Cause
  left : Nat
  deriving DecidableEq

def byteCount (text : List Char) : Nat := text.foldl (fun bytes c => bytes + c.utf8Size) 0

namespace Fault

def before (rest : List Char) (cause : Cause) : Fault := ⟨cause, byteCount rest⟩

def into (rest : List Char) (cause : Cause) : Fault := ⟨cause, byteCount rest - 1⟩

end Fault

structure Position where
  line : Nat
  column : Nat
  deriving DecidableEq

namespace Position

def advance (p : Position) : Nat → List Char → Position
  | _, [] => p
  | bytes, c :: rest =>
      if bytes < c.utf8Size then ⟨p.line, p.column + bytes⟩
      else advance (if c = '\n' then ⟨p.line + 1, 0⟩ else ⟨p.line, p.column + c.utf8Size⟩)
        (bytes - c.utf8Size) rest

end Position

namespace Fault

def position (f : Fault) (source : List Char) : Position :=
  Position.advance ⟨1, 0⟩ (byteCount source - f.left) source

def message (f : Fault) (source : List Char) : String :=
  let p := f.position source
  f.cause.message ++ " at line " ++ toString p.line ++ " column " ++ toString p.column

end Fault
end StyleTree.Json
