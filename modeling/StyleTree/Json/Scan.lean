import StyleTree.Json.Value
import StyleTree.Json.Fault

namespace StyleTree.Json

abbrev Scan (α : Type) := Except Fault (α × List Char)

namespace Scan

def isBlank (c : Char) : Bool := c = ' ' || c = '\n' || c = '\t' || c = '\r'

def skipBlanks (text : List Char) : List Char := text.dropWhile isBlank

def word {α : Type} (value : α) : List Char → List Char → Scan α
  | [], text => .ok (value, text)
  | _ :: _, [] => .error (.before [] .endInValue)
  | e :: expected, c :: text =>
      if c = e then word value expected text else .error (.into (c :: text) .wordExpected)

def digitValue (c : Char) : Nat := c.toNat - '0'.toNat

def largestNatural : Nat := 1 <<< 64 - 1

/-- Digits of a number as they are read: the digits kept, the digits of the whole part dropped
because no more could be kept, and the digits kept after the point. -/
structure Digits where
  kept : Nat
  dropped : Nat
  places : Nat
  deriving DecidableEq

namespace Digits

def exponent (d : Digits) : Int := (d.dropped : Int) - d.places

end Digits

def wholeDigits (d : Digits) : List Char → Digits × List Char
  | [] => (d, [])
  | c :: text =>
      if c.isDigit then
        let kept := d.kept * 10 + digitValue c
        if d.dropped = 0 ∧ kept ≤ largestNatural then wholeDigits { d with kept } text
        else wholeDigits { d with dropped := d.dropped + 1 } text
      else (d, c :: text)

def placeDigits (full : Bool) (d : Digits) : List Char → Digits × List Char
  | [] => (d, [])
  | c :: text =>
      if c.isDigit then
        let kept := d.kept * 10 + digitValue c
        if !full ∧ kept ≤ largestNatural then
          placeDigits false { d with kept, places := d.places + 1 } text
        else placeDigits true d text
      else (d, c :: text)

def double (negative : Bool) (d : Digits) (exponent : Int) (text : List Char) : Scan Number :=
  match Decimal.Double.ofParts? d.kept exponent with
  | some magnitude => .ok (.double negative magnitude, text)
  | none => .error (.before text .numberOutOfRange)

def largestExponent : Nat := 1 <<< 31 - 1

/-- Digits of an exponent. One that grows too large ends the reading: of zero and of a small number
nothing is left, any other number is out of range. -/
def exponentDigits (negative : Bool) (d : Digits) (down : Bool) (exponent : Nat) :
    List Char → Scan Number
  | [] => double negative d (d.exponent + if down then -(exponent : Int) else exponent) []
  | c :: text =>
      if c.isDigit then
        let larger := exponent * 10 + digitValue c
        if larger ≤ largestExponent then exponentDigits negative d down larger text
        else if d.kept ≠ 0 ∧ !down then .error (.before text .numberOutOfRange)
        else .ok (.double negative .zero, text.dropWhile Char.isDigit)
      else double negative d (d.exponent + if down then -(exponent : Int) else exponent) (c :: text)

def exponentPart (negative : Bool) (d : Digits) (text : List Char) : Scan Number :=
  let (down, text) :=
    match text with
    | '+' :: text => (false, text)
    | '-' :: text => (true, text)
    | text => (false, text)
  match text with
  | [] => .error (.before [] .endInValue)
  | c :: text =>
      if c.isDigit then exponentDigits negative d down (digitValue c) text
      else .error (.into (c :: text) .invalidNumber)

def isExponentMark (c : Char) : Bool := c = 'e' || c = 'E'

def doubleEnd (negative : Bool) (d : Digits) : List Char → Scan Number
  | [] => double negative d d.exponent []
  | c :: text =>
      if isExponentMark c then exponentPart negative d text
      else double negative d d.exponent (c :: text)

def fraction (negative : Bool) (d : Digits) (text : List Char) : Scan Number :=
  match text with
  | [] => .error (.into [] .endInValue)
  | c :: _ =>
      if c.isDigit then
        let (d, rest) := placeDigits false d text
        doubleEnd negative d rest
      else .error (.into text .invalidNumber)

/-- A whole number as it is kept: a negative one must fit 64 bits with its sign, and zero with a
sign is a double. -/
def whole (negative : Bool) (d : Digits) (text : List Char) : Scan Number :=
  if d.dropped ≠ 0 then double negative d d.exponent text
  else if !negative then .ok (.natural d.kept, text)
  else if d.kept = 0 ∨ 1 <<< 63 < d.kept then double true d 0 text
  else .ok (.negative d.kept, text)

def afterWhole (negative : Bool) (d : Digits) : List Char → Scan Number
  | '.' :: text => fraction negative d text
  | c :: text =>
      if isExponentMark c then exponentPart negative d text else whole negative d (c :: text)
  | [] => whole negative d []

def number (negative : Bool) : List Char → Scan Number
  | [] => .error (.before [] .endInValue)
  | '0' :: text =>
      if text.head?.any Char.isDigit then .error (.into text .invalidNumber)
      else afterWhole negative ⟨0, 0, 0⟩ text
  | c :: text =>
      if c.isDigit then
        let (d, rest) := wholeDigits ⟨0, 0, 0⟩ (c :: text)
        afterWhole negative d rest
      else .error (.into (c :: text) .invalidNumber)

def hexValue? (c : Char) : Option Nat :=
  if c.isDigit then some (c.toNat - '0'.toNat)
  else if 'a' ≤ c ∧ c ≤ 'f' then some (c.toNat - 'a'.toNat + 10)
  else if 'A' ≤ c ∧ c ≤ 'F' then some (c.toNat - 'A'.toNat + 10)
  else none

def hexUnit (text : List Char) : Scan Nat :=
  match text with
  | a :: b :: c :: d :: rest =>
      match hexValue? a, hexValue? b, hexValue? c, hexValue? d with
      | some a, some b, some c, some d => .ok (((a * 16 + b) * 16 + c) * 16 + d, rest)
      | _, _, _, _ => fault
  | _ => fault
where
  fault : Scan Nat :=
    if byteCount text < 4 then .error ⟨.endInString, 0⟩
    else .error ⟨.invalidEscape, byteCount text - 4⟩

def isHighSurrogate (unit : Nat) : Bool := 0xD800 ≤ unit && unit ≤ 0xDBFF

def isLowSurrogate (unit : Nat) : Bool := 0xDC00 ≤ unit && unit ≤ 0xDFFF

def lowSurrogate (high : Nat) (text : List Char) : Except Fault (Char × List Char) :=
  match text with
  | [] => .error (.before [] .endInString)
  | '\\' :: [] => .error (.before [] .endInString)
  | '\\' :: 'u' :: text => do
      let (low, rest) ← hexUnit text
      if isLowSurrogate low then
        .ok (.ofNat (0x10000 + (high - 0xD800) * 0x400 + (low - 0xDC00)), rest)
      else .error (.before rest .loneSurrogate)
  | '\\' :: text => .error (.into text .hexEndUnexpected)
  | text => .error (.into text .hexEndUnexpected)

def unicodeEscape (text : List Char) : Except Fault (Char × List Char) := do
  let (unit, rest) ← hexUnit text
  if isLowSurrogate unit then .error (.before rest .loneSurrogate)
  else if isHighSurrogate unit then lowSurrogate unit rest
  else .ok (.ofNat unit, rest)

def simpleEscape? : Char → Option Char
  | '"' => some '"'
  | '\\' => some '\\'
  | '/' => some '/'
  | 'b' => some '\x08'
  | 'f' => some '\x0c'
  | 'n' => some '\n'
  | 'r' => some '\r'
  | 't' => some '\t'
  | _ => none

def escape : List Char → Scan Char
  | [] => .error (.before [] .endInString)
  | 'u' :: text => unicodeEscape text
  | c :: text =>
      match simpleEscape? c with
      | some c => .ok (c, text)
      | none => .error (.into (c :: text) .invalidEscape)

/-- The characters of a string up to its closing quote. `fuel` is any text that is no shorter than
what is read: each character of the string takes one of it. -/
def stringChars : List Char → List Char → Except Fault (List Char × List Char)
  | [], text => .error (.before text .endInString)
  | _ :: _, [] => .error (.before [] .endInString)
  | _ :: _, '"' :: text => .ok ([], text)
  | _ :: fuel, '\\' :: text => do
      let (c, rest) ← escape text
      let (cs, rest) ← stringChars fuel rest
      .ok (c :: cs, rest)
  | _ :: fuel, c :: text =>
      if c < ' ' then .error (.before text .controlCharacter)
      else do
        let (cs, rest) ← stringChars fuel text
        .ok (c :: cs, rest)

def string (text : List Char) : Except Fault (String × List Char) := do
  let (cs, rest) ← stringChars text text
  .ok (String.ofList cs, rest)

end Scan
end StyleTree.Json
