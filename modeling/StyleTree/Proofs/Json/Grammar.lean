import StyleTree.Json.Reader
import Mathlib.Data.List.Basic

/-!
# Texts that spell a value

`Spells j text` says that a text is a spelling of a value, told by the shape of the value and not by
a reader. The parts that hold no values are taken from their scanners, and between the parts there
may be any blanks.
-/

namespace StyleTree.Json

def Blank (text : List Char) : Prop := ∀ c ∈ text, Scan.isBlank c

/-- What may follow a value: the end, a blank, or what goes on with the list or object around it. -/
def Closes (rest : List Char) : Prop :=
  ∀ c ∈ rest.head?, c ∈ [' ', '\n', '\t', '\r', ',', ']', '}']

def Mark (c : Char) (text : List Char) : Prop :=
  ∃ before after, Blank before ∧ Blank after ∧ text = before ++ c :: after

def Separator (first : Bool) (text : List Char) : Prop :=
  if first then Blank text else Mark ',' text

def Closing (c : Char) (text : List Char) : Prop := ∃ before, Blank before ∧ text = before ++ [c]

def SpellsString (s : String) (text : List Char) : Prop :=
  ∃ chars, text = '"' :: chars ∧ ∀ rest, Scan.string (chars ++ rest) = .ok (s, rest)

def SpellsScalar (j : Json) (text : List Char) : Prop :=
  ∀ rest, Closes rest → Scan.scalar (text ++ rest) = .ok (j, rest)

mutual

def Spells : Json → List Char → Prop
  | .array items, text => ∃ inner, text = '[' :: inner ∧ SpellsItems true items inner
  | .object members, text => ∃ inner, text = '{' :: inner ∧ SpellsMembers true members inner
  | .null, text => SpellsScalar .null text
  | .bool b, text => SpellsScalar (.bool b) text
  | .number n, text => SpellsScalar (.number n) text
  | .string s, text => SpellsString s text

def SpellsItems (first : Bool) : List Json → List Char → Prop
  | [], text => Closing ']' text
  | item :: items, text => ∃ before spelled after, text = before ++ (spelled ++ after) ∧
      Separator first before ∧ Spells item spelled ∧ SpellsItems false items after

def SpellsMembers (first : Bool) : List (String × Json) → List Char → Prop
  | [], text => Closing '}' text
  | (name, item) :: members, text => ∃ before named colon spelled after,
      text = before ++ (named ++ (colon ++ (spelled ++ after))) ∧
      Separator first before ∧ SpellsString name named ∧ Mark ':' colon ∧ Spells item spelled ∧
      SpellsMembers false members after

end

mutual

def nesting : Json → Nat
  | .array items => nestings items + 1
  | .object members => memberNestings members + 1
  | .null => 0
  | .bool _ => 0
  | .number _ => 0
  | .string _ => 0

def nestings : List Json → Nat
  | [] => 0
  | j :: rest => max (nesting j) (nestings rest)

def memberNestings : List (String × Json) → Nat
  | [] => 0
  | (_, j) :: rest => max (nesting j) (memberNestings rest)

end

variable {text rest : List Char} {c : Char} {j : Json}

theorem SpellsString.scalar {s : String} (spells : SpellsString s text) :
    SpellsScalar (.string s) text := by
  obtain ⟨chars, rfl, string⟩ := spells
  intro rest _
  rw [List.cons_append, Scan.scalar, string]
  rfl

theorem SpellsString.length_pos {s : String} (spells : SpellsString s text) :
    0 < text.length := by
  obtain ⟨chars, rfl, -⟩ := spells
  exact Nat.zero_lt_succ _

theorem Blank.nil : Blank [] := by simp [Blank]

theorem Blank.skip {blanks : List Char} (blank : Blank blanks) (text : List Char) :
    Scan.skipBlanks (blanks ++ text) = Scan.skipBlanks text :=
  List.dropWhile_append_of_pos blank

theorem skipBlanks_cons (black : Scan.isBlank c = false) (text : List Char) :
    Scan.skipBlanks (c :: text) = c :: text := by
  rw [Scan.skipBlanks, List.dropWhile_cons_of_neg (by simp [black])]

theorem Blank.skip_cons {blanks : List Char} (blank : Blank blanks)
    (black : Scan.isBlank c = false) (text : List Char) :
    Scan.skipBlanks (blanks ++ c :: text) = c :: text := by
  rw [blank.skip, skipBlanks_cons black]

theorem Closes.of_mem (closer : c ∈ [' ', '\n', '\t', '\r', ',', ']', '}']) (rest : List Char) :
    Closes (c :: rest) := by
  intro c' head
  cases head
  exact closer

theorem Blank.closes {blanks : List Char} (blank : Blank blanks) (closes : Closes rest) :
    Closes (blanks ++ rest) := by
  cases blanks with
  | nil => exact closes
  | cons c blanks =>
      have white := blank c List.mem_cons_self
      simp only [Scan.isBlank, Bool.or_eq_true, decide_eq_true_eq, or_assoc] at white
      refine .of_mem ?_ _
      simp only [List.mem_cons]
      tauto

theorem Blank.ends {blanks : List Char} (blank : Blank blanks) : Closes blanks := by
  rw [← List.append_nil blanks]
  exact blank.closes nofun

theorem Mark.closes_comma (mark : Mark ',' text) (rest : List Char) : Closes (text ++ rest) := by
  obtain ⟨before, after, blank, -, rfl⟩ := mark
  rw [List.append_assoc, List.cons_append]
  exact blank.closes (.of_mem (by decide) _)

theorem Closing.closes (closing : Closing c text) (bracket : c ∈ [']', '}'])
    (rest : List Char) : Closes (text ++ rest) := by
  obtain ⟨before, blank, rfl⟩ := closing
  rw [List.append_assoc]
  exact blank.closes (.of_mem (List.mem_append_right [' ', '\n', '\t', '\r', ','] bracket) _)

theorem SpellsItems.closes {items : List Json} (spells : SpellsItems false items text)
    (rest : List Char) : Closes (text ++ rest) := by
  cases items with
  | nil => exact Closing.closes spells (by decide) rest
  | cons item items =>
      obtain ⟨before, spelled, after, rfl, separator, -, -⟩ := spells
      rw [List.append_assoc]
      exact separator.closes_comma _

theorem SpellsMembers.closes {members : List (String × Json)}
    (spells : SpellsMembers false members text) (rest : List Char) : Closes (text ++ rest) := by
  cases members with
  | nil => exact Closing.closes spells (by decide) rest
  | cons member members =>
      obtain ⟨before, named, colon, spelled, after, rfl, separator, -⟩ := spells
      rw [List.append_assoc]
      exact separator.closes_comma _

end StyleTree.Json
