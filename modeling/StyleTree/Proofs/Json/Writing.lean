import StyleTree.Json.Writer
import StyleTree.Proofs.Json.Grammar

namespace StyleTree.Json

variable {text rest : List Char} {c : Char}

theorem control_units : ∀ n < 32, Scan.hexValue? (Nat.digitChar (n / 16)) = some (n / 16) ∧
    Scan.hexValue? (Nat.digitChar (n % 16)) = some (n % 16) ∧
    Scan.isLowSurrogate n = false ∧ Scan.isHighSurrogate n = false := by decide

theorem unicodeEscape_control {n : Nat} (control : n < 32) (rest : List Char) :
    Scan.unicodeEscape ('0' :: '0' :: (hexDigits n ++ rest)) = .ok (.ofNat n, rest) := by
  have ⟨high, low, noLow, noHigh⟩ := control_units n control
  have zero : Scan.hexValue? '0' = some 0 := rfl
  have unit : ((0 * 16 + 0) * 16 + n / 16) * 16 + n % 16 = n := by omega
  have read : Scan.hexUnit ('0' :: '0' :: (hexDigits n ++ rest)) = .ok (n, rest) := by
    simp only [hexDigits, List.cons_append, List.nil_append, Scan.hexUnit, zero, high, low, unit]
  rw [Scan.unicodeEscape, read]
  simp [bind, Except.bind, noLow, noHigh]

theorem stringChars_escape {fuel rest : List Char} (escaped : Scan.escape text = .ok (c, rest))
    (f : Char) :
    Scan.stringChars (f :: fuel) ('\\' :: text) =
      (Scan.stringChars fuel rest >>= fun r => .ok (c :: r.1, r.2)) := by
  rw [Scan.stringChars, escaped]
  rfl

theorem stringChars_writeChar (c f : Char) (fuel text : List Char) :
    Scan.stringChars (f :: fuel) (writeChar c ++ text) =
      (Scan.stringChars fuel text >>= fun r => .ok (c :: r.1, r.2)) := by
  rw [writeChar.eq_def]
  split
  -- seven characters have an escape of their own
  iterate 7 exact stringChars_escape rfl f
  next quote slash _ _ _ _ _ =>
    split
    · next control =>
      have small : c.toNat < 32 := control
      have escaped : Scan.escape ('u' :: '0' :: '0' :: (hexDigits c.toNat ++ text)) =
          .ok (c, text) := by
        have unicode := unicodeEscape_control small text
        rwa [Char.ofNat_toNat] at unicode
      exact stringChars_escape escaped f
    · next printed =>
      rw [List.cons_append, List.nil_append, Scan.stringChars, if_neg printed]
      · exact quote
      · exact slash

theorem stringChars_flatMap (cs rest : List Char) {fuel : List Char}
    (enough : cs.length < fuel.length) :
    Scan.stringChars fuel (cs.flatMap writeChar ++ '"' :: rest) = .ok (cs, rest) := by
  induction cs generalizing fuel with
  | nil =>
      obtain ⟨f, fuel, rfl⟩ := List.exists_cons_of_length_pos enough
      rfl
  | cons c cs ih =>
      obtain ⟨f, fuel, rfl⟩ := List.exists_cons_of_length_pos (Nat.zero_lt_of_lt enough)
      rw [List.length_cons, List.length_cons] at enough
      rw [List.flatMap_cons, List.append_assoc, stringChars_writeChar, ih (by omega)]
      rfl

theorem writeChar_ne_nil (c : Char) : writeChar c ≠ [] := by
  rw [writeChar.eq_def]
  split
  iterate 7 exact List.cons_ne_nil _ _
  split <;> exact List.cons_ne_nil _ _

theorem length_le_flatMap (cs : List Char) : cs.length ≤ (cs.flatMap writeChar).length := by
  induction cs with
  | nil => exact Nat.zero_le _
  | cons c cs ih =>
      have some := List.length_pos_iff.2 (writeChar_ne_nil c)
      rw [List.flatMap_cons, List.length_append, List.length_cons]
      omega

def quote (s : String) : List Char := '"' :: (s.toList.flatMap writeChar ++ ['"'])

theorem writeString_eq (s : String) (rest : List Char) : writeString s rest = quote s ++ rest := by
  simp [writeString, quote]

theorem string_quote (s : String) (rest : List Char) :
    Scan.string ((s.toList.flatMap writeChar ++ ['"']) ++ rest) = .ok (s, rest) := by
  have enough := length_le_flatMap s.toList
  rw [Scan.string, List.append_assoc, List.cons_append, List.nil_append, stringChars_flatMap]
  · simp [bind, Except.bind]
  · rw [List.length_append, List.length_cons]
    omega

theorem spells_quote (s : String) : SpellsString s (quote s) :=
  ⟨_, rfl, string_quote s⟩

theorem closer_ends_number : ∀ c ∈ [' ', '\n', '\t', '\r', ',', ']', '}'],
    c.isDigit = false ∧ c ≠ '.' ∧ ¬ Scan.isExponentMark c := by
  simp only [List.forall_mem_cons]
  refine ⟨?_, ?_, ?_, ?_, ?_, ?_, ?_, nofun⟩ <;> decide

theorem Closes.not_digit (closes : Closes rest) : rest.head?.any Char.isDigit = false := by
  cases rest with
  | nil => rfl
  | cons c rest => exact (closer_ends_number c (closes c rfl)).1

theorem Closes.afterWhole (closes : Closes rest) (negative : Bool) (d : Scan.Digits) :
    Scan.afterWhole negative d rest = Scan.whole negative d rest := by
  cases rest with
  | nil => rfl
  | cons c rest =>
      have ⟨_, noPoint, noExponent⟩ := closer_ends_number c (closes c rfl)
      rw [Scan.afterWhole, if_neg noExponent]
      exact noPoint

theorem le_ofDigitChars (digits : List Char) (n : Nat) : n ≤ Nat.ofDigitChars 10 digits n := by
  induction digits generalizing n with
  | nil => exact Nat.le_refl n
  | cons c digits ih =>
      rw [Nat.ofDigitChars_cons]
      exact Nat.le_trans (by omega) (ih _)

theorem wholeDigits_append {digits : List Char} (isDigit : ∀ c ∈ digits, c.isDigit) (n : Nat)
    (fits : Nat.ofDigitChars 10 digits n ≤ Scan.largestNatural) (closes : Closes rest) :
    Scan.wholeDigits ⟨n, 0, 0⟩ (digits ++ rest) = (⟨Nat.ofDigitChars 10 digits n, 0, 0⟩, rest) := by
  induction digits generalizing n with
  | nil =>
      cases rest with
      | nil => rfl
      | cons c rest =>
          have other : c.isDigit = false := by simpa using closes.not_digit
          simp [Scan.wholeDigits, other]
  | cons c digits ih =>
      rw [Nat.ofDigitChars_cons] at fits ⊢
      have bound := Nat.le_trans (le_ofDigitChars digits _) fits
      have value : n * 10 + Scan.digitValue c = 10 * n + (c.toNat - '0'.toNat) := by
        rw [Nat.mul_comm]
        rfl
      -- no digit is dropped, as the number only grows from here on and fits at the end
      rw [List.cons_append, Scan.wholeDigits, if_pos (isDigit c List.mem_cons_self)]
      simp only [value]
      rw [if_pos ⟨trivial, bound⟩]
      exact ih (fun c' member => isDigit c' (List.mem_cons_of_mem c member)) _ fits

theorem toDigits_start {n : Nat} (pos : 0 < n) :
    ∃ c digits, Nat.toDigits 10 n = c :: digits ∧ c ≠ '0' := by
  induction n using Nat.strongRecOn with
  | ind n ih =>
      by_cases small : n < 10
      · have digit : ∀ n < 10, 0 < n → Nat.digitChar n ≠ '0' := by decide
        exact ⟨_, [], Nat.toDigits_of_lt_base small, digit n small pos⟩
      · obtain ⟨c, digits, start, nonzero⟩ := ih (n / 10) (by omega) (by omega)
        rw [Nat.toDigits_of_base_le (by decide) (by omega), start]
        exact ⟨c, _, rfl, nonzero⟩

theorem number_toDigits {n : Nat} (fits : n ≤ Scan.largestNatural) (closes : Closes rest) :
    Scan.number false (Nat.toDigits 10 n ++ rest) = .ok (.natural n, rest) := by
  have value : Nat.ofDigitChars 10 (Nat.toDigits 10 n) 0 = n :=
    Nat.ofDigitChars_toDigits (by decide) (by decide)
  have isDigit : ∀ c ∈ Nat.toDigits 10 n, c.isDigit :=
    fun c member => Nat.isDigit_of_mem_toDigits (by decide) (by decide) member
  have digits := wholeDigits_append isDigit 0 (by rwa [value]) closes
  rw [value] at digits
  rcases Nat.eq_zero_or_pos n with rfl | pos
  · rw [Nat.toDigits_zero, List.cons_append, List.nil_append, Scan.number, if_neg,
      closes.afterWhole]
    · rfl
    · simp [closes.not_digit]
  · obtain ⟨c, more, start, nonzero⟩ := toDigits_start pos
    rw [start] at digits isDigit ⊢
    rw [List.cons_append] at digits ⊢
    rw [Scan.number, if_pos (isDigit c List.mem_cons_self), digits]
    · exact closes.afterWhole ..
    · exact nonzero

theorem scalar_digit (digit : c.isDigit) (text : List Char) :
    Scan.scalar (c :: text) =
      (Scan.number false (c :: text)).map fun r => (.number r.1, r.2) := by
  rw [Scan.scalar]
  · exact if_pos digit
  all_goals
    rintro rfl
    exact absurd digit (by decide)

theorem spells_natural {n : Nat} (fits : n ≤ Scan.largestNatural) :
    SpellsScalar (.number (.natural n)) (Nat.toDigits 10 n) := by
  intro rest closes
  have read := number_toDigits fits closes
  obtain ⟨c, more, start⟩ := List.exists_cons_of_ne_nil (Nat.toDigits_ne_nil (n := n) (b := 10))
  have digit : c.isDigit :=
    Nat.isDigit_of_mem_toDigits (b := 10) (n := n) (by decide) (by decide) (by simp [start])
  rw [start, List.cons_append] at read ⊢
  rw [scalar_digit digit, read]
  rfl

structure Layout.Bare (l : Layout) : Prop where
  gap : ∀ depth, Blank (l.gap depth)
  colon : Mark ':' l.colon

theorem bare_compact : Layout.compact.Bare :=
  ⟨fun _ => .nil, [], [], .nil, .nil, rfl⟩

theorem bare_indented : Layout.indented.Bare := by
  refine ⟨fun depth c member => ?_, [], [' '], .nil, by simp [Blank, Scan.isBlank], rfl⟩
  rcases List.mem_cons.1 member with rfl | member
  · rfl
  · rw [List.eq_of_mem_replicate member]
    rfl

mutual

def Whole : Json → Prop
  | .number (.natural n) => n ≤ Scan.largestNatural
  | .number _ => False
  | .array items => WholeItems items
  | .object members => WholeMembers members
  | _ => True

def WholeItems : List Json → Prop
  | [] => True
  | j :: rest => Whole j ∧ WholeItems rest

def WholeMembers : List (String × Json) → Prop
  | [] => True
  | (_, j) :: rest => Whole j ∧ WholeMembers rest

end

theorem scalar_word {j : Json} {word : List Char}
    (reads : ∀ rest, Scan.scalar (word ++ rest) = .ok (j, rest)) : SpellsScalar j word :=
  fun rest _ => reads rest

variable {l : Layout} (bare : l.Bare)
include bare

mutual

-- The text comes first: it does not depend on what the value is written in front of.
theorem write_spells : (j : Json) → Whole j → ∀ depth,
    ∃ text, Spells j text ∧ ∀ rest, write l depth j rest = text ++ rest
  | .null, _, _ => ⟨['n', 'u', 'l', 'l'], scalar_word fun _ => rfl, fun _ => rfl⟩
  | .bool true, _, _ => ⟨['t', 'r', 'u', 'e'], scalar_word fun _ => rfl, fun _ => rfl⟩
  | .bool false, _, _ => ⟨['f', 'a', 'l', 's', 'e'], scalar_word fun _ => rfl, fun _ => rfl⟩
  | .number (.natural n), whole, _ => ⟨Nat.toDigits 10 n, spells_natural whole, fun _ => rfl⟩
  | .string s, _, _ => ⟨quote s, spells_quote s, writeString_eq s⟩
  | .array [], _, _ => ⟨['[', ']'], ⟨[']'], rfl, [], .nil, rfl⟩, fun _ => rfl⟩
  | .array (item :: items), ⟨whole, others⟩, depth => by
      obtain ⟨spelled, spells, written⟩ := write_spells item whole (depth + 1)
      obtain ⟨after, spells', written'⟩ :=
        writeItems_spells items others (depth + 1) (bare.gap depth)
      refine ⟨'[' :: (l.gap (depth + 1) ++ (spelled ++ after)), ⟨_, rfl, ?_⟩, fun rest => ?_⟩
      · exact ⟨_, _, _, rfl, bare.gap (depth + 1), spells, spells'⟩
      · simp [write, written, written']
  | .object [], _, _ => ⟨['{', '}'], ⟨['}'], rfl, [], .nil, rfl⟩, fun _ => rfl⟩
  | .object ((name, item) :: members), ⟨whole, others⟩, depth => by
      obtain ⟨spelled, spells, written⟩ := write_spells item whole (depth + 1)
      obtain ⟨after, spells', written'⟩ :=
        writeMembers_spells members others (depth + 1) (bare.gap depth)
      refine ⟨'{' :: (l.gap (depth + 1) ++ (quote name ++ (l.colon ++ (spelled ++ after)))),
        ⟨_, rfl, ?_⟩, fun rest => ?_⟩
      · exact ⟨_, _, _, _, _, rfl, bare.gap (depth + 1), spells_quote name, bare.colon, spells,
          spells'⟩
      · simp [write, written, written', writeString_eq]

theorem writeItems_spells : (items : List Json) → WholeItems items → ∀ depth {blanks},
    Blank blanks → ∃ text, SpellsItems false items text ∧
      ∀ rest, writeItems l depth items (blanks ++ ']' :: rest) = text ++ rest
  | [], _, _, blanks, blank => ⟨blanks ++ [']'], ⟨blanks, blank, rfl⟩, fun rest => by
      simp [writeItems]⟩
  | item :: items, ⟨whole, others⟩, depth, blanks, blank => by
      obtain ⟨spelled, spells, written⟩ := write_spells item whole depth
      obtain ⟨after, spells', written'⟩ := writeItems_spells items others depth blank
      refine ⟨(',' :: l.gap depth) ++ (spelled ++ after), ?_, fun rest => ?_⟩
      · exact ⟨_, _, _, rfl, ⟨[], _, .nil, bare.gap depth, rfl⟩, spells, spells'⟩
      · simp [writeItems, written, written']

theorem writeMembers_spells : (members : List (String × Json)) → WholeMembers members →
    ∀ depth {blanks}, Blank blanks → ∃ text, SpellsMembers false members text ∧
      ∀ rest, writeMembers l depth members (blanks ++ '}' :: rest) = text ++ rest
  | [], _, _, blanks, blank => ⟨blanks ++ ['}'], ⟨blanks, blank, rfl⟩, fun rest => by
      simp [writeMembers]⟩
  | (name, item) :: members, ⟨whole, others⟩, depth, blanks, blank => by
      obtain ⟨spelled, spells, written⟩ := write_spells item whole depth
      obtain ⟨after, spells', written'⟩ := writeMembers_spells members others depth blank
      refine ⟨(',' :: l.gap depth) ++ (quote name ++ (l.colon ++ (spelled ++ after))), ?_,
        fun rest => ?_⟩
      · exact ⟨_, _, _, _, _, rfl, ⟨[], _, .nil, bare.gap depth, rfl⟩, spells_quote name,
          bare.colon, spells, spells'⟩
      · simp [writeMembers, written, written', writeString_eq]

end

end StyleTree.Json
