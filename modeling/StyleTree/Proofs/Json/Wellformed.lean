import StyleTree.Proofs.Json.Spelling

/-!
# Well-formed texts

The texts that the grammar of JSON has for values. Not each of them spells a value: a number may be
out of range, and an escape may be one half of a pair. But where a reader finds a value in such a
text it takes the whole text for it and nothing more: `ValueText.takes`. So what follows the text
is read as if the text had been a spelling, or there is no reading at all.
-/

namespace StyleTree.Json

/-! ## The grammar -/

def DigitsText (text : List Char) : Prop := text ≠ [] ∧ ∀ c ∈ text, c.isDigit

def WholeText (text : List Char) : Prop :=
  DigitsText text ∧ (text.head? = some '0' → text = ['0'])

def PlacesText (text : List Char) : Prop :=
  text = [] ∨ ∃ digits, text = '.' :: digits ∧ DigitsText digits

def ExponentText (text : List Char) : Prop :=
  text = [] ∨ ∃ mark sign digits, text = mark :: (sign ++ digits) ∧ mark ∈ ['e', 'E'] ∧
    sign ∈ [[], ['+'], ['-']] ∧ DigitsText digits

def NumberText (text : List Char) : Prop :=
  ∃ sign whole places exponent, text = sign ++ (whole ++ (places ++ exponent)) ∧
    sign ∈ [[], ['-']] ∧ WholeText whole ∧ PlacesText places ∧ ExponentText exponent

/-- The characters of a string with the closing quote. A backslash goes with the character after it;
which characters and which escapes may stand in a string is left to the reader. -/
inductive CharsText : List Char → Prop
  | closing : CharsText ['"']
  | plain {c : Char} {text : List Char} (quote : c ≠ '"') (slash : c ≠ '\\')
      (others : CharsText text) : CharsText (c :: text)
  | escape {c : Char} {text : List Char} (others : CharsText text) : CharsText ('\\' :: c :: text)

mutual

inductive ValueText : List Char → Prop
  | word {text : List Char} (word : text ∈ ["null".toList, "true".toList, "false".toList]) :
      ValueText text
  | number {text : List Char} (number : NumberText text) : ValueText text
  | string {text : List Char} (chars : CharsText text) : ValueText ('"' :: text)
  | array {text : List Char} (items : ItemsText true text) : ValueText ('[' :: text)
  | object {text : List Char} (members : MembersText true text) : ValueText ('{' :: text)

inductive ItemsText : Bool → List Char → Prop
  | closing {first : Bool} {text : List Char} (closing : Closing ']' text) : ItemsText first text
  | item {first : Bool} {before item after : List Char} (separator : Separator first before)
      (value : ValueText item) (others : ItemsText false after) :
      ItemsText first (before ++ (item ++ after))

inductive MembersText : Bool → List Char → Prop
  | closing {first : Bool} {text : List Char} (closing : Closing '}' text) : MembersText first text
  | member {first : Bool} {before name colon item after : List Char}
      (separator : Separator first before) (chars : CharsText name) (mark : Mark ':' colon)
      (value : ValueText item) (others : MembersText false after) :
      MembersText first (before ++ ('"' :: name ++ (colon ++ (item ++ after))))

end

variable {text rest rest' more digits : List Char} {c : Char} {j : Json}

/-! ## Strings -/

theorem CharsText.hexDigit (chars : CharsText text) (same : text ++ rest = c :: more) {n : Nat}
    (digit : Scan.hexValue? c = some n) : ∃ text', CharsText text' ∧ more = text' ++ rest := by
  cases chars with
  | closing =>
      cases same
      cases digit
  | plain quote slash others =>
      cases same
      exact ⟨_, others, rfl⟩
  | escape others =>
      cases same
      cases digit

theorem CharsText.hexUnit (chars : CharsText text) {unit : Nat}
    (read : Scan.hexUnit (text ++ rest) = .ok (unit, more)) :
    ∃ text', CharsText text' ∧ more = text' ++ rest := by
  unfold Scan.hexUnit at read
  split at read
  · next same =>
    split at read
    · next first second third fourth =>
      cases read
      obtain ⟨_, chars, later⟩ := chars.hexDigit same first
      obtain ⟨_, chars, later⟩ := chars.hexDigit later.symm second
      obtain ⟨_, chars, later⟩ := chars.hexDigit later.symm third
      exact chars.hexDigit later.symm fourth
    · rw [Scan.hexUnit.fault] at read
      split at read <;> cases read
  · rw [Scan.hexUnit.fault] at read
    split at read <;> cases read

theorem CharsText.lowSurrogate (chars : CharsText text) {high : Nat}
    (read : Scan.lowSurrogate high (text ++ rest) = .ok (c, more)) :
    ∃ text', CharsText text' ∧ more = text' ++ rest := by
  unfold Scan.lowSurrogate at read
  split at read
  case h_3 inside same =>
    obtain ⟨⟨low, _⟩, unit, found⟩ := ok_of_bind read
    dsimp only at found
    split at found
    · obtain ⟨-, rfl⟩ := Prod.mk.inj (Except.ok.inj found)
      cases chars with
      | closing => cases same
      | plain quote slash others =>
          injection same with isSlash
          exact absurd isSlash slash
      | escape others =>
          injection same with _ same
          injection same with _ same
          rw [← same] at unit
          exact others.hexUnit unit
    · cases found
  all_goals cases read

theorem CharsText.unicodeEscape (chars : CharsText text)
    (read : Scan.unicodeEscape (text ++ rest) = .ok (c, more)) :
    ∃ text', CharsText text' ∧ more = text' ++ rest := by
  obtain ⟨⟨unit, _⟩, first, found⟩ := ok_of_bind read
  obtain ⟨text', chars, rfl⟩ := chars.hexUnit first
  dsimp only at found
  split at found
  · cases found
  split at found
  · exact chars.lowSurrogate found
  · cases found
    exact ⟨text', chars, rfl⟩

theorem CharsText.escaped (chars : CharsText text) {c' : Char}
    (read : Scan.escape (c :: (text ++ rest)) = .ok (c', more)) :
    ∃ text', CharsText text' ∧ more = text' ++ rest := by
  unfold Scan.escape at read
  split at read
  · cases read
  · next same =>
    cases same
    exact chars.unicodeEscape read
  · next same =>
    cases same
    split at read
    · cases read
      exact ⟨text, chars, rfl⟩
    · cases read

-- by the fuel and not by the characters, of which a pair of escapes takes twelve at once
theorem CharsText.stringChars (chars : CharsText text) {fuel cs : List Char}
    (read : Scan.stringChars fuel (text ++ rest) = .ok (cs, rest')) : rest' = rest := by
  induction fuel generalizing text cs with
  | nil => cases read
  | cons f fuel ih =>
      cases chars with
      | closing =>
          cases read
          rfl
      | plain quote slash others =>
          rw [List.cons_append, stringChars_char quote slash] at read
          split at read
          · cases read
          · obtain ⟨_, found, same⟩ := ok_of_bind read
            cases same
            exact ih others found
      | escape others =>
          obtain ⟨⟨_, _⟩, escaped, found⟩ := ok_of_bind read
          obtain ⟨_, later, same⟩ := ok_of_bind found
          cases same
          obtain ⟨text', others, rfl⟩ := others.escaped escaped
          exact ih others later

theorem CharsText.string (chars : CharsText text) {s : String}
    (read : Scan.string (text ++ rest) = .ok (s, rest')) : rest' = rest := by
  obtain ⟨_, found, same⟩ := ok_of_bind read
  cases same
  exact chars.stringChars found

theorem CharsText.writeChar (chars : CharsText text) (c : Char) :
    CharsText (writeChar c ++ text) := by
  have digit {c : Char} {n : Nat} (digit : Scan.hexValue? c = some n) : c ≠ '"' ∧ c ≠ '\\' := by
    constructor <;> (rintro rfl; cases digit)
  rw [Json.writeChar.eq_def]
  split
  -- seven characters have an escape of their own
  iterate 7 exact .escape chars
  next quote slash _ _ _ _ _ =>
    split
    · next control =>
      obtain ⟨high, low, -⟩ := control_units c.toNat control
      refine .escape (.plain (by decide) (by decide) (.plain (by decide) (by decide) ?_))
      exact .plain (digit high).1 (digit high).2 (.plain (digit low).1 (digit low).2 chars)
    · exact .plain quote slash chars

theorem charsText_quote (s : String) : CharsText (s.toList.flatMap writeChar ++ ['"']) := by
  induction s.toList with
  | nil => exact .closing
  | cons c cs ih =>
      rw [List.flatMap_cons, List.append_assoc]
      exact ih.writeChar c

/-! ## Numbers -/

section
variable {negative down : Bool} {d : Scan.Digits} {n : Number}

theorem DigitsText.exists_cons (isDigits : DigitsText digits) :
    ∃ c others, digits = c :: others ∧ c.isDigit ∧ ∀ c ∈ others, c.isDigit := by
  obtain ⟨some, isDigit⟩ := isDigits
  obtain ⟨c, others, rfl⟩ := List.exists_cons_of_ne_nil some
  exact ⟨c, others, rfl, List.forall_mem_cons.1 isDigit⟩

theorem exponentDigits_rest (isDigit : ∀ c ∈ digits, c.isDigit) (none : NoDigit rest)
    {exponent : Nat}
    (read : Scan.exponentDigits negative d down exponent (digits ++ rest) = .ok (n, rest')) :
    rest' = rest := by
  induction digits generalizing exponent with
  | nil =>
      rw [List.nil_append, exponentDigits_noDigit none] at read
      exact (still_double _ _ _ _ read).1.symm
  | cons c digits ih =>
      obtain ⟨digit, isDigit⟩ := List.forall_mem_cons.1 isDigit
      rw [List.cons_append, Scan.exponentDigits, if_pos digit] at read
      dsimp only at read
      split at read
      · exact ih isDigit read
      split at read
      · cases read
      · cases read
        exact dropWhile_digits isDigit none

theorem exponentPart_rest {sign : List Char} (signs : sign ∈ [[], ['+'], ['-']])
    (isDigits : DigitsText digits) (none : NoDigit rest)
    (read : Scan.exponentPart negative d (sign ++ digits ++ rest) = .ok (n, rest')) :
    rest' = rest := by
  obtain ⟨c, others, rfl, digit, isDigit⟩ := isDigits.exists_cons
  have unsigned {down : Bool} (read : (if c.isDigit then
      Scan.exponentDigits negative d down (Scan.digitValue c) (others ++ rest)
      else .error (.into (c :: (others ++ rest)) .invalidNumber)) = .ok (n, rest')) :
      rest' = rest := by
    rw [if_pos digit] at read
    exact exponentDigits_rest isDigit none read
  simp only [List.mem_cons, List.not_mem_nil, or_false] at signs
  obtain rfl | rfl | rfl := signs
  · have plus : c ≠ '+' := by
      rintro rfl
      cases digit
    have minus : c ≠ '-' := by
      rintro rfl
      cases digit
    simp only [List.nil_append, List.cons_append, Scan.exponentPart] at read
    exact @unsigned false (by simpa [plus, minus] using read)
  · exact @unsigned false read
  · exact @unsigned true read

theorem isExponentMark_of_mem {mark : Char} (member : mark ∈ ['e', 'E']) :
    Scan.isExponentMark mark ∧ mark ≠ '.' ∧ ¬ mark.isDigit := by
  simp only [List.mem_cons, List.not_mem_nil, or_false] at member
  obtain rfl | rfl := member <;> decide

theorem ExponentText.noDigit {exponent : List Char} (text : ExponentText exponent)
    (closes : Closes rest) : NoDigit (exponent ++ rest) := by
  rcases text with rfl | ⟨mark, sign, digits, rfl, member, -⟩
  · exact closes.noDigit
  · exact .cons (isExponentMark_of_mem member).2.2 _

theorem ExponentText.doubleEnd {exponent : List Char} (text : ExponentText exponent)
    (closes : Closes rest)
    (read : Scan.doubleEnd negative d (exponent ++ rest) = .ok (n, rest')) : rest' = rest := by
  rcases text with rfl | ⟨mark, sign, digits, rfl, member, signs, isDigits⟩
  · rw [List.nil_append, closes.doubleEnd] at read
    exact (still_double _ _ _ _ read).1.symm
  · rw [List.cons_append, Scan.doubleEnd, if_pos (isExponentMark_of_mem member).1] at read
    exact exponentPart_rest signs isDigits closes.noDigit read

theorem ExponentText.afterWhole {exponent : List Char} (text : ExponentText exponent)
    (closes : Closes rest)
    (read : Scan.afterWhole negative d (exponent ++ rest) = .ok (n, rest')) : rest' = rest := by
  rcases text with rfl | ⟨mark, sign, digits, rfl, member, signs, isDigits⟩
  · rw [List.nil_append, closes.afterWhole] at read
    exact (still_whole _ _ _ read).1.symm
  · obtain ⟨isMark, point, -⟩ := isExponentMark_of_mem member
    rw [List.cons_append, Scan.afterWhole, if_pos isMark] at read
    · exact exponentPart_rest signs isDigits closes.noDigit read
    · exact point

theorem fraction_rest {exponent : List Char} (isDigits : DigitsText digits)
    (text : ExponentText exponent) (closes : Closes rest)
    (read : Scan.fraction negative d (digits ++ (exponent ++ rest)) = .ok (n, rest')) :
    rest' = rest := by
  obtain ⟨d', places⟩ :=
    overDigits_places.takes isDigits.2 (text.noDigit closes) (false, d)
  obtain ⟨c, others, rfl, digit, -⟩ := isDigits.exists_cons
  rw [List.cons_append] at read places
  rw [Scan.fraction, if_pos digit, places] at read
  exact text.doubleEnd closes read

theorem afterWhole_rest {places exponent : List Char} (hasPlaces : PlacesText places)
    (text : ExponentText exponent) (closes : Closes rest)
    (read : Scan.afterWhole negative d (places ++ (exponent ++ rest)) = .ok (n, rest')) :
    rest' = rest := by
  rcases hasPlaces with rfl | ⟨digits, rfl, isDigits⟩
  · exact text.afterWhole closes read
  · exact fraction_rest isDigits text closes read

theorem PlacesText.noDigit {places exponent : List Char} (hasPlaces : PlacesText places)
    (text : ExponentText exponent) (closes : Closes rest) :
    NoDigit (places ++ (exponent ++ rest)) := by
  rcases hasPlaces with rfl | ⟨digits, rfl, -⟩
  · exact text.noDigit closes
  · exact .cons (by decide) _

theorem number_rest {whole places exponent : List Char} (isWhole : WholeText whole)
    (hasPlaces : PlacesText places) (hasExponent : ExponentText exponent) (closes : Closes rest)
    (read : Scan.number negative (whole ++ (places ++ (exponent ++ rest))) = .ok (n, rest')) :
    rest' = rest := by
  have none : NoDigit (places ++ (exponent ++ rest)) := hasPlaces.noDigit hasExponent closes
  obtain ⟨isDigits, zero⟩ := isWhole
  obtain ⟨d, found⟩ := overDigits_whole.takes isDigits.2 none ⟨0, 0, 0⟩
  obtain ⟨c, others, rfl, digit, -⟩ := isDigits.exists_cons
  rw [List.cons_append] at read found
  by_cases isZero : c = '0'
  · subst isZero
    cases zero rfl
    rw [List.nil_append, Scan.number, if_neg (Bool.eq_false_iff.1 none)] at read
    exact afterWhole_rest hasPlaces hasExponent closes read
  · rw [Scan.number, if_pos digit, found] at read
    · exact afterWhole_rest hasPlaces hasExponent closes read
    · exact isZero

end

/-! ## Values -/

structure Takes (p : Prop) (text : List Char) : Prop where
  start : Starts text
  takes : ∀ {fuel room : Nat} {rest rest' : List Char} {j : Json}, Closes rest →
    2 * text.length < fuel → Scan.value fuel room (text ++ rest) = .ok (j, rest') →
      rest' = rest ∧ p

structure ItemsTake (p : Prop) (first : Bool) (text : List Char) : Prop where
  some : 0 < text.length
  closes : first = false → ∀ rest, Closes (text ++ rest)
  takes : ∀ {fuel room : Nat} {rest rest' : List Char} {items : List Json},
    2 * text.length < fuel → Scan.items fuel room first (text ++ rest) = .ok (items, rest') →
      rest' = rest ∧ p

structure MembersTake (p : Prop) (first : Bool) (text : List Char) : Prop where
  closes : first = false → ∀ rest, Closes (text ++ rest)
  takes : ∀ {fuel room : Nat} {rest rest' : List Char} {members : List (String × Json)},
    2 * text.length < fuel → Scan.members fuel room first (text ++ rest) = .ok (members, rest') →
      rest' = rest ∧ p

section
variable {p q : Prop} {first : Bool} {before part after named colon : List Char}

theorem ItemsTake.mono (take : ItemsTake p first text) (later : p → q) :
    ItemsTake q first text where
  some := take.some
  closes := take.closes
  takes enough read := (take.takes enough read).imp_right later

theorem MembersTake.mono (take : MembersTake p first text) (later : p → q) :
    MembersTake q first text where
  closes := take.closes
  takes enough read := (take.takes enough read).imp_right later

theorem Separator.closes (separator : Separator first before) (later : first = false)
    (rest : List Char) : Closes (before ++ rest) := by
  subst later
  exact Mark.closes_comma separator rest

theorem ItemsTake.closing (closing : Closing ']' text) : ItemsTake True first text where
  some := by
    obtain ⟨before, -, rfl⟩ := closing
    simp
  closes _ := closing.closes (by decide)
  takes {fuel} _ _ _ _ enough read := by
    obtain ⟨fuel, rfl⟩ : ∃ n, fuel = n + 1 := ⟨fuel - 1, by omega⟩
    rw [items_closing closing] at read
    cases read
    exact ⟨rfl, trivial⟩

theorem MembersTake.closing (closing : Closing '}' text) : MembersTake True first text where
  closes _ := closing.closes (by decide)
  takes {fuel} _ _ _ _ enough read := by
    obtain ⟨fuel, rfl⟩ : ∃ n, fuel = n + 1 := ⟨fuel - 1, by omega⟩
    rw [members_closing closing] at read
    cases read
    exact ⟨rfl, trivial⟩

theorem ItemsTake.item (separator : Separator first before) (one : Takes p part)
    (others : ItemsTake q false after) : ItemsTake (p ∧ q) first (before ++ (part ++ after)) where
  some := by
    have some := others.some
    simp only [List.length_append]
    omega
  closes later rest := by
    rw [List.append_assoc]
    exact separator.closes later _
  takes {fuel} _ rest _ _ enough read := by
    obtain ⟨fuel, rfl⟩ : ∃ n, fuel = n + 1 := ⟨fuel - 1, by omega⟩
    have some := one.start.length_pos
    have more := others.some
    simp only [List.length_append] at enough
    simp only [List.append_assoc] at read
    rw [items_item separator one.start] at read
    obtain ⟨⟨_, _⟩, value, read⟩ := ok_of_bind read
    obtain ⟨⟨_, _⟩, items, same⟩ := ok_of_bind read
    cases same
    obtain ⟨rfl, shown⟩ := one.takes (others.closes rfl rest) (by omega) value
    obtain ⟨rfl, shown'⟩ := others.takes (by omega) items
    exact ⟨rfl, shown, shown'⟩

theorem MembersTake.member {name : String} (separator : Separator first before)
    (spells : SpellsString name named) (mark : Mark ':' colon) (one : Takes p part)
    (others : MembersTake q false after) :
    MembersTake (p ∧ q) first (before ++ (named ++ (colon ++ (part ++ after)))) where
  closes later rest := by
    rw [List.append_assoc]
    exact separator.closes later _
  takes {fuel} _ rest _ _ enough read := by
    have some := spells.length_pos
    simp only [List.length_append] at enough
    obtain ⟨fuel, rfl⟩ : ∃ n, fuel = n + 1 + 1 := ⟨fuel - 2, by omega⟩
    simp only [List.append_assoc] at read
    rw [members_member separator spells mark] at read
    obtain ⟨⟨_, _⟩, value, read⟩ := ok_of_bind read
    obtain ⟨⟨_, _⟩, members, same⟩ := ok_of_bind read
    cases same
    obtain ⟨rfl, shown⟩ := one.takes (others.closes rfl rest) (by omega) value
    obtain ⟨rfl, shown'⟩ := others.takes (by omega) members
    exact ⟨rfl, shown, shown'⟩

theorem Takes.array (items : ItemsTake p true text) : Takes p ('[' :: text) where
  start := ⟨'[', text, rfl, rfl, by decide⟩
  takes {fuel room} _ _ _ _ enough read := by
    rw [List.length_cons] at enough
    obtain ⟨fuel, rfl⟩ : ∃ n, fuel = n + 1 := ⟨fuel - 1, by omega⟩
    cases room with
    | zero =>
        rw [List.cons_append, value_no_room (.inl rfl)] at read
        cases read
    | succ room =>
        rw [List.cons_append, value_array] at read
        obtain ⟨_, inside, same⟩ := ok_of_bind read
        cases same
        exact items.takes (by omega) inside

theorem Takes.object (members : MembersTake p true text) : Takes p ('{' :: text) where
  start := ⟨'{', text, rfl, rfl, by decide⟩
  takes {fuel room} _ _ _ _ enough read := by
    rw [List.length_cons] at enough
    obtain ⟨fuel, rfl⟩ : ∃ n, fuel = n + 1 := ⟨fuel - 1, by omega⟩
    cases room with
    | zero =>
        rw [List.cons_append, value_no_room (.inr rfl)] at read
        cases read
    | succ room =>
        rw [List.cons_append, value_object] at read
        obtain ⟨_, inside, same⟩ := ok_of_bind read
        cases same
        exact members.takes (by omega) inside

/-! ## Spelled parts -/

theorem Spells.takes (spells : Spells j text) : Takes True text where
  start := spells.start
  takes {fuel room} _ _ _ closes enough read := by
    obtain ⟨-, same⟩ := (reads_value j spells fuel room closes enough).fits_of_ok read
    exact ⟨(Prod.mk.inj same).2, trivial⟩

theorem SpellsItems.take {items : List Json} (spells : SpellsItems first items text) :
    ItemsTake True first text where
  some := spells.length_pos
  closes later := by
    subst later
    exact spells.closes
  takes {fuel room rest} _ _ enough read := by
    obtain ⟨-, same⟩ := (reads_items items spells fuel room rest enough).fits_of_ok read
    exact ⟨(Prod.mk.inj same).2, trivial⟩

theorem SpellsMembers.take {members : List (String × Json)}
    (spells : SpellsMembers first members text) : MembersTake True first text where
  closes later := by
    subst later
    exact spells.closes
  takes {fuel room rest} _ _ enough read := by
    obtain ⟨-, same⟩ := (reads_members members spells fuel room rest enough).fits_of_ok read
    exact ⟨(Prod.mk.inj same).2, trivial⟩

theorem Takes.flat (black : Scan.isBlank c = false) (plain : c ∉ ['[', '{', ']'])
    (takes : ∀ {rest rest' : List Char} {j : Json}, Closes rest →
      Scan.scalar (c :: (text ++ rest)) = .ok (j, rest') → rest' = rest) :
    Takes True (c :: text) where
  start := ⟨c, text, rfl, black, fun same => plain (by simp [same])⟩
  takes {fuel} _ _ _ _ closes enough read := by
    obtain ⟨fuel, rfl⟩ : ∃ n, fuel = n + 1 := ⟨fuel - 1, by omega⟩
    rw [List.cons_append, value_flat black fun bracket =>
      plain (List.mem_append_left [']'] bracket)] at read
    exact ⟨takes closes read, trivial⟩

theorem takes_word (word : text ∈ ["null".toList, "true".toList, "false".toList]) :
    Takes True text := by
  simp only [List.mem_cons, List.not_mem_nil, or_false] at word
  obtain rfl | rfl | rfl := word
  all_goals
    refine .flat rfl (by decide) fun _ read => ?_
    cases read
    rfl

theorem CharsText.takes (chars : CharsText text) : Takes True ('"' :: text) := by
  refine .flat rfl (by decide) fun _ read => ?_
  obtain ⟨⟨s, _⟩, found, same⟩ := ok_of_map read
  cases same
  exact chars.string found

theorem digit_no_mark : ∀ c ∈ [' ', '\n', '\t', '\r', '[', '{', ']'], c.isDigit = false := by
  simp [Char.isDigit]

theorem NumberText.takes (number : NumberText text) : Takes True text := by
  obtain ⟨sign, whole, places, exponent, rfl, signs, isWhole, hasPlaces, hasExponent⟩ := number
  simp only [List.mem_cons, List.not_mem_nil, or_false] at signs
  obtain rfl | rfl := signs
  · obtain ⟨c, others, rfl, digit, -⟩ := isWhole.1.exists_cons
    have other : c ∉ [' ', '\n', '\t', '\r', '[', '{', ']'] :=
      fun mark => by simp [digit_no_mark c mark] at digit
    simp only [List.mem_cons, List.not_mem_nil, or_false, not_or] at other
    rw [List.nil_append, List.cons_append]
    refine .flat (by simp [Scan.isBlank, other]) (by simp [other]) fun closes read => ?_
    rw [scalar_digit digit] at read
    obtain ⟨⟨n, _⟩, found, same⟩ := ok_of_map read
    cases same
    simp only [List.append_assoc] at found
    exact number_rest isWhole hasPlaces hasExponent closes found
  · rw [List.cons_append, List.nil_append]
    refine .flat rfl (by decide) fun closes read => ?_
    obtain ⟨⟨n, _⟩, found, same⟩ := ok_of_map read
    cases same
    simp only [List.append_assoc] at found
    exact number_rest isWhole hasPlaces hasExponent closes found

theorem MembersTake.quoted (separator : Separator first before) (chars : CharsText named)
    (mark : Mark ':' colon) (one : Takes p part) (others : MembersTake q false after) :
    MembersTake (p ∧ q) first (before ++ ('"' :: named ++ (colon ++ (part ++ after)))) := by
  by_cases spelled : ∃ name, SpellsString name ('"' :: named)
  · obtain ⟨name, spells⟩ := spelled
    exact .member separator spells mark one others
  refine ⟨fun later rest => ?_, fun {fuel} _ _ _ _ enough read => absurd ?_ spelled⟩
  · rw [List.append_assoc]
    exact separator.closes later _
  · obtain ⟨fuel, rfl⟩ : ∃ n, fuel = n + 1 := ⟨fuel - 1, by omega⟩
    simp only [List.append_assoc, List.cons_append] at read
    rw [Scan.members, nextName_quote separator] at read
    obtain ⟨_, next, -⟩ := ok_of_bind read
    obtain ⟨⟨name, _⟩, found, -⟩ := ok_of_map next
    obtain rfl := chars.string found
    obtain ⟨taken, same, again⟩ := local_string _ _ _ found
    obtain rfl := List.append_cancel_right same
    exact ⟨name, named, rfl, fun rest => again rest trivial⟩

end

mutual

theorem takes_value {text : List Char} : ValueText text → Takes True text
  | .word word => takes_word word
  | .number isNumber => isNumber.takes
  | .string chars => chars.takes
  | .array items => .array (take_items items)
  | .object members => .object (take_members members)

theorem take_items {first : Bool} {text : List Char} : ItemsText first text →
    ItemsTake True first text
  | .closing closing => .closing closing
  | .item separator value others =>
      (ItemsTake.item separator (takes_value value) (take_items others)).mono fun _ => trivial

theorem take_members {first : Bool} {text : List Char} : MembersText first text →
    MembersTake True first text
  | .closing closing => .closing closing
  | .member separator chars mark value others =>
      (MembersTake.quoted separator chars mark (takes_value value) (take_members others)).mono
        fun _ => trivial

end

/-- A reader that finds a value in a well-formed text takes the whole text for it, so that the text
spells the value. -/
theorem ValueText.takes (value : ValueText text) : Takes (∃ j, Spells j text) text where
  start := (takes_value value).start
  takes {fuel _ _ _ j} closes enough read := by
    obtain ⟨rfl, -⟩ := (takes_value value).takes closes enough read
    obtain ⟨blanks, spelled, same, blank, spells⟩ := value_spelled fuel read
    rw [← List.append_assoc] at same
    obtain rfl := List.append_cancel_right same
    obtain ⟨c, chars, begins, black, -⟩ := (takes_value value).start
    refine ⟨rfl, j, ?_⟩
    cases blanks with
    | nil => exact spells
    | cons _ blanks =>
        cases begins
        rw [blank c List.mem_cons_self] at black
        cases black

end StyleTree.Json
