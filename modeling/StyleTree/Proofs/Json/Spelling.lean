import StyleTree.Proofs.Json.Scanners

namespace StyleTree.Json

theorem scalar_spelled {text rest : List Char} {j : Json}
    (read : Scan.scalar text = .ok (j, rest)) : ∃ spelled, text = spelled ++ rest ∧
      Spells j spelled := by
  unfold Scan.scalar at read
  split at read
  · cases read
  · obtain ⟨rfl, rfl, again⟩ := word_taken read
    exact ⟨'n' :: ['u', 'l', 'l'], rfl, fun rest' _ => again rest'⟩
  · obtain ⟨rfl, rfl, again⟩ := word_taken read
    exact ⟨'t' :: ['r', 'u', 'e'], rfl, fun rest' _ => again rest'⟩
  · obtain ⟨rfl, rfl, again⟩ := word_taken read
    exact ⟨'f' :: ['a', 'l', 's', 'e'], rfl, fun rest' _ => again rest'⟩
  · obtain ⟨⟨s, _⟩, found, same⟩ := ok_of_map read
    cases same
    obtain ⟨taken, rfl, again⟩ := local_string _ _ _ found
    exact ⟨'"' :: taken, rfl, taken, rfl, fun rest' => again rest' trivial⟩
  · obtain ⟨⟨n, _⟩, found, same⟩ := ok_of_map read
    cases same
    obtain ⟨taken, rfl, again⟩ := local_number true _ _ _ found
    refine ⟨'-' :: taken, rfl, fun rest' closes => ?_⟩
    rw [List.cons_append, Scan.scalar, again rest' closes]
    rfl
  · split at read
    · next digit =>
      obtain ⟨⟨n, _⟩, found, same⟩ := ok_of_map read
      cases same
      obtain ⟨taken, same, again⟩ := local_number false _ _ _ found
      cases taken with
      | nil => cases again [] (by simp [Closes])
      | cons c' taken =>
          cases same
          refine ⟨_ :: taken, rfl, fun rest' closes => ?_⟩
          rw [List.cons_append, scalar_digit digit, ← List.cons_append, again rest' closes]
          rfl
    · cases read

theorem skipBlanks_split (text : List Char) :
    ∃ blanks, Blank blanks ∧ text = blanks ++ Scan.skipBlanks text :=
  ⟨_, fun _ member => List.mem_takeWhile_imp member, List.takeWhile_append_dropWhile.symm⟩

theorem Blank.append {before after : List Char} (blank : Blank before) (blank' : Blank after) :
    Blank (before ++ after) := by
  intro c member
  rcases List.mem_append.1 member with member | member
  · exact blank c member
  · exact blank' c member

theorem Mark.append {c : Char} {text blanks : List Char} (mark : Mark c text)
    (blank : Blank blanks) : Mark c (text ++ blanks) := by
  obtain ⟨before, after, blank₁, blank₂, rfl⟩ := mark
  exact ⟨before, after ++ blanks, blank₁, blank₂.append blank, by simp⟩

theorem Separator.append {first : Bool} {text blanks : List Char}
    (separator : Separator first text) (blank : Blank blanks) :
    Separator first (text ++ blanks) := by
  cases first with
  | true => exact Blank.append separator blank
  | false => exact Mark.append separator blank

theorem nextItem_end {first : Bool} {text rest : List Char}
    (read : Scan.nextItem first text = .ok (false, rest)) :
    ∃ closing, text = closing ++ rest ∧ Closing ']' closing := by
  obtain ⟨blanks, blank, split⟩ := skipBlanks_split text
  rw [Scan.nextItem] at read
  split at read
  · cases read
  · next found =>
    cases read
    exact ⟨blanks ++ [']'], by simpa [found] using split, blanks, blank, rfl⟩
  · split at read
    · cases read
    split at read
    · split at read <;> cases read
    · cases read

theorem nextItem_more {first : Bool} {text rest : List Char}
    (read : Scan.nextItem first text = .ok (true, rest)) :
    ∃ before, text = before ++ rest ∧ Separator first before := by
  obtain ⟨blanks, blank, same⟩ := skipBlanks_split text
  rw [Scan.nextItem] at read
  split at read
  · cases read
  · cases read
  · next c more _ found =>
    rw [found] at same
    split at read
    · next isFirst =>
      cases read
      rw [isFirst]
      exact ⟨blanks, same, blank⟩
    · next notFirst =>
      split at read
      · next comma =>
        subst comma
        obtain ⟨blanks', blank', same'⟩ := skipBlanks_split more
        rw [same'] at same
        split at read
        · cases read
        · cases read
        · next found' =>
          cases read
          rw [found'] at same
          rw [Bool.eq_false_iff.2 notFirst]
          exact ⟨blanks ++ ',' :: blanks', by simpa using same, blanks, blanks', blank, blank', rfl⟩
      · cases read

theorem name_spelled {text rest : List Char} {found : Option String}
    (read : Scan.nextName.name text = .ok (found, rest)) :
    ∃ s named, found = some s ∧ text = named ++ rest ∧ SpellsString s named := by
  unfold Scan.nextName.name at read
  split at read
  · obtain ⟨⟨s, _⟩, taken, same⟩ := ok_of_map read
    cases same
    obtain ⟨chars, rfl, again⟩ := local_string _ _ _ taken
    exact ⟨s, '"' :: chars, rfl, rfl, chars, rfl, fun rest' => again rest' trivial⟩
  · cases read

theorem nextName_end {first : Bool} {text rest : List Char}
    (read : Scan.nextName first text = .ok (none, rest)) :
    ∃ closing, text = closing ++ rest ∧ Closing '}' closing := by
  obtain ⟨blanks, blank, same⟩ := skipBlanks_split text
  rw [Scan.nextName] at read
  split at read
  · cases read
  · next found =>
    cases read
    exact ⟨blanks ++ ['}'], by simpa [found] using same, blanks, blank, rfl⟩
  · split at read
    · obtain ⟨_, _, impossible, -⟩ := name_spelled read
      cases impossible
    split at read
    · split at read
      · cases read
      · cases read
      · obtain ⟨_, _, impossible, -⟩ := name_spelled read
        cases impossible
    · cases read

theorem nextName_more {first : Bool} {text rest : List Char} {s : String}
    (read : Scan.nextName first text = .ok (some s, rest)) :
    ∃ before named, text = before ++ (named ++ rest) ∧ Separator first before ∧
      SpellsString s named := by
  obtain ⟨blanks, blank, same⟩ := skipBlanks_split text
  rw [Scan.nextName] at read
  split at read
  · cases read
  · cases read
  · next c more _ found =>
    rw [found] at same
    split at read
    · next isFirst =>
      obtain ⟨_, named, ⟨⟩, same', spells⟩ := name_spelled read
      rw [same'] at same
      rw [isFirst]
      exact ⟨blanks, named, same, blank, spells⟩
    · next notFirst =>
      split at read
      · next comma =>
        subst comma
        obtain ⟨blanks', blank', same'⟩ := skipBlanks_split more
        rw [same'] at same
        split at read
        · cases read
        · cases read
        · next found' =>
          obtain ⟨_, named, ⟨⟩, same'', spells⟩ := name_spelled read
          rw [found', same''] at same
          rw [Bool.eq_false_iff.2 notFirst]
          exact ⟨blanks ++ ',' :: blanks', named, by simpa using same,
            ⟨blanks, blanks', blank, blank', rfl⟩, spells⟩
      · cases read

theorem colon_taken {text rest : List Char} (read : Scan.colon text = .ok rest) :
    ∃ colon, text = colon ++ rest ∧ Mark ':' colon := by
  obtain ⟨blanks, blank, same⟩ := skipBlanks_split text
  rw [Scan.colon] at read
  split at read
  · cases read
  · next found =>
    cases read
    rw [found] at same
    exact ⟨blanks ++ [':'], by simpa using same, blanks, [], blank, .nil, rfl⟩
  · cases read

theorem blank_of_finish {text : List Char} {u : Unit} (read : Scan.finish text = .ok u) :
    Blank text := by
  obtain ⟨blanks, blank, same⟩ := skipBlanks_split text
  rw [Scan.finish] at read
  split at read
  · next found =>
    rw [same, found, List.append_nil]
    exact blank
  · cases read

theorem finish_blank {blanks : List Char} (blank : Blank blanks) :
    Scan.finish blanks = .ok () := by
  rw [Scan.finish, ← List.append_nil blanks, blank.skip]
  rfl

mutual

-- By the fuel that the reader was given. What the reader skips in front of an item is part of what
-- separates the item from the one before.
theorem value_spelled : (fuel : Nat) → ∀ {room text j rest},
    Scan.value fuel room text = .ok (j, rest) → ∃ blanks spelled,
      text = blanks ++ (spelled ++ rest) ∧ Blank blanks ∧ Spells j spelled
  | 0, _, _, _, _, read => by cases read
  | fuel + 1, room, text, j, rest, read => by
      obtain ⟨blanks, blank, same⟩ := skipBlanks_split text
      rw [Scan.value] at read
      split at read
      · next found =>
        cases room with
        | zero => cases read
        | succ room =>
            obtain ⟨_, inside, same'⟩ := ok_of_bind read
            cases same'
            obtain ⟨spelled, rfl, spells⟩ := items_spelled fuel inside
            rw [found] at same
            exact ⟨blanks, '[' :: spelled, same, blank, spelled, rfl, spells⟩
      · next found =>
        cases room with
        | zero => cases read
        | succ room =>
            obtain ⟨_, inside, same'⟩ := ok_of_bind read
            cases same'
            obtain ⟨spelled, rfl, spells⟩ := members_spelled fuel inside
            rw [found] at same
            exact ⟨blanks, '{' :: spelled, same, blank, spelled, rfl, spells⟩
      · obtain ⟨spelled, same', spells⟩ := scalar_spelled read
        rw [same'] at same
        exact ⟨blanks, spelled, same, blank, spells⟩

theorem items_spelled : (fuel : Nat) → ∀ {room first text items rest},
    Scan.items fuel room first text = .ok (items, rest) →
      ∃ spelled, text = spelled ++ rest ∧ SpellsItems first items spelled
  | 0, _, _, _, _, _, read => by cases read
  | fuel + 1, room, first, text, items, rest, read => by
      rw [Scan.items] at read
      obtain ⟨⟨more, _⟩, next, read⟩ := ok_of_bind read
      cases more with
      | false =>
          cases read
          exact nextItem_end next
      | true =>
          obtain ⟨⟨item, _⟩, one, read⟩ := ok_of_bind read
          obtain ⟨_, others, same⟩ := ok_of_bind read
          cases same
          obtain ⟨before, rfl, separator⟩ := nextItem_more next
          obtain ⟨blanks, spelled, rfl, blank, spells⟩ := value_spelled fuel one
          obtain ⟨after, rfl, spells'⟩ := items_spelled fuel others
          exact ⟨(before ++ blanks) ++ (spelled ++ after), by simp, _, _, _, rfl,
            separator.append blank, spells, spells'⟩

theorem members_spelled : (fuel : Nat) → ∀ {room first text members rest},
    Scan.members fuel room first text = .ok (members, rest) →
      ∃ spelled, text = spelled ++ rest ∧ SpellsMembers first members spelled
  | 0, _, _, _, _, _, read => by cases read
  | fuel + 1, room, first, text, members, rest, read => by
      rw [Scan.members] at read
      obtain ⟨⟨name, _⟩, next, read⟩ := ok_of_bind read
      cases name with
      | none =>
          cases read
          exact nextName_end next
      | some name =>
          obtain ⟨_, colon, read⟩ := ok_of_bind read
          obtain ⟨⟨item, _⟩, one, read⟩ := ok_of_bind read
          obtain ⟨_, others, same⟩ := ok_of_bind read
          cases same
          obtain ⟨before, named, rfl, separator, spellsName⟩ := nextName_more next
          obtain ⟨marked, rfl, mark⟩ := colon_taken colon
          obtain ⟨blanks, spelled, rfl, blank, spells⟩ := value_spelled fuel one
          obtain ⟨after, rfl, spells'⟩ := members_spelled fuel others
          exact ⟨before ++ (named ++ ((marked ++ blanks) ++ (spelled ++ after))), by simp, _, _, _,
            _, _, rfl, separator, spellsName, mark.append blank, spells, spells'⟩

end

def Spelled (j : Json) (text : List Char) : Prop :=
  ∃ before spelled after, text = before ++ (spelled ++ after) ∧ Blank before ∧ Blank after ∧
    Spells j spelled

theorem Spells.spelled {j : Json} {text : List Char} (spells : Spells j text) : Spelled j text :=
  ⟨[], text, [], by simp, .nil, .nil, spells⟩

theorem spelled_text {l : Layout} (bare : l.Bare) {j : Json} (whole : Whole j) :
    Spelled j (j.text l).toList := by
  obtain ⟨text, spells, written⟩ := write_spells bare j whole 0
  have same : (j.text l).toList = text := by
    rw [Json.text, String.toList_ofList, written, List.append_nil]
  exact same ▸ spells.spelled

theorem Spelled.reads {j : Json} {text : List Char} (spelled : Spelled j text) (room : Nat) :
    ∃ rest, Blank rest ∧ Reads Fault.AtLimit (nesting j ≤ room)
      (Scan.value (Scan.fuelFor text) room text) (j, rest) := by
  obtain ⟨before, inner, after, rfl, blank, blank', spells⟩ := spelled
  refine ⟨after, blank', ?_⟩
  rw [Scan.fuelFor, blank.value]
  refine reads_value j spells _ room blank'.ends ?_
  simp only [List.length_append]
  omega

theorem Spelled.unique {j j' : Json} {text : List Char} (spelled : Spelled j text)
    (spelled' : Spelled j' text) : j = j' := by
  obtain ⟨rest, -, reads⟩ := spelled.reads (max (nesting j) (nesting j'))
  obtain ⟨rest', -, reads'⟩ := spelled'.reads (max (nesting j) (nesting j'))
  have read := reads.ok_of_fits (Nat.le_max_left ..)
  obtain ⟨-, same⟩ := reads'.fits_of_ok read
  exact (Prod.mk.inj same).1

/-- A text is read as the value that it spells, if the brackets of the value fit. -/
theorem parse_iff {text : List Char} {j : Json} :
    parse text = .ok j ↔ Spelled j text ∧ nesting j ≤ nestingLimit := by
  constructor
  · intro read
    obtain ⟨⟨_, rest⟩, found, finished⟩ := ok_of_bind read
    obtain ⟨_, ended, same⟩ := ok_of_bind finished
    cases same
    obtain ⟨before, inner, same, blank, spells⟩ := value_spelled _ found
    have spelled : Spelled j text :=
      ⟨before, inner, rest, same, blank, blank_of_finish ended, spells⟩
    obtain ⟨rest', -, reads⟩ := spelled.reads nestingLimit
    exact ⟨spelled, (reads.fits_of_ok found).1⟩
  · rintro ⟨spelled, low⟩
    obtain ⟨rest, blank, reads⟩ := spelled.reads nestingLimit
    rw [parse, reads.ok_of_fits low]
    simp only [bind, Except.bind, finish_blank blank]

end StyleTree.Json
