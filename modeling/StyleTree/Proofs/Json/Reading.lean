import StyleTree.Proofs.Json.Grammar

namespace StyleTree.Json

/-- A reading that gives a value if the value fits, and ends at a limit if it does not. -/
def Reads {ε α : Type} (limit : ε → Prop) (fits : Prop) (r : Except ε α) (a : α) : Prop :=
  fits ∧ r = .ok a ∨ ¬ fits ∧ ∃ e, r = .error e ∧ limit e

namespace Reads

variable {ε α β : Type} {limit : ε → Prop} {fits fits' : Prop} {r : Except ε α} {a : α}

theorem of_ok (read : r = .ok a) (h : fits) : Reads limit fits r a := .inl ⟨h, read⟩

theorem of_iff (reads : Reads limit fits r a) (same : fits ↔ fits') : Reads limit fits' r a := by
  rwa [Reads, ← same]

theorem bind {next : α → Except ε β} {b : β} (reads : Reads limit fits r a)
    (later : fits → Reads limit fits' (next a) b) :
    Reads limit (fits ∧ fits') (r >>= next) b := by
  rcases reads with ⟨h, rfl⟩ | ⟨h, e, rfl, limited⟩
  · rcases later h with ⟨h', read⟩ | ⟨h', failed⟩
    · exact .inl ⟨⟨h, h'⟩, read⟩
    · exact .inr ⟨fun both => h' both.2, failed⟩
  · exact .inr ⟨fun both => h both.1, e, rfl, limited⟩

theorem bind_ok {next : α → Except ε β} {b : β} (reads : Reads limit fits r a)
    (later : next a = .ok b) : Reads limit fits (r >>= next) b := by
  rcases reads with ⟨h, rfl⟩ | ⟨h, e, rfl, limited⟩
  · exact .inl ⟨h, later⟩
  · exact .inr ⟨h, e, rfl, limited⟩

theorem map (reads : Reads limit fits r a) (f : α → β) :
    Reads limit fits (r >>= fun x => .ok (f x)) (f a) := reads.bind_ok rfl

theorem ok_of_fits (reads : Reads limit fits r a) (h : fits) : r = .ok a := by
  rcases reads with ⟨-, read⟩ | ⟨high, -⟩
  · exact read
  · exact absurd h high

theorem fits_of_ok {b : α} (reads : Reads limit fits r a) (read : r = .ok b) : fits ∧ b = a := by
  rcases reads with ⟨h, same⟩ | ⟨-, e, failed, -⟩
  · exact ⟨h, Except.ok.inj (read.symm.trans same)⟩
  · cases read.symm.trans failed

end Reads

section
variable {ε α β : Type} {r : Except ε α}

theorem ok_of_bind {next : α → Except ε β} {b : β} (read : r.bind next = .ok b) :
    ∃ a, r = .ok a ∧ next a = .ok b := by
  cases r with
  | error e => cases read
  | ok a => exact ⟨a, rfl, read⟩

theorem ok_of_map {f : α → β} {b : β} (read : r.map f = .ok b) : ∃ a, r = .ok a ∧ f a = b := by
  cases r with
  | error e => cases read
  | ok a => exact ⟨a, rfl, Except.ok.inj read⟩

theorem exists_error_iff : (∃ e, r = .error e) ↔ ¬ ∃ a, r = .ok a := by
  cases r <;> simp

theorem ok_of_mapError {ε' : Type} {f : ε → ε'} {a : α} (read : r.mapError f = .ok a) :
    r = .ok a := by
  cases r with
  | error e => cases read
  | ok b => exact congrArg Except.ok (Except.ok.inj read)

end

def Fault.AtLimit (f : Fault) : Prop := f.cause = .nestingLimit

variable {text spelled rest : List Char} {c : Char} {j : Json}

theorem nextItem_closing {first : Bool} (closing : Closing ']' text) (rest : List Char) :
    Scan.nextItem first (text ++ rest) = .ok (false, rest) := by
  obtain ⟨before, blank, rfl⟩ := closing
  rw [List.append_assoc, Scan.nextItem, List.cons_append, blank.skip_cons rfl]
  rfl

theorem nextItem_separator {first : Bool} (separator : Separator first text)
    (black : Scan.isBlank c = false) (item : c ≠ ']') (rest : List Char) :
    Scan.nextItem first (text ++ c :: rest) = .ok (true, c :: rest) := by
  cases first with
  | true =>
      have blank : Blank text := separator
      simp [Scan.nextItem, blank.skip_cons black]
  | false =>
      obtain ⟨before, after, blank, blank', rfl⟩ := separator
      rw [List.append_assoc, List.cons_append]
      simp [Scan.nextItem, blank.skip_cons, blank'.skip_cons black, Scan.isBlank]

theorem nextName_closing {first : Bool} (closing : Closing '}' text) (rest : List Char) :
    Scan.nextName first (text ++ rest) = .ok (none, rest) := by
  obtain ⟨before, blank, rfl⟩ := closing
  rw [List.append_assoc, Scan.nextName, List.cons_append, blank.skip_cons rfl]
  rfl

theorem nextName_quote {first : Bool} (separator : Separator first text) (chars : List Char) :
    Scan.nextName first (text ++ '"' :: chars) =
      (Scan.string chars).map fun r => (some r.1, r.2) := by
  cases first with
  | true =>
      have blank : Blank text := separator
      simp [Scan.nextName, blank.skip_cons, Scan.isBlank, Scan.nextName.name]
  | false =>
      obtain ⟨before, after, blank, blank', rfl⟩ := separator
      rw [List.append_assoc, List.cons_append]
      simp [Scan.nextName, blank.skip_cons, blank'.skip_cons, Scan.isBlank, Scan.nextName.name]

theorem nextName_separator {first : Bool} {s : String} {named : List Char}
    (separator : Separator first text) (spells : SpellsString s named) (rest : List Char) :
    Scan.nextName first (text ++ (named ++ rest)) = .ok (some s, rest) := by
  obtain ⟨chars, rfl, string⟩ := spells
  rw [List.cons_append, nextName_quote separator, string]
  rfl

theorem colon_mark (mark : Mark ':' text) :
    ∃ blanks, Blank blanks ∧ ∀ rest, Scan.colon (text ++ rest) = .ok (blanks ++ rest) := by
  obtain ⟨before, after, blank, blank', rfl⟩ := mark
  refine ⟨after, blank', fun rest => ?_⟩
  rw [List.append_assoc, Scan.colon, List.cons_append, blank.skip_cons rfl]
  rfl

theorem scalar_start {r : Json × List Char} (read : Scan.scalar text = .ok r) :
    ∃ c rest, text = c :: rest ∧ Scan.isBlank c = false ∧ c ∉ ['[', '{', ']', '}'] := by
  cases text with
  | nil => cases read
  | cons c rest =>
      have other : ∀ c' ∈ [' ', '\n', '\t', '\r', '[', '{', ']', '}'], c ≠ c' := by
        simp only [List.forall_mem_cons]
        refine ⟨?_, ?_, ?_, ?_, ?_, ?_, ?_, ?_, nofun⟩ <;> (rintro rfl; cases read)
      simp only [List.forall_mem_cons] at other
      exact ⟨c, rest, rfl, by simp [Scan.isBlank, other], by simp [other]⟩

def Starts (text : List Char) : Prop :=
  ∃ c rest, text = c :: rest ∧ Scan.isBlank c = false ∧ c ≠ ']'

theorem Starts.length_pos (starts : Starts text) : 0 < text.length := by
  obtain ⟨c, chars, rfl, -⟩ := starts
  exact Nat.zero_lt_succ _

theorem Spells.start (spells : Spells j text) : Starts text := by
  have scalar {j : Json} (spells : SpellsScalar j text) : Starts text := by
    have read := spells [] (by simp [Closes])
    rw [List.append_nil] at read
    obtain ⟨c, rest, rfl, black, other⟩ := scalar_start read
    exact ⟨c, rest, rfl, black, fun h => other (by simp [h])⟩
  cases j with
  | array =>
      obtain ⟨inner, rfl, -⟩ := spells
      exact ⟨'[', inner, rfl, rfl, by decide⟩
  | object =>
      obtain ⟨inner, rfl, -⟩ := spells
      exact ⟨'{', inner, rfl, rfl, by decide⟩
  | string =>
      obtain ⟨chars, rfl, -⟩ := spells
      exact ⟨'"', chars, rfl, rfl, by decide⟩
  | _ => exact scalar spells

theorem Blank.value {blanks : List Char} (blank : Blank blanks) (fuel room : Nat)
    (text : List Char) :
    Scan.value (fuel + 1) room (blanks ++ text) = Scan.value (fuel + 1) room text := by
  rw [Scan.value, Scan.value, blank.skip]

theorem value_flat (black : Scan.isBlank c = false) (flat : c ∉ ['[', '{']) (fuel room : Nat)
    (text : List Char) : Scan.value (fuel + 1) room (c :: text) = Scan.scalar (c :: text) := by
  rw [Scan.value, skipBlanks_cons black]
  split
  · next h => cases h; simp at flat
  · next h => cases h; simp at flat
  · rfl

theorem value_scalar {r : Json × List Char} (read : Scan.scalar text = .ok r) (fuel room : Nat) :
    Scan.value (fuel + 1) room text = .ok r := by
  obtain ⟨c, rest, rfl, black, other⟩ := scalar_start read
  rw [value_flat black fun bracket => other (List.mem_append_left [']', '}'] bracket), read]

theorem value_array (fuel room : Nat) (text : List Char) :
    Scan.value (fuel + 1) (room + 1) ('[' :: text) =
      (Scan.items fuel room true text >>= fun r => .ok (.array r.1, r.2)) := by
  rw [Scan.value, skipBlanks_cons rfl]
  rfl

theorem value_object (fuel room : Nat) (text : List Char) :
    Scan.value (fuel + 1) (room + 1) ('{' :: text) =
      (Scan.members fuel room true text >>= fun r => .ok (.object r.1, r.2)) := by
  rw [Scan.value, skipBlanks_cons rfl]
  rfl

theorem value_no_room (bracket : c = '[' ∨ c = '{') (fuel : Nat) (text : List Char) :
    Scan.value (fuel + 1) 0 (c :: text) = .error (.into (c :: text) .nestingLimit) := by
  rcases bracket with rfl | rfl <;> (rw [Scan.value, skipBlanks_cons rfl]; rfl)

theorem items_closing {first : Bool} (closing : Closing ']' text) (fuel room : Nat)
    (rest : List Char) : Scan.items (fuel + 1) room first (text ++ rest) = .ok ([], rest) := by
  rw [Scan.items, nextItem_closing closing]
  rfl

theorem members_closing {first : Bool} (closing : Closing '}' text) (fuel room : Nat)
    (rest : List Char) : Scan.members (fuel + 1) room first (text ++ rest) = .ok ([], rest) := by
  rw [Scan.members, nextName_closing closing]
  rfl

theorem items_item {first : Bool} (separator : Separator first text) (starts : Starts spelled)
    (fuel room : Nat) (rest : List Char) :
    Scan.items (fuel + 1) room first (text ++ (spelled ++ rest)) =
      (Scan.value fuel room (spelled ++ rest) >>= fun r =>
        Scan.items fuel room false r.2 >>= fun others => .ok (r.1 :: others.1, others.2)) := by
  obtain ⟨c, chars, rfl, black, item⟩ := starts
  rw [Scan.items, List.cons_append, nextItem_separator separator black item]
  rfl

theorem members_member {first : Bool} {name : String} {named colon : List Char}
    (separator : Separator first text) (spells : SpellsString name named) (mark : Mark ':' colon)
    (fuel room : Nat) (rest : List Char) :
    Scan.members (fuel + 1 + 1) room first (text ++ (named ++ (colon ++ rest))) =
      (Scan.value (fuel + 1) room rest >>= fun r =>
        Scan.members (fuel + 1) room false r.2 >>= fun others =>
          .ok ((name, r.1) :: others.1, others.2)) := by
  obtain ⟨blanks, blank, passed⟩ := colon_mark mark
  rw [Scan.members, nextName_separator separator spells, ← blank.value]
  simp only [bind, Except.bind, passed]

theorem reads_scalar (spells : SpellsScalar j text) (flat : nesting j = 0) (fuel room : Nat)
    (closes : Closes rest) (enough : 2 * text.length < fuel) :
    Reads Fault.AtLimit (nesting j ≤ room) (Scan.value fuel room (text ++ rest)) (j, rest) := by
  obtain ⟨fuel, rfl⟩ : ∃ n, fuel = n + 1 := ⟨fuel - 1, by omega⟩
  exact .of_ok (value_scalar (spells rest closes) fuel room) (by omega)

theorem Spells.length_pos (spells : Spells j text) : 0 < text.length := spells.start.length_pos

theorem SpellsItems.length_pos {first : Bool} {items : List Json}
    (spells : SpellsItems first items text) : 0 < text.length := by
  cases items with
  | nil =>
      obtain ⟨before, -, rfl⟩ := spells
      simp
  | cons item items =>
      obtain ⟨before, spelled, after, rfl, -, item, -⟩ := spells
      have some := item.length_pos
      simp only [List.length_append]
      omega

mutual

-- By induction on the value. What is read inside of a value has two characters less of text for
-- each two units of fuel less, so that twice the length is always enough.
theorem reads_value : (j : Json) → {text : List Char} → Spells j text → ∀ fuel room {rest},
    Closes rest → 2 * text.length < fuel →
      Reads Fault.AtLimit (nesting j ≤ room) (Scan.value fuel room (text ++ rest)) (j, rest)
  | .array items, text, spells, fuel, room, rest, closes, enough => by
      obtain ⟨inner, rfl, spells⟩ := spells
      obtain ⟨fuel, rfl⟩ : ∃ n, fuel = n + 1 := ⟨fuel - 1, by omega⟩
      rw [List.length_cons] at enough
      rw [List.cons_append, nesting]
      cases room with
      | zero => exact .inr ⟨by omega, _, value_no_room (.inl rfl) .., rfl⟩
      | succ room =>
          have reads := reads_items items spells fuel room rest (by omega)
          rw [value_array]
          exact (reads.map _).of_iff (by omega)
  | .object members, text, spells, fuel, room, rest, closes, enough => by
      obtain ⟨inner, rfl, spells⟩ := spells
      obtain ⟨fuel, rfl⟩ : ∃ n, fuel = n + 1 := ⟨fuel - 1, by omega⟩
      rw [List.length_cons] at enough
      rw [List.cons_append, nesting]
      cases room with
      | zero => exact .inr ⟨by omega, _, value_no_room (.inr rfl) .., rfl⟩
      | succ room =>
          have reads := reads_members members spells fuel room rest (by omega)
          rw [value_object]
          exact (reads.map _).of_iff (by omega)
  | .null, _, spells, _, _, _, closes, enough => reads_scalar spells rfl _ _ closes enough
  | .bool _, _, spells, _, _, _, closes, enough => reads_scalar spells rfl _ _ closes enough
  | .number _, _, spells, _, _, _, closes, enough => reads_scalar spells rfl _ _ closes enough
  | .string _, _, spells, _, _, _, closes, enough =>
      reads_scalar spells.scalar rfl _ _ closes enough

theorem reads_items : (items : List Json) → {first : Bool} → {text : List Char} →
    SpellsItems first items text → ∀ fuel room rest, 2 * text.length < fuel →
      Reads Fault.AtLimit (nestings items ≤ room) (Scan.items fuel room first (text ++ rest))
        (items, rest)
  | [], first, text, spells, fuel, room, rest, enough => by
      obtain ⟨fuel, rfl⟩ : ∃ n, fuel = n + 1 := ⟨fuel - 1, by omega⟩
      exact .of_ok (items_closing spells fuel room rest) (Nat.zero_le _)
  | item :: items, first, text, spells, fuel, room, rest, enough => by
      obtain ⟨before, spelled, after, rfl, separator, spellsItem, spellsItems⟩ := spells
      obtain ⟨fuel, rfl⟩ : ∃ n, fuel = n + 1 := ⟨fuel - 1, by omega⟩
      have some := spellsItem.length_pos
      have more := spellsItems.length_pos
      simp only [List.length_append] at enough
      simp only [List.append_assoc]
      rw [items_item separator spellsItem.start]
      have reads := reads_value item spellsItem fuel room (spellsItems.closes rest) (by omega)
      have later := reads_items items spellsItems fuel room rest (by omega)
      exact (reads.bind fun _ => later.map _).of_iff Nat.max_le.symm

theorem reads_members : (members : List (String × Json)) → {first : Bool} → {text : List Char} →
    SpellsMembers first members text → ∀ fuel room rest, 2 * text.length < fuel →
      Reads Fault.AtLimit (memberNestings members ≤ room)
        (Scan.members fuel room first (text ++ rest)) (members, rest)
  | [], first, text, spells, fuel, room, rest, enough => by
      obtain ⟨fuel, rfl⟩ : ∃ n, fuel = n + 1 := ⟨fuel - 1, by omega⟩
      exact .of_ok (members_closing spells fuel room rest) (Nat.zero_le _)
  | (name, item) :: members, first, text, spells, fuel, room, rest, enough => by
      obtain ⟨before, named, colon, spelled, after, rfl, separator, spellsString, mark, spellsItem,
        spellsMembers⟩ := spells
      have some := spellsString.length_pos
      simp only [List.length_append] at enough
      obtain ⟨fuel, rfl⟩ : ∃ n, fuel = n + 1 + 1 := ⟨fuel - 2, by omega⟩
      simp only [List.append_assoc]
      rw [members_member separator spellsString mark]
      have closes := spellsMembers.closes rest
      have reads := reads_value item spellsItem (fuel + 1) room closes (by omega)
      have later := reads_members members spellsMembers (fuel + 1) room rest (by omega)
      exact (reads.bind fun _ => later.map _).of_iff Nat.max_le.symm

end

end StyleTree.Json
