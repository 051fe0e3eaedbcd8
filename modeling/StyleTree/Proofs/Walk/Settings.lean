import StyleTree.Walk.Config
import StyleTree.Proofs.Json.Spelling
import StyleTree.Proofs.Node.Members

namespace StyleTree.Walk

open Json

inductive Engine.Tells : Json → Engine → Prop where
  | name (e) : Tells (.string e.name) e
  | member (e) : Tells (.object [(e.name, .null)]) e

namespace Config

inductive TellsDepth : Json → Option UInt64 → Prop where
  | none : TellsDepth .null none
  | some (n : UInt64) : TellsDepth (.number (.natural n.toNat)) (some n)

/-- What the values of one name tell, with what was read of that name before: there is one value at
most in all, and without any there is the default. -/
def Given {α : Type} (tells : Json → α → Prop) (default : α) : Option α → List Json → α → Prop
  | none, [], a => a = default
  | none, [j], a => tells j a
  | some b, [], a => a = b
  | _, _, _ => False

structure TellsMembers (d : Draft) (members : List (String × Json)) (c : Config) : Prop where
  known : ∀ m ∈ members, m.1 = "engine" ∨ m.1 = "max_depth"
  engine : Given Engine.Tells .iterative d.engine (valuesOf (· = "engine") members) c.engine
  maxDepth : Given TellsDepth none d.maxDepth (valuesOf (· = "max_depth") members) c.maxDepth

structure TellsItems (items : List Json) (c : Config) : Prop where
  engine : Given Engine.Tells .iterative none (items.take 1) c.engine
  maxDepth : Given TellsDepth none none (items.drop 1) c.maxDepth

def Tells : Json → Config → Prop
  | .object members, c => TellsMembers {} members c
  | .array items, c => TellsItems items c
  | _, _ => False

section
variable {α : Type} {tells : Json → α → Prop} {default a : α} {found : Option α}

theorem given_nil : Given tells default found [] a ↔ a = found.getD default := by
  cases found <;> rfl

theorem given_cons {j : Json} {values : List Json} :
    Given tells default found (j :: values) a ↔
      found = none ∧ ∃ b, tells j b ∧ Given tells default (some b) values a := by
  cases found <;> cases values <;> simp [Given]

theorem Given.perm {values values' : List Json} (given : Given tells default found values a)
    (perm : values.Perm values') : Given tells default found values' a := by
  cases values with
  | nil => rwa [List.nil_perm.1 perm]
  | cons j values =>
      cases values with
      | nil => rwa [← List.singleton_perm.1 perm]
      | cons _ _ => cases found <;> cases given

end

section
variable {d : Draft} {members : List (String × Json)} {j : Json} {c : Config}

theorem tellsMembers_nil : TellsMembers d [] c ↔ c = d.config := by
  constructor
  · rintro ⟨-, engine, maxDepth⟩
    obtain ⟨e, n⟩ := c
    exact congrArg₂ Config.mk (given_nil.1 engine) (given_nil.1 maxDepth)
  · rintro rfl
    exact ⟨nofun, given_nil.2 rfl, given_nil.2 rfl⟩

theorem tellsMembers_engine : TellsMembers d (("engine", j) :: members) c ↔
    d.engine = none ∧
      ∃ e, Engine.Tells j e ∧ TellsMembers { d with engine := some e } members c := by
  have values : valuesOf (· = "engine") (("engine", j) :: members) =
      j :: valuesOf (· = "engine") members := valuesOf_cons ..
  have others : valuesOf (· = "max_depth") (("engine", j) :: members) =
      valuesOf (· = "max_depth") members := valuesOf_cons ..
  constructor
  · rintro ⟨known, engine, maxDepth⟩
    rw [values] at engine
    rw [others] at maxDepth
    obtain ⟨new, e, tells, later⟩ := given_cons.1 engine
    exact ⟨new, e, tells, (List.forall_mem_cons.1 known).2, later, maxDepth⟩
  · rintro ⟨new, e, tells, known, engine, maxDepth⟩
    refine ⟨List.forall_mem_cons.2 ⟨.inl rfl, known⟩, ?_, ?_⟩
    · rw [values]
      exact given_cons.2 ⟨new, e, tells, engine⟩
    · rwa [others]

theorem tellsMembers_maxDepth : TellsMembers d (("max_depth", j) :: members) c ↔
    d.maxDepth = none ∧
      ∃ n, TellsDepth j n ∧ TellsMembers { d with maxDepth := some n } members c := by
  have values : valuesOf (· = "max_depth") (("max_depth", j) :: members) =
      j :: valuesOf (· = "max_depth") members := valuesOf_cons ..
  have others : valuesOf (· = "engine") (("max_depth", j) :: members) =
      valuesOf (· = "engine") members := valuesOf_cons ..
  constructor
  · rintro ⟨known, engine, maxDepth⟩
    rw [values] at maxDepth
    rw [others] at engine
    obtain ⟨new, n, tells, later⟩ := given_cons.1 maxDepth
    exact ⟨new, n, tells, (List.forall_mem_cons.1 known).2, engine, later⟩
  · rintro ⟨new, n, tells, known, engine, maxDepth⟩
    refine ⟨List.forall_mem_cons.2 ⟨.inr rfl, known⟩, ?_, ?_⟩
    · rwa [others]
    · rw [values]
      exact given_cons.2 ⟨new, n, tells, maxDepth⟩

theorem TellsMembers.perm {members' : List (String × Json)} (tells : TellsMembers d members c)
    (perm : members.Perm members') : TellsMembers d members' c where
  known m member := tells.known m (perm.mem_iff.2 member)
  engine := tells.engine.perm (valuesOf_perm perm)
  maxDepth := tells.maxDepth.perm (valuesOf_perm perm)

end

/-! ## Readers -/

structure Exact {α : Type} (read : List Char → Except Failure (α × List Char))
    (tells : Json → α → Prop) : Prop where
  taken : ∀ {text rest a}, read text = .ok (a, rest) → ∃ blanks spelled j,
    text = blanks ++ (spelled ++ rest) ∧ Blank blanks ∧ Spells j spelled ∧ tells j a
  reads : ∀ {blanks spelled rest j a}, Blank blanks → Spells j spelled → tells j a → Closes rest →
    read (blanks ++ (spelled ++ rest)) = .ok (a, rest)

section
variable {text rest : List Char} {e : Engine}

theorem ofName?_iff {name : String} : Engine.ofName? name = some e ↔ name = e.name := by
  constructor
  · intro found
    rw [Engine.ofName?] at found
    have same := List.find?_some found
    exact (of_decide_eq_true same).symm
  · rintro rfl
    exact e.ofName?_name

theorem readName_iff : readName text = .ok (e, rest) ↔ Scan.string text = .ok (e.name, rest) := by
  constructor
  · intro read
    obtain ⟨⟨name, _⟩, scanned, known⟩ := ok_of_bind read
    dsimp only at known
    split at known
    · next named =>
      cases known
      rw [ok_of_mapError scanned, ofName?_iff.1 named]
    · cases known
  · intro scanned
    rw [readName, scanned]
    simp only [Json.scanned, Except.mapError, bind, Except.bind, e.ofName?_name]
    rfl

theorem readName_taken (read : readName text = .ok (e, rest)) :
    ∃ named, '"' :: text = named ++ rest ∧ SpellsString e.name named := by
  obtain ⟨chars, rfl, again⟩ := local_string _ _ _ (readName_iff.1 read)
  exact ⟨'"' :: chars, rfl, chars, rfl, fun rest' => again rest' trivial⟩

theorem null_spelled (spells : Spells .null text) : text = ['n', 'u', 'l', 'l'] := by
  have read : Scan.scalar (text ++ []) = .ok (.null, []) := spells [] nofun
  rw [List.append_nil] at read
  unfold Scan.scalar at read
  split at read
  · cases read
  · obtain ⟨-, rfl, -⟩ := word_taken read
    rfl
  · cases (word_taken read).1
  · cases (word_taken read).1
  · obtain ⟨_, -, same⟩ := ok_of_map read
    cases same
  · obtain ⟨_, -, same⟩ := ok_of_map read
    cases same
  · split at read
    · obtain ⟨_, -, same⟩ := ok_of_map read
      cases same
    · cases read

theorem spells_null : Spells .null ['n', 'u', 'l', 'l'] := scalar_word fun _ => rfl

theorem spells_member {name : String} {before named colon after : List Char} (blank : Blank before)
    (spells : SpellsString name named) (mark : Mark ':' colon) (closing : Closing '}' after) :
    Spells (.object [(name, .null)])
      ('{' :: (before ++ (named ++ (colon ++ (['n', 'u', 'l', 'l'] ++ after))))) :=
  ⟨_, rfl, _, _, _, _, _, rfl, blank, spells, mark, spells_null, closing⟩

theorem readUnit_taken (read : readUnit text = .ok rest) :
    ∃ blanks, Blank blanks ∧ text = blanks ++ (['n', 'u', 'l', 'l'] ++ rest) := by
  obtain ⟨blanks, blank, same⟩ := skipBlanks_split text
  rw [readUnit] at read
  split at read
  · next found =>
    obtain ⟨⟨_, _⟩, scanned, same'⟩ := ok_of_map read
    obtain ⟨-, rfl, -⟩ := word_taken (ok_of_mapError scanned)
    cases same'
    rw [found] at same
    exact ⟨blanks, blank, same⟩
  · cases read

theorem readUnit_null {blanks : List Char} (blank : Blank blanks) (rest : List Char) :
    readUnit (blanks ++ (['n', 'u', 'l', 'l'] ++ rest)) = .ok rest := by
  rw [readUnit, List.cons_append, blank.skip_cons rfl]
  rfl

theorem readEngine_taken (read : readEngine text = .ok (e, rest)) : ∃ blanks spelled j,
    text = blanks ++ (spelled ++ rest) ∧ Blank blanks ∧ Spells j spelled ∧ Engine.Tells j e := by
  obtain ⟨blanks, blank, same⟩ := skipBlanks_split text
  rw [readEngine] at read
  split at read
  · next found =>
    obtain ⟨named, parts, spells⟩ := readName_taken read
    rw [found, parts] at same
    exact ⟨blanks, named, .string e.name, same, blank, spells, .name e⟩
  · next inner found =>
    rw [found] at same
    obtain ⟨blanks₁, blank₁, same₁⟩ := skipBlanks_split inner
    split at read
    · next found₁ =>
      obtain ⟨⟨e, _⟩, name, value⟩ := ok_of_bind read
      obtain ⟨_, marked, value⟩ := ok_of_bind value
      obtain ⟨afterNull, null, close⟩ := ok_of_bind value
      obtain ⟨named, parts, spells⟩ := readName_taken name
      obtain ⟨colon, rfl, mark⟩ := colon_taken (ok_of_mapError marked)
      obtain ⟨blanks₂, blank₂, rfl⟩ := readUnit_taken null
      obtain ⟨blanks₃, blank₃, same₃⟩ := skipBlanks_split afterNull
      split at close
      · next found₃ =>
        cases close
        rw [same₁, found₁, parts, same₃, found₃] at same
        refine ⟨blanks, _, _, ?_, blank, spells_member blank₁ spells (mark.append blank₂)
          ⟨blanks₃, blank₃, rfl⟩, .member e⟩
        simpa using same
      · cases close
      · cases close
    · cases read
    · cases read
    · cases read
  · cases read
  · cases read

theorem exact_engine : Exact readEngine Engine.Tells where
  taken := readEngine_taken
  reads {blanks _ rest _ _} blank spells tells _ := by
    cases tells with
    | name e =>
        obtain ⟨chars, rfl, string⟩ := spells
        rw [List.cons_append, readEngine, blank.skip_cons rfl]
        exact readName_iff.2 (string _)
    | member e =>
        obtain ⟨_, rfl, before, _, colon, _, _, rfl, blank', ⟨chars, rfl, string⟩, mark, null,
          blanks₃, blank₃, rfl⟩ := spells
        obtain rfl := null_spelled null
        obtain ⟨blanks', blank₂, passed⟩ := colon_mark mark
        have parts : blanks ++ ('{' :: (before ++ ('"' :: chars ++ (colon ++
            (['n', 'u', 'l', 'l'] ++ (blanks₃ ++ ['}']))))) ++ rest) = blanks ++ '{' :: (before ++
              '"' :: (chars ++ (colon ++ (['n', 'u', 'l', 'l'] ++ (blanks₃ ++ '}' :: rest))))) := by
          simp
        have inside (text : List Char) : Scan.skipBlanks (before ++ '"' :: text) = '"' :: text :=
          Blank.skip_cons blank' rfl text
        have close : Scan.skipBlanks (blanks₃ ++ '}' :: rest) = '}' :: rest :=
          blank₃.skip_cons rfl rest
        rw [parts, readEngine, blank.skip_cons rfl]
        simp only [inside, readName_iff.2 (string _), bind, Except.bind, passed, Json.scanned,
          Except.mapError, readUnit_null blank₂, close]
        rfl

theorem exact_depth : Exact readDepth TellsDepth where
  taken {text rest n} read := by
    obtain ⟨blanks, blank, same⟩ := skipBlanks_split text
    rw [readDepth] at read
    split at read
    · next found =>
      obtain ⟨rfl, rfl, -⟩ := word_taken (ok_of_mapError read)
      rw [found] at same
      exact ⟨blanks, ['n', 'u', 'l', 'l'], .null, same, blank, spells_null, .none⟩
    · split at read
      · next n _ found =>
        cases read
        obtain ⟨spelled, same', spells⟩ := scalar_spelled found
        -- no number that is read is cut off
        have fits : n < UInt64.size := Nat.lt_succ_of_le (natural_fits found)
        have kept : n.toUInt64.toNat = n := UInt64.toNat_ofNat_of_lt' fits
        have tells := TellsDepth.some n.toUInt64
        rw [kept] at tells
        rw [same'] at same
        exact ⟨blanks, spelled, _, same, blank, spells, tells⟩
      · cases read
      · cases read
  reads {blanks spelled rest j _} blank spells tells closes := by
    cases tells with
    | none =>
        rw [null_spelled spells, readDepth, List.cons_append, blank.skip_cons rfl]
        rfl
    | some n =>
        have read : Scan.scalar (spelled ++ rest) = .ok (.number (.natural n.toNat), rest) :=
          spells rest closes
        obtain ⟨c, more, start, black, -⟩ := spells.start
        rw [readDepth, start, List.cons_append, blank.skip_cons black]
        rw [start, List.cons_append] at read
        -- a text that begins as null does is no number
        split
        · next word =>
          cases word
          cases (word_taken read).1
        · rw [read]
          simp

end

/-! ## Members -/

section
variable {α β : Type} {reader : List Char → Except Failure (α × List Char)}
  {tells : Json → α → Prop} {next : α × List Char → Except Failure β}

theorem Exact.member_taken (exact : Exact reader tells) {text : List Char} {b : β}
    (read : (scanned (Scan.colon text) >>= fun text => reader text >>= next) = .ok b) :
    ∃ colon spelled rest j a, text = colon ++ (spelled ++ rest) ∧ Mark ':' colon ∧
      Spells j spelled ∧ tells j a ∧ next (a, rest) = .ok b := by
  obtain ⟨_, marked, value⟩ := ok_of_bind read
  obtain ⟨⟨a, rest⟩, found, later⟩ := ok_of_bind value
  obtain ⟨colon, rfl, mark⟩ := colon_taken (ok_of_mapError marked)
  obtain ⟨blanks, spelled, j, rfl, blank, spells, tells⟩ := exact.taken found
  exact ⟨colon ++ blanks, spelled, rest, j, a, by simp, mark.append blank, spells, tells, later⟩

theorem Exact.reads_member (exact : Exact reader tells) {colon spelled rest : List Char}
    {j : Json} {a : α} (mark : Mark ':' colon) (spells : Spells j spelled) (tells : tells j a)
    (closes : Closes rest) :
    (scanned (Scan.colon (colon ++ (spelled ++ rest))) >>= fun text => reader text >>= next) =
      next (a, rest) := by
  obtain ⟨blanks, blank, passed⟩ := colon_mark mark
  simp only [passed, scanned, Except.mapError, bind, Except.bind,
    exact.reads blank spells tells closes]

end

theorem readMembers_taken {fuel : Nat} {d : Draft} {first : Bool} {text rest : List Char}
    {c : Config} (read : readMembers fuel d first text = .ok (c, rest)) :
    ∃ members spelled, text = spelled ++ rest ∧ SpellsMembers first members spelled ∧
      TellsMembers d members c := by
  -- the draft keeps what was read before, so the members that follow are told from there
  induction fuel generalizing d first text with
  | zero => cases read
  | succ fuel ih =>
      rw [readMembers] at read
      obtain ⟨⟨name, _⟩, next, later⟩ := ok_of_bind read
      cases name with
      | none =>
          cases later
          obtain ⟨closing, same, closes⟩ := nextName_end (ok_of_mapError next)
          exact ⟨[], closing, same, closes, tellsMembers_nil.2 rfl⟩
      | some name =>
          obtain ⟨before, named, rfl, separator, spellsName⟩ := nextName_more (ok_of_mapError next)
          dsimp only at later
          split at later
          · next isEngine =>
            subst isEngine
            split at later
            · cases later
            · next new =>
              obtain ⟨colon, spelled, _, j, e, rfl, mark, spells, tells, others⟩ :=
                exact_engine.member_taken later
              obtain ⟨members, spelled', rfl, spells', tells'⟩ := ih others
              have new := Option.not_isSome_iff_eq_none.1 new
              exact ⟨("engine", j) :: members,
                before ++ (named ++ (colon ++ (spelled ++ spelled'))), by simp,
                ⟨_, _, _, _, _, rfl, separator, spellsName, mark, spells, spells'⟩,
                tellsMembers_engine.2 ⟨new, e, tells, tells'⟩⟩
          · split at later
            · next isDepth =>
              subst isDepth
              split at later
              · cases later
              · next new =>
                obtain ⟨colon, spelled, _, j, n, rfl, mark, spells, tells, others⟩ :=
                  exact_depth.member_taken later
                obtain ⟨members, spelled', rfl, spells', tells'⟩ := ih others
                have new := Option.not_isSome_iff_eq_none.1 new
                exact ⟨("max_depth", j) :: members,
                  before ++ (named ++ (colon ++ (spelled ++ spelled'))), by simp,
                  ⟨_, _, _, _, _, rfl, separator, spellsName, mark, spells, spells'⟩,
                  tellsMembers_maxDepth.2 ⟨new, n, tells, tells'⟩⟩
            · cases later

theorem readMembers_reads {members : List (String × Json)} {d : Draft} {first : Bool}
    {text : List Char} {c : Config} (spells : SpellsMembers first members text)
    (tells : TellsMembers d members c) {fuel : Nat} (enough : text.length < fuel)
    (rest : List Char) : readMembers fuel d first (text ++ rest) = .ok (c, rest) := by
  induction members generalizing d first text fuel with
  | nil =>
      obtain ⟨fuel, rfl⟩ : ∃ n, fuel = n + 1 := ⟨fuel - 1, by omega⟩
      obtain rfl := tellsMembers_nil.1 tells
      have closing : Closing '}' text := spells
      rw [readMembers, nextName_closing closing]
      rfl
  | cons member members ih =>
      obtain ⟨name, j⟩ := member
      obtain ⟨before, named, colon, spelled, after, rfl, separator, spellsName, mark, spells,
        spells'⟩ := spells
      obtain ⟨fuel, rfl⟩ : ∃ n, fuel = n + 1 := ⟨fuel - 1, by omega⟩
      have named_pos := spellsName.length_pos
      simp only [List.length_append] at enough
      have closes := spells'.closes rest
      simp only [List.append_assoc]
      rw [readMembers, nextName_separator separator spellsName]
      rcases (List.forall_mem_cons.1 tells.known).1 with isEngine | isDepth
      · obtain rfl : name = "engine" := isEngine
        obtain ⟨new, e, tells, later⟩ := tellsMembers_engine.1 tells
        have fresh : ¬ d.engine.isSome := by simp [new]
        refine (if_neg fresh).trans ?_
        refine (exact_engine.reads_member mark spells tells closes).trans ?_
        exact ih spells' later (by omega)
      · obtain rfl : name = "max_depth" := isDepth
        obtain ⟨new, n, tells, later⟩ := tellsMembers_maxDepth.1 tells
        have fresh : ¬ d.maxDepth.isSome := by simp [new]
        refine (if_neg fresh).trans ?_
        refine (exact_depth.reads_member mark spells tells closes).trans ?_
        exact ih spells' later (by omega)

/-! ## Items -/

theorem readListEnd_taken {text rest : List Char} (read : readListEnd text = .ok rest) :
    ∃ closing, text = closing ++ rest ∧ Closing ']' closing := by
  obtain ⟨blanks, blank, same⟩ := skipBlanks_split text
  rw [readListEnd] at read
  split at read
  · cases read
  · next found =>
    cases read
    rw [found] at same
    exact ⟨blanks ++ [']'], by simpa using same, blanks, blank, rfl⟩
  · split at read <;> cases read
  · cases read

theorem readListEnd_closing {closing : List Char} (closes : Closing ']' closing)
    (rest : List Char) : readListEnd (closing ++ rest) = .ok rest := by
  obtain ⟨blanks, blank, rfl⟩ := closes
  rw [List.append_assoc, readListEnd, List.cons_append, blank.skip_cons rfl]
  rfl

theorem nextItem_spells {first : Bool} {before spelled : List Char} {j : Json}
    (separator : Separator first before) (spells : Spells j spelled) (rest : List Char) :
    Scan.nextItem first (before ++ (spelled ++ rest)) = .ok (true, spelled ++ rest) := by
  obtain ⟨c, more, rfl, black, item⟩ := spells.start
  exact nextItem_separator separator black item (more ++ rest)

section
variable {α : Type} {reader : List Char → Except Failure (α × List Char)} {tells : Json → α → Prop}
  {a : α} {rest : List Char}

theorem Exact.item_taken (exact : Exact reader tells) {first : Bool} {text item : List Char}
    (next : scanned (Scan.nextItem first text) = .ok (true, item))
    (read : reader item = .ok (a, rest)) :
    ∃ before spelled j, text = before ++ (spelled ++ rest) ∧ Separator first before ∧
      Spells j spelled ∧ tells j a := by
  obtain ⟨before, rfl, separator⟩ := nextItem_more (ok_of_mapError next)
  obtain ⟨blanks, spelled, j, rfl, blank, spells, tells⟩ := exact.taken read
  exact ⟨before ++ blanks, spelled, j, by simp, separator.append blank, spells, tells⟩

theorem Exact.reads_item (exact : Exact reader tells) {spelled : List Char} {j : Json}
    (spells : Spells j spelled) (tells : tells j a) (closes : Closes rest) :
    reader (spelled ++ rest) = .ok (a, rest) := exact.reads .nil spells tells closes

end

theorem readItems_taken {text rest : List Char} {c : Config}
    (read : readItems text = .ok (c, rest)) :
    ∃ items spelled, text = spelled ++ rest ∧ SpellsItems true items spelled ∧
      TellsItems items c := by
  obtain ⟨⟨more, _⟩, next, later⟩ := ok_of_bind read
  cases more with
  | false =>
      cases later
      obtain ⟨closing, rfl, closes⟩ := nextItem_end (ok_of_mapError next)
      exact ⟨[], closing, rfl, closes, rfl, rfl⟩
  | true =>
      obtain ⟨⟨e, _⟩, engine, later⟩ := ok_of_bind later
      obtain ⟨⟨more, _⟩, next', later⟩ := ok_of_bind later
      obtain ⟨before, spelled, j, rfl, separator, spells, tells⟩ :=
        exact_engine.item_taken next engine
      cases more with
      | false =>
          cases later
          obtain ⟨closing, rfl, closes⟩ := nextItem_end (ok_of_mapError next')
          exact ⟨[j], before ++ (spelled ++ closing), by simp,
            ⟨_, _, _, rfl, separator, spells, closes⟩, tells, rfl⟩
      | true =>
          obtain ⟨⟨n, _⟩, depth, later⟩ := ok_of_bind later
          obtain ⟨_, ended, same⟩ := ok_of_bind later
          cases same
          obtain ⟨before', spelled', k, rfl, separator', spells', tells'⟩ :=
            exact_depth.item_taken next' depth
          obtain ⟨closing, rfl, closes⟩ := readListEnd_taken ended
          exact ⟨[j, k], before ++ (spelled ++ (before' ++ (spelled' ++ closing))), by simp,
            ⟨_, _, _, rfl, separator, spells, _, _, _, rfl, separator', spells', closes⟩, tells,
            tells'⟩

theorem readItems_reads {items : List Json} {text : List Char} {c : Config}
    (spells : SpellsItems true items text) (tells : TellsItems items c) (rest : List Char) :
    readItems (text ++ rest) = .ok (c, rest) := by
  obtain ⟨engine, maxDepth⟩ := tells
  obtain ⟨e, n⟩ := c
  cases items with
  | nil =>
      cases engine
      cases maxDepth
      have closes : Closing ']' text := spells
      rw [readItems, nextItem_closing closes]
      rfl
  | cons j items =>
      obtain ⟨before, spelled, after, rfl, separator, spells, spells'⟩ := spells
      have first := exact_engine.reads_item spells engine (spells'.closes rest)
      simp only [List.append_assoc]
      rw [readItems, nextItem_spells separator spells]
      simp only [scanned, Except.mapError, bind, Except.bind, first]
      cases items with
      | nil =>
          cases maxDepth
          have closes : Closing ']' after := spells'
          rw [nextItem_closing closes]
          rfl
      | cons k items =>
          cases items with
          | cons _ _ => cases maxDepth
          | nil =>
              obtain ⟨before', spelled', closing, rfl, separator', spells', ends⟩ := spells'
              have ends : Closing ']' closing := ends
              have closes := ends.closes (by decide) rest
              have second := exact_depth.reads_item spells' maxDepth closes
              simp only [List.append_assoc]
              rw [nextItem_spells separator' spells']
              simp only [second, readListEnd_closing ends]
              rfl

/-! ## Texts -/

theorem readText_iff {text : List Char} {c : Config} :
    readText text = .ok c ↔ ∃ j, Spelled j text ∧ Tells j c := by
  constructor
  · intro read
    obtain ⟨blanks, blank, same⟩ := skipBlanks_split text
    have finished {rest : List Char} {c' : Config}
        (ends : (scanned (Scan.finish rest) >>= fun _ => pure c') = Except.ok c) :
        Blank rest ∧ c' = c := by
      obtain ⟨_, ended, same⟩ := ok_of_bind ends
      exact ⟨blank_of_finish (ok_of_mapError ended), Except.ok.inj same⟩
    rw [readText] at read
    split at read
    · next opened =>
      obtain ⟨_, found, ends⟩ := ok_of_bind read
      obtain ⟨blank', rfl⟩ := finished ends
      obtain ⟨members, spelled, rfl, spells, tells⟩ := readMembers_taken found
      rw [opened] at same
      exact ⟨.object members, ⟨blanks, '{' :: spelled, _, same, blank, blank', _, rfl, spells⟩,
        tells⟩
    · next opened =>
      obtain ⟨_, found, ends⟩ := ok_of_bind read
      obtain ⟨blank', rfl⟩ := finished ends
      obtain ⟨items, spelled, rfl, spells, tells⟩ := readItems_taken found
      rw [opened] at same
      exact ⟨.array items, ⟨blanks, '[' :: spelled, _, same, blank, blank', _, rfl, spells⟩, tells⟩
    · cases read
  · rintro ⟨j, ⟨blanks, spelled, rest, rfl, blank, blank', spells⟩, tells⟩
    have ended := finish_blank blank'
    cases j with
    | object members =>
        obtain ⟨inner, rfl, spells⟩ := spells
        have enough : inner.length < Scan.fuelFor (blanks ++ ('{' :: inner ++ rest)) := by
          simp only [Scan.fuelFor, List.length_append, List.length_cons]
          omega
        have read := readMembers_reads spells tells enough rest
        rw [List.cons_append] at read ⊢
        rw [readText, blank.skip_cons rfl]
        simp only [read, bind, Except.bind, ended, scanned, Except.mapError]
        rfl
    | array items =>
        obtain ⟨inner, rfl, spells⟩ := spells
        have read := readItems_reads spells tells rest
        rw [readText, List.cons_append, blank.skip_cons rfl]
        simp only [read, bind, Except.bind, ended, scanned, Except.mapError]
        rfl
    | _ => cases tells

section
variable {text : List Char} {c : Config} {f : Failure}

theorem read_of_error (failed : readText text = .error f) : read text = .error (.unread f) := by
  rw [read, failed]

theorem read_of_ok (found : readText text = .ok c) :
    read text = if c.maxDepth = some 0 then .error .zeroDepth else .ok c := by
  rw [read, found]

theorem read_iff : read text = .ok c ↔ readText text = .ok c ∧ c.maxDepth ≠ some 0 := by
  cases found : readText text with
  | error f => simp [read_of_error found]
  | ok c' =>
      rw [read_of_ok found]
      split
      · next zero =>
        refine ⟨nofun, ?_⟩
        rintro ⟨⟨⟩, limited⟩
        exact absurd zero limited
      · next limited =>
        constructor
        · rintro ⟨⟩
          exact ⟨rfl, limited⟩
        · rintro ⟨⟨⟩, -⟩
          rfl

theorem read_zeroDepth_iff :
    read text = .error .zeroDepth ↔ ∃ c, readText text = .ok c ∧ c.maxDepth = some 0 := by
  cases found : readText text with
  | error f => simp [read_of_error found]
  | ok c => simp [read_of_ok found]

theorem read_unread_iff :
    (∃ f, read text = .error (.unread f)) ↔ ¬ ∃ c, readText text = .ok c := by
  cases found : readText text with
  | error f => simp [read_of_error found]
  | ok c =>
      rw [read_of_ok found]
      split <;> simp

end

def members (c : Config) : List (String × Json) :=
  ("engine", .string c.engine.name) ::
    (c.maxDepth.map fun n => ("max_depth", Json.number (.natural n.toNat))).toList

theorem tells_members (c : Config) : TellsMembers {} c.members c := by
  obtain ⟨e, n⟩ := c
  refine tellsMembers_engine.2 ⟨rfl, e, .name e, ?_⟩
  cases n with
  | none => exact tellsMembers_nil.2 rfl
  | some n => exact tellsMembers_maxDepth.2 ⟨rfl, some n, .some n, tellsMembers_nil.2 rfl⟩

theorem whole_toJson (c : Config) : Whole c.toJson := by
  obtain ⟨e, n⟩ := c
  cases n with
  | none => exact ⟨trivial, trivial⟩
  | some n => exact ⟨trivial, Nat.le_of_lt_succ n.toNat_lt, trivial⟩

/-- Settings without a depth of zero are read from any text that spells their members in any order,
and so from their own text, and only such settings are read from any text. A text is refused for
its depth exactly if it spells, as a whole, a value that tells settings with a depth of zero; it is
unread exactly if it spells no value that tells settings. -/
theorem read_texts :
    (∀ (c : Config) members, c.maxDepth ≠ some 0 → c.toJson = .object members →
      ∀ members' text, members'.Perm members → Spelled (.object members') text →
        read text = .ok c) ∧
    (∀ c : Config, c.maxDepth ≠ some 0 → read c.text.toList = .ok c) ∧
    (∀ text c, read text = .ok c → c.maxDepth ≠ some 0 ∧ read c.text.toList = .ok c) ∧
    (∀ text, read text = .error .zeroDepth ↔
      ∃ j c, Spelled j text ∧ Tells j c ∧ c.maxDepth = some 0) ∧
    ∀ text, (∃ f, read text = .error (.unread f)) ↔ ¬ ∃ j c, Spelled j text ∧ Tells j c := by
  have own (c : Config) (limited : c.maxDepth ≠ some 0) : read c.text.toList = .ok c :=
    have spelled := spelled_text bare_compact c.whole_toJson
    read_iff.2 ⟨readText_iff.2 ⟨_, spelled, c.tells_members⟩, limited⟩
  refine ⟨?_, own, ?_, ?_, ?_⟩
  · rintro c _ limited ⟨⟩ members text perm spelled
    exact read_iff.2 ⟨readText_iff.2 ⟨_, spelled, c.tells_members.perm perm.symm⟩, limited⟩
  · intro text c found
    have limited := (read_iff.1 found).2
    exact ⟨limited, own c limited⟩
  · intro text
    rw [read_zeroDepth_iff]
    constructor
    · rintro ⟨c, found, zero⟩
      obtain ⟨j, spelled, tells⟩ := readText_iff.1 found
      exact ⟨j, c, spelled, tells, zero⟩
    · rintro ⟨j, c, spelled, tells, zero⟩
      exact ⟨c, readText_iff.2 ⟨j, spelled, tells⟩, zero⟩
  · intro text
    simp only [read_unread_iff, readText_iff]
    rw [exists_comm]

theorem read_texts_indented :
    let c : Config := ⟨.recursive, some 512⟩
    let members := [("max_depth", Json.number (.natural 512)), ("engine", Json.string "recursive")]
    c.maxDepth ≠ some 0 ∧ c.toJson = .object members.reverse ∧
      read ((Json.object members).text .indented).toList = .ok c := by
  intro c members
  have limited : c.maxDepth ≠ some 0 := by decide
  have fits : 512 ≤ Scan.largestNatural := by decide
  have whole : Whole (.object members) := ⟨fits, trivial, trivial⟩
  have perm : members.Perm members.reverse := (List.reverse_perm members).symm
  refine ⟨limited, rfl, ?_⟩
  exact read_texts.1 c _ limited rfl members _ perm (spelled_text bare_indented whole)

example : read "[\"iterative\", 0] 1".toList =
    .error (.unread (.fault (.into ['1'] .trailingCharacters))) := by rfl

end Config

end StyleTree.Walk
