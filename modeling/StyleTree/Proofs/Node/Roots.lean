import StyleTree.Error
import StyleTree.Proofs.Json.Spelling
import StyleTree.Proofs.Node.Members

/-!
# Texts of trees

The reader of trees takes in its roots while it reads them and does not keep the values they are
spelled as. Still a text is read as a tree exactly if it spells a list of values that are nodes:
`parseTree_iff`. Of a root only a tag in words is read, and there is room for 127 brackets.
-/

namespace StyleTree

open Json

namespace Json

def Failure.AtLimit (f : Failure) : Prop := ∃ g, f = .fault g ∧ g.AtLimit

theorem Reads.scanned {α : Type} {fits : Prop} {r : Except Fault α} {a : α}
    (reads : Reads Fault.AtLimit fits r a) : Reads Failure.AtLimit fits (scanned r) a := by
  rcases reads with ⟨h, rfl⟩ | ⟨h, f, rfl, limited⟩
  · exact .inl ⟨h, rfl⟩
  · exact .inr ⟨h, .fault f, rfl, f, rfl, limited⟩

end Json

namespace Kind

theorem tag_of_ofTag {tag : String} {k : Kind} (told : ofTag tag = .ok k) : k.tag = tag := by
  rw [ofTag] at told
  split at told
  · next found =>
    cases told
    simpa [ofTag?] using List.find?_some found
  · cases told

theorem read_spelled {k : Kind} {blanks text : List Char} (blank : Blank blanks)
    (spells : SpellsString k.tag text) (rest : List Char) :
    Kind.read (blanks ++ (text ++ rest)) = .ok (k, rest) := by
  obtain ⟨chars, rfl, string⟩ := spells
  have tagged : Kind.ofTag k.tag = .ok k := by
    simp only [Kind.ofTag, Kind.ofTag?_tag]
  rw [List.cons_append, Kind.read, blank.skip_cons rfl]
  simp only [string, Json.scanned, Except.mapError, bind, Except.bind, tagged]
  rfl

theorem spelled_of_read {k : Kind} {text rest : List Char}
    (read : Kind.read text = .ok (k, rest)) : ∃ blanks spelled,
      text = blanks ++ (spelled ++ rest) ∧ Blank blanks ∧ SpellsString k.tag spelled := by
  obtain ⟨blanks, blank, same⟩ := skipBlanks_split text
  rw [Kind.read] at read
  split at read
  · next found =>
    obtain ⟨⟨tag, _⟩, scanned, read⟩ := ok_of_bind read
    obtain ⟨_, told, same'⟩ := ok_of_bind read
    cases same'
    obtain ⟨taken, rfl, again⟩ := local_string _ _ _ (ok_of_mapError scanned)
    rw [found] at same
    refine ⟨blanks, '"' :: taken, same, blank, taken, rfl, fun rest' => ?_⟩
    rw [tag_of_ofTag (ok_of_mapError told)]
    exact again rest' trivial
  · cases read

end Kind

namespace Node

def tags : Json → List Json
  | .object members => valuesOf (· = "kind") members
  | .array (tag :: _) => [tag]
  | _ => []

def TagIsText (j : Json) : Prop := ∀ tag ∈ tags j, ∃ s, tag = .string s

def untagged (members : List (String × Json)) : List (String × Json) :=
  members.filter fun m => m.1 ≠ "kind"

theorem readMembers_untagged (k : Kind) (d : Draft) (members : List (String × Json)) :
    readMembers k d (untagged members) = readMembers k d members := by
  induction members generalizing d with
  | nil => rfl
  | cons member rest ih =>
      obtain ⟨name, j⟩ := member
      by_cases tag : name = "kind"
      · have dropped : untagged ((name, j) :: rest) = untagged rest := by simp [untagged, tag]
        rw [dropped, ih, readMembers, tag, k.lookup_tag]
      · have kept : untagged ((name, j) :: rest) = (name, j) :: untagged rest := by
          simp [untagged, tag]
        rw [kept, readMembers, readMembers]
        simp only [ih]

section
variable {first : Bool} {room fuel : Nat} {k : Kind} {kind : Option Kind} {name : String} {j : Json}
  {text named colon spelled rest : List Char} {members : List (String × Json)}

/-! ## Members of a root -/

theorem readRootMembers_closing (closing : Closing '}' text) :
    readRootMembers room (fuel + 1) (some k) first (text ++ rest) = .ok ((k, []), rest) := by
  rw [readRootMembers, nextName_closing closing]
  rfl

theorem readRootMembers_member (separator : Separator first text) (spells : SpellsString name named)
    (mark : Mark ':' colon) (other : name ≠ "kind") (kind : Option Kind) :
    readRootMembers room (fuel + 1 + 1) kind first (text ++ (named ++ (colon ++ rest))) =
      (scanned (Scan.value (fuel + 1) room rest) >>= fun r =>
        readRootMembers room (fuel + 1) kind false r.2 >>= fun others =>
          .ok ((others.1.1, (name, r.1) :: others.1.2), others.2)) := by
  obtain ⟨blanks, blank, passed⟩ := colon_mark mark
  rw [readRootMembers, nextName_separator separator spells, ← blank.value]
  simp only [scanned, Except.mapError, bind, Except.bind, passed, if_neg other]
  rfl

theorem readRootMembers_tag (separator : Separator first text) (spells : SpellsString "kind" named)
    (mark : Mark ':' colon) (tag : SpellsString k.tag spelled) :
    readRootMembers room (fuel + 1) none first (text ++ (named ++ (colon ++ (spelled ++ rest)))) =
      readRootMembers room fuel (some k) false rest := by
  obtain ⟨blanks, blank, passed⟩ := colon_mark mark
  rw [readRootMembers, nextName_separator separator spells]
  simp only [scanned, Except.mapError, bind, Except.bind, passed, Kind.read_spelled blank tag]
  rfl

theorem kindOf_tag (told : kindOf kind (("kind", j) :: members) = .ok k) :
    kind = none ∧ ∃ k', Kind.ofJson j = .ok k' ∧ kindOf (some k') members = .ok k := by
  rw [kindOf, if_pos rfl] at told
  split at told
  · cases told
  · next new =>
    exact ⟨by simpa using new, ok_of_bind told⟩

theorem kindOf_other (other : name ≠ "kind") :
    kindOf kind ((name, j) :: members) = kindOf kind members := by
  rw [kindOf, if_neg other]

theorem reads_rootMembers (told : kindOf kind members = .ok k)
    (tags : ∀ j ∈ valuesOf (· = "kind") members, ∃ s, j = .string s)
    (spells : SpellsMembers first members text) (enough : 2 * text.length < fuel)
    (room : Nat) (rest : List Char) :
    Reads Failure.AtLimit (memberNestings members ≤ room)
      (readRootMembers room fuel kind first (text ++ rest)) ((k, untagged members), rest) := by
  induction members generalizing first text fuel kind with
  | nil =>
      obtain ⟨fuel, rfl⟩ : ∃ n, fuel = n + 1 := ⟨fuel - 1, by omega⟩
      cases kind with
      | none => cases told
      | some k' =>
          cases told
          exact .of_ok (readRootMembers_closing spells) (Nat.zero_le _)
  | cons member members ih =>
      obtain ⟨name, item⟩ := member
      obtain ⟨before, named, colon, spelled, after, rfl, separator, spellsString, mark, spellsItem,
        spellsMembers⟩ := spells
      have some := spellsString.length_pos
      simp only [List.length_append] at enough
      simp only [List.append_assoc]
      rw [valuesOf_cons] at tags
      by_cases tag : name = "kind"
      · subst tag
        rw [if_pos rfl, List.forall_mem_cons] at tags
        obtain ⟨⟨s, rfl⟩, tags⟩ := tags
        obtain ⟨rfl, k', toldItem, told⟩ := kindOf_tag told
        have spellsTag : SpellsString k'.tag spelled := by
          rw [Kind.tag_of_ofTag toldItem]
          exact spellsItem
        obtain ⟨fuel, rfl⟩ : ∃ n, fuel = n + 1 := ⟨fuel - 1, by omega⟩
        have others : 2 * after.length < fuel := by omega
        have dropped : untagged (("kind", .string s) :: members) = untagged members := by
          simp [untagged]
        rw [readRootMembers_tag separator spellsString mark spellsTag, dropped]
        exact (ih told tags spellsMembers others).of_iff (by simp [memberNestings, nesting])
      · rw [if_neg tag] at tags
        rw [kindOf_other tag] at told
        obtain ⟨fuel, rfl⟩ : ∃ n, fuel = n + 1 + 1 := ⟨fuel - 2, by omega⟩
        have closes := spellsMembers.closes rest
        have reads := reads_value item spellsItem (fuel + 1) room closes (by omega)
        have others : 2 * after.length < fuel + 1 := by omega
        have later := ih told tags spellsMembers others
        have kept : untagged ((name, item) :: members) = (name, item) :: untagged members := by
          simp [untagged, tag]
        rw [readRootMembers_member separator spellsString mark tag, kept]
        exact (reads.scanned.bind fun _ => later.map _).of_iff Nat.max_le.symm

theorem rootMembers_spelled {others : List (String × Json)}
    (read : readRootMembers room fuel kind first text = .ok ((k, others), rest)) :
    ∃ members spelled, text = spelled ++ rest ∧ SpellsMembers first members spelled ∧
      kindOf kind members = .ok k ∧
      (∀ j ∈ valuesOf (· = "kind") members, ∃ s, j = .string s) ∧ others = untagged members := by
  induction fuel generalizing kind first text others with
  | zero => cases read
  | succ fuel ih =>
      rw [readRootMembers] at read
      obtain ⟨⟨name, _⟩, found, goesOn⟩ := ok_of_bind read
      have found := ok_of_mapError found
      cases name with
      | none =>
          cases kind with
          | none => cases goesOn
          | some k' =>
              cases goesOn
              obtain ⟨closing, rfl, closes⟩ := nextName_end found
              exact ⟨[], closing, rfl, closes, rfl, nofun, rfl⟩
      | some name =>
          obtain ⟨before, named, rfl, separator, spellsName⟩ := nextName_more found
          dsimp only at goesOn
          -- the tag is read as a kind and kept out of the fields, any other member is a value
          by_cases tag : name = "kind"
          · subst tag
            rw [if_pos rfl] at goesOn
            split at goesOn
            · cases goesOn
            · next new =>
              obtain ⟨_, colon, afterColon⟩ := ok_of_bind goesOn
              obtain ⟨⟨k', _⟩, tag, later⟩ := ok_of_bind afterColon
              obtain ⟨marked, rfl, mark⟩ := colon_taken (ok_of_mapError colon)
              obtain ⟨blanks, spelled, rfl, blank, spells⟩ := Kind.spelled_of_read tag
              obtain ⟨members, after, rfl, spells', told, tags, rfl⟩ := ih later
              have new : kind = none := by simpa using new
              refine ⟨("kind", .string k'.tag) :: members,
                before ++ (named ++ ((marked ++ blanks) ++ (spelled ++ after))), by simp,
                ⟨_, _, _, _, _, rfl, separator, spellsName, mark.append blank, spells, spells'⟩,
                ?_, ?_, by simp [untagged]⟩
              · rw [kindOf, if_pos rfl, new, Kind.ofJson_tag]
                exact told
              · rw [valuesOf_cons, if_pos rfl, List.forall_mem_cons]
                exact ⟨⟨_, rfl⟩, tags⟩
          · rw [if_neg tag] at goesOn
            obtain ⟨_, colon, afterColon⟩ := ok_of_bind goesOn
            obtain ⟨⟨item, _⟩, one, afterItem⟩ := ok_of_bind afterColon
            obtain ⟨⟨⟨k', others⟩, _⟩, later, same⟩ := ok_of_bind afterItem
            cases same
            obtain ⟨marked, rfl, mark⟩ := colon_taken (ok_of_mapError colon)
            obtain ⟨blanks, spelled, rfl, blank, spells⟩ := value_spelled fuel (ok_of_mapError one)
            obtain ⟨members, after, rfl, spells', told, tags, rfl⟩ := ih later
            refine ⟨(name, item) :: members,
              before ++ (named ++ ((marked ++ blanks) ++ (spelled ++ after))), by simp,
              ⟨_, _, _, _, _, rfl, separator, spellsName, mark.append blank, spells, spells'⟩,
              ?_, ?_, by simp [untagged, tag]⟩
            · rw [kindOf_other tag]
              exact told
            · rw [valuesOf_cons, if_neg tag]
              exact tags

/-! ## Roots -/

variable {n : Node} {items : List Json} {tag : Json}

theorem reads_rootItems {word : String} (told : Kind.ofTag word = .ok k)
    (spells : SpellsItems true (.string word :: items) text) (enough : 2 * text.length < fuel)
    (room : Nat) (rest : List Char) :
    Reads Failure.AtLimit (nestings items ≤ room) (readRootItems room fuel (text ++ rest))
      ((k, items), rest) := by
  obtain ⟨before, spelled, after, rfl, separator, spellsTag, spellsItems⟩ := spells
  have same : Kind.read (spelled ++ (after ++ rest)) = .ok (k, after ++ rest) := by
    refine Kind.read_spelled .nil ?_ _
    rw [Kind.tag_of_ofTag told]
    exact spellsTag
  obtain ⟨c, chars, rfl, black, item⟩ := Spells.start spellsTag
  simp only [List.length_append] at enough
  have reads := reads_items items spellsItems fuel room rest (by omega)
  simp only [List.append_assoc]
  rw [readRootItems, List.cons_append, nextItem_separator separator black item]
  rw [List.cons_append] at same
  simp only [scanned, Except.mapError, bind, Except.bind, same]
  exact reads.scanned.map _

theorem readRoot_object (room fuel : Nat) (text : List Char) :
    readRoot room fuel ('{' :: text) =
      (readRootMembers room fuel none true text >>= fun r =>
        decoded (ofMembers r.1.1 r.1.2) >>= fun n => .ok (n, r.2)) := by
  rw [readRoot, skipBlanks_cons rfl]
  rfl

theorem readRoot_array (room fuel : Nat) (text : List Char) :
    readRoot room fuel ('[' :: text) =
      (readRootItems room fuel text >>= fun r =>
        decoded (ofItems r.1.1 r.1.2) >>= fun n => .ok (n, r.2)) := by
  rw [readRoot, skipBlanks_cons rfl]
  rfl

theorem reads_root (tags : TagIsText j) (said : ofJson j = .ok n) (spells : Spells j text)
    (enough : 2 * text.length < fuel) (room : Nat) (rest : List Char) :
    Reads Failure.AtLimit (nesting j ≤ room + 1) (readRoot room fuel (text ++ rest))
      (n, rest) := by
  cases j with
  | object members =>
      obtain ⟨k, told, fields⟩ := ofJson_object_iff.1 said
      obtain ⟨inner, rfl, spells⟩ := spells
      rw [List.length_cons] at enough
      have inside : 2 * inner.length < fuel := by omega
      have reads := reads_rootMembers told tags spells inside room rest
      rw [List.cons_append, readRoot_object, nesting]
      refine (reads.bind_ok ?_).of_iff (by omega)
      rw [ofMembers, readMembers_untagged, ← ofMembers, fields]
      rfl
  | array items =>
      cases items with
      | nil => cases said
      | cons tag items =>
          obtain ⟨word, rfl⟩ := tags tag List.mem_cons_self
          rw [ofJson_array] at said
          obtain ⟨k, told, fields⟩ := ok_of_bind said
          obtain ⟨inner, rfl, spells⟩ := spells
          rw [List.length_cons] at enough
          have inside : 2 * inner.length < fuel := by omega
          have reads := reads_rootItems told spells inside room rest
          rw [List.cons_append, readRoot_array, nesting, nestings, nesting]
          refine (reads.bind_ok ?_).of_iff (by omega)
          rw [fields]
          rfl
  | _ => cases said

theorem root_spelled (read : readRoot room fuel text = .ok (n, rest)) :
    ∃ j blanks spelled, text = blanks ++ (spelled ++ rest) ∧ Blank blanks ∧ Spells j spelled ∧
      TagIsText j ∧ ofJson j = .ok n := by
  obtain ⟨blanks, blank, same⟩ := skipBlanks_split text
  rw [readRoot] at read
  split at read
  · next found =>
    obtain ⟨⟨⟨k, others⟩, _⟩, inside, taken⟩ := ok_of_bind read
    obtain ⟨_, fields, same'⟩ := ok_of_bind taken
    cases same'
    obtain ⟨members, spelled, rfl, spells, told, tags, rfl⟩ := rootMembers_spelled inside
    rw [found] at same
    refine ⟨.object members, blanks, '{' :: spelled, same, blank, ⟨spelled, rfl, spells⟩, tags,
      ofJson_object_iff.2 ⟨k, told, ?_⟩⟩
    have fields := ok_of_mapError fields
    rwa [ofMembers, readMembers_untagged, ← ofMembers] at fields
  · next found =>
    obtain ⟨⟨⟨k, items⟩, _⟩, inside, taken⟩ := ok_of_bind read
    obtain ⟨_, fields, same'⟩ := ok_of_bind taken
    cases same'
    obtain ⟨⟨more, _⟩, start, goesOn⟩ := ok_of_bind inside
    cases more with
    | false => cases goesOn
    | true =>
        obtain ⟨⟨k', _⟩, tag, afterTag⟩ := ok_of_bind goesOn
        obtain ⟨⟨items, _⟩, others, same'⟩ := ok_of_bind afterTag
        cases same'
        obtain ⟨before, rfl, separator⟩ := nextItem_more (ok_of_mapError start)
        obtain ⟨blanks', spelled, rfl, blank', spells⟩ := Kind.spelled_of_read tag
        obtain ⟨after, rfl, spells'⟩ := items_spelled fuel (ok_of_mapError others)
        rw [found] at same
        refine ⟨.array (.string k.tag :: items), blanks,
          '[' :: ((before ++ blanks') ++ (spelled ++ after)), by simpa using same, blank,
          ⟨_, rfl, _, _, _, rfl, separator.append blank', spells, spells'⟩,
          by simp [TagIsText, Node.tags], ?_⟩
        rw [ofJson_array, Kind.ofJson_tag]
        exact ok_of_mapError fields
  · cases read

theorem readRoots_closing (closing : Closing ']' text) :
    readRoots room (fuel + 1) first (text ++ rest) = .ok ([], rest) := by
  rw [readRoots, nextItem_closing closing]
  rfl

theorem readRoots_item (separator : Separator first text) (spells : Spells j spelled) :
    readRoots room (fuel + 1) first (text ++ (spelled ++ rest)) =
      (readRoot room fuel (spelled ++ rest) >>= fun r =>
        readRoots room fuel false r.2 >>= fun others => .ok (r.1 :: others.1, others.2)) := by
  obtain ⟨c, chars, rfl, black, item⟩ := spells.start
  rw [readRoots, List.cons_append, nextItem_separator separator black item]
  rfl

theorem reads_roots {nodes : List Node} (tags : ∀ j ∈ items, TagIsText j)
    (said : ofJsonList items = .ok nodes) (spells : SpellsItems first items text)
    (enough : 2 * text.length < fuel) (room : Nat) (rest : List Char) :
    Reads Failure.AtLimit (nestings items ≤ room + 1)
      (readRoots room fuel first (text ++ rest)) (nodes, rest) := by
  induction items generalizing first text fuel nodes with
  | nil =>
      obtain ⟨fuel, rfl⟩ : ∃ n, fuel = n + 1 := ⟨fuel - 1, by omega⟩
      cases said
      exact .of_ok (readRoots_closing spells) (Nat.zero_le _)
  | cons j items ih =>
      obtain ⟨before, spelled, after, rfl, separator, spellsItem, spellsItems⟩ := spells
      obtain ⟨fuel, rfl⟩ : ∃ n, fuel = n + 1 := ⟨fuel - 1, by omega⟩
      obtain ⟨tag, tags⟩ := List.forall_mem_cons.1 tags
      rw [ofJsonList] at said
      obtain ⟨n, one, said⟩ := ok_of_bind said
      obtain ⟨others, later, rfl⟩ := ok_of_map said
      have some := spellsItem.length_pos
      have more := spellsItems.length_pos
      simp only [List.length_append] at enough
      simp only [List.append_assoc]
      have inside : 2 * spelled.length < fuel := by omega
      have outside : 2 * after.length < fuel := by omega
      rw [readRoots_item separator spellsItem]
      have reads := reads_root tag one spellsItem inside room (after ++ rest)
      exact (reads.bind fun _ => (ih tags later spellsItems outside).map _).of_iff Nat.max_le.symm

theorem roots_spelled {nodes : List Node}
    (read : readRoots room fuel first text = .ok (nodes, rest)) :
    ∃ items spelled, text = spelled ++ rest ∧ SpellsItems first items spelled ∧
      (∀ j ∈ items, TagIsText j) ∧ ofJsonList items = .ok nodes := by
  induction fuel generalizing first text nodes with
  | zero => cases read
  | succ fuel ih =>
      rw [readRoots] at read
      obtain ⟨⟨more, _⟩, found, goesOn⟩ := ok_of_bind read
      have found := ok_of_mapError found
      cases more with
      | false =>
          cases goesOn
          obtain ⟨closing, rfl, closes⟩ := nextItem_end found
          exact ⟨[], closing, rfl, closes, nofun, rfl⟩
      | true =>
          obtain ⟨⟨n, _⟩, root, afterRoot⟩ := ok_of_bind goesOn
          obtain ⟨⟨others, _⟩, later, same⟩ := ok_of_bind afterRoot
          cases same
          obtain ⟨before, rfl, separator⟩ := nextItem_more found
          obtain ⟨j, blanks, spelled, rfl, blank, spells, tag, said⟩ := root_spelled root
          obtain ⟨items, after, rfl, spells', tags, said'⟩ := ih later
          refine ⟨j :: items, (before ++ blanks) ++ (spelled ++ after), by simp,
            ⟨_, _, _, rfl, separator.append blank, spells, spells'⟩,
            List.forall_mem_cons.2 ⟨tag, tags⟩, ?_⟩
          rw [ofJsonList, said, said']
          rfl

end
end Node

/-! ## Trees -/

theorem readTree_list {blanks : List Char} (blank : Blank blanks) (text : List Char) :
    readTree (blanks ++ '[' :: text) =
      (Node.readRoots (nestingLimit - 2) (Scan.fuelFor (blanks ++ '[' :: text)) true text >>=
        fun r => scanned (Scan.finish r.2) >>= fun _ => .ok r.1) := by
  rw [readTree, blank.skip_cons rfl]
  rfl

theorem reads_tree {items : List Json} {nodes : List Node} {text : List Char}
    (spelled : Spelled (.array items) text) (tags : ∀ j ∈ items, Node.TagIsText j)
    (said : Node.ofJsonList items = .ok nodes) :
    Reads Failure.AtLimit (nesting (.array items) ≤ nestingLimit) (readTree text) nodes := by
  obtain ⟨before, _, after, rfl, blank, blank', inner, rfl, spells⟩ := spelled
  rw [List.cons_append, readTree_list blank]
  have enough : 2 * inner.length < Scan.fuelFor (before ++ '[' :: (inner ++ after)) := by
    simp only [Scan.fuelFor, List.length_append, List.length_cons]
    omega
  have reads := Node.reads_roots tags said spells enough (nestingLimit - 2) after
  refine (reads.bind_ok ?_).of_iff ?_
  · rw [finish_blank blank']
    rfl
  · rw [nesting, nestingLimit]
    omega

/-- A text is read as a tree if it spells a list of values that are its nodes, each root with its
tag in words, and opens no more than 127 brackets one in another. -/
theorem readTree_iff {text : List Char} {nodes : List Node} :
    readTree text = .ok nodes ↔ ∃ items, Spelled (.array items) text ∧
      nesting (.array items) ≤ nestingLimit ∧ (∀ j ∈ items, Node.TagIsText j) ∧
        Node.ofJsonList items = .ok nodes := by
  constructor
  · intro read
    have whole := read
    obtain ⟨blanks, blank, same⟩ := skipBlanks_split text
    rw [readTree] at read
    split at read
    · next found =>
      obtain ⟨⟨_, after⟩, roots, finished⟩ := ok_of_bind read
      obtain ⟨_, ended, same'⟩ := ok_of_bind finished
      cases same'
      obtain ⟨items, inner, rfl, spells, tags, said⟩ := Node.roots_spelled roots
      rw [found] at same
      have spelled : Spelled (.array items) text :=
        ⟨blanks, '[' :: inner, after, same, blank, blank_of_finish (ok_of_mapError ended), inner,
          rfl, spells⟩
      exact ⟨items, spelled, ((reads_tree spelled tags said).fits_of_ok whole).1, tags, said⟩
    · cases read
  · rintro ⟨items, spelled, low, tags, said⟩
    exact (reads_tree spelled tags said).ok_of_fits low

theorem parseTree_iff {source : String} {nodes : List Node} :
    parseTree source = .ok nodes ↔ ∃ items, Spelled (.array items) source.toList ∧
      nesting (.array items) ≤ nestingLimit ∧ (∀ j ∈ items, Node.TagIsText j) ∧
        Node.ofJsonList items = .ok nodes := by
  rw [← readTree_iff, parseTree]
  cases readTree source.toList with
  | error f => simp [Except.mapError]
  | ok nodes' => simp [Except.mapError]

end StyleTree
