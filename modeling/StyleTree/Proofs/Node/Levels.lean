import StyleTree.Proofs.Json.Wellformed
import StyleTree.Proofs.Node.Respelling

namespace StyleTree

open Json

namespace Json

def ItemsAround (item : List Char) (after : List Json) (first : Bool) : List Json → List Char → Prop
  | [], text => ∃ separator rest, text = separator ++ (item ++ rest) ∧
      Separator first separator ∧ SpellsItems false after rest
  | j :: before, text => ∃ separator spelled rest, text = separator ++ (spelled ++ rest) ∧
      Separator first separator ∧ Spells j spelled ∧ ItemsAround item after false before rest

def MembersAround (name : String) (item : List Char) (after : List (String × Json))
    (first : Bool) : List (String × Json) → List Char → Prop
  | [], text => ∃ separator named colon rest,
      text = separator ++ (named ++ (colon ++ (item ++ rest))) ∧ Separator first separator ∧
      SpellsString name named ∧ Mark ':' colon ∧ SpellsMembers false after rest
  | (name', j) :: before, text => ∃ separator named colon spelled rest,
      text = separator ++ (named ++ (colon ++ (spelled ++ rest))) ∧ Separator first separator ∧
      SpellsString name' named ∧ Mark ':' colon ∧ Spells j spelled ∧
      MembersAround name item after false before rest

def ListText (item text : List Char) : Prop :=
  ∃ inner, text = '[' :: inner ∧ ItemsAround item [] true [] inner

variable {item text : List Char} {j : Json} {p : Prop} {first : Bool}

section
variable {before after : List Json}

theorem ItemsAround.spells (around : ItemsAround item after first before text)
    (spells : Spells j item) : SpellsItems first (before ++ j :: after) text := by
  induction before generalizing first text with
  | nil =>
      obtain ⟨separator, rest, rfl, separates, others⟩ := around
      exact ⟨separator, item, rest, rfl, separates, spells, others⟩
  | cons j' before ih =>
      obtain ⟨separator, spelled, rest, rfl, separates, spells', around⟩ := around
      exact ⟨separator, spelled, rest, rfl, separates, spells', ih around⟩

theorem ItemsAround.take (around : ItemsAround item after first before text)
    (takes : Takes p item) : ItemsTake p first text := by
  induction before generalizing first text with
  | nil =>
      obtain ⟨separator, rest, rfl, separates, others⟩ := around
      exact (ItemsTake.item separates takes others.take).mono And.left
  | cons j' before ih =>
      obtain ⟨separator, spelled, rest, rfl, separates, spells', around⟩ := around
      exact (ItemsTake.item separates spells'.takes (ih around)).mono And.right

end

section
variable {name : String} {before after : List (String × Json)}

theorem MembersAround.spells (around : MembersAround name item after first before text)
    (spells : Spells j item) : SpellsMembers first (before ++ (name, j) :: after) text := by
  induction before generalizing first text with
  | nil =>
      obtain ⟨separator, named, colon, rest, rfl, separates, spellsName, mark, others⟩ := around
      exact ⟨separator, named, colon, item, rest, rfl, separates, spellsName, mark, spells, others⟩
  | cons member before ih =>
      obtain ⟨separator, named, colon, spelled, rest, rfl, separates, spellsName, mark, spells',
        around⟩ := around
      exact ⟨separator, named, colon, spelled, rest, rfl, separates, spellsName, mark, spells',
        ih around⟩

theorem MembersAround.take (around : MembersAround name item after first before text)
    (takes : Takes p item) : MembersTake p first text := by
  induction before generalizing first text with
  | nil =>
      obtain ⟨separator, named, colon, rest, rfl, separates, spellsName, mark, others⟩ := around
      exact (MembersTake.member separates spellsName mark takes others.take).mono And.left
  | cons member before ih =>
      obtain ⟨separator, named, colon, spelled, rest, rfl, separates, spellsName, mark, spells',
        around⟩ := around
      exact (MembersTake.member separates spellsName mark spells'.takes (ih around)).mono And.right

end

theorem ListText.spells (list : ListText item text) (spells : Spells j item) :
    Spells (.array [j]) text := by
  obtain ⟨inner, rfl, around⟩ := list
  exact ⟨inner, rfl, around.spells spells⟩

theorem ListText.takes (list : ListText item text) (takes : Takes p item) : Takes p text := by
  obtain ⟨inner, rfl, around⟩ := list
  exact .array (around.take takes)

theorem nesting_le_items (before after : List Json) (j : Json) :
    nesting j ≤ nestings (before ++ j :: after) := by
  induction before with
  | nil => exact Nat.le_max_left ..
  | cons j' before ih => exact Nat.le_trans ih (Nat.le_max_right ..)

theorem nesting_le_members (before after : List (String × Json)) (name : String) (j : Json) :
    nesting j ≤ memberNestings (before ++ (name, j) :: after) := by
  induction before with
  | nil => exact Nat.le_max_left ..
  | cons member before ih => exact Nat.le_trans ih (Nat.le_max_right ..)

end Json

namespace Node

variable {k : Kind} {head : Head} {heads : List Head} {n m : Node} {j : Json} {p : Prop}
  {item text : List Char}

theorem kind_finish {d : Draft} {missing : String → Refusal}
    (finished : d.finish k missing = .ok n) : n.kind = k := by
  unfold Draft.finish at finished
  split at finished
  · cases finished
  · cases finished
    cases k <;> rfl

theorem holds_of_block {members : List (String × Json)} {children : List Node}
    (read : ofMembers k members = .ok (.block head children)) : ("nodes", .nodes) ∈ k.fields := by
  obtain ⟨d, -, finished⟩ := ok_of_bind read
  have kind : head.kind = k := kind_finish finished
  subst kind
  cases head <;> simp [Head.kind, Kind.fields]

theorem finish_children {d : Draft} {missing : String → Refusal} (none : d.nodes = some [])
    (finished : d.finish k missing = .ok (.block head [])) (children : List Node) :
    { d with nodes := some children }.finish k missing = .ok (.block head children) := by
  have kind : head.kind = k := kind_finish finished
  obtain ⟨text, value, important, params, overlay, _, span⟩ := d
  cases none
  subst kind
  cases head <;> cases text <;> cases finished <;> rfl

theorem ofMembers_children_iff {before after : List (String × Json)}
    (fields : ofMembers k (before ++ ("nodes", .array []) :: after) = .ok (.block head []))
    (items : List Json) :
    ofMembers k (before ++ ("nodes", .array items) :: after) = .ok m ↔
      ∃ children, ofJsonList items = .ok children ∧ m = .block head children := by
  have holds := holds_of_block fields
  obtain ⟨d, members, finished⟩ := ok_of_bind fields
  have none : d.nodes = some [] := by
    obtain ⟨-, -, e, told, agree⟩ := only_of_readMembers holds members
    cases told
    exact agree
  have filled {children : List Node} (said : ofJsonList items = .ok children) :
      ofMembers k (before ++ ("nodes", .array items) :: after) = .ok (.block head children) := by
    have told : readField {} .nodes (.array items) = .ok { nodes := some children } := by
      rw [readField, said]
      rfl
    rw [ofMembers, readMembers_exchange holds told members]
    exact finish_children none finished children
  constructor
  · intro read
    obtain ⟨_, members', -⟩ := ok_of_bind read
    obtain ⟨-, -, e, told, -⟩ := only_of_readMembers holds members'
    rw [readField] at told
    obtain ⟨children, said, -⟩ := ok_of_map told
    exact ⟨children, said, Except.ok.inj (read.symm.trans (filled said))⟩
  · rintro ⟨children, said, rfl⟩
    exact filled said

theorem ofJsonList_one_iff {children : List Node} :
    ofJsonList [j] = .ok children ↔ ∃ n, ofJson j = .ok n ∧ children = [n] := by
  rw [ofJsonList]
  cases ofJson j with
  | error e => simp [Except.bind]
  | ok n => simp [Except.bind, ofJsonList, Except.map, eq_comm]

def Worded (j : Json) : Prop := ∀ tag, tags j = [tag] → ∃ s, tag = .string s

theorem Worded.tagIsText (worded : Worded j) (read : ofJson j = .ok n) : TagIsText j := by
  cases j with
  | object members =>
      obtain ⟨k, told, -⟩ := ofJson_object_iff.1 read
      obtain ⟨tag, only, -⟩ := kindOf_iff.1 told
      intro tag' member
      rw [tags, only, List.mem_singleton] at member
      rw [member]
      exact worded tag only
  | array items =>
      cases items with
      | nil => cases read
      | cons tag items =>
          intro tag' member
          rw [tags, List.mem_singleton] at member
          rw [member]
          exact worded tag rfl
  | _ => cases read

theorem TagIsText.worded (words : TagIsText j) : Worded j :=
  fun tag only => words tag (only ▸ List.mem_singleton_self tag)

/-- The text of a block around the text of a node: an object or a list whose only child is the node,
where the other members or items are those of the block. -/
inductive Container (head : Head) (item : List Char) : List Char → Prop
  | object {before after : List (String × Json)} {list inner : List Char}
      (words : TagIsText (.object (before ++ after)))
      (fields : ofJson (.object (before ++ ("nodes", .array []) :: after)) = .ok (.block head []))
      (only : ListText item list) (members : MembersAround "nodes" list after true before inner) :
      Container head item ('{' :: inner)
  | array {k : Kind} {before after : List Json} {list inner : List Char}
      (place : k.fields[before.length]? = some ("nodes", .nodes))
      (fields : ofJson (.array (.string k.tag :: (before ++ .array [] :: after))) =
        .ok (.block head []))
      (only : ListText item list)
      (items : ItemsAround list after true (.string k.tag :: before) inner) :
      Container head item ('[' :: inner)

theorem Container.takes (container : Container head item text) (takes : Takes p item) :
    Takes p text := by
  cases container with
  | object words fields only members => exact .object (members.take (only.takes takes))
  | array place fields only items => exact .array (items.take (only.takes takes))

theorem ofJson_object_children {before after : List (String × Json)}
    (fields : ofJson (.object (before ++ ("nodes", .array []) :: after)) = .ok (.block head []))
    (items : List Json) :
    ofJson (.object (before ++ ("nodes", .array items) :: after)) = .ok m ↔
      ∃ children, ofJsonList items = .ok children ∧ m = .block head children := by
  obtain ⟨k, told, fields⟩ := ofJson_object_iff.1 fields
  have told' : kindOf none (before ++ ("nodes", .array items) :: after) = .ok k := by
    refine kindOf_congr (.of_eq ?_) told
    rw [kinds_insert (by decide), kinds_insert (by decide)]
  rw [← ofMembers_children_iff fields, ofJson_object_iff]
  constructor
  · rintro ⟨k', told'', read⟩
    cases told'.symm.trans told''
    exact read
  · exact fun read => ⟨k, told', read⟩

theorem ofJson_array_children {before after : List Json}
    (place : k.fields[before.length]? = some ("nodes", .nodes))
    (fields : ofJson (.array (.string k.tag :: (before ++ .array [] :: after))) =
      .ok (.block head []))
    (items : List Json) :
    ofJson (.array (.string k.tag :: (before ++ .array items :: after))) = .ok m ↔
      ∃ children, ofJsonList items = .ok children ∧ m = .block head children := by
  obtain ⟨k', told, short, fields⟩ := ofJson_array_iff.1 fields
  cases k.ofJson_tag.symm.trans told
  rw [underNames_place place] at fields
  rw [← ofMembers_children_iff fields, ofJson_array_iff, ← underNames_place place]
  constructor
  · rintro ⟨k', told', -, read⟩
    cases told.symm.trans told'
    exact read
  · intro read
    exact ⟨k, told, by simpa using short, read⟩

theorem Container.reads (container : Container head item text) (spells : Spells j item) :
    ∃ j', Spells j' text ∧ TagIsText j' ∧ nesting j ≤ nesting j' ∧
      ∀ m, ofJson j' = .ok m ↔ ∃ n, ofJson j = .ok n ∧ m = .block head [n] := by
  have only (m : Node) : (∃ children, ofJsonList [j] = .ok children ∧ m = .block head children) ↔
      ∃ n, ofJson j = .ok n ∧ m = .block head [n] := by
    simp only [ofJsonList_one_iff]
    constructor
    · rintro ⟨_, ⟨n, said, rfl⟩, rfl⟩
      exact ⟨n, said, rfl⟩
    · rintro ⟨n, said, rfl⟩
      exact ⟨[n], ⟨n, said, rfl⟩, rfl⟩
  have inside : nesting j ≤ nesting (.array [j]) := by simp [nesting, nestings]
  cases container with
  | @object before after list inner words fields list members =>
      refine ⟨.object (before ++ ("nodes", .array [j]) :: after),
        ⟨inner, rfl, members.spells (list.spells spells)⟩, ?_, ?_, fun m => ?_⟩
      · rw [TagIsText, tags, kinds_insert (by decide)]
        exact words
      · have deep := nesting_le_members before after "nodes" (.array [j])
        rw [nesting.eq_2]
        omega
      · rw [ofJson_object_children fields, only]
  | @array k before after list inner place fields list items =>
      refine ⟨.array (.string k.tag :: (before ++ .array [j] :: after)),
        ⟨inner, rfl, items.spells (list.spells spells)⟩, ?_, ?_, fun m => ?_⟩
      · simp [TagIsText, tags]
      · have deep := nesting_le_items (.string k.tag :: before) after (.array [j])
        rw [nesting.eq_1, ← List.cons_append]
        omega
      · rw [ofJson_array_children place fields, only]

inductive Nested (item : List Char) : List Head → List Char → Prop
  | here : Nested item [] item
  | within {head : Head} {heads : List Head} {inner text : List Char}
      (nested : Nested item heads inner) (container : Container head inner text) :
      Nested item (head :: heads) text

def nest (heads : List Head) (n : Node) : Node := heads.foldr (fun head n => .block head [n]) n

theorem nest_inj {n n' : Node} (same : nest heads n = nest heads n') : n = n' := by
  induction heads with
  | nil => exact same
  | cons head heads ih => exact ih (by simpa [nest] using same)

theorem Nested.takes (nested : Nested item heads text) (takes : Takes p item) : Takes p text := by
  induction nested with
  | here => exact takes
  | within _ container ih => exact container.takes ih

theorem Nested.reads (nested : Nested item heads text) (spells : Spells j item)
    (worded : Worded j) :
    ∃ j', Spells j' text ∧ Worded j' ∧ nesting j ≤ nesting j' ∧
      ∀ m, ofJson j' = .ok m ↔ ∃ n, ofJson j = .ok n ∧ m = nest heads n := by
  induction nested with
  | here => exact ⟨j, spells, worded, Nat.le_refl _, fun m => by simp [nest]⟩
  | @within head heads inner text _ container ih =>
      obtain ⟨j', spells', -, deep, same⟩ := ih
      obtain ⟨j'', spells'', words, deeper, around⟩ := container.reads spells'
      refine ⟨j'', spells'', words.worded, Nat.le_trans deep deeper, fun m => ?_⟩
      rw [around]
      simp only [same]
      constructor
      · rintro ⟨_, ⟨n, said, rfl⟩, rfl⟩
        exact ⟨n, said, rfl⟩
      · rintro ⟨n, said, rfl⟩
        exact ⟨nest heads n, ⟨n, said, rfl⟩, rfl⟩

end Node

def OneRoot (item : List Char) (source : String) : Prop :=
  ∃ before list after, source.toList = before ++ (list ++ after) ∧ Blank before ∧ Blank after ∧
    ListText item list

variable {item whole : List Char} {heads : List Head} {source : String} {nodes : List Node}

theorem OneRoot.spelled {j : Json} (root : OneRoot item source) (spells : Spells j item) :
    Spelled (.array [j]) source.toList := by
  obtain ⟨before, list, after, same, blank, blank', text⟩ := root
  exact ⟨before, list, after, same, blank, blank', text.spells spells⟩

theorem OneRoot.shows {j : Json} {p : Prop} (root : OneRoot item source) (takes : Takes p item)
    (spelled : Spelled j source.toList) : p := by
  obtain ⟨before, list, after, same, blank, blank', text⟩ := root
  obtain ⟨_, -, reads⟩ := spelled.reads (nesting j)
  have read := reads.ok_of_fits (Nat.le_refl _)
  rw [same, Scan.fuelFor, blank.value] at read
  have enough : 2 * list.length < 2 * (before ++ (list ++ after)).length + 1 + 1 := by
    simp only [List.length_append]
    omega
  exact ((text.takes takes).takes blank'.ends enough read).2

theorem parseTree_nested_iff (value : ValueText item)
    (worded : ∀ j, Spells j item → Node.Worded j) (nested : Node.Nested item heads whole)
    (root : OneRoot whole source)
    (shallow : ∀ j, Spelled j source.toList → nesting j ≤ nestingLimit) :
    parseTree source = .ok nodes ↔
      ∃ j n, Spells j item ∧ Node.ofJson j = .ok n ∧ nodes = [Node.nest heads n] := by
  constructor
  · intro loaded
    obtain ⟨items, spelled, -, -, read⟩ := parseTree_iff.1 loaded
    obtain ⟨j, spells⟩ := root.shows (nested.takes value.takes) spelled
    obtain ⟨j', spells', -, -, same⟩ := nested.reads spells (worded j spells)
    cases spelled.unique (root.spelled spells')
    obtain ⟨m, one, rfl⟩ := Node.ofJsonList_one_iff.1 read
    obtain ⟨n, said, rfl⟩ := (same m).1 one
    exact ⟨j, n, spells, said, rfl⟩
  · rintro ⟨j, n, spells, said, rfl⟩
    obtain ⟨j', spells', worded', -, same⟩ := nested.reads spells (worded j spells)
    have said' : Node.ofJson j' = .ok (Node.nest heads n) := (same _).2 ⟨n, said, rfl⟩
    have spelled := root.spelled spells'
    refine parseTree_iff.2 ⟨[j'], spelled, shallow _ spelled, ?_, ?_⟩
    · simpa using worded'.tagIsText said'
    · exact Node.ofJsonList_one_iff.2 ⟨_, said', rfl⟩

/-- A well-formed text whose own tag, if there is just one, is given in words is loaded as the same
node at every level: as the only root, and as the only child of the last of any blocks that stand
one in another and open no more than 127 brackets. Where it is refused at one level, it is at all of
them. -/
theorem parseTree_nested {alone inside : String} (value : ValueText item)
    (worded : ∀ j, Spells j item → Node.Worded j) (nested : Node.Nested item heads whole)
    (root : OneRoot item alone) (root' : OneRoot whole inside)
    (shallow : ∀ j, Spelled j inside.toList → nesting j ≤ 127) :
    (∀ n, parseTree alone = .ok [n] ↔ parseTree inside = .ok [Node.nest heads n]) ∧
      ((∃ e, parseTree alone = .error e) ↔ ∃ e, parseTree inside = .error e) := by
  have shallow' (j : Json) (spelled : Spelled j alone.toList) : nesting j ≤ nestingLimit := by
    obtain ⟨j₁, spells⟩ := root.shows value.takes spelled
    cases spelled.unique (root.spelled spells)
    obtain ⟨j₂, spells', -, deep, -⟩ := nested.reads spells (worded j₁ spells)
    have low := shallow _ (root'.spelled spells')
    simp only [nesting, nestings, nestingLimit] at low ⊢
    omega
  have first {nodes : List Node} : parseTree alone = .ok nodes ↔
      ∃ j n, Spells j item ∧ Node.ofJson j = .ok n ∧ nodes = [n] :=
    parseTree_nested_iff value worded .here root shallow'
  have second {nodes : List Node} : parseTree inside = .ok nodes ↔
      ∃ j n, Spells j item ∧ Node.ofJson j = .ok n ∧ nodes = [Node.nest heads n] :=
    parseTree_nested_iff value worded nested root' shallow
  constructor
  · intro n
    rw [first, second]
    constructor
    · rintro ⟨j, _, spells, said, ⟨⟩⟩
      exact ⟨j, n, spells, said, rfl⟩
    · rintro ⟨j, n', spells, said, one⟩
      cases Node.nest_inj (List.cons.inj one).1
      exact ⟨j, n, spells, said, rfl⟩
  · have loads : (∃ nodes, parseTree alone = .ok nodes) ↔
        ∃ nodes, parseTree inside = .ok nodes := by
      simp only [first, second]
      constructor
      all_goals
        rintro ⟨_, j, n, spells, said, -⟩
        exact ⟨_, j, n, spells, said, rfl⟩
    rw [exists_error_iff, exists_error_iff, loads]

theorem parseTree_nested_in_rule :
    let list (item : List Char) := '[' :: (item ++ [']'])
    let rule (item : List Char) := '{' :: (quote "kind" ++ ([':'] ++ (quote "rule" ++ ([',', ' '] ++
      (quote "selector" ++ ([':'] ++ (quote "a" ++ ([',', ' '] ++ (quote "nodes" ++ ([':'] ++
        (list item ++ ['}'])))))))))))
    let overlay := '{' :: (quote "k" ++ ([':'] ++ (quote "t" ++ ['}'])))
    let whole (item : List Char) := '[' :: (quote "context" ++ ([',', ' '] ++ (overlay ++
      ([',', ' '] ++ (list (rule item) ++ [']'])))))
    let alone (item : List Char) := String.ofList (list item)
    let inside (item : List Char) := String.ofList (list (whole item))
    let child := '[' :: (quote "comment" ++ ([',', ' '] ++ (quote "x" ++ [']'])))
    let good := '{' :: (quote "nodes" ++ ([':'] ++ (list child ++ ([',', ' '] ++ (quote "kind" ++
      ([':'] ++ (quote "at-root" ++ ['}'])))))))
    let bad := '{' :: (quote "kind" ++ ([':'] ++ (quote "comment" ++ ['}'])))
    parseTree (alone good) = .ok [.atRoot [.comment "x"]] ∧
      parseTree (inside good) = .ok [.context (Overlay.empty.insert "k" (.text "t"))
        [.rule "a" [.atRoot [.comment "x"]]]] ∧
      (∃ e, parseTree (alone bad) = .error e) ∧ ∃ e, parseTree (inside bad) = .error e := by
  intro list rule overlay whole alone inside child good bad
  have start : Separator true [] := Blank.nil
  have blank : Blank [' '] := by simp [Blank, Scan.isBlank]
  have comma : Separator false [',', ' '] := ⟨[], [' '], .nil, blank, rfl⟩
  have colon : Mark ':' [':'] := ⟨[], [], .nil, .nil, rfl⟩
  have bracket : Closing ']' [']'] := ⟨[], .nil, rfl⟩
  have brace : Closing '}' ['}'] := ⟨[], .nil, rfl⟩
  have only (item : List Char) : ListText item (list item) := ⟨_, rfl, [], _, rfl, start, bracket⟩
  have root (item : List Char) : OneRoot item (.ofList (list item)) :=
    ⟨[], _, [], by simp, .nil, .nil, only item⟩
  have members (item : List Char) : MembersAround "nodes" (list item) [] true
      [("kind", .string "rule"), ("selector", .string "a")] (rule item).tail :=
    ⟨[], _, _, _, _, rfl, start, spells_quote "kind", colon, spells_quote "rule",
      _, _, _, _, _, rfl, comma, spells_quote "selector", colon, spells_quote "a",
      _, _, _, _, rfl, comma, spells_quote "nodes", colon, brace⟩
  have settings : Spells (.object [("k", .string "t")]) overlay :=
    ⟨_, rfl, [], _, _, _, _, rfl, start, spells_quote "k", colon, spells_quote "t", brace⟩
  have items (item : List Char) : ItemsAround (list item) [] true
      [.string "context", .object [("k", .string "t")]]
      (quote "context" ++ ([',', ' '] ++ (overlay ++ ([',', ' '] ++ (list item ++ [']']))))) :=
    ⟨[], _, _, rfl, start, spells_quote "context", _, _, _, rfl, comma, settings,
      _, _, rfl, comma, bracket⟩
  have inRule (item : List Char) : Node.Container (.rule "a" none) item (rule item) :=
    .object (by simp [Node.TagIsText, Node.tags, valuesOf]) rfl (only item) (members item)
  have place : Kind.context.fields[[Json.object [("k", .string "t")]].length]? =
      some ("nodes", .nodes) := rfl
  have inContext (item : List Char) :
      Node.Container (.context (Overlay.empty.insert "k" (.text "t"))) (rule item) (whole item) :=
    .array place rfl (only (rule item)) (items (rule item))
  have same {item : List Char} {j : Json} (value : ValueText item) (read : parse item = .ok j)
      (words : Node.TagIsText j) (read' : ∃ j', parse (list (whole item)) = .ok j') :=
    parseTree_nested value
      (fun j' spells => by
        cases (parse_iff.1 read).1.unique spells.spelled
        exact words.worded)
      (.within (.within .here (inRule item)) (inContext item)) (root item) (root (whole item))
      (fun j' spelled => by
        rw [String.toList_ofList] at spelled
        obtain ⟨j₁, read'⟩ := read'
        obtain ⟨spelled', low⟩ := parse_iff.1 read'
        cases spelled'.unique spelled
        exact low)
  have goodText : ValueText good :=
    .object (.member start (charsText_quote "nodes") colon
      (.array (.item start (.array (.item start (.string (charsText_quote "comment"))
        (.item comma (.string (charsText_quote "x")) (.closing bracket)))) (.closing bracket)))
      (.member comma (charsText_quote "kind") colon (.string (charsText_quote "at-root"))
        (.closing brace)))
  have badText : ValueText bad :=
    .object (.member start (charsText_quote "kind") colon (.string (charsText_quote "comment"))
      (.closing brace))
  have goodRead : parse good = .ok (.object [("nodes", .array [.array
      [.string "comment", .string "x"]]), ("kind", .string "at-root")]) := by cbv
  have badRead : parse bad = .ok (.object [("kind", .string "comment")]) := by cbv
  have loaded : parseTree (alone good) = .ok [.atRoot [.comment "x"]] := by cbv
  have refused : ∃ e, parseTree (alone bad) = .error e := ⟨_, by cbv⟩
  have goodSame := same goodText goodRead (by simp [Node.TagIsText, Node.tags, valuesOf])
    ⟨_, by cbv⟩
  have badSame := same badText badRead (by simp [Node.TagIsText, Node.tags, valuesOf])
    ⟨_, by cbv⟩
  exact ⟨loaded, (goodSame.1 _).1 loaded, refused, badSame.2.1 refused⟩

end StyleTree
